import XmrigCC.CommandServer

/-!
# Stored client configurations

A configuration is stored under a file name formed from the client's id, and a
client without one is served "default_config.json". Without a configuration
folder both names lie in the working directory, where the id "default" forms
the name of the shared file.
-/

namespace XmrigCC.ClientConfigFiles

open ByteText CommandServer

/-- A file system in which a name denotes one file. -/
structure Files where
  /-- Contents of the files that can be read. -/
  contents : Bytes → Option Bytes
  /-- Names that can be opened for writing. -/
  writable : Bytes → Bool

/-- The file system after a file has been replaced. -/
def Files.put (files : Files) (name data : Bytes) : Files :=
  {files with contents := Function.update files.contents name (some data)}

@[simp] theorem Files.put_contents (files : Files) (name data : Bytes) :
    (files.put name data).contents=Function.update files.contents name (some data) := rfl

/-- The JSON library: documents, `Parse` of a C string, and the two writers. -/
structure RapidJson where
  /-- Parsed documents. -/
  Document : Type
  /-- `Parse`, `none` for a parse error. -/
  parse : Bytes → Option Document
  /-- Text of `Writer`. -/
  write : Document → Bytes
  /-- Text of `PrettyWriter`. -/
  prettyWrite : Document → Bytes

/-- The separator put behind the folder, on Windows and elsewhere. -/
def separator (win32 : Bool) : Bytes := if win32 then text "\\" else text "/"

/-- `Service::getClientConfigFileName`. -/
def getClientConfigFileName (win32 : Bool) (options : Options) (clientId : Bytes) : Bytes :=
  let folder := match options.ccClientConfigFolder with
    | some folder => folder++separator win32
    | none => []
  folder++(clientId++text "_config.json")

/-- The file served to clients without one of their own. -/
def defaultConfig : Bytes := text "default_config.json"

/-- Text loaded for a client: its file, else the default file, else nothing. -/
def loadConfig (files : Files) (name : Bytes) : Bytes :=
  match files.contents name with
  | some data => data
  | none => (files.contents defaultConfig).getD []

/-- `Service::getClientConfig`. -/
def getClientConfig (lib : RapidJson) (win32 : Bool) (options : Options) (clientId : Bytes)
    (files : Files) : Answer Files :=
  let data := loadConfig files (getClientConfigFileName win32 options clientId)
  if data ≠ [] then
    match lib.parse (cStr data) with
    | some document => ⟨httpOk,cStr (lib.write document),files⟩
    | none => ⟨500,[],files⟩
  else ⟨500,[],files⟩

/-- `Service::setClientConfig`. -/
def setClientConfig (lib : RapidJson) (win32 : Bool) (options : Options) (clientId data : Bytes)
    (files : Files) : Answer Files :=
  match lib.parse (cStr data) with
  | some document =>
    let name := getClientConfigFileName win32 options clientId
    if files.writable name then
      ⟨httpOk,[],files.put name (cStr (lib.prettyWrite document))⟩
    else ⟨400,[],files⟩
  | none => ⟨400,[],files⟩

/-- What a request is answered with, apart from the state left behind. -/
def Answer.sent {σ : Type} (a : Answer σ) : ℕ×Bytes := (a.status,a.resp)

/-- No successful store for one client changes what another is served. -/
def OthersUnchanged (lib : RapidJson) (win32 : Bool) (options : Options) (a b : Bytes)
    (files : Files) : Prop :=
  ∀ body, (setClientConfig lib win32 options a body files).status=httpOk →
    Answer.sent (getClientConfig lib win32 options b
      (setClientConfig lib win32 options a body files).state)=
    Answer.sent (getClientConfig lib win32 options b files)

/-- A body that can be stored, and the text a client is served once it is. -/
def RapidJson.Serves (lib : RapidJson) (body served : Bytes) : Prop :=
  ∃ stored document, lib.parse (cStr body)=some stored ∧
    cStr (lib.prettyWrite stored) ≠ [] ∧
    lib.parse (cStr (cStr (lib.prettyWrite stored)))=some document ∧
    cStr (lib.write document)=served

section Names

variable (win32 : Bool) (options : Options)

/-- Distinct clients have files of different names. -/
theorem fileName_injective : Function.Injective (getClientConfigFileName win32 options) := by
  intro a b h
  exact List.append_cancel_right (List.append_cancel_left h)

/-- A client's file is the shared one only for the id "default" without a folder. -/
theorem fileName_eq_default_iff (clientId : Bytes) :
    getClientConfigFileName win32 options clientId=defaultConfig ↔
      options.ccClientConfigFolder=none ∧ clientId=text "default" := by
  rw [getClientConfigFileName]
  cases hfolder : options.ccClientConfigFolder with
  | none =>
    dsimp only
    rw [List.nil_append,show defaultConfig=text "default"++text "_config.json" by decide]
    exact ⟨fun h => ⟨rfl,List.append_cancel_right h⟩,fun h => by rw [h.2]⟩
  | some folder =>
    refine iff_of_false ?_ (fun h => nomatch h.1)
    intro h
    obtain ⟨sep,hsep,hnot⟩ : ∃ sep, separator win32=[sep] ∧ sep∉defaultConfig := by
      cases win32
      · exact ⟨47,by decide,by decide⟩
      · exact ⟨92,by decide,by decide⟩
    apply hnot
    rw [←h,hsep]
    simp only [List.mem_append,List.mem_singleton,true_or,or_true]

end Names

section Store

variable (lib : RapidJson) (win32 : Bool) (options : Options)

/-- What a client is served depends on the text loaded for it. -/
theorem sent_congr {clientId : Bytes} {files files' : Files}
    (h : loadConfig files (getClientConfigFileName win32 options clientId)=
      loadConfig files' (getClientConfigFileName win32 options clientId)) :
    Answer.sent (getClientConfig lib win32 options clientId files)=
      Answer.sent (getClientConfig lib win32 options clientId files') := by
  rw [getClientConfig,getClientConfig,h]
  split
  · split <;> rfl
  · rfl

/-- A store either fails or replaces the client's own file. -/
theorem setClientConfig_cases (clientId body : Bytes) (files : Files) :
    ((setClientConfig lib win32 options clientId body files).status=400 ∧
      (setClientConfig lib win32 options clientId body files).state=files) ∨
    ∃ document, lib.parse (cStr body)=some document ∧
      files.writable (getClientConfigFileName win32 options clientId)=true ∧
      (setClientConfig lib win32 options clientId body files).state=
        files.put (getClientConfigFileName win32 options clientId)
          (cStr (lib.prettyWrite document)) := by
  rw [setClientConfig]
  cases hparse : lib.parse (cStr body) with
  | none => exact Or.inl ⟨rfl,rfl⟩
  | some document =>
    dsimp only
    split
    · rename_i hw
      exact Or.inr ⟨document,rfl,hw,rfl⟩
    · exact Or.inl ⟨rfl,rfl⟩

/-- Replacing another client's file matters only when it is the shared file and there is
no file of the client's own. -/
theorem loadConfig_put {files : Files} {name name' data : Bytes} (hne : name' ≠ name)
    (h : name ≠ defaultConfig ∨ files.contents name' ≠ none) :
    loadConfig (files.put name data) name'=loadConfig files name' := by
  rw [loadConfig,loadConfig,Files.put_contents,Function.update_of_ne hne]
  cases hown : files.contents name' with
  | some own => rfl
  | none =>
    have hshared : name ≠ defaultConfig := h.resolve_right (not_not.mpr hown)
    rw [Function.update_of_ne hshared.symm]

/-- After the shared file was replaced, a client without a file is served its text. -/
theorem sent_of_default {files : Files} {clientId body served : Bytes}
    (hbody : lib.Serves body served) (hwrite : files.writable defaultConfig=true)
    (hname : getClientConfigFileName win32 options clientId=defaultConfig) {other : Bytes}
    (hother : other ≠ clientId)
    (hown : files.contents (getClientConfigFileName win32 options other)=none) :
    (setClientConfig lib win32 options clientId body files).status=httpOk ∧
    Answer.sent (getClientConfig lib win32 options other
      (setClientConfig lib win32 options clientId body files).state)=(httpOk,served) := by
  obtain ⟨stored,document,hparse,hne,hagain,hserved⟩ := hbody
  have hset : setClientConfig lib win32 options clientId body files=
      ⟨httpOk,[],files.put defaultConfig (cStr (lib.prettyWrite stored))⟩ := by
    rw [setClientConfig,hparse]
    dsimp only
    rw [hname,if_pos hwrite]
  have hotherName : getClientConfigFileName win32 options other ≠ defaultConfig := by
    rw [←hname]
    exact fun h => hother (fileName_injective win32 options h)
  have hload : loadConfig (files.put defaultConfig (cStr (lib.prettyWrite stored)))
      (getClientConfigFileName win32 options other)=cStr (lib.prettyWrite stored) := by
    rw [loadConfig,Files.put_contents,Function.update_of_ne hotherName,hown]
    dsimp only
    rw [Function.update_self,Option.getD_some]
  rw [hset]
  refine ⟨rfl,?_⟩
  rw [getClientConfig,hload]
  dsimp only
  rw [if_pos hne,hagain,Answer.sent]
  dsimp only
  rw [hserved]

/-- One client's store leaves another's configuration alone exactly when there is a folder,
or the id is not "default", or the other has a file, or the shared file cannot be written.
The JSON library is asked only to serve two bodies differently. -/
theorem config_independent_iff {a b : Bytes} (hab : a ≠ b) (files : Files)
    {x y u v : Bytes} (hx : lib.Serves x u) (hy : lib.Serves y v) (huv : u ≠ v) :
    OthersUnchanged lib win32 options a b files ↔
      options.ccClientConfigFolder ≠ none ∨ a ≠ text "default" ∨
      files.contents (getClientConfigFileName win32 options b) ≠ none ∨
      files.writable defaultConfig=false := by
  constructor
  · intro h
    by_contra hnot
    simp only [not_or,not_not,Bool.not_eq_false] at hnot
    obtain ⟨hfolder,ha,hown,hwrite⟩ := hnot
    have hname := (fileName_eq_default_iff win32 options a).mpr ⟨hfolder,ha⟩
    obtain ⟨hxok,hxsent⟩ := sent_of_default lib win32 options hx hwrite hname hab.symm hown
    obtain ⟨hyok,hysent⟩ := sent_of_default lib win32 options hy hwrite hname hab.symm hown
    have heq : (httpOk,u)=(httpOk,v) := by
      rw [←hxsent,←hysent,h x hxok,h y hyok]
    exact huv (Prod.mk.inj heq).2
  · intro h body hok
    apply sent_congr
    rcases setClientConfig_cases lib win32 options a body files with ⟨-,hs⟩|⟨document,-,hw,hs⟩
    · rw [hs]
    · rw [hs]
      apply loadConfig_put (fun hn => hab (fileName_injective win32 options hn).symm)
      by_cases hname : getClientConfigFileName win32 options a=defaultConfig
      · obtain ⟨hfolder,ha⟩ := (fileName_eq_default_iff win32 options a).mp hname
        rw [hname] at hw
        rcases h with h|h|h|h
        · exact absurd hfolder h
        · exact absurd ha h
        · exact Or.inr h
        · rw [h] at hw
          cases hw
      · exact Or.inl hname

end Store

/-- A library that knows the empty object and the empty array. -/
def emptyDocuments : RapidJson where
  Document := Bool
  parse body := if body=text "\x7b\x7d" then some true
    else if body=text "[]" then some false else none
  write document := if document then text "\x7b\x7d" else text "[]"
  prettyWrite document := if document then text "\x7b\x7d" else text "[]"

/-- A server without a configuration folder. -/
def noFolder : Options := ⟨none,none,none,none,none⟩

/-- A working directory without files. -/
def emptyDirectory : Files := ⟨fun _ => none,fun _ => true⟩

/-- Storing for the client "default" gives the client "rig" a configuration. -/
theorem default_client_changes_rig :
    ¬OthersUnchanged emptyDocuments false noFolder (text "default") (text "rig")
      emptyDirectory := by
  intro h
  have hsent := h (text "[]") (by decide)
  exact absurd hsent (by decide)

/-- With a folder the same two clients are independent. -/
theorem config_independent_with_folder :
    text "default" ≠ text "rig" ∧
    OthersUnchanged emptyDocuments false {noFolder with ccClientConfigFolder := some (text "conf")}
      (text "default") (text "rig") emptyDirectory := by
  have hab : text "default" ≠ text "rig" := by decide
  exact ⟨hab,(config_independent_iff emptyDocuments false
    {noFolder with ccClientConfigFolder := some (text "conf")} hab emptyDirectory
    (x:=text "\x7b\x7d") (y:=text "[]") ⟨true,true,rfl,by decide,rfl,rfl⟩
    ⟨false,false,rfl,by decide,rfl,rfl⟩ (by decide)).mpr
    (Or.inl (fun h => nomatch h))⟩

end XmrigCC.ClientConfigFiles
