import XmrigCC.ClientConfigFiles

/-!
# Where configurations of clients are kept

The id in a query becomes part of a path as it is. A GET has to carry one, a POST need
not, and no handler looks at its characters. An id without separators names an entry of
the configuration folder, and no other id does.
-/

namespace XmrigCC.ClientConfigPaths

open ByteText CommandServer ClientConfigFiles PathNames

/-- Characters between the parts of a path. Windows takes both slashes. -/
def isSeparator (win32 : Bool) (c : UInt8) : Bool := decide (c=47) || (win32 && decide (c=92))

/-- The configuration folder with the separator behind it, nothing without a folder. -/
def folderPath (win32 : Bool) (options : Options) : Bytes :=
  match options.ccClientConfigFolder with
  | some folder => folder++separator win32
  | none => []

/-- The branch taken for a GET or a POST with an id. -/
def routeOf (post : Bool) (url clientId : Bytes) : Option Route :=
  if post then routePOST url else routeGET url clientId

/-- Branches that end in `getClientConfig` or `setClientConfig`. -/
def opensConfig : Route → Bool
  | .clientGetConfig | .adminGetClientConfig => true
  | .clientSetClientConfig | .adminSetClientConfig => true
  | _ => false

/-- A request for a configuration that `Service` acts on. -/
structure ConfigRequest where
  /-- POST, else GET. -/
  post : Bool
  /-- Path of the URL. -/
  url : Bytes
  /-- The clientId argument. -/
  clientId : Bytes
  /-- Its branch. -/
  route : Route
  /-- The handlers take this branch. -/
  taken : routeOf post url clientId=some route
  /-- It is one of the four. -/
  opens : opensConfig route=true

/-- The file opened for it. -/
def ConfigRequest.file (win32 : Bool) (options : Options) (r : ConfigRequest) : Bytes :=
  getClientConfigFileName win32 options r.clientId

/-- A path goes on behind the folder without another separator. -/
def DirectlyInside (win32 : Bool) (options : Options) (path : Bytes) : Prop :=
  ∃ file, path=folderPath win32 options++file ∧ ∀ c∈file, isSeparator win32 c=false

/-- Files opened for two requests: they lie directly inside the folder, and those of
different clients are different files. -/
structure KeptApart (win32 : Bool) (options : Options) (a b : ConfigRequest) : Prop where
  /-- The first is in the folder. -/
  inside : DirectlyInside win32 options (a.file win32 options)
  /-- So is the second. -/
  inside' : DirectlyInside win32 options (b.file win32 options)
  /-- Other clients have other files. -/
  apart : a.clientId ≠ b.clientId →
    resolve (isSeparator win32) 46 (a.file win32 options) ≠
      resolve (isSeparator win32) 46 (b.file win32 options)

section Names

variable (win32 : Bool) (options : Options)

theorem fileName_eq (clientId : Bytes) :
    getClientConfigFileName win32 options clientId=
      folderPath win32 options++(clientId++text "_config.json") := by
  unfold getClientConfigFileName folderPath
  cases options.ccClientConfigFolder <;> rfl

theorem folderPath_cases : folderPath win32 options=[] ∨
    ∃ folder s, isSeparator win32 s=true ∧ folderPath win32 options=folder++[s] := by
  rw [folderPath]
  cases options.ccClientConfigFolder with
  | none => exact Or.inl rfl
  | some folder =>
    right
    cases win32 with
    | false => exact ⟨folder,47,by decide,rfl⟩
    | true => exact ⟨folder,92,by decide,rfl⟩

variable {win32 options}

theorem suffix_noSep : ∀ c∈text "_config.json", isSeparator win32 c=false := by
  cases win32 <;> decide +kernel

/-- What a file name has behind the id is enough to make it an entry's name. -/
theorem entry_of_noSep {clientId : Bytes} (h : ∀ c∈clientId, isSeparator win32 c=false) :
    IsEntry (isSeparator win32) 46 (clientId++text "_config.json") := by
  have hlength : (clientId++text "_config.json").length=clientId.length+12 := List.length_append
  refine ⟨?_,?_,?_,?_⟩
  · intro c hc
    exact (List.mem_append.mp hc).elim (h c) (suffix_noSep c)
  · intro heq
    rw [heq] at hlength
    exact absurd hlength (by simp only [List.length_nil]; omega)
  · intro heq
    rw [heq] at hlength
    exact absurd hlength (by simp only [List.length_cons,List.length_nil]; omega)
  · intro heq
    rw [heq] at hlength
    exact absurd hlength (by simp only [List.length_cons,List.length_nil]; omega)

/-- The file of such an id is an entry of the folder. -/
theorem resolve_file {clientId : Bytes} (h : ∀ c∈clientId, isSeparator win32 c=false) :
    resolve (isSeparator win32) 46 (getClientConfigFileName win32 options clientId)=
      ((resolve (isSeparator win32) 46 (folderPath win32 options)).1,
        (clientId++text "_config.json")::
          (resolve (isSeparator win32) 46 (folderPath win32 options)).2) := by
  rw [fileName_eq]
  rcases folderPath_cases win32 options with hnone|⟨folder,s,hs,hfolder⟩
  · rw [hnone,List.nil_append,resolve_entry (entry_of_noSep h)]
    rfl
  · rw [hfolder,List.append_assoc,List.singleton_append,
      resolve_append_entry (entry_of_noSep h) folder hs]

/-- A file is directly inside the folder when the id has no separator in it. -/
theorem directlyInside_iff (clientId : Bytes) :
    DirectlyInside win32 options (getClientConfigFileName win32 options clientId) ↔
      ∀ c∈clientId, isSeparator win32 c=false := by
  rw [fileName_eq]
  constructor
  · rintro ⟨file,heq,hfile⟩ c hc
    obtain rfl := List.append_cancel_left heq
    exact hfile c (List.mem_append_left _ hc)
  · intro h
    exact ⟨_,rfl,(entry_of_noSep h).noSep⟩

end Names

section Actions

variable (lib : RapidJson) (win32 : Bool) (options : Options)

/-- `Service` with its actions on stored configurations. -/
def configActions (others : Actions Files) : Actions Files :=
  {others with
    getClientConfig := getClientConfig lib win32
    setClientConfig := setClientConfig lib win32}

/-- A request for a configuration leaves every file but its own as it was. -/
theorem run_frame (others : Actions Files) (r : ConfigRequest) (clientIp data : Bytes)
    (files : Files) {name : Bytes} (hname : name ≠ r.file win32 options) :
    ((configActions lib win32 others).run options ⟨r.url,clientIp,r.clientId,data⟩ files
      (some r.route)).state.contents name=files.contents name := by
  have hget : (getClientConfig lib win32 options r.clientId files).state=files := by
    rw [getClientConfig]
    split
    · split <;> rfl
    · rfl
  have hset : (setClientConfig lib win32 options r.clientId data files).state.contents name=
      files.contents name := by
    rcases setClientConfig_cases lib win32 options r.clientId data files with
      ⟨-,hs⟩|⟨document,-,-,hs⟩
    · rw [hs]
    · rw [hs,Files.put_contents]
      exact Function.update_of_ne hname _ _
  have hopens := r.opens
  cases hroute : r.route <;> rw [hroute] at hopens
  case clientGetConfig => exact congrArg (Files.contents · name) hget
  case adminGetClientConfig => exact congrArg (Files.contents · name) hget
  case adminSetClientConfig => exact hset
  case clientSetClientConfig => exact hset
  all_goals cases hopens

end Actions

/-- Configurations of clients. Two requests open different files for different clients, each
directly inside the folder, exactly when neither id has a separator in it. Names are compared
byte by byte, also for a Windows build, whose file system lets `rig` and `RIG` name one file and
takes `C:rig` out of the folder. -/
theorem kept_apart_iff (win32 : Bool) (options : Options) (a b : ConfigRequest) :
    KeptApart win32 options a b ↔
      (∀ c∈a.clientId, isSeparator win32 c=false) ∧
        ∀ c∈b.clientId, isSeparator win32 c=false := by
  constructor
  · intro h
    exact ⟨(directlyInside_iff a.clientId).mp h.inside,(directlyInside_iff b.clientId).mp h.inside'⟩
  · rintro ⟨ha,hb⟩
    refine ⟨(directlyInside_iff a.clientId).mpr ha,(directlyInside_iff b.clientId).mpr hb,?_⟩
    intro hne heq
    rw [ConfigRequest.file,ConfigRequest.file,resolve_file ha,resolve_file hb,Prod.mk.injEq,
      List.cons.injEq] at heq
    exact hne (List.append_cancel_right heq.2.1)

/-- Clients ask for their configuration. -/
def asking (clientId : Bytes) (h : clientId ≠ []) : ConfigRequest where
  post := false
  url := text "/client/getConfig"
  clientId := clientId
  route := .clientGetConfig
  taken := by
    have hpage : text "/client/getConfig" ≠ text "/" := by decide
    have hlist : startsWith (text "/client/getConfig") (text "/admin/getClientStatusList")=
        false := by decide
    have hclient : startsWith (text "/client/getConfig") (text "/client/getConfig")=true := by
      decide
    rw [routeOf,if_neg Bool.false_ne_true,routeGET,if_neg hpage,hlist,
      if_neg Bool.false_ne_true,if_neg h,if_pos hclient]
  opens := rfl

theorem climbing_ne_nil : text "../rig" ≠ [] := by decide

theorem rig_ne_nil : text "rig" ≠ [] := by decide

/-- A server with a folder for configurations. -/
def confFolder : Options := ⟨none,none,none,some (text "conf"),none⟩

/-- The id of one of them climbs out of the folder. -/
theorem climbing_not_kept_apart :
    ¬KeptApart false confFolder (asking (text "../rig") climbing_ne_nil)
      (asking (text "rig") rig_ne_nil) := by
  intro h
  obtain ⟨file,heq,hfile⟩ := h.inside
  obtain rfl := List.append_cancel_left heq
  exact absurd (hfile 47 (by decide)) (by decide)

end XmrigCC.ClientConfigPaths
