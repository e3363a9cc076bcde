import XmrigCC.ClientConfigFiles
import XmrigCC.JsonReading
import XmrigCC.TransitionRuns

/-!
# Configurations kept on the server

A client sends its configuration file to the server and replaces it by the one that the server
has for it. Each time a text is parsed and written anew, in one style for the way and in another
for the file. The documents move like the values of registers, whichever requests are lost.
-/

namespace XmrigCC.ConfigCopies

open ByteText TransitionRuns

section Registers

variable {V : Type}

/-- What is fixed while documents are moved. -/
structure Places where
  /-- The file of a client on the server. -/
  name : ℕ → Bytes
  /-- The file for clients without one. -/
  shared : Bytes
  /-- Clients that are served and can write their own file. -/
  keeps : ℕ → Bool
  /-- Files that the server can write. -/
  stores : Bytes → Bool

/-- The documents: none for a file that cannot be read, and for a text that is none. -/
@[ext] structure Registers (V : Type) where
  /-- Files of the clients. -/
  own : ℕ → Option (Option V)
  /-- Files of the server. -/
  stored : Bytes → Option (Option V)

/-- What becomes of a request: it does not arrive, or its answer does not, or both do. -/
inductive Delivery where
  /-- The request is lost or refused. -/
  | lost
  /-- The answer is lost. -/
  | unanswered
  /-- The answer arrives. -/
  | answered
deriving DecidableEq

/-- A document is moved. -/
inductive Move (V : Type) where
  /-- From a client to the server. -/
  | publish (i : ℕ) (delivery : Delivery)
  /-- From the server to a client. -/
  | update (i : ℕ) (delivery : Delivery)
  /-- From an administrator to the server. -/
  | store (name : Bytes) (document : Option V)

/-- A document put on the server. -/
def Registers.store (places : Places) (r : Registers V) (name : Bytes) (document : Option V) :
    Registers V :=
  match document with
  | some v =>
    if places.stores name then {r with stored := Function.update r.stored name (some (some v))}
    else r
  | none => r

/-- What a client is served. -/
def Registers.served (places : Places) (r : Registers V) (i : ℕ) : Option V :=
  ((r.stored (places.name i)).or (r.stored places.shared)).join

/-- A document moved between registers. -/
def move (places : Places) (r : Registers V) : Move V → Registers V
  | .publish _ .lost => r
  | .publish i _ => r.store places (places.name i) (r.own i).join
  | .update i .answered =>
    match r.served places i with
    | some v =>
      if places.keeps i then {r with own := Function.update r.own i (some (some v))} else r
    | none => r
  | .update _ _ => r
  | .store name document => r.store places name document

/-- A property of all documents. -/
structure Registers.Everywhere (P : V → Prop) (r : Registers V) : Prop where
  /-- Those of the clients. -/
  own : ∀ i v, r.own i=some (some v) → P v
  /-- Those of the server. -/
  stored : ∀ name v, r.stored name=some (some v) → P v

/-- A property of the document that an administrator stores. -/
def Move.Brings (P : V → Prop) : Move V → Prop
  | .store _ document => ∀ v, document=some v → P v
  | _ => True

variable {places : Places} {P : V → Prop} {r : Registers V}

theorem Registers.Everywhere.store (h : r.Everywhere P) (name : Bytes) {document : Option V}
    (hdocument : ∀ v, document=some v → P v) : (r.store places name document).Everywhere P := by
  cases document with
  | none => exact h
  | some v =>
    rw [Registers.store]
    split
    · refine ⟨h.own,fun name' v' h' => ?_⟩
      dsimp only at h'
      by_cases hname : name'=name
      · rw [hname,Function.update_self] at h'
        exact hdocument v' (Option.some.inj h')
      · rw [Function.update_of_ne hname] at h'
        exact h.stored name' v' h'
    · exact h

theorem Registers.Everywhere.served (h : r.Everywhere P) {i : ℕ} {v : V}
    (hv : r.served places i=some v) : P v := by
  rw [Registers.served,Option.join_eq_some_iff,Option.or_eq_some_iff] at hv
  rcases hv with hv | ⟨-,hv⟩
  · exact h.stored _ v hv
  · exact h.stored _ v hv

/-- No document is made up: what holds of all that there are and of those that are brought holds
of all afterwards. -/
theorem Registers.Everywhere.move (h : r.Everywhere P) {m : Move V} (hm : m.Brings P) :
    (move places r m).Everywhere P := by
  cases m with
  | publish i delivery =>
    have hown : ∀ v, (r.own i).join=some v → P v := fun v hv =>
      h.own i v (Option.join_eq_some_iff.mp hv)
    cases delivery with
    | lost => exact h
    | unanswered => exact h.store _ hown
    | answered => exact h.store _ hown
  | update i delivery =>
    cases delivery with
    | lost => exact h
    | unanswered => exact h
    | answered =>
      rw [ConfigCopies.move]
      split
      · rename_i v hv
        split
        · refine ⟨fun j v' h' => ?_,h.stored⟩
          dsimp only at h'
          by_cases hj : j=i
          · rw [hj,Function.update_self] at h'
            cases h'
            exact h.served hv
          · rw [Function.update_of_ne hj] at h'
            exact h.own j v' h'
        · exact h
      · exact h
  | store name document => exact h.store name hm

theorem Registers.Everywhere.run (h : r.Everywhere P) {moves : List (Move V)}
    (hmoves : ∀ m∈moves, m.Brings P) :
    (runFrom (ConfigCopies.move places) r moves).Everywhere P := by
  have hsteps : AlongSteps (ConfigCopies.move places) (fun _ m => m.Brings P) r moves :=
    alongSteps_of_forall (fun m hm _ => hmoves m hm) r
  exact (invariant_alongStates (fun _ _ hr hm => hr.move hm) h hsteps).last

/-- A move that leaves a file of the server alone. -/
def Move.Spares (places : Places) (name : Bytes) : Move V → Prop
  | .publish _ .lost => True
  | .publish i _ => places.name i ≠ name
  | .update _ _ => True
  | .store name' _ => name' ≠ name

theorem Registers.store_other {name name' : Bytes} (h : name ≠ name') (document : Option V) :
    (r.store places name document).stored name'=r.stored name' := by
  cases document with
  | none => rfl
  | some v =>
    rw [Registers.store]
    split
    · exact Function.update_of_ne h.symm _ _
    · rfl

theorem move_spares {name : Bytes} {m : Move V} (h : m.Spares places name) :
    (move places r m).stored name=r.stored name := by
  cases m with
  | publish i delivery =>
    cases delivery with
    | lost => rfl
    | unanswered => exact Registers.store_other h _
    | answered => exact Registers.store_other h _
  | update i delivery =>
    cases delivery with
    | lost => rfl
    | unanswered => rfl
    | answered =>
      rw [move]
      split
      · split <;> rfl
      · rfl
  | store name' document => exact Registers.store_other h _

/-- A file of the server stays while all moves leave it alone. -/
theorem run_spares {name : Bytes} {moves : List (Move V)}
    (h : ∀ m∈moves, m.Spares places name) :
    (runFrom (move places) r moves).stored name=r.stored name := by
  induction moves generalizing r with
  | nil => rfl
  | cons m moves ih =>
    rw [runFrom_cons,ih (fun m' hm' => h m' (List.mem_cons_of_mem m hm'))]
    exact move_spares (h m List.mem_cons_self)

/-- A document that was published is what the client is served later. -/
theorem published_returns {i : ℕ} {v : V} (hown : r.own i=some (some v))
    (hstores : places.stores (places.name i)=true) (hkeeps : places.keeps i=true)
    {delivery : Delivery} (hdelivery : delivery ≠ .lost) {moves : List (Move V)}
    (h : ∀ m∈moves, m.Spares places (places.name i)) :
    (runFrom (move places) r (.publish i delivery::(moves++[.update i .answered]))).own i=
      some (some v) := by
  have hpublish : move places r (.publish i delivery)=
      {r with stored := Function.update r.stored (places.name i) (some (some v))} := by
    have hstore : r.store places (places.name i) (r.own i).join=
        {r with stored := Function.update r.stored (places.name i) (some (some v))} := by
      rw [hown,Option.join_some,Registers.store,if_pos hstores]
    cases delivery with
    | lost => exact absurd rfl hdelivery
    | unanswered => exact hstore
    | answered => exact hstore
  rw [runFrom_cons,hpublish,runFrom_append,runFrom_cons,runFrom_nil]
  generalize hr' : (⟨r.own,Function.update r.stored (places.name i) (some (some v))⟩ :
    Registers V)=r'
  have hstored : r'.stored (places.name i)=some (some v) := by
    rw [←hr']
    exact Function.update_self _ _ _
  have hserved : (runFrom (move places) r' moves).served places i=some v := by
    rw [Registers.served,run_spares h,hstored]
    rfl
  rw [move,hserved]
  dsimp only
  rw [if_pos hkeeps]
  exact Function.update_self _ _ _

end Registers

section Files

open ClientConfigFiles CommandServer JsonReading JsonValues JsonWriting

/-- A client of the server. -/
structure Rig where
  /-- Its id, as the server finds it in the URL. -/
  clientId : Bytes
  /-- Text of the configuration file, none when it cannot be read. -/
  configFile : Option Bytes
  /-- The file can be opened for writing. -/
  writable : Bool

/-- `CCClient::publishConfig`. -/
def publishConfig (lib : RapidJson) (win32 : Bool) (options : Options) (rig : Rig)
    (delivery : Delivery) (files : Files) : Files :=
  match rig.configFile with
  | some data =>
    if data ≠ [] then
      match lib.parse (cStr data) with
      | some document =>
        match delivery with
        | .lost => files
        | _ => (setClientConfig lib win32 options rig.clientId (cStr (lib.write document))
            files).state
      | none => files
    else files
  | none => files

/-- `Service::handleGET` of "/client/getConfig". -/
def handleGET (lib : RapidJson) (win32 : Bool) (options : Options) (clientId : Bytes)
    (files : Files) : Answer Files :=
  if clientId ≠ [] then getClientConfig lib win32 options clientId files else ⟨404,[],files⟩

/-- `CCClient::updateConfig`. -/
def updateConfig (lib : RapidJson) (win32 : Bool) (options : Options) (rig : Rig)
    (delivery : Delivery) (files : Files) : Rig :=
  match delivery with
  | .answered =>
    let res := ConfigCopies.handleGET lib win32 options rig.clientId files
    if res.status=200 then
      match lib.parse (cStr res.resp) with
      | some document =>
        if rig.writable then {rig with configFile := some (cStr (lib.prettyWrite document))}
        else rig
      | none => rig
    else rig
  | _ => rig

/-- The clients and the server's files. -/
structure System where
  /-- The clients. -/
  rigs : ℕ → Rig
  /-- The files of the server. -/
  files : Files

/-- Requests to the server, in the order in which it answers them. -/
inductive Event where
  /-- A client sends its configuration. -/
  | publish (i : ℕ) (delivery : Delivery)
  /-- A client asks for its configuration. -/
  | update (i : ℕ) (delivery : Delivery)
  /-- An administrator stores a configuration for a client. -/
  | store (clientId data : Bytes)

section Model

variable (lib : RapidJson) (win32 : Bool) (options : Options)

/-- An answered request. -/
def step (s : System) : Event → System
  | .publish i delivery =>
    {s with files := publishConfig lib win32 options (s.rigs i) delivery s.files}
  | .update i delivery =>
    {s with rigs := Function.update s.rigs i (updateConfig lib win32 options (s.rigs i)
      delivery s.files)}
  | .store clientId data =>
    {s with files := (setClientConfig lib win32 options clientId data s.files).state}

/-- What does not change. -/
def System.places (s : System) : Places :=
  ⟨fun i => getClientConfigFileName win32 options (s.rigs i).clientId,defaultConfig,
    fun i => decide ((s.rigs i).clientId ≠ []) && (s.rigs i).writable,s.files.writable⟩

end Model

variable {D : Type}

/-- The JSON library. -/
def rapidJson (nums : Doubles D) : RapidJson :=
  ⟨Value D,Parse nums,written nums plainStyle,written nums prettyStyle⟩

variable (nums : Doubles D)

/-- The document in a file. -/
def document (data : Bytes) : Option (Value D) := Parse nums (cStr data)

/-- The documents in all files. -/
def System.registers (s : System) : Registers (Value D) :=
  ⟨fun i => (s.rigs i).configFile.map (document nums),
    fun name => (s.files.contents name).map (document nums)⟩

/-- The document that a request moves. -/
def Event.move (win32 : Bool) (options : Options) : Event → Move (Value D)
  | .publish i delivery => .publish i delivery
  | .update i delivery => .update i delivery
  | .store clientId data =>
    .store (getClientConfigFileName win32 options clientId) (document nums data)

variable {nums} {win32 : Bool} {options : Options}

theorem document_nil : document nums []=none := rfl

/-- The text that a writer makes of a document is that document. -/
theorem document_written {style : Style} {L : Layout} (hlays : style.Lays L) (h : Spacing L)
    {v : Value D} (hv : Sound nums v) :
    document nums (cStr (written nums style v))=some v := by
  obtain ⟨htext,hread⟩ := Parse_written hlays h hv
  rw [htext,document,htext,hread]

/-- The documents after the server stored a text. -/
theorem store_registers (win32 : Bool) (options : Options) (s : System) (clientId : Bytes)
    {data : Bytes} (h : ∀ v, document nums data=some v → Sound nums v) :
    System.registers nums {s with files :=
      (setClientConfig (rapidJson nums) win32 options clientId data s.files).state}=
    (s.registers nums).store (s.places win32 options)
      (getClientConfigFileName win32 options clientId) (document nums data) := by
  have hparse : (rapidJson nums).parse (cStr data)=document nums data := rfl
  rw [setClientConfig,hparse]
  cases hdocument : document nums data with
  | none => rfl
  | some v =>
    dsimp only
    rw [Registers.store]
    by_cases hw : s.files.writable (getClientConfigFileName win32 options clientId)=true
    · rw [if_pos hw,if_pos (show (s.places win32 options).stores _=true from hw)]
      refine Registers.ext rfl (funext fun name => ?_)
      have hread := document_written pretty_lays pretty_spacing (h v hdocument)
      by_cases hname : name=getClientConfigFileName win32 options clientId
      · subst hname
        change Option.map (document nums) (Function.update s.files.contents _ _ _)=
          Function.update (s.registers nums).stored _ _ _
        rw [Function.update_self,Function.update_self]
        exact congrArg some hread
      · change Option.map (document nums) (Function.update s.files.contents _ _ _)=
          Function.update (s.registers nums).stored _ _ _
        rw [Function.update_of_ne hname,Function.update_of_ne hname]
        rfl
    · rw [if_neg hw,if_neg (show ¬(s.places win32 options).stores _=true from hw)]

/-- The document that a client is served. -/
theorem served_registers (s : System) (i : ℕ) :
    (s.registers nums).served (s.places win32 options) i=
      document nums (loadConfig s.files
        (getClientConfigFileName win32 options (s.rigs i).clientId)) := by
  let name := getClientConfigFileName win32 options (s.rigs i).clientId
  change (((s.files.contents name).map (document nums)).or
    ((s.files.contents defaultConfig).map (document nums))).join=
      document nums (loadConfig s.files name)
  rw [loadConfig]
  cases s.files.contents name with
  | some data => rfl
  | none =>
    cases s.files.contents defaultConfig with
    | some data => rfl
    | none => rfl

/-- A client is answered the document when there is one. -/
theorem getClientConfig_eq (s : System) (clientId : Bytes) :
    getClientConfig (rapidJson nums) win32 options clientId s.files=
      match document nums (loadConfig s.files
        (getClientConfigFileName win32 options clientId)) with
      | some v => ⟨httpOk,cStr (written nums plainStyle v),s.files⟩
      | none => ⟨500,[],s.files⟩ := by
  rw [getClientConfig]
  generalize loadConfig s.files (getClientConfigFileName win32 options clientId)=data
  have hparse : (rapidJson nums).parse (cStr data)=document nums data := rfl
  rw [hparse]
  by_cases hdata : data=[]
  · rw [hdata,document_nil]
    rfl
  · rw [if_pos hdata]
    cases document nums data <;> rfl

/-- A client that takes its configuration from the server. -/
theorem updateConfig_eq (s : System) (i : ℕ)
    (h : ∀ v, (s.registers nums).served (s.places win32 options) i=some v → Sound nums v) :
    updateConfig (rapidJson nums) win32 options (s.rigs i) .answered s.files=
      match (s.registers nums).served (s.places win32 options) i with
      | some v =>
        if (s.places win32 options).keeps i then
          {s.rigs i with configFile := some (cStr (written nums prettyStyle v))}
        else s.rigs i
      | none => s.rigs i := by
  have hkeeps : (s.places win32 options).keeps i=
      (decide ((s.rigs i).clientId ≠ []) && (s.rigs i).writable) := rfl
  rw [served_registers] at h
  rw [updateConfig,ConfigCopies.handleGET,getClientConfig_eq,served_registers,hkeeps]
  by_cases hid : (s.rigs i).clientId=[]
  · -- without an id the answer is 404
    rw [if_neg (not_not.mpr hid),decide_eq_false (not_not.mpr hid)]
    dsimp only
    rw [if_neg (by decide)]
    cases document nums _ <;> rfl
  rw [if_pos hid,decide_eq_true hid,Bool.true_and]
  cases hserved : document nums (loadConfig s.files
      (getClientConfigFileName win32 options (s.rigs i).clientId)) with
  | none => rfl
  | some v =>
    have hread := document_written plain_lays plain_spacing (h v hserved)
    have hparse : (rapidJson nums).parse (cStr (cStr (written nums plainStyle v)))=some v := hread
    dsimp only
    rw [if_pos (show httpOk=200 from rfl),hparse]
    rfl

theorem publishConfig_lost (s : System) (i : ℕ) :
    publishConfig (rapidJson nums) win32 options (s.rigs i) .lost s.files=s.files := by
  rw [publishConfig]
  split
  · split
    · split <;> rfl
    · rfl
  · rfl

/-- A client that sends its configuration. -/
theorem publishConfig_eq (s : System) (i : ℕ) {delivery : Delivery} (hd : delivery ≠ .lost) :
    publishConfig (rapidJson nums) win32 options (s.rigs i) delivery s.files=
      match ((s.registers nums).own i).join with
      | some v => (setClientConfig (rapidJson nums) win32 options (s.rigs i).clientId
          (cStr (written nums plainStyle v)) s.files).state
      | none => s.files := by
  have hown : (s.registers nums).own i=(s.rigs i).configFile.map (document nums) := rfl
  rw [publishConfig,hown]
  cases (s.rigs i).configFile with
  | none => rfl
  | some data =>
    have hparse : (rapidJson nums).parse (cStr data)=document nums data := rfl
    dsimp only [Option.map_some,Option.join_some]
    rw [hparse]
    by_cases hdata : data=[]
    · rw [hdata,document_nil]
      rfl
    · rw [if_pos hdata]
      cases document nums data with
      | none => rfl
      | some v =>
        cases delivery with
        | lost => exact absurd rfl hd
        | unanswered => rfl
        | answered => rfl

theorem publish_registers (s : System) (i : ℕ) {delivery : Delivery} (hd : delivery ≠ .lost)
    (h : ∀ v, ((s.registers nums).own i).join=some v → Sound nums v) :
    System.registers nums
      ⟨s.rigs,publishConfig (rapidJson nums) win32 options (s.rigs i) delivery s.files⟩=
    (s.registers nums).store (s.places win32 options)
      (getClientConfigFileName win32 options (s.rigs i).clientId)
      ((s.registers nums).own i).join := by
  rw [publishConfig_eq s i hd]
  cases hown : ((s.registers nums).own i).join with
  | none => rfl
  | some v =>
    have hread := document_written plain_lays plain_spacing (h v hown)
    have hsound : ∀ v', document nums (cStr (written nums plainStyle v))=some v' →
        Sound nums v' := fun v' hv' => h v' (by rw [hown,←hread,hv'])
    have hstore := store_registers win32 options s (s.rigs i).clientId hsound
    rw [hread] at hstore
    exact hstore

/-- One request moves the document, as long as all documents survive being written. -/
theorem registers_step {s : System} (h : (s.registers nums).Everywhere (Sound nums)) {e : Event}
    (he : (e.move nums win32 options).Brings (Sound nums)) :
    (step (rapidJson nums) win32 options s e).registers nums=
      move (s.places win32 options) (s.registers nums) (e.move nums win32 options) := by
  cases e with
  | publish i delivery =>
    have hown : ∀ v, ((s.registers nums).own i).join=some v → Sound nums v := fun v hv =>
      h.own i v (Option.join_eq_some_iff.mp hv)
    cases delivery with
    | lost =>
      rw [step,publishConfig_lost]
      rfl
    | unanswered => exact publish_registers s i (by decide) hown
    | answered => exact publish_registers s i (by decide) hown
  | update i delivery =>
    cases delivery with
    | lost =>
      rw [step,updateConfig,Function.update_eq_self]
      · rfl
      · exact fun h => nomatch h
    | unanswered =>
      rw [step,updateConfig,Function.update_eq_self]
      · rfl
      · exact fun h => nomatch h
    | answered =>
      rw [step,updateConfig_eq s i (fun v hv => h.served hv)]
      change _=ConfigCopies.move (s.places win32 options) (s.registers nums) (.update i .answered)
      rw [ConfigCopies.move]
      cases hserved : (s.registers nums).served (s.places win32 options) i with
      | none =>
        dsimp only
        rw [Function.update_eq_self]
      | some v =>
        have hread := document_written pretty_lays pretty_spacing (h.served hserved)
        dsimp only
        by_cases hw : (s.places win32 options).keeps i=true
        · rw [if_pos hw,if_pos hw]
          refine Registers.ext (funext fun j => ?_) rfl
          by_cases hj : j=i
          · subst hj
            change Option.map (document nums) (Function.update s.rigs j _ j).configFile=
              Function.update (s.registers nums).own j _ j
            rw [Function.update_self,Function.update_self]
            exact congrArg some hread
          · change Option.map (document nums) (Function.update s.rigs i _ j).configFile=
              Function.update (s.registers nums).own i _ j
            rw [Function.update_of_ne hj,Function.update_of_ne hj]
            rfl
        · rw [if_neg hw,if_neg hw,Function.update_eq_self]
  | store clientId data => exact store_registers win32 options s clientId he

section Steady

variable (lib : RapidJson)

theorem setClientConfig_writable (clientId data : Bytes) (files : Files) :
    (setClientConfig lib win32 options clientId data files).state.writable=files.writable := by
  rcases setClientConfig_cases lib win32 options clientId data files with ⟨-,hs⟩|⟨_,-,-,hs⟩
  · rw [hs]
  · rw [hs]
    rfl

theorem publishConfig_writable (rig : Rig) (delivery : Delivery) (files : Files) :
    (publishConfig lib win32 options rig delivery files).writable=files.writable := by
  rw [publishConfig]
  split
  · split
    · split
      · split
        · rfl
        · exact setClientConfig_writable lib _ _ files
      · rfl
    · rfl
  · rfl

theorem updateConfig_fixed (rig : Rig) (delivery : Delivery) (files : Files) :
    (updateConfig lib win32 options rig delivery files).clientId=rig.clientId ∧
    (updateConfig lib win32 options rig delivery files).writable=rig.writable := by
  rw [updateConfig.eq_def]
  split
  · dsimp only
    split
    · split
      · split <;> exact ⟨rfl,rfl⟩
      · exact ⟨rfl,rfl⟩
    · exact ⟨rfl,rfl⟩
  · exact ⟨rfl,rfl⟩

/-- Names of files and who may write what stay as they are. -/
theorem places_step (s : System) (e : Event) :
    (step lib win32 options s e).places win32 options=s.places win32 options := by
  cases e with
  | publish i delivery =>
    rw [step,System.places,publishConfig_writable]
    rfl
  | update i delivery =>
    have hrig : ∀ j, (Function.update s.rigs i
        (updateConfig lib win32 options (s.rigs i) delivery s.files) j).clientId=
          (s.rigs j).clientId ∧ (Function.update s.rigs i
        (updateConfig lib win32 options (s.rigs i) delivery s.files) j).writable=
          (s.rigs j).writable := by
      intro j
      by_cases hj : j=i
      · rw [hj,Function.update_self]
        exact updateConfig_fixed lib (s.rigs i) delivery s.files
      · rw [Function.update_of_ne hj]
        exact ⟨rfl,rfl⟩
    rw [step,System.places,System.places]
    simp only [hrig]
  | store clientId data =>
    rw [step,System.places,setClientConfig_writable]
    rfl

end Steady

/-- A run moves the documents, as long as all of them survive being written. -/
theorem registers_run {s : System} (h : (s.registers nums).Everywhere (Sound nums))
    {events : List Event}
    (he : ∀ e∈events, (e.move nums win32 options).Brings (Sound nums)) :
    (runFrom (step (rapidJson nums) win32 options) s events).registers nums=
      runFrom (move (s.places win32 options)) (s.registers nums)
        (events.map (Event.move nums win32 options)) := by
  induction events generalizing s with
  | nil => rfl
  | cons e events ih =>
    have hfirst := he e List.mem_cons_self
    have hrest := ih (s:=step (rapidJson nums) win32 options s e)
      (by rw [registers_step h hfirst]; exact h.move hfirst)
      (fun e' he' => he e' (List.mem_cons_of_mem e he'))
    rw [runFrom_cons,hrest,places_step,registers_step h hfirst,List.map_cons,runFrom_cons]

/-- Over any run the documents of the clients and of the server move as they are, and none is made
up: what holds of all at first and of those that are stored holds of all in the end. -/
theorem configurations_faithful {s : System} (h : (s.registers nums).Everywhere (Sound nums))
    {events : List Event}
    (he : ∀ e∈events, (e.move nums win32 options).Brings (Sound nums)) :
    (runFrom (step (rapidJson nums) win32 options) s events).registers nums=
      runFrom (move (s.places win32 options)) (s.registers nums)
        (events.map (Event.move nums win32 options)) ∧
    ∀ P : Value D → Prop, (s.registers nums).Everywhere P →
      (∀ e∈events, (e.move nums win32 options).Brings P) →
        ((runFrom (step (rapidJson nums) win32 options) s events).registers nums).Everywhere P := by
  refine ⟨registers_run h he,fun P hP hevents => ?_⟩
  rw [registers_run h he]
  refine hP.run fun m hm => ?_
  obtain ⟨e,hmem,rfl⟩ := List.mem_map.mp hm
  exact hevents e hmem

/-- A client that published its configuration gets that document back, whatever is lost and
whatever the others send, unless its file on the server is replaced in between. -/
theorem configuration_returns {s : System} (h : (s.registers nums).Everywhere (Sound nums))
    {i : ℕ} {v : Value D} (hown : (s.registers nums).own i=some (some v))
    (hstores : s.files.writable
      (getClientConfigFileName win32 options (s.rigs i).clientId)=true)
    (hid : (s.rigs i).clientId ≠ []) (hkeeps : (s.rigs i).writable=true) {delivery : Delivery}
    (hdelivery : delivery ≠ .lost)
    {events : List Event} (he : ∀ e∈events, (e.move nums win32 options).Brings (Sound nums) ∧
      (e.move nums win32 options).Spares (s.places win32 options)
        (getClientConfigFileName win32 options (s.rigs i).clientId)) :
    ((runFrom (step (rapidJson nums) win32 options) s
      (.publish i delivery::(events++[.update i .answered]))).registers nums).own i=
        some (some v) := by
  have hbrings : ∀ e∈(.publish i delivery::(events++[.update i .answered]) : List Event),
      (e.move nums win32 options).Brings (Sound nums) := by
    intro e hmem
    rcases List.mem_cons.mp hmem with rfl | hmem
    · trivial
    · rcases List.mem_append.mp hmem with hmem | hmem
      · exact (he e hmem).1
      · rw [List.mem_singleton.mp hmem]
        trivial
  have hspares : ∀ m∈events.map (Event.move nums win32 options),
      m.Spares (s.places win32 options) ((s.places win32 options).name i) := by
    intro m hm
    obtain ⟨e,hmem,rfl⟩ := List.mem_map.mp hm
    exact (he e hmem).2
  have hserved : (s.places win32 options).keeps i=true := by
    change (decide ((s.rigs i).clientId ≠ []) && (s.rigs i).writable)=true
    rw [decide_eq_true hid,hkeeps]
    rfl
  rw [registers_run h hbrings,List.map_cons,List.map_append]
  exact published_returns hown hstores hserved hdelivery hspares

end Files

section Rigs

open ClientConfigFiles CommandServer JsonReading JsonValues JsonWriting

/-- A configuration. -/
def rigConfig : Value ℤ := .object [(text "algo",.string (text "cryptonight")),
  (text "threads",.int 4),(text "share",.double 5)]

/-- Two clients, of which one has a configuration. -/
def twoRigs : System :=
  ⟨fun i => if i=0 then ⟨text "a",some (cStr (written tenths prettyStyle rigConfig)),true⟩
    else ⟨text "b",none,true⟩,emptyDirectory⟩

theorem sound_rigConfig : Sound tenths rigConfig :=
  ⟨trivial,⟨by decide,by decide⟩,kept_tenth (by decide),trivial⟩

theorem twoRigs_own : (twoRigs.registers tenths).own 0=some (some rigConfig) :=
  congrArg some (document_written pretty_lays pretty_spacing sound_rigConfig)

theorem twoRigs_everywhere : (twoRigs.registers tenths).Everywhere (Sound tenths) := by
  refine ⟨fun i v hv => ?_,fun name v hv => nomatch hv⟩
  by_cases hi : i=0
  · rw [hi,twoRigs_own] at hv
    cases hv
    exact sound_rigConfig
  · have hnone : (twoRigs.registers tenths).own i=none := by
      have hrig : twoRigs.rigs i=⟨text "b",none,true⟩ := if_neg hi
      change (twoRigs.rigs i).configFile.map _=none
      rw [hrig]
      rfl
    rw [hnone] at hv
    cases hv

/-- A configuration stored for the client without one. -/
def storeB : Event := .store (text "b") (text "[]")

theorem storeB_brings : (storeB.move tenths false noFolder).Brings (Sound tenths) := by
  have hdocument : document tenths (text "[]")=some (.array []) := rfl
  intro v hv
  rw [hdocument] at hv
  cases hv
  trivial

/-- What is stored for the second client is what it gets. -/
theorem configurations_faithful_two :
    ((runFrom (step (rapidJson tenths) false noFolder) twoRigs
      [.publish 0 .unanswered,storeB,.update 1 .answered]).registers tenths).own 1=
        some (some (.array [])) := by
  have hevents : ∀ e∈[.publish 0 .unanswered,storeB,.update 1 .answered],
      (e.move tenths false noFolder).Brings (Sound tenths) := by
    intro e he
    fin_cases he
    · trivial
    · exact storeB_brings
    · trivial
  rw [(configurations_faithful twoRigs_everywhere hevents).1]
  rfl

/-- A client gets back what it published, whatever is stored for another one. -/
theorem configuration_returns_two :
    ((runFrom (step (rapidJson tenths) false noFolder) twoRigs
      [.publish 0 .unanswered,storeB,.update 0 .answered]).registers tenths).own 0=
        some (some rigConfig) := by
  have hname : getClientConfigFileName false noFolder (text "b") ≠
      getClientConfigFileName false noFolder (text "a") := by decide
  have hevents : ∀ e∈[storeB], (e.move tenths false noFolder).Brings (Sound tenths) ∧
      (e.move tenths false noFolder).Spares (twoRigs.places false noFolder)
        (getClientConfigFileName false noFolder (twoRigs.rigs 0).clientId) := by
    intro e he
    rw [List.mem_singleton.mp he]
    exact ⟨storeB_brings,hname⟩
  have hlost : Delivery.unanswered ≠ .lost := by decide
  have hid : (twoRigs.rigs 0).clientId ≠ [] := by decide
  have hreturns := configuration_returns twoRigs_everywhere twoRigs_own rfl hid rfl hlost hevents
  exact hreturns

end Rigs

end XmrigCC.ConfigCopies
