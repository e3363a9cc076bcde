import XmrigCC.CommandService

/-!
# Typed access to what is posted to the server

The two handlers of posts that carry JSON, once more with every accessor they
use. Each member is looked for before it is read, but of no value is the kind
asked first, the document and the objects in it included.
-/

namespace XmrigCC.ServiceAccess

open ByteText JsonValues ClientStatuses ControlCommands CommandServer CommandService

/-- The kinds of value that members are read as. -/
inductive Kind where
  /-- `GetString`. -/
  | string
  /-- `GetBool`. -/
  | bool
  /-- `GetInt`. -/
  | int
  /-- `GetUint`. -/
  | uint
  /-- `GetUint64`. -/
  | uint64
  /-- `GetDouble`. -/
  | double
  deriving DecidableEq

/-- Members that `ClientStatus::parseFromJson` reads, with the accessors it uses. -/
def statusMembers : List (Bytes×Kind) :=
  [(text "current_status",.string),(text "client_id",.string),(text "current_pool",.string),
    (text "current_algo_name",.string),(text "cpu_brand",.string),(text "external_ip",.string),
    (text "version",.string),(text "hugepages_available",.bool),(text "hugepages_enabled",.bool),
    (text "hash_factor",.int),(text "cpu_is_x64",.bool),(text "cpu_has_aes",.bool),
    (text "hashrate_short",.double),(text "hashrate_medium",.double),
    (text "hashrate_long",.double),(text "hashrate_highest",.double),
    (text "current_threads",.int),(text "cpu_sockets",.int),(text "cpu_cores",.int),
    (text "cpu_threads",.int),(text "cpu_l2",.int),(text "cpu_l3",.int),
    (text "shares_good",.uint64),(text "shares_total",.uint64),(text "hashes_total",.uint64),
    (text "avg_time",.uint)]

section Kinds

variable {D : Type}

/-- Values of a kind, integers within its range. -/
def Kind.Fits : Kind → Value D → Prop
  | .string,.string _ => True
  | .bool,.bool _ => True
  | .int,.int value => -2^31 ≤ value ∧ value<2^31
  | .uint,.int value => 0 ≤ value ∧ value<2^32
  | .uint64,.int value => 0 ≤ value ∧ value<2^64
  | .double,.int _ => True
  | .double,.double _ => True
  | _,_ => False

/-- Of an object, the first member of each name in a list has its kind if it is there. -/
def MembersFit (kinds : List (Bytes×Kind)) (members : List (Bytes×Value D)) : Prop :=
  ∀ entry∈kinds, ∀ v, find members entry.1=some v → entry.2.Fits v

/-- A document is an object, and a member of it is missing or an object whose members
have their kinds. -/
def Readable (name : Bytes) (kinds : List (Bytes×Kind)) (document : Value D) : Prop :=
  ∃ members, document=.object members ∧ ∀ v, find members name=some v →
    ∃ inner, v=.object inner ∧ MembersFit kinds inner

end Kinds

section Reads

variable {D : Type} (lib : Library D)

/-- The accessor for a kind may be used on a value. -/
def Kind.accessible : Kind → Value D → Bool
  | .string,v => (getString lib v).defined
  | .bool,v => (getBool v).defined
  | .int,v => (getInt lib v).defined
  | .uint,v => (getUint lib v).defined
  | .uint64,v => (getUint64 lib v).defined
  | .double,v => (getDouble lib v).defined

/-- An accessor may be used exactly on the values of its kind. -/
theorem accessible_iff (kind : Kind) (v : Value D) :
    kind.accessible lib v=true ↔ kind.Fits v := by
  cases kind <;> cases v <;>
    simp [Kind.accessible,Kind.Fits,getString,getBool,getInt,getUint,getUint64,getDouble,getBits]

/-- A member of an object is read as it may be when it is missing or its accessor may be
used on it. -/
theorem readMember_defined_iff {α : Type} (members : List (Bytes×Value D)) (name : Bytes)
    (get : Value D → Read α) (old : α) :
    (readMember lib (.object members) name get old).defined=true ↔
      ∀ v, find members name=some v → (get v).defined=true := by
  cases hfind : find members name with
  | none =>
    refine iff_of_true ?_ ?_
    · simp [readMember,hfind]
    · intro v hv
      cases hv
  | some v => simp [readMember,hfind]

/-- The six ways of `ClientStatus::parseFromJson` to read a member. -/
theorem readMember_kind_iff {α : Type} (members : List (Bytes×Value D)) (name : Bytes)
    {get : Value D → Read α} (old : α) {kind : Kind}
    (hget : ∀ v, (get v).defined=kind.accessible lib v) :
    (readMember lib (.object members) name get old).defined=true ↔
      ∀ v, find members name=some v → kind.Fits v := by
  rw [readMember_defined_iff]
  apply forall_congr'
  intro v
  rw [hget,accessible_iff]

/-- The members of a status are read as they may be when each has its kind. -/
theorem readMembers_defined_iff (now : Int64) (s : ClientStatus D)
    (members : List (Bytes×Value D)) :
    (s.readMembers lib now (.object members)).defined=true ↔ MembersFit statusMembers members := by
  have hstatus : ∀ (name : Bytes) (old : Status),
      (readMember lib (.object members) name (fun v => toStatus <$> getString lib v) old).defined=
        true ↔ ∀ v, find members name=some v → Kind.string.Fits v := fun name old =>
    readMember_kind_iff lib members name old (fun v => Read.map_defined toStatus _)
  have hstring : ∀ (name old : Bytes),
      (readMember lib (.object members) name (getString lib) old).defined=true ↔
        ∀ v, find members name=some v → Kind.string.Fits v := fun name old =>
    readMember_kind_iff lib members name old (fun _ => rfl)
  have hbool : ∀ (name : Bytes) (old : Bool),
      (readMember lib (.object members) name getBool old).defined=true ↔
        ∀ v, find members name=some v → Kind.bool.Fits v := fun name old =>
    readMember_kind_iff lib members name old (fun _ => rfl)
  have hint : ∀ (name : Bytes) (old : Int32),
      (readMember lib (.object members) name (getInt lib) old).defined=true ↔
        ∀ v, find members name=some v → Kind.int.Fits v := fun name old =>
    readMember_kind_iff lib members name old (fun _ => rfl)
  have huint : ∀ (name : Bytes) (old : UInt32),
      (readMember lib (.object members) name (getUint lib) old).defined=true ↔
        ∀ v, find members name=some v → Kind.uint.Fits v := fun name old =>
    readMember_kind_iff lib members name old (fun _ => rfl)
  have huint64 : ∀ (name : Bytes) (old : UInt64),
      (readMember lib (.object members) name (getUint64 lib) old).defined=true ↔
        ∀ v, find members name=some v → Kind.uint64.Fits v := fun name old =>
    readMember_kind_iff lib members name old (fun _ => rfl)
  have hdouble : ∀ (name : Bytes) (old : D),
      (readMember lib (.object members) name (getDouble lib) old).defined=true ↔
        ∀ v, find members name=some v → Kind.double.Fits v := fun name old =>
    readMember_kind_iff lib members name old (fun _ => rfl)
  simp only [ClientStatus.readMembers,Read.bind_defined,Read.pure_defined,Bool.and_eq_true,
    hstatus,hstring,hbool,hint,huint,huint64,hdouble,MembersFit,statusMembers,
    List.forall_mem_cons,List.not_mem_nil,IsEmpty.forall_iff,implies_true,and_true]

/-- Reading the members of a member, if it is there. -/
def readInside {β : Type} (document : Value D) (name : Bytes) (inside : Value D → Read β)
    (missing : β) : Read β := do
  if ←hasMember lib document name then
    let inner ← getObject (←member lib document name)
    inside inner
  else pure missing

/-- Such a reading is defined exactly on readable documents. -/
theorem readInside_defined_iff {β : Type} (document : Value D) (name : Bytes)
    {kinds : List (Bytes×Kind)} {inside : Value D → Read β} (missing : β)
    (hinside : ∀ inner, (inside (.object inner)).defined=true ↔ MembersFit kinds inner) :
    (readInside lib document name inside missing).defined=true ↔
      Readable name kinds document := by
  cases document with
  | object members =>
    cases hfind : find members name with
    | none =>
      refine iff_of_true ?_ ⟨members,rfl,?_⟩
      · simp [readInside,hfind]
      · intro v hv
        rw [hfind] at hv
        cases hv
    | some v =>
      have hread : Readable name kinds (.object members) ↔
          ∃ inner, v=.object inner ∧ MembersFit kinds inner := by
        constructor
        · rintro ⟨members',hm,h⟩
          obtain rfl := Value.object.inj hm
          exact h v hfind
        · intro h
          refine ⟨members,rfl,?_⟩
          intro v' hv'
          rw [hfind] at hv'
          obtain rfl := Option.some.inj hv'
          exact h
      rw [hread]
      cases v with
      | object inner =>
        have hvalue : (readInside lib (.object members) name inside missing).defined=
            (inside (.object inner)).defined := by
          simp [readInside,hfind]
        rw [hvalue,hinside]
        constructor
        · intro h
          exact ⟨inner,rfl,h⟩
        · rintro ⟨inner',hinner,h⟩
          obtain rfl := Value.object.inj hinner
          exact h
      | _ => simp [readInside,hfind,getObject]
  | _ => simp [readInside,hasMember,Readable]

end Reads

section Handlers

variable {D : Type} (host : Host D) (clientIp clientId data : Bytes) (s : Service D)

/-- `Service::setClientStatus`. -/
def setClientStatus : Read (Answer (Service D)) :=
  match host.lib.parse (cStr data) with
  | some document => do
    let parsed ← (ClientStatus.new host.lib).parseFromJson host.lib s.now document
    let clientStatus := parsed.1.setExternalIp clientIp
    let a := getClientCommand host clientId (s.setStatus clientId clientStatus)
    if (a.state.command clientId).isOneTimeCommand then
      pure {a with state := a.state.eraseCommand clientId}
    else pure a
  | none => pure ⟨400,[],s⟩

/-- `Service::setClientCommand`. -/
def setClientCommand : Read (Answer (Service D)) :=
  match host.lib.parse (cStr data) with
  | some document => do
    let parsed ← ControlCommand.new.parseFromJson host.lib document
    pure ⟨httpOk,[],s.setCommand clientId parsed.1⟩
  | none => pure ⟨400,[],s⟩

/-- The accessors find what the service is modelled to read. -/
theorem setClientStatus_value :
    (setClientStatus host clientIp clientId data s).value=
      CommandService.setClientStatus host clientIp clientId data s := by
  unfold setClientStatus CommandService.setClientStatus
  cases host.lib.parse (cStr data) with
  | none => rfl
  | some document =>
    dsimp only [Read.bind_value]
    split
    · rfl
    · rfl

theorem setClientCommand_value :
    (setClientCommand host clientId data s).value=
      CommandService.setClientCommand host clientId data s := by
  unfold setClientCommand CommandService.setClientCommand
  cases host.lib.parse (cStr data) with
  | none => rfl
  | some document => rfl

/-- A body is no JSON or a readable document. -/
def BodyReadable (name : Bytes) (kinds : List (Bytes×Kind)) : Prop :=
  ∀ document, host.lib.parse (cStr data)=some document → Readable name kinds document

theorem parseStatus_defined_iff (lib : Library D) (now : Int64) (status : ClientStatus D)
    (document : Value D) :
    (status.parseFromJson lib now document).defined=true ↔
      Readable (text "client_status") statusMembers document := by
  have hinside : ∀ inner, (status.readMembers lib now (.object inner)>>=fun r =>
      (pure (r,true) : Read (ClientStatus D×Bool))).defined=true ↔
        MembersFit statusMembers inner := by
    intro inner
    rw [Read.bind_defined,Read.pure_defined,Bool.and_true]
    exact readMembers_defined_iff lib now status inner
  exact readInside_defined_iff lib document (text "client_status") (status,false) hinside

theorem parseCommand_defined_iff (lib : Library D) (command : ControlCommand)
    (document : Value D) :
    (command.parseFromJson lib document).defined=true ↔
      Readable (text "control_command") [(text "command",.string)] document := by
  have hinside : ∀ inner : List (Bytes×Value D), (do
      if ←hasMember lib (.object inner) (text "command") then
        let name ← getString lib (←member lib (.object inner) (text "command"))
        return ((⟨toCommand name⟩ : ControlCommand),true)
      else return (command,false) : Read (ControlCommand×Bool)).defined=true ↔
        MembersFit [(text "command",.string)] inner := by
    intro inner
    have hkind : MembersFit [(text "command",.string)] inner ↔
        ∀ v, find inner (text "command")=some v → Kind.string.Fits v := by
      simp only [MembersFit,List.mem_singleton,forall_eq]
    rw [hkind]
    cases hfind : find inner (text "command") with
    | none => simp [hfind]
    | some v =>
      have hstring := accessible_iff lib .string v
      simp only [Option.some.injEq,forall_eq']
      rw [←hstring,Kind.accessible]
      simp [hfind]
  exact readInside_defined_iff lib document (text "control_command") (command,false) hinside

/-- Typed access to command-server JSON. Of a body that is JSON the two handlers use every
accessor where it may be used exactly when the document is an object, the member they
read is missing or an object, and its members that they read have the kinds, and the
ranges, that they are read as. -/
theorem service_access_defined_iff :
    ((setClientStatus host clientIp clientId data s).defined=true ↔
      BodyReadable host data (text "client_status") statusMembers) ∧
    ((setClientCommand host clientId data s).defined=true ↔
      BodyReadable host data (text "control_command") [(text "command",.string)]) := by
  unfold setClientStatus setClientCommand BodyReadable
  cases hparse : host.lib.parse (cStr data) with
  | none =>
    have hvacuous : ∀ name kinds, ∀ document : Value D,
        none=some document → Readable name kinds document := by
      intro name kinds document hnone
      cases hnone
    exact ⟨iff_of_true rfl (hvacuous _ _),iff_of_true rfl (hvacuous _ _)⟩
  | some document =>
    have hone : ∀ name kinds, (∀ document', some document=some document' →
        Readable name kinds document') ↔ Readable name kinds document := by
      intro name kinds
      constructor
      · intro h
        exact h document rfl
      · intro h document' hdocument
        obtain rfl := Option.some.inj hdocument
        exact h
    rw [hone,hone,←parseStatus_defined_iff host.lib s.now (ClientStatus.new host.lib),
      ←parseCommand_defined_iff host.lib ControlCommand.new]
    refine ⟨?_,?_⟩
    · rw [Read.bind_defined,Bool.and_eq_true,and_iff_left]
      dsimp only
      split
      · rfl
      · rfl
    · rw [Read.bind_defined,Read.pure_defined,Bool.and_true]

end Handlers

/-- A host that knows an array among its bodies. -/
def arrayHost : Host Unit :=
  {fourBodiesHost with
    lib := {fourBodies with parse := fun body => if body=text "[]" then some (.array []) else none}}

/-- On an array both handlers look for a member of something that is no object. -/
theorem array_not_readable :
    (arrayHost.lib.parse (cStr (text "[]"))).isSome=true ∧
    (setClientStatus arrayHost [] (text "rig") (text "[]") fourBodiesStart).defined=false ∧
    (setClientCommand arrayHost (text "rig") (text "[]") fourBodiesStart).defined=false := by
  exact ⟨rfl,rfl,rfl⟩

end XmrigCC.ServiceAccess
