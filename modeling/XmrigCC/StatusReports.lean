import XmrigCC.ServiceAccess

/-!
# Status reports read back

What `ClientStatus::toJson` writes is what `ClientStatus::parseFromJson` reads, member by
member. A report that leaves members out changes no other field, the time of the last
report apart.
-/

namespace XmrigCC.StatusReports

open ByteText JsonValues ClientStatuses ServiceAccess CommandService

variable {D : Type}

/-- No string of a status ends early. -/
structure NulFree (s : ClientStatus D) : Prop where
  /-- The miner's name. -/
  clientId : 0∉s.m_clientId
  /-- The pool. -/
  currentPool : 0∉s.m_currentPool
  /-- The algorithm. -/
  currentAlgoName : 0∉s.m_currentAlgoName
  /-- The CPU. -/
  cpuBrand : 0∉s.m_cpuBrand
  /-- The address. -/
  externalIp : 0∉s.m_externalIp
  /-- The version. -/
  version : 0∉s.m_version

/-- The values that `toJson` writes for members of a kind. -/
def Written : Kind → Value D → Prop
  | .string,.string value => 0∉value
  | .bool,.bool _ => True
  | .int,.int value => -2^31 ≤ value ∧ value<2^31
  | .uint,.int value => 0 ≤ value ∧ value<2^32
  | .uint64,.int value => 0 ≤ value ∧ value<2^64
  | .double,.double _ => True
  | _,_ => False

theorem Written.fits {kind : Kind} {v : Value D} (h : Written kind v) : kind.Fits v := by
  cases kind <;> cases v <;> first | exact h | trivial

/-- Of the members that are read, each that is there is one that `toJson` could write. -/
def MembersWritten (members : List (Bytes×Value D)) : Prop :=
  ∀ entry∈statusMembers, ∀ v, find members entry.1=some v → Written entry.2 v

theorem MembersWritten.fit {members : List (Bytes×Value D)} (h : MembersWritten members) :
    MembersFit statusMembers members :=
  fun entry he v hv => (h entry he v hv).fits

/-- A field is what a member says if it is there, else what it was. -/
def Takes {α : Type} (tells : Value D → α → Prop) (members : List (Bytes×Value D))
    (name : Bytes) (old new : α) : Prop :=
  (∀ v, find members name=some v → tells v new) ∧ (find members name=none → new=old)

/-- A text is a status; one that names none is taken for the first. -/
def SaysStatus (v : Value D) (status : Status) : Prop :=
  v=.string status.toString ∨
    status=.RUNNING ∧ ∀ other : Status, v ≠ .string other.toString

/-- Every field but the time of the report is what the members given say, or what it was. -/
def Updated (members : List (Bytes×Value D)) (old new : ClientStatus D) : Prop :=
  let strings (name : String) (field : ClientStatus D → Bytes) :=
    Takes (fun v a => v=.string a) members (text name) (field old) (field new)
  let bools (name : String) (field : ClientStatus D → Bool) :=
    Takes (fun v a => v=.bool a) members (text name) (field old) (field new)
  let ints (name : String) (field : ClientStatus D → Int32) :=
    Takes (fun v a => v=.int a.toInt) members (text name) (field old) (field new)
  let uints (name : String) (field : ClientStatus D → UInt32) :=
    Takes (fun v a => v=.int a.toNat) members (text name) (field old) (field new)
  let uint64s (name : String) (field : ClientStatus D → UInt64) :=
    Takes (fun v a => v=.int a.toNat) members (text name) (field old) (field new)
  let doubles (name : String) (field : ClientStatus D → D) :=
    Takes (fun v a => v=.double a) members (text name) (field old) (field new)
  Takes SaysStatus members (text "current_status") old.m_currentStatus new.m_currentStatus ∧
  strings "client_id" (·.m_clientId) ∧ strings "current_pool" (·.m_currentPool) ∧
  strings "current_algo_name" (·.m_currentAlgoName) ∧ strings "cpu_brand" (·.m_cpuBrand) ∧
  strings "external_ip" (·.m_externalIp) ∧ strings "version" (·.m_version) ∧
  bools "hugepages_available" (·.m_hasHugepages) ∧
  bools "hugepages_enabled" (·.m_isHugepagesEnabled) ∧
  ints "hash_factor" (·.m_hashFactor) ∧
  bools "cpu_is_x64" (·.m_isCpuX64) ∧ bools "cpu_has_aes" (·.m_hasCpuAES) ∧
  doubles "hashrate_short" (·.m_hashrateShort) ∧
  doubles "hashrate_medium" (·.m_hashrateMedium) ∧
  doubles "hashrate_long" (·.m_hashrateLong) ∧
  doubles "hashrate_highest" (·.m_hashrateHighest) ∧
  ints "current_threads" (·.m_currentThreads) ∧ ints "cpu_sockets" (·.m_cpuSockets) ∧
  ints "cpu_cores" (·.m_cpuCores) ∧ ints "cpu_threads" (·.m_cpuThreads) ∧
  ints "cpu_l2" (·.m_cpuL2) ∧ ints "cpu_l3" (·.m_cpuL3) ∧
  uint64s "shares_good" (·.m_sharesGood) ∧ uint64s "shares_total" (·.m_sharesTotal) ∧
  uint64s "hashes_total" (·.m_hashesTotal) ∧ uints "avg_time" (·.m_avgTime)

theorem cStr_eq_self {b : Bytes} (h : 0∉b) : cStr b=b := by
  rw [cStr,List.takeWhile_eq_self_iff]
  intro c hc
  simpa using fun h0 : c=0 => h (h0 ▸ hc)

section Members

variable (lib : Library D) {members : List (Bytes×Value D)} {name : Bytes}

/-- The accessor for a kind finds what a member says. -/
theorem takes_readMember {α : Type} {kind : Kind} {get : Value D → Read α}
    {tells : Value D → α → Prop} (hget : ∀ v, Written kind v → tells v (get v).value)
    (hw : ∀ v, find members name=some v → Written kind v) (old : α) :
    Takes tells members name old (readMember lib (.object members) name get old).value := by
  constructor
  · intro v hv
    have hread : (readMember lib (.object members) name get old).value=(get v).value := by
      simp [readMember,hv]
    rw [hread]
    exact hget v (hw v hv)
  · intro hv
    simp [readMember,hv]

theorem getString_written (v : Value D) (h : Written .string v) :
    v=.string (getString lib v).value := by
  cases v with
  | string b => rw [getString_string,cStr_eq_self h]
  | _ => exact h.elim

/-- The text of a status gives it back. -/
theorem toStatus_written (v : Value D) (h : Written .string v) :
    SaysStatus v (toStatus <$> getString lib v).value := by
  cases v with
  | string b =>
    rw [Read.map_value,getString_string,cStr_eq_self h]
    by_cases hother : ∃ status : Status, status.toString=b
    · obtain ⟨status,rfl⟩ := hother
      left
      cases status <;> rfl
    · right
      have hne : ∀ status : Status, status.toString ≠ b := fun status hs => hother ⟨status,hs⟩
      refine ⟨?_,fun other he => hne other (Value.string.inj he).symm⟩
      simp [toStatus,hne]
  | _ => exact h.elim

theorem getBool_written (v : Value D) (h : Written .bool v) : v=.bool (getBool v).value := by
  cases v with
  | bool b => rfl
  | _ => exact h.elim

theorem getInt_written (v : Value D) (h : Written .int v) :
    v=.int (getInt lib v).value.toInt := by
  cases v with
  | int n => exact congrArg Value.int (Int32.toInt_ofInt_of_le h.1 h.2).symm
  | _ => exact h.elim

theorem toNat_ofInt32 {n : ℤ} (h : 0 ≤ n ∧ n<2^32) : ((UInt32.ofInt n).toNat : ℤ)=n := by
  rw [UInt32.ofInt,Int.emod_eq_of_lt h.1 h.2,UInt32.toNat_ofNat_of_lt' (by show _ < 2^32; omega),
    Int.toNat_of_nonneg h.1]

theorem toNat_ofInt64 {n : ℤ} (h : 0 ≤ n ∧ n<2^64) : ((UInt64.ofInt n).toNat : ℤ)=n := by
  rw [UInt64.ofInt,Int.emod_eq_of_lt h.1 h.2,UInt64.toNat_ofNat_of_lt' (by show _ < 2^64; omega),
    Int.toNat_of_nonneg h.1]

theorem getUint_written (v : Value D) (h : Written .uint v) :
    v=.int (getUint lib v).value.toNat := by
  cases v with
  | int n => exact congrArg Value.int (toNat_ofInt32 h).symm
  | _ => exact h.elim

theorem getUint64_written (v : Value D) (h : Written .uint64 v) :
    v=.int (getUint64 lib v).value.toNat := by
  cases v with
  | int n => exact congrArg Value.int (toNat_ofInt64 h).symm
  | _ => exact h.elim

theorem getDouble_written (v : Value D) (h : Written .double v) :
    v=.double (getDouble lib v).value := by
  cases v with
  | double d => rfl
  | _ => exact h.elim

end Members

section Reports

variable (lib : Library D) (now : Int64)

/-- Reading a report updates every field. -/
theorem readMembers_updated (old : ClientStatus D) {members : List (Bytes×Value D)}
    (h : MembersWritten members) :
    Updated members old (old.readMembers lib now (.object members)).value := by
  simp only [MembersWritten,statusMembers,List.forall_mem_cons] at h
  obtain ⟨h1,h2,h3,h4,h5,h6,h7,h8,h9,h10,h11,h12,h13,h14,h15,h16,h17,h18,h19,h20,h21,h22,h23,
    h24,h25,h26,-⟩ := h
  have hstring := getString_written lib
  have hint := getInt_written lib
  have huint64 := getUint64_written lib
  have hdouble := getDouble_written lib
  refine ⟨takes_readMember lib (toStatus_written lib) h1 _,
    takes_readMember lib hstring h2 _,takes_readMember lib hstring h3 _,
    takes_readMember lib hstring h4 _,takes_readMember lib hstring h5 _,
    takes_readMember lib hstring h6 _,takes_readMember lib hstring h7 _,
    takes_readMember lib getBool_written h8 _,takes_readMember lib getBool_written h9 _,
    takes_readMember lib hint h10 _,
    takes_readMember lib getBool_written h11 _,takes_readMember lib getBool_written h12 _,
    takes_readMember lib hdouble h13 _,takes_readMember lib hdouble h14 _,
    takes_readMember lib hdouble h15 _,takes_readMember lib hdouble h16 _,
    takes_readMember lib hint h17 _,takes_readMember lib hint h18 _,
    takes_readMember lib hint h19 _,takes_readMember lib hint h20 _,
    takes_readMember lib hint h21 _,takes_readMember lib hint h22 _,
    takes_readMember lib huint64 h23 _,takes_readMember lib huint64 h24 _,
    takes_readMember lib huint64 h25 _,
    takes_readMember lib (getUint_written lib) h26 _⟩

/-- A document with such a report is read without a fault. -/
theorem parseFromJson_updated (old : ClientStatus D) {document members : List (Bytes×Value D)}
    (hd : find document (text "client_status")=some (.object members))
    (h : MembersWritten members) :
    ∃ new, old.parseFromJson lib now (.object document)=⟨(new,true),true⟩ ∧
      Updated members old new ∧ new.m_lastStatusUpdate=now := by
  refine ⟨(old.readMembers lib now (.object members)).value,?_,
    readMembers_updated lib now old h,rfl⟩
  have hdefined := (readMembers_defined_iff lib now old members).mpr h.fit
  ext1
  · simp [ClientStatus.parseFromJson,hd]
  · simp [ClientStatus.parseFromJson,hd,hdefined]

/-- The members of a report. -/
def members : Value D → List (Bytes×Value D)
  | .object members => members
  | _ => []

theorem written_of_find {found : List (Bytes×Value D)} {name : Bytes} {kind : Kind}
    {w : Value D} (hfind : find found name=some w) (hw : Written kind w) :
    ∀ v, find found name=some v → Written kind v := by
  intro v hv
  rw [hfind] at hv
  exact Option.some.inj hv ▸ hw

theorem zero_not_mem_cStr (b : Bytes) : 0∉cStr b := by
  intro h
  simpa using List.mem_takeWhile_imp h

theorem zero_not_mem_toString (status : Status) : 0∉status.toString := by
  cases status <;> decide

theorem int32_written (n : Int32) : Written .int (.int n.toInt : Value D) :=
  ⟨n.le_toInt,n.toInt_lt⟩

theorem uint64_written (n : UInt64) : Written .uint64 (.int n.toNat : Value D) :=
  ⟨by positivity,by have := n.toNat_lt; omega⟩

theorem uint32_written (n : UInt32) : Written .uint (.int n.toNat : Value D) :=
  ⟨by positivity,by have := n.toNat_lt; omega⟩

/-- `toJson` writes every member that is read, and each as its kind. -/
theorem toJson_written (s : ClientStatus D) : MembersWritten (members s.toJson) := by
  have hstring : ∀ b, Written .string (.string (cStr b) : Value D) := zero_not_mem_cStr
  simp only [MembersWritten,statusMembers,List.forall_mem_cons]
  refine ⟨written_of_find rfl (zero_not_mem_toString s.m_currentStatus),
    written_of_find rfl (hstring _),written_of_find rfl (hstring _),
    written_of_find rfl (hstring _),written_of_find rfl (hstring _),
    written_of_find rfl (hstring _),written_of_find rfl (hstring _),
    written_of_find rfl trivial,written_of_find rfl trivial,
    written_of_find rfl (int32_written _),
    written_of_find rfl trivial,written_of_find rfl trivial,
    written_of_find rfl trivial,written_of_find rfl trivial,
    written_of_find rfl trivial,written_of_find rfl trivial,
    written_of_find rfl (int32_written _),written_of_find rfl (int32_written _),
    written_of_find rfl (int32_written _),written_of_find rfl (int32_written _),
    written_of_find rfl (int32_written _),written_of_find rfl (int32_written _),
    written_of_find rfl (uint64_written _),written_of_find rfl (uint64_written _),
    written_of_find rfl (uint64_written _),written_of_find rfl (uint32_written _),?_⟩
  simp

section Fields

variable {found : List (Bytes×Value D)} {name : Bytes}

/-- A field takes what was written. -/
theorem Takes.eq {α : Type} {written : α → Value D} {old new a : α}
    (h : Takes (fun v a => v=written a) found name old new)
    (hinj : Function.Injective written) (hfind : find found name=some (written a)) : new=a :=
  (hinj (h.1 _ hfind)).symm

theorem Takes.eq_status {old new status : Status} (h : Takes SaysStatus found name old new)
    (hfind : find found name=some (.string status.toString)) : new=status := by
  rcases h.1 _ hfind with he | ⟨-,hne⟩
  · have htext : status.toString=new.toString := Value.string.inj he
    cases status <;> cases new <;> first | rfl | exact absurd htext (by decide)
  · exact absurd rfl (hne status)

theorem int_injective : Function.Injective fun n : Int32 => (.int n.toInt : Value D) :=
  fun _ _ h => Int32.toInt_inj.mp (Value.int.inj h)

theorem uint_injective : Function.Injective fun n : UInt32 => (.int n.toNat : Value D) :=
  fun _ _ h => UInt32.toNat_inj.mp (Int.ofNat.inj (Value.int.inj h))

theorem uint64_injective : Function.Injective fun n : UInt64 => (.int n.toNat : Value D) :=
  fun _ _ h => UInt64.toNat_inj.mp (Int.ofNat.inj (Value.int.inj h))

end Fields

attribute [ext] ClientStatus

/-- A report with every member leaves nothing of what was there. -/
theorem Updated.eq {s old new : ClientStatus D} (hs : NulFree s)
    (h : Updated (members s.toJson) old new) :
    new={s with m_lastStatusUpdate := new.m_lastStatusUpdate} := by
  obtain ⟨h1,h2,h3,h4,h5,h6,h7,h8,h9,h10,h11,h12,h13,h14,h15,h16,h17,h18,h19,h20,h21,h22,h23,
    h24,h25,h26⟩ := h
  have hstring : Function.Injective (Value.string : Bytes → Value D) :=
    fun _ _ he => Value.string.inj he
  have hbool : Function.Injective (Value.bool : Bool → Value D) :=
    fun _ _ he => Value.bool.inj he
  have hdouble : Function.Injective (Value.double : D → Value D) :=
    fun _ _ he => Value.double.inj he
  exact ClientStatus.ext (h1.eq_status rfl)
    ((h2.eq hstring rfl).trans (cStr_eq_self hs.clientId))
    ((h3.eq hstring rfl).trans (cStr_eq_self hs.currentPool))
    ((h4.eq hstring rfl).trans (cStr_eq_self hs.currentAlgoName))
    ((h5.eq hstring rfl).trans (cStr_eq_self hs.cpuBrand))
    ((h6.eq hstring rfl).trans (cStr_eq_self hs.externalIp))
    ((h7.eq hstring rfl).trans (cStr_eq_self hs.version))
    (h8.eq hbool rfl) (h9.eq hbool rfl) (h11.eq hbool rfl) (h12.eq hbool rfl)
    (h10.eq int_injective rfl)
    (h13.eq hdouble rfl) (h14.eq hdouble rfl) (h15.eq hdouble rfl) (h16.eq hdouble rfl)
    (h17.eq int_injective rfl) (h18.eq int_injective rfl) (h19.eq int_injective rfl)
    (h20.eq int_injective rfl) (h21.eq int_injective rfl) (h22.eq int_injective rfl)
    (h23.eq uint64_injective rfl) (h24.eq uint64_injective rfl) (h25.eq uint64_injective rfl)
    (h26.eq uint_injective rfl) rfl

/-- A whole report makes a status equal to the one reported, up to the time it came in, and
of a partial one each member is taken up and every other field kept. -/
theorem report_round_trip (old : ClientStatus D) :
    (∀ s : ClientStatus D, NulFree s →
      old.parseFromJson lib now (.object [(text "client_status",s.toJson)])=
        ⟨({s with m_lastStatusUpdate := now},true),true⟩) ∧
    ∀ document partly, find document (text "client_status")=some (.object partly) →
      MembersWritten partly →
      ∃ new, old.parseFromJson lib now (.object document)=⟨(new,true),true⟩ ∧
        Updated partly old new ∧ new.m_lastStatusUpdate=now := by
  refine ⟨?_,fun document partly => parseFromJson_updated lib now old⟩
  intro s hs
  have hfound : find [(text "client_status",s.toJson)] (text "client_status")=
      some (.object (members s.toJson)) := rfl
  obtain ⟨new,hnew,hupdated,htime⟩ := parseFromJson_updated lib now old hfound (toJson_written s)
  rw [hnew,hupdated.eq hs,htime]

end Reports

/-- A report of one member. -/
def factorReport : List (Bytes×Value ℤ) := [(text "hash_factor",.int 5)]

theorem factorReport_written : MembersWritten factorReport := by
  have hkind : ∀ entry∈statusMembers, entry.1=text "hash_factor" → entry.2=Kind.int := by decide
  rintro ⟨name,kind⟩ he v hv
  by_cases hname : text "hash_factor"=name
  · subst hname
    obtain rfl := hkind _ he rfl
    obtain rfl := Option.some.inj hv
    exact ⟨by decide,by decide⟩
  · simp [factorReport,find,hname] at hv

/-- A library whose doubles are counted in tenths; it reads no body. -/
def inTenths : Library ℤ where
  parse _ := none
  write _ := []
  prettyWrite _ := []
  ofInt n := 10*n
  strayHasMember _ _ := false
  strayMember _ _ := .null
  strayString _ := []
  strayBits _ := 0

/-- The status of a miner at work, with its rates in tenths. -/
def busyStatus : ClientStatus ℤ where
  m_currentStatus := .RUNNING
  m_clientId := text "a"
  m_currentPool := text "pool:3333"
  m_currentAlgoName := text "cryptonight"
  m_cpuBrand := text "a \"fast\" CPU"
  m_externalIp := text "10.0.0.7"
  m_version := text "1.6.0"
  m_hasHugepages := true
  m_isHugepagesEnabled := false
  m_isCpuX64 := true
  m_hasCpuAES := false
  m_hashFactor := 2
  m_hashrateShort := 5
  m_hashrateMedium := 4
  m_hashrateLong := 3
  m_hashrateHighest := 9
  m_currentThreads := 7
  m_cpuSockets := 1
  m_cpuCores := 4
  m_cpuThreads := 8
  m_cpuL2 := 1024
  m_cpuL3 := -1
  m_sharesGood := 10
  m_sharesTotal := 12
  m_hashesTotal := 2^40
  m_avgTime := 31
  m_lastStatusUpdate := 0

theorem nulFree_busyStatus : NulFree busyStatus := by constructor <;> decide

/-- A miner at work is taken up by a new status, and one member after that. -/
theorem report_round_trip_busy :
    (ClientStatus.new inTenths).parseFromJson inTenths 7
        (.object [(text "client_status",busyStatus.toJson)])=
      ⟨({busyStatus with m_lastStatusUpdate := 7},true),true⟩ ∧
    ∃ new, busyStatus.parseFromJson inTenths 9
        (.object [(text "client_status",.object factorReport)])=⟨(new,true),true⟩ ∧
      Updated factorReport busyStatus new ∧ new.m_lastStatusUpdate=9 := by
  have hwhole := report_round_trip inTenths 7 (ClientStatus.new inTenths)
  have hpart := report_round_trip inTenths 9 busyStatus
  exact ⟨hwhole.1 busyStatus nulFree_busyStatus,hpart.2 _ factorReport rfl factorReport_written⟩

end XmrigCC.StatusReports
