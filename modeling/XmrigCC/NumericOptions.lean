import XmrigCC.TransitionRuns

/-!
# Options that are numbers

The cases of `Options::parseArg(int, uint64_t)` for counts, times and ports. Each compares a
number of 64 bits with its own bounds and casts it to `int`; other files multiply the times
to milliseconds, in `int` again.
-/

namespace XmrigCC.NumericOptions

open TransitionRuns

/-- The members of `Options` that these arguments set. -/
structure Options where
  /-- Attempts before the next pool is tried. -/
  m_retries : ℤ
  /-- Seconds between two attempts. -/
  m_retryPause : ℤ
  /-- Threads, a `size_t`. -/
  m_threads : ℤ
  /-- Per cent of the time that is donated. -/
  m_donateLevel : ℤ
  /-- Per cent of the processors, a `size_t`. -/
  m_maxCpuUsage : ℤ
  /-- Seconds between two reports of the hashrate. -/
  m_printTime : ℤ
  /-- Port of the API. -/
  m_apiPort : ℤ
  /-- Port of the command server. -/
  m_ccPort : ℤ
  /-- Seconds between two status reports. -/
  m_ccUpdateInterval : ℤ

/-- The options before any argument, with `kDonateLevel`. -/
def Options.new : Options := ⟨5,5,0,0,75,60,0,0,10⟩

/-- The keys of these arguments. -/
inductive Key where
  /-- `--retries`. -/
  | retries
  /-- `--retry-pause`. -/
  | retryPause
  /-- `--threads`. -/
  | threads
  /-- `--donate-level`. -/
  | donateLevel
  /-- `--max-cpu-usage`. -/
  | maxCpuUsage
  /-- `--print-time`. -/
  | printTime
  /-- `--api-port`. -/
  | apiPort
  /-- `--cc-port`. -/
  | ccPort
  /-- `--cc-update-interval-s`. -/
  | ccUpdateInterval
  deriving DecidableEq

/-- `(int) arg`. -/
def toInt (arg : UInt64) : ℤ := Int.bmod arg.toNat (2^32)

/-- `(int) arg` where a `size_t` is assigned. -/
def toSize (arg : UInt64) : ℤ := toInt arg%2^64

/-- What `parseArg` returns, and the options if it assigned to one. -/
structure Parsed where
  /-- Return value. -/
  accepted : Bool
  /-- The options after an assignment. -/
  assigned : Option Options

/-- The usage is shown. -/
def refuse : Parsed := ⟨false,none⟩

/-- The argument is passed over. -/
def ignore : Parsed := ⟨true,none⟩

/-- A member is assigned. -/
def assign (options : Options) : Parsed := ⟨true,some options⟩

namespace Options

variable (options : Options)

/-- `Options::parseArg(int, uint64_t)`. -/
def parseArg (arg : UInt64) : Key → Parsed
  | .retries =>
    if arg<1 ∨ 1000<arg then refuse else assign {options with m_retries := toInt arg}
  | .retryPause =>
    if arg<1 ∨ 3600<arg then refuse else assign {options with m_retryPause := toInt arg}
  | .threads =>
    if arg<1 ∨ 1024<arg then refuse else assign {options with m_threads := toSize arg}
  | .donateLevel =>
    if arg<1 ∨ 99<arg then ignore else assign {options with m_donateLevel := toInt arg}
  | .maxCpuUsage =>
    if arg<1 ∨ 100<arg then refuse else assign {options with m_maxCpuUsage := toSize arg}
  | .printTime => if 1000<arg then refuse else assign {options with m_printTime := toInt arg}
  | .apiPort => if arg ≤ 65536 then assign {options with m_apiPort := toInt arg} else ignore
  | .ccPort => if arg ≤ 65536 then assign {options with m_ccPort := toInt arg} else ignore
  | .ccUpdateInterval =>
    if arg<1 then refuse else assign {options with m_ccUpdateInterval := toInt arg}

/-- The member of a key. -/
def get : Key → ℤ
  | .retries => options.m_retries
  | .retryPause => options.m_retryPause
  | .threads => options.m_threads
  | .donateLevel => options.m_donateLevel
  | .maxCpuUsage => options.m_maxCpuUsage
  | .printTime => options.m_printTime
  | .apiPort => options.m_apiPort
  | .ccPort => options.m_ccPort
  | .ccUpdateInterval => options.m_ccUpdateInterval

/-- What is computed of it in `int`, step by step: `setRetryPause`, `DonateStrategy`, `Hashrate`
and `CCClient::onThreadStarted`. -/
def computed : Key → List ℤ
  | .retryPause => [options.m_retryPause*1000]
  | .donateLevel =>
    [options.m_donateLevel*60,options.m_donateLevel*60*1000,100-options.m_donateLevel,
      (100-options.m_donateLevel)*60,(100-options.m_donateLevel)*60*1000]
  | .printTime =>
    [options.m_printTime+4,(options.m_printTime+4)*1000,options.m_printTime*1000]
  | .ccUpdateInterval => [options.m_ccUpdateInterval*1000]
  | _ => []

end Options

/-- The keys of ports. -/
def Key.isPort : Key → Bool
  | .apiPort | .ccPort => true
  | _ => false

/-- A member is in range, and so is all that is computed of it. -/
structure InRange (options : Options) (key : Key) : Prop where
  /-- Ports have 16 bits. -/
  port : key.isPort=true → options.get key ≤ 65535
  /-- Reports are a second apart at least. -/
  interval : key=.ccUpdateInterval → 1 ≤ options.get key
  /-- No `int` overflows. -/
  computed : ∀ n∈options.computed key, -2^31 ≤ n ∧ n<2^31

/-- An argument that is stored is stored as given and in range. -/
def StoredRight (options : Options) (key : Key) (arg : UInt64) : Prop :=
  ∀ options', (options.parseArg arg key).assigned=some options' →
    options'.get key=arg.toNat ∧ InRange options' key

/-- A port is not 65536, and an update interval has at most as many seconds as an `int` has
milliseconds. -/
def ArgSound (key : Key) (arg : UInt64) : Prop :=
  (key.isPort=true → arg.toNat ≠ 65536) ∧ (key=.ccUpdateInterval → arg.toNat ≤ 2147483)

section Casts

variable {arg : UInt64}

theorem toInt_eq (h : arg.toNat<2147483648) : toInt arg=arg.toNat :=
  Int.bmod_eq_of_le_mul_two (by push_cast; omega) (by push_cast; omega)

theorem toSize_eq (h : arg.toNat<2147483648) : toSize arg=arg.toNat := by
  rw [toSize,toInt_eq h]
  exact Int.emod_eq_of_lt (by omega) (by omega)

/-- The cast of no argument is 2^31. -/
theorem toInt_lt (arg : UInt64) : toInt arg<2147483648 :=
  Int.bmod_lt (m:=2^32) (by decide)

/-- An argument between its bounds. -/
theorem between {low high : UInt64} (h : ¬(arg<low ∨ high<arg)) :
    low.toNat ≤ arg.toNat ∧ arg.toNat ≤ high.toNat := by
  rw [not_or,UInt64.not_lt,UInt64.not_lt,UInt64.le_iff_toNat_le,UInt64.le_iff_toNat_le] at h
  exact h

end Casts

section Cases

variable {options options' : Options} {key : Key} {arg : UInt64}

/-- What an argument with two bounds assigns. -/
theorem assigned_between {low high : UInt64} {otherwise : Parsed} {o : Options}
    (hotherwise : otherwise.assigned=none)
    (h : (if arg<low ∨ high<arg then otherwise else assign o).assigned=some options') :
    (low.toNat ≤ arg.toNat ∧ arg.toNat ≤ high.toNat) ∧ options'=o := by
  split at h
  · rw [hotherwise] at h
    cases h
  · rename_i hok
    exact ⟨between hok,(Option.some.inj h).symm⟩

/-- A member that is neither a port nor the update interval. -/
theorem inRange_of_computed (hport : key.isPort=false) (hinterval : key ≠ .ccUpdateInterval)
    (hcomputed : ∀ n∈options.computed key, -2^31 ≤ n ∧ n<2^31) : InRange options key :=
  ⟨fun h => (nomatch hport.symm.trans h),fun h => absurd h hinterval,hcomputed⟩

/-- An argument between two bounds is stored right when what is computed of a number between
them is in range. -/
theorem storedRight_between {low high : UInt64} {otherwise : Parsed} {o : Options}
    (hport : key.isPort=false) (hinterval : key ≠ .ccUpdateInterval)
    (hhigh : high.toNat<2147483648) (hotherwise : otherwise.assigned=none)
    (hparse : options.parseArg arg key=if arg<low ∨ high<arg then otherwise else assign o)
    (hget : o.get key=toInt arg ∨ o.get key=toSize arg)
    (hcomputed : ∀ v, toInt arg=v → low.toNat ≤ v → v ≤ high.toNat → ∀ n∈o.computed key,
      -2^31 ≤ n ∧ n<2^31) : StoredRight options key arg := by
  intro options' h
  rw [hparse] at h
  obtain ⟨hbounds,rfl⟩ := assigned_between hotherwise h
  have hsmall : arg.toNat<2147483648 := by omega
  refine ⟨?_,inRange_of_computed hport hinterval ?_⟩
  · rcases hget with hget | hget
    · rw [hget,toInt_eq hsmall]
    · rw [hget,toSize_eq hsmall]
  · exact hcomputed arg.toNat (toInt_eq hsmall) (by omega) (by omega)

/-- Arguments other than ports and the update interval are stored right. -/
theorem storedRight_of_bounded (options : Options) (arg : UInt64) (hport : key.isPort=false)
    (hinterval : key ≠ .ccUpdateInterval) : StoredRight options key arg := by
  cases key with
  | retries =>
    exact storedRight_between hport hinterval (by decide) rfl rfl (.inl (by rw [Options.get]))
      fun v _ _ _ n hn => nomatch hn
  | retryPause =>
    refine storedRight_between hport hinterval (by decide) rfl rfl (.inl (by rw [Options.get])) ?_
    intro v hv hlow hhigh
    simp only [UInt64.reduceToNat] at hlow hhigh
    simp only [Options.computed,hv,List.forall_mem_cons,List.not_mem_nil,IsEmpty.forall_iff,
      implies_true,and_true]
    omega
  | threads =>
    exact storedRight_between hport hinterval (by decide) rfl rfl (.inr (by rw [Options.get]))
      fun v _ _ _ n hn => nomatch hn
  | donateLevel =>
    refine storedRight_between hport hinterval (by decide) rfl rfl (.inl (by rw [Options.get])) ?_
    intro v hv hlow hhigh
    simp only [UInt64.reduceToNat] at hlow hhigh
    simp only [Options.computed,hv,List.forall_mem_cons,List.not_mem_nil,IsEmpty.forall_iff,
      implies_true,and_true]
    omega
  | maxCpuUsage =>
    exact storedRight_between hport hinterval (by decide) rfl rfl (.inr (by rw [Options.get]))
      fun v _ _ _ n hn => nomatch hn
  | printTime =>
    -- it has no lower bound but 0
    have hparse : options.parseArg arg .printTime=if arg<0 ∨ 1000<arg then refuse else
        assign {options with m_printTime := toInt arg} := by
      rw [Options.parseArg]
      simp only [UInt64.not_lt_zero,false_or]
    refine storedRight_between hport hinterval (by decide) rfl hparse
      (.inl (by rw [Options.get])) ?_
    intro v hv hlow hhigh
    simp only [UInt64.reduceToNat] at hlow hhigh
    simp only [Options.computed,hv,List.forall_mem_cons,List.not_mem_nil,IsEmpty.forall_iff,
      implies_true,and_true]
    omega
  | apiPort => cases hport
  | ccPort => cases hport
  | ccUpdateInterval => exact absurd rfl hinterval

/-- What a port's case assigns. -/
theorem assigned_port {o : Options}
    (h : (if arg ≤ 65536 then assign o else ignore).assigned=some options') :
    arg.toNat ≤ 65536 ∧ options'=o := by
  split at h
  · rename_i hle
    exact ⟨UInt64.le_iff_toNat_le.mp hle,(Option.some.inj h).symm⟩
  · cases h

/-- A port is stored right unless it is 65536. -/
theorem storedRight_port_iff (options : Options) (arg : UInt64) (hport : key.isPort=true) :
    StoredRight options key arg ↔ arg.toNat ≠ 65536 := by
  have hcase : ∃ o, options.parseArg arg key=(if arg ≤ 65536 then assign o else ignore) ∧
      o.get key=toInt arg ∧ o.computed key=[] := by
    cases key with
    | apiPort => exact ⟨{options with m_apiPort := toInt arg},rfl,by rw [Options.get],rfl⟩
    | ccPort => exact ⟨{options with m_ccPort := toInt arg},rfl,by rw [Options.get],rfl⟩
    | _ => cases hport
  obtain ⟨o,hparse,hget,hcomputed⟩ := hcase
  constructor
  · intro h hlimit
    have hle : arg ≤ 65536 := by
      rw [UInt64.le_iff_toNat_le,hlimit]
      exact Nat.le_refl 65536
    have hstored := h o (by rw [hparse,if_pos hle]; rfl)
    have hmax := hstored.2.port hport
    rw [hstored.1,hlimit] at hmax
    exact absurd hmax (by decide)
  · intro hne options' h
    rw [hparse] at h
    obtain ⟨hle,rfl⟩ := assigned_port h
    have hvalue : toInt arg=arg.toNat := toInt_eq (by omega)
    refine ⟨by rw [hget,hvalue],fun _ => by rw [hget,hvalue]; omega,?_,?_⟩
    · rintro rfl
      cases hport
    · rw [hcomputed]
      exact fun n hn => nomatch hn

/-- An update interval is stored right when its milliseconds are an `int`, or it is 0. -/
theorem storedRight_interval_iff (options : Options) (arg : UInt64) :
    StoredRight options .ccUpdateInterval arg ↔ arg.toNat ≤ 2147483 := by
  obtain ⟨o,hparse,hget,hcomputed⟩ : ∃ o,
      options.parseArg arg .ccUpdateInterval=(if arg<1 then refuse else assign o) ∧
      o.get .ccUpdateInterval=toInt arg ∧ o.computed .ccUpdateInterval=[toInt arg*1000] :=
    ⟨{options with m_ccUpdateInterval := toInt arg},rfl,by rw [Options.get],by
      rw [Options.computed]⟩
  constructor
  · intro h
    by_cases hzero : arg<1
    · rw [UInt64.lt_iff_toNat_lt,UInt64.toNat_one] at hzero
      omega
    · obtain ⟨hvalue,-,-,hfits⟩ := h o (by rw [hparse,if_neg hzero]; rfl)
      rw [hget] at hvalue
      rw [hcomputed,hvalue] at hfits
      have hmax := (hfits _ List.mem_cons_self).2
      omega
  · intro hle options' h
    rw [hparse] at h
    split at h
    · cases h
    · rename_i hpos
      obtain rfl := Option.some.inj h
      have hvalue : toInt arg=arg.toNat := toInt_eq (by omega)
      rw [UInt64.not_lt,UInt64.le_iff_toNat_le,UInt64.toNat_one] at hpos
      refine ⟨by rw [hget,hvalue],fun h => (nomatch h),fun _ => by rw [hget,hvalue]; omega,?_⟩
      rw [hcomputed,hvalue]
      intro n hn
      rw [List.mem_singleton.mp hn]
      omega

/-- A sound argument is stored right. -/
theorem storedRight_of_sound (options : Options) (h : ArgSound key arg) :
    StoredRight options key arg := by
  by_cases hport : key.isPort=true
  · exact (storedRight_port_iff options arg hport).mpr (h.1 hport)
  · by_cases hinterval : key=.ccUpdateInterval
    · subst hinterval
      exact (storedRight_interval_iff options arg).mpr (h.2 rfl)
    · exact storedRight_of_bounded options arg ((Bool.not_eq_true _).mp hport) hinterval

/-- An argument is assigned to the member of its own key. -/
theorem assigned_frame (h : (options.parseArg arg key).assigned=some options') {other : Key}
    (hne : other ≠ key) :
    options'.get other=options.get other ∧ options'.computed other=options.computed other := by
  cases key <;> rw [Options.parseArg] at h <;> split at h
  all_goals
    first
    | obtain rfl := Option.some.inj h
      cases other <;>
        first | exact absurd rfl hne | simp only [Options.get,Options.computed,and_self]
    | cases h

end Cases

/-- The options after an argument. -/
def setOption (options : Options) (setting : Key×UInt64) : Options :=
  (options.parseArg setting.2 setting.1).assigned.getD options

/-- Every member is in range. -/
def AllInRange (options : Options) : Prop := ∀ key, InRange options key

theorem allInRange_new : AllInRange Options.new := by
  intro key
  cases key <;> refine ⟨?_,?_,?_⟩ <;> decide

/-- A sound argument keeps all of them in range. -/
theorem allInRange_setOption {options : Options} {setting : Key×UInt64}
    (h : AllInRange options) (hsound : ArgSound setting.1 setting.2) :
    AllInRange (setOption options setting) := by
  intro other
  rw [setOption]
  cases hparse : (options.parseArg setting.2 setting.1).assigned with
  | none => exact h other
  | some options' =>
    by_cases hkey : other=setting.1
    · rw [hkey]
      exact (storedRight_of_sound options hsound options' hparse).2
    · obtain ⟨hget,hcomputed⟩ := assigned_frame hparse hkey
      obtain ⟨hport,hinterval,hfits⟩ := h other
      rw [←hget] at hport hinterval
      rw [←hcomputed] at hfits
      exact ⟨hport,hinterval,hfits⟩

/-- So do all arguments of a command line that are sound. -/
theorem allInRange_run (settings : List (Key×UInt64))
    (h : ∀ setting∈settings, ArgSound setting.1 setting.2) :
    AlongStates setOption AllInRange Options.new settings :=
  invariant_alongStates (fun _ _ => allInRange_setOption) allInRange_new
    (alongSteps_of_forall (fun setting hsetting _ => h setting hsetting) Options.new)

/-- Numbers given as arguments. One that is stored is stored as given and in range exactly when
it is no port 65536 and no update interval of more than 2147483 seconds. -/
theorem stored_right_iff (options : Options) (key : Key) (arg : UInt64) :
    StoredRight options key arg ↔ ArgSound key arg := by
  refine ⟨fun h => ⟨fun hport => (storedRight_port_iff options arg hport).mp h,?_⟩,
    storedRight_of_sound options⟩
  rintro rfl
  exact (storedRight_interval_iff options arg).mp h

/-- A port of 17 bits is stored, and an interval of a month. -/
theorem wide_numbers_not_stored_right :
    ¬StoredRight Options.new .apiPort 65536 ∧
      ¬StoredRight Options.new .ccUpdateInterval 2592000 := by
  have hport : toInt 65536=65536 := toInt_eq (by decide)
  have hinterval : toInt 2592000=2592000 := toInt_eq (by decide)
  constructor
  · intro h
    have hmax := (h {Options.new with m_apiPort := toInt 65536} rfl).2.port rfl
    rw [Options.get,hport] at hmax
    exact absurd hmax (by decide)
  · intro h
    have hfits := (h {Options.new with m_ccUpdateInterval := toInt 2592000} rfl).2.computed
    rw [Options.computed,hinterval] at hfits
    exact absurd (hfits 2592000000 (by decide)).2 (by decide)

end XmrigCC.NumericOptions
