import XmrigCC.NaturalArithmetic

/-!
# Tuning to cache and processor

`CpuImpl::optimizeParameters` settles the number of threads and the hash factor from what was
given, 0 standing for automatic. Together they are to fit the cache; each automatic value is
computed from the other one.
-/

namespace XmrigCC.CpuTuning

open NaturalArithmetic

/-- `Options::Algo`. -/
inductive Algo where
  /-- `ALGO_CRYPTONIGHT`. -/
  | cryptonight
  /-- `ALGO_CRYPTONIGHT_LITE`. -/
  | cryptonightLite
  deriving DecidableEq

/-- What `CpuImpl` knows of the processor; cache sizes are in KB. -/
structure CpuImpl where
  /-- The second level holds nothing that the third holds. -/
  m_l2_exclusive : Bool
  /-- Second level cache. -/
  m_l2_cache : ℕ
  /-- Third level cache. -/
  m_l3_cache : ℕ
  /-- Logical processors. -/
  m_totalThreads : ℕ

/-- `MAX_NUM_HASH_BLOCKS`. -/
def MAX_NUM_HASH_BLOCKS : ℕ := 5

/-- `CpuImpl::availableCache`; the sum is one of `size_t`. -/
def CpuImpl.availableCache (cpu : CpuImpl) : ℕ :=
  if cpu.m_l3_cache ≠ 0 then
    if cpu.m_l2_exclusive then (cpu.m_l2_cache+cpu.m_l3_cache)%2^64 else cpu.m_l3_cache
  else cpu.m_l2_cache

/-- `algoBlockSize`. -/
def algoBlockSize : Algo → ℕ
  | .cryptonightLite => 1024
  | .cryptonight => 2048

namespace CpuImpl

section Tuning

variable (cpu : CpuImpl) (algo : Algo)

/-- `maximumReasonableFactor`. -/
def maximumReasonableFactor : ℕ := max (cpu.availableCache/algoBlockSize algo) 1

/-- `maximumReasonableThreadCount`. -/
def maximumReasonableThreadCount : ℕ := min (cpu.maximumReasonableFactor algo) cpu.m_totalThreads

/-- `maximumReasonableHashFactor`. -/
def maximumReasonableHashFactor : ℕ := min (cpu.maximumReasonableFactor algo) MAX_NUM_HASH_BLOCKS

/-- The block of safe mode: threads and hash factor are lowered to what fits. -/
def limitSafely (threadsCount hashFactor : ℕ) : Option (ℕ×ℕ) := do
  let threadsCount := if cpu.maximumReasonableThreadCount algo<threadsCount then
    cpu.maximumReasonableThreadCount algo else threadsCount
  let room ← quotient (cpu.maximumReasonableFactor algo) threadsCount
  if room<hashFactor then
    return (threadsCount,max (min room (cpu.maximumReasonableHashFactor algo)) 1)
  return (threadsCount,hashFactor)

/-- The block for an automatic number of threads. The product is one of `size_t`. -/
def autoThreads (maxCpuUsage threadsCount hashFactor : ℕ) : Option ℕ :=
  if threadsCount=0 then do
    let threadsCount ← (if hashFactor=0 then some (cpu.maximumReasonableThreadCount algo)
      else (quotient (cpu.maximumReasonableFactor algo) hashFactor).map fun room =>
        min (cpu.maximumReasonableThreadCount algo) room)
    let threadsCount := if maxCpuUsage<100 then
      min threadsCount (cpu.m_totalThreads*maxCpuUsage%2^64/100) else threadsCount
    return max threadsCount 1
  else some threadsCount

/-- The block for an automatic hash factor. -/
def autoHashFactor (threadsCount hashFactor : ℕ) : Option ℕ :=
  if hashFactor=0 then do
    let room ← quotient (cpu.maximumReasonableFactor algo) threadsCount
    return max (min (cpu.maximumReasonableHashFactor algo) room) 1
  else some hashFactor

/-- `CpuImpl::optimizeParameters`, none where it divides by 0. -/
def optimizeParameters (threadsCount hashFactor : ℕ) (maxCpuUsage : ℕ) (safeMode : Bool) :
    Option (ℕ×ℕ) :=
  let hashFactor := min hashFactor MAX_NUM_HASH_BLOCKS
  if safeMode=false ∧ 0<threadsCount ∧ 0<hashFactor then some (threadsCount,hashFactor)
  else do
    let limited ← (if safeMode then cpu.limitSafely algo threadsCount hashFactor
      else some (threadsCount,hashFactor))
    let threadsCount ← cpu.autoThreads algo maxCpuUsage limited.1 limited.2
    let hashFactor ← cpu.autoHashFactor algo threadsCount limited.2
    return (threadsCount,hashFactor)

end Tuning

end CpuImpl

/-- No division by 0 is made, and the results are in their ranges. -/
def TunesSafely (cpu : CpuImpl) (algo : Algo) (threadsCount hashFactor maxCpuUsage : ℕ)
    (safeMode : Bool) : Prop :=
  ∃ t h, cpu.optimizeParameters algo threadsCount hashFactor maxCpuUsage safeMode=some (t,h) ∧
    1 ≤ t ∧ 1 ≤ h ∧ h ≤ MAX_NUM_HASH_BLOCKS

/-- Results within the limits of cache and processor, for what was given. -/
structure RespectsLimits (cpu : CpuImpl) (algo : Algo) (threadsCount hashFactor maxCpuUsage : ℕ)
    (safeMode : Bool) (t h : ℕ) : Prop where
  /-- In safe mode they fit the cache. -/
  safe_cache : safeMode=true → t*h ≤ cpu.maximumReasonableFactor algo
  /-- There are no more threads than processors, and no more than given. -/
  safe_threads : safeMode=true → t ≤ cpu.m_totalThreads ∧ t ≤ threadsCount
  /-- A factor given is not raised. -/
  safe_factor : safeMode=true → 0<hashFactor → h ≤ hashFactor
  /-- Outside safe mode a number of threads given is kept. -/
  kept_threads : safeMode=false → 0<threadsCount → t=threadsCount
  /-- So is a factor, once it is capped. -/
  kept_factor : safeMode=false → 0<hashFactor → h=min hashFactor MAX_NUM_HASH_BLOCKS
  /-- With an automatic value they fit, or the value given does not and the other is 1. -/
  auto_cache : safeMode=false → threadsCount=0 ∨ hashFactor=0 →
    t*h ≤ cpu.maximumReasonableFactor algo ∨
    (0<threadsCount ∧ cpu.maximumReasonableFactor algo<t ∧ h=1) ∨
    (0<hashFactor ∧ cpu.maximumReasonableFactor algo<h ∧ t=1)
  /-- An automatic number of threads respects the processors and the usage allowed. -/
  auto_threads : safeMode=false → threadsCount=0 → t ≤ cpu.m_totalThreads ∧
    (maxCpuUsage<100 → t ≤ max 1 (cpu.m_totalThreads*maxCpuUsage/100))
  /-- Tuning again changes nothing. -/
  again : cpu.optimizeParameters algo t h maxCpuUsage safeMode=some (t,h)

section Blocks

variable {cpu : CpuImpl} {algo : Algo}

theorem one_le_factor : 1 ≤ cpu.maximumReasonableFactor algo := Nat.le_max_right _ _

theorem threadCount_bounds (hthreads : 1 ≤ cpu.m_totalThreads) :
    1 ≤ cpu.maximumReasonableThreadCount algo ∧
    cpu.maximumReasonableThreadCount algo ≤ cpu.maximumReasonableFactor algo ∧
    cpu.maximumReasonableThreadCount algo ≤ cpu.m_totalThreads :=
  ⟨Nat.le_min.mpr ⟨one_le_factor,hthreads⟩,Nat.min_le_left _ _,Nat.min_le_right _ _⟩

theorem hashFactor_bounds :
    1 ≤ cpu.maximumReasonableHashFactor algo ∧
    cpu.maximumReasonableHashFactor algo ≤ MAX_NUM_HASH_BLOCKS :=
  ⟨Nat.le_min.mpr ⟨one_le_factor,by decide⟩,Nat.min_le_right _ _⟩

/-- Threads with what room each of them has fit. -/
theorem mul_room_le {t h room : ℕ} (ht : 0<t) (hroom : cpu.maximumReasonableFactor algo/t=room)
    (hle : h ≤ room) : t*h ≤ cpu.maximumReasonableFactor algo := by
  rw [←hroom,Nat.le_div_iff_mul_le ht,Nat.mul_comm] at hle
  exact hle

/-- Safe mode with automatic threads divides by 0. -/
theorem limitSafely_zero (h : ℕ) : cpu.limitSafely algo 0 h=none := by
  rw [CpuImpl.limitSafely,if_neg (Nat.not_lt_zero _),quotient_zero]
  rfl

/-- Safe mode lowers what is given to what fits; an automatic factor stays automatic. -/
theorem limitSafely_spec (hthreads : 1 ≤ cpu.m_totalThreads) {t₀ h₀ : ℕ} (ht₀ : 0<t₀) :
    ∃ t h, cpu.limitSafely algo t₀ h₀=some (t,h) ∧ 1 ≤ t ∧ t ≤ t₀ ∧
      t ≤ cpu.maximumReasonableThreadCount algo ∧ (h₀=0 → h=0) ∧
      (0<h₀ → 1 ≤ h ∧ h ≤ h₀ ∧ t*h ≤ cpu.maximumReasonableFactor algo) := by
  obtain ⟨hone,hfactor,-⟩ := @threadCount_bounds cpu algo hthreads
  have hhash := @hashFactor_bounds cpu algo
  obtain ⟨t,ht,hpos,hle,hmax⟩ : ∃ t, (if cpu.maximumReasonableThreadCount algo<t₀ then
      cpu.maximumReasonableThreadCount algo else t₀)=t ∧ 1 ≤ t ∧ t ≤ t₀ ∧
      t ≤ cpu.maximumReasonableThreadCount algo := by
    refine ⟨_,rfl,?_⟩
    split <;> omega
  have hroom : 1 ≤ cpu.maximumReasonableFactor algo/t := Nat.div_pos (by omega) hpos
  rw [CpuImpl.limitSafely,ht,quotient_of_pos hpos]
  dsimp only [Option.bind_eq_bind,Option.bind_some]
  split
  · refine ⟨t,_,rfl,hpos,hle,hmax,fun h => by omega,fun _ => ⟨Nat.le_max_right _ _,by omega,?_⟩⟩
    exact mul_room_le hpos rfl (by omega)
  · refine ⟨t,h₀,rfl,hpos,hle,hmax,id,fun h => ⟨h,le_refl _,?_⟩⟩
    exact mul_room_le hpos rfl (by omega)

/-- An automatic number of threads respects the processors, the usage and the factor. -/
theorem autoThreads_auto (hthreads : 1 ≤ cpu.m_totalThreads) (usage h : ℕ) :
    ∃ t, cpu.autoThreads algo usage 0 h=some t ∧ 1 ≤ t ∧ t ≤ cpu.m_totalThreads ∧
      (usage<100 → t ≤ max 1 (cpu.m_totalThreads*usage/100)) ∧
      (t*h ≤ cpu.maximumReasonableFactor algo ∨
        0<h ∧ cpu.maximumReasonableFactor algo<h ∧ t=1) ∧
      (h=0 → t ≤ cpu.maximumReasonableFactor algo) := by
  obtain ⟨hone,hfactor,hle⟩ := @threadCount_bounds cpu algo hthreads
  have husage : cpu.m_totalThreads*usage%2^64/100 ≤ cpu.m_totalThreads*usage/100 :=
    Nat.div_le_div_right (Nat.mod_le _ _)
  obtain ⟨most,hmost,hmax,hroom⟩ : ∃ most,
      (if h=0 then some (cpu.maximumReasonableThreadCount algo)
        else (quotient (cpu.maximumReasonableFactor algo) h).map fun room =>
          min (cpu.maximumReasonableThreadCount algo) room)=some most ∧
      most ≤ cpu.maximumReasonableThreadCount algo ∧
      (0<h → most ≤ cpu.maximumReasonableFactor algo/h) := by
    by_cases hzero : h=0
    · exact ⟨_,if_pos hzero,le_refl _,fun hpos => by omega⟩
    · rw [if_neg hzero,quotient_of_pos (Nat.pos_of_ne_zero hzero)]
      exact ⟨_,rfl,Nat.min_le_left _ _,fun _ => Nat.min_le_right _ _⟩
  obtain ⟨t,ht,hpos,hcap,hused⟩ : ∃ t,
      max (if usage<100 then min most (cpu.m_totalThreads*usage%2^64/100) else most) 1=t ∧
      1 ≤ t ∧ t ≤ max most 1 ∧ (usage<100 → t ≤ max 1 (cpu.m_totalThreads*usage/100)) := by
    refine ⟨_,rfl,Nat.le_max_right _ _,?_,fun hlt => ?_⟩
    · split <;> omega
    · rw [if_pos hlt]
      omega
  rw [CpuImpl.autoThreads,if_pos rfl,hmost]
  refine ⟨t,congrArg some ht,hpos,by omega,hused,?_,fun _ => by omega⟩
  by_cases hzero : h=0
  · rw [hzero]
    exact Or.inl (Nat.zero_le _)
  · have hgiven : 0<h := Nat.pos_of_ne_zero hzero
    have hmost_le := hroom hgiven
    by_cases hexceeds : cpu.maximumReasonableFactor algo<h
    · rw [Nat.div_eq_of_lt hexceeds] at hmost_le
      exact Or.inr ⟨hgiven,hexceeds,by omega⟩
    · have hsome : 1 ≤ cpu.maximumReasonableFactor algo/h := Nat.div_pos (by omega) hgiven
      rw [Nat.mul_comm]
      exact Or.inl (mul_room_le hgiven rfl (by omega))

/-- A number of threads that is not automatic is kept. -/
theorem autoThreads_given {t : ℕ} (ht : 0<t) (usage h : ℕ) :
    cpu.autoThreads algo usage t h=some t := if_neg (Nat.ne_of_gt ht)

/-- An automatic factor is at most what each thread has room for, and at least 1. -/
theorem autoHashFactor_auto {t : ℕ} (ht : 0<t) :
    ∃ h, cpu.autoHashFactor algo t 0=some h ∧ 1 ≤ h ∧ h ≤ MAX_NUM_HASH_BLOCKS ∧
      (t*h ≤ cpu.maximumReasonableFactor algo ∨
        cpu.maximumReasonableFactor algo<t ∧ h=1) := by
  obtain ⟨hone,hmax⟩ := @hashFactor_bounds cpu algo
  rw [CpuImpl.autoHashFactor,if_pos rfl,quotient_of_pos ht]
  refine ⟨_,rfl,Nat.le_max_right _ _,by omega,?_⟩
  by_cases hexceeds : cpu.maximumReasonableFactor algo<t
  · rw [Nat.div_eq_of_lt hexceeds]
    exact Or.inr ⟨hexceeds,by omega⟩
  · have hsome : 1 ≤ cpu.maximumReasonableFactor algo/t := Nat.div_pos (by omega) ht
    exact Or.inl (mul_room_le ht rfl (by omega))

/-- A factor that is not automatic is kept. -/
theorem autoHashFactor_given {h : ℕ} (hh : 0<h) (t : ℕ) :
    cpu.autoHashFactor algo t h=some h := if_neg (Nat.ne_of_gt hh)

end Blocks

section Modes

variable {cpu : CpuImpl} {algo : Algo} {usage t₀ h₀ : ℕ}

/-- Values given outside safe mode come back, the factor capped. -/
theorem optimizeParameters_given (ht : 0<t₀) (hh : 0<h₀) :
    cpu.optimizeParameters algo t₀ h₀ usage false=some (t₀,min h₀ MAX_NUM_HASH_BLOCKS) :=
  if_pos ⟨rfl,ht,Nat.lt_min.mpr ⟨hh,by decide⟩⟩

/-- In safe mode the two blocks for automatic values follow the block of safe mode. -/
theorem optimizeParameters_safe :
    cpu.optimizeParameters algo t₀ h₀ usage true=
      (cpu.limitSafely algo t₀ (min h₀ MAX_NUM_HASH_BLOCKS)).bind fun p =>
        (cpu.autoThreads algo usage p.1 p.2).bind fun t =>
          (cpu.autoHashFactor algo t p.2).bind fun h => some (t,h) := by
  have hno : ¬(true=false ∧ 0<t₀ ∧ 0<(min h₀ MAX_NUM_HASH_BLOCKS)) :=
    fun h => Bool.noConfusion h.1
  rw [CpuImpl.optimizeParameters,if_neg hno]
  rfl

/-- Outside safe mode they are all there is. -/
theorem optimizeParameters_auto (h : t₀=0 ∨ h₀=0) :
    cpu.optimizeParameters algo t₀ h₀ usage false=
      (cpu.autoThreads algo usage t₀ (min h₀ MAX_NUM_HASH_BLOCKS)).bind fun t =>
        (cpu.autoHashFactor algo t (min h₀ MAX_NUM_HASH_BLOCKS)).bind fun h => some (t,h) := by
  have hno : ¬(false=false ∧ 0<t₀ ∧ 0<(min h₀ MAX_NUM_HASH_BLOCKS)) := by
    rintro ⟨-,ht,hh⟩
    omega
  rw [CpuImpl.optimizeParameters,if_neg hno]
  rfl

/-- Safe mode with automatic threads never gets past its block. -/
theorem not_tunesSafely : ¬TunesSafely cpu algo 0 h₀ usage true := by
  rintro ⟨t,h,htuned,-⟩
  rw [optimizeParameters_safe,limitSafely_zero] at htuned
  cases htuned

/-- What fits safely is not changed by safe mode. -/
theorem safe_again {t h : ℕ} (ht : 1 ≤ t) (hh : 1 ≤ h) (hmax : h ≤ MAX_NUM_HASH_BLOCKS)
    (hthreads : t ≤ cpu.maximumReasonableThreadCount algo)
    (hfit : t*h ≤ cpu.maximumReasonableFactor algo) :
    cpu.optimizeParameters algo t h usage true=some (t,h) := by
  have hroom : h ≤ cpu.maximumReasonableFactor algo/t := by
    rw [Nat.le_div_iff_mul_le ht,Nat.mul_comm]
    exact hfit
  have hlimit : cpu.limitSafely algo t h=some (t,h) := by
    rw [CpuImpl.limitSafely,if_neg (by omega),quotient_of_pos ht]
    dsimp only [Option.bind_eq_bind,Option.bind_some]
    rw [if_neg (by omega)]
    rfl
  rw [optimizeParameters_safe,Nat.min_eq_left hmax,hlimit,Option.bind_some,
    autoThreads_given ht,Option.bind_some,autoHashFactor_given hh]
  rfl

/-- Safe mode with a number of threads given. -/
theorem safe_mode (hthreads : 1 ≤ cpu.m_totalThreads) (ht₀ : 0<t₀) :
    ∃ t h, cpu.optimizeParameters algo t₀ h₀ usage true=some (t,h) ∧ 1 ≤ t ∧ 1 ≤ h ∧
      h ≤ MAX_NUM_HASH_BLOCKS ∧ RespectsLimits cpu algo t₀ h₀ usage true t h := by
  obtain ⟨-,hfactor,htotal⟩ := @threadCount_bounds cpu algo hthreads
  obtain ⟨t,h,hlimit,ht,hle,hmax,hauto,hgiven⟩ :=
    @limitSafely_spec cpu algo hthreads t₀ (min h₀ MAX_NUM_HASH_BLOCKS) ht₀
  obtain ⟨h',hhash,hh,hhmax,hfit,hkept⟩ : ∃ h', cpu.autoHashFactor algo t h=some h' ∧ 1 ≤ h' ∧
      h' ≤ MAX_NUM_HASH_BLOCKS ∧ t*h' ≤ cpu.maximumReasonableFactor algo ∧
      (0<h₀ → h' ≤ h₀) := by
    by_cases hzero : h₀=0
    · rw [hauto (by omega)]
      obtain ⟨h',hhash,hh,hhmax,hfit⟩ := @autoHashFactor_auto cpu algo _ ht
      exact ⟨h',hhash,hh,hhmax,hfit.resolve_right fun hexceeds => by omega,fun hpos => by omega⟩
    · have hpos : 0<(min h₀ MAX_NUM_HASH_BLOCKS) :=
        Nat.lt_min.mpr ⟨Nat.pos_of_ne_zero hzero,by decide⟩
      obtain ⟨hh,hhle,hfit⟩ := hgiven hpos
      exact ⟨h,autoHashFactor_given hh t,hh,by omega,hfit,fun _ => by omega⟩
  refine ⟨t,h',?_,ht,hh,hhmax,?_⟩
  · rw [optimizeParameters_safe,hlimit,Option.bind_some,autoThreads_given ht,Option.bind_some,
      hhash]
    rfl
  · refine ⟨fun _ => hfit,fun _ => ⟨by omega,hle⟩,fun _ => hkept,?_,?_,?_,?_,
      safe_again ht hh hhmax hmax hfit⟩
    all_goals
      intro hmode
      cases hmode

/-- Outside safe mode, values that were given are tuned to themselves. -/
theorem given_again {t h : ℕ} (ht : 1 ≤ t) (hh : 1 ≤ h) (hmax : h ≤ MAX_NUM_HASH_BLOCKS) :
    cpu.optimizeParameters algo t h usage false=some (t,h) := by
  rw [optimizeParameters_given ht hh,Nat.min_eq_left hmax]

/-- Outside safe mode. -/
theorem unsafe_mode (hthreads : 1 ≤ cpu.m_totalThreads) :
    ∃ t h, cpu.optimizeParameters algo t₀ h₀ usage false=some (t,h) ∧ 1 ≤ t ∧ 1 ≤ h ∧
      h ≤ MAX_NUM_HASH_BLOCKS ∧ RespectsLimits cpu algo t₀ h₀ usage false t h := by
  have hmode : ∀ {P : Prop}, false=true → P := fun h => Bool.noConfusion h
  have hcapped : 0<h₀ → 0<(min h₀ MAX_NUM_HASH_BLOCKS) :=
    fun h => Nat.lt_min.mpr ⟨h,by decide⟩
  have hmax : min h₀ MAX_NUM_HASH_BLOCKS ≤ MAX_NUM_HASH_BLOCKS := Nat.min_le_right _ _
  by_cases ht₀ : t₀=0
  · -- automatic threads, from the factor given or for all of the cache
    obtain ⟨t,hauto,ht,htotal,husage,hfit,hfactor⟩ :=
      @autoThreads_auto cpu algo hthreads usage (min h₀ MAX_NUM_HASH_BLOCKS)
    obtain ⟨h,hhash,hh,hhmax,hkept,hcache⟩ : ∃ h,
        cpu.autoHashFactor algo t (min h₀ MAX_NUM_HASH_BLOCKS)=some h ∧ 1 ≤ h ∧
        h ≤ MAX_NUM_HASH_BLOCKS ∧ (0<h₀ → h=min h₀ MAX_NUM_HASH_BLOCKS) ∧
        (t*h ≤ cpu.maximumReasonableFactor algo ∨
          0<h₀ ∧ cpu.maximumReasonableFactor algo<h ∧ t=1) := by
      by_cases hzero : h₀=0
      · subst hzero
        obtain ⟨h,hhash,hh,hhmax,hroom⟩ := @autoHashFactor_auto cpu algo _ ht
        have hle := hfactor rfl
        exact ⟨h,hhash,hh,hhmax,fun hpos => by omega,
          Or.inl (hroom.resolve_right fun hexceeds => by omega)⟩
      · have hgiven := Nat.pos_of_ne_zero hzero
        exact ⟨_,autoHashFactor_given (hcapped hgiven) t,hcapped hgiven,hmax,fun _ => rfl,
          hfit.imp_right fun h => ⟨hgiven,h.2⟩⟩
    refine ⟨t,h,?_,ht,hh,hhmax,hmode,hmode,hmode,fun _ hpos => by omega,fun _ => hkept,
      fun _ _ => hcache.imp_right Or.inr,fun _ _ => ⟨htotal,husage⟩,given_again ht hh hhmax⟩
    rw [optimizeParameters_auto (Or.inl ht₀),ht₀,hauto,Option.bind_some,hhash]
    rfl
  · have ht := Nat.pos_of_ne_zero ht₀
    by_cases hzero : h₀=0
    · -- automatic factor, for the threads given
      obtain ⟨h,hhash,hh,hhmax,hroom⟩ := @autoHashFactor_auto cpu algo _ ht
      refine ⟨t₀,h,?_,ht,hh,hhmax,hmode,hmode,hmode,fun _ _ => rfl,fun _ hpos => by omega,
        fun _ _ => hroom.imp_right fun h => Or.inl ⟨ht,h⟩,fun _ h => by omega,
        given_again ht hh hhmax⟩
      rw [optimizeParameters_auto (Or.inr hzero),hzero,autoThreads_given ht,Option.bind_some,
        Nat.zero_min,hhash]
      rfl
    · have hgiven := Nat.pos_of_ne_zero hzero
      refine ⟨t₀,_,optimizeParameters_given ht hgiven,ht,hcapped hgiven,hmax,hmode,hmode,hmode,
        fun _ _ => rfl,fun _ _ => rfl,fun _ h => by omega,fun _ h => by omega,
        given_again ht (hcapped hgiven) hmax⟩

end Modes

/-- Values found, unless safe mode meets an automatic number of threads. -/
theorem tuned {cpu : CpuImpl} (hthreads : 1 ≤ cpu.m_totalThreads) (algo : Algo)
    (threadsCount hashFactor maxCpuUsage : ℕ) {safeMode : Bool}
    (h : ¬(safeMode=true ∧ threadsCount=0)) :
    ∃ t f, cpu.optimizeParameters algo threadsCount hashFactor maxCpuUsage safeMode=some (t,f) ∧
      1 ≤ t ∧ 1 ≤ f ∧ f ≤ MAX_NUM_HASH_BLOCKS ∧
      RespectsLimits cpu algo threadsCount hashFactor maxCpuUsage safeMode t f := by
  cases safeMode with
  | true => exact safe_mode hthreads (Nat.pos_of_ne_zero fun hzero => h ⟨rfl,hzero⟩)
  | false => exact unsafe_mode hthreads

/-- Division in `optimizeParameters`. On a processor with a thread, values are found without
dividing by 0 unless safe mode meets an automatic number of threads. -/
theorem tunes_safely_iff {cpu : CpuImpl} (hthreads : 1 ≤ cpu.m_totalThreads) (algo : Algo)
    (threadsCount hashFactor maxCpuUsage : ℕ) (safeMode : Bool) :
    TunesSafely cpu algo threadsCount hashFactor maxCpuUsage safeMode ↔
      ¬(safeMode=true ∧ threadsCount=0) := by
  constructor
  · rintro h ⟨rfl,rfl⟩
    exact not_tunesSafely h
  · intro h
    obtain ⟨t,f,htuned,ht,hf,hmax,-⟩ := tuned hthreads algo threadsCount hashFactor maxCpuUsage h
    exact ⟨t,f,htuned,ht,hf,hmax⟩

/-- Limits. Wherever it divides by no 0, `optimizeParameters` finds values within the limits of
cache and processor. -/
theorem limits_respected {cpu : CpuImpl} (hthreads : 1 ≤ cpu.m_totalThreads) (algo : Algo)
    (threadsCount hashFactor maxCpuUsage : ℕ) (safeMode : Bool)
    (h : ¬(safeMode=true ∧ threadsCount=0)) :
    ∃ t f, cpu.optimizeParameters algo threadsCount hashFactor maxCpuUsage safeMode=some (t,f) ∧
      RespectsLimits cpu algo threadsCount hashFactor maxCpuUsage safeMode t f := by
  obtain ⟨t,f,htuned,-,-,-,hrespects⟩ :=
    tuned hthreads algo threadsCount hashFactor maxCpuUsage h
  exact ⟨t,f,htuned,hrespects⟩

/-- Four cores with two threads each and 8 MB of third level cache. -/
def fourCores : CpuImpl := ⟨false,512,8192,8⟩

example : fourCores.optimizeParameters .cryptonight 0 0 37 false=some (2,2) := by decide

example : fourCores.optimizeParameters .cryptonightLite 10 10 100 true=some (8,1) := by decide

/-- Safe mode brings ten threads of factor 10 down. -/
theorem fourCores_tunes_safely : TunesSafely fourCores .cryptonight 10 10 75 true :=
  (tunes_safely_iff (by decide) .cryptonight 10 10 75 true).mpr (by decide)

/-- With all automatic, what is chosen keeps to the processor. -/
theorem fourCores_limits_respected :
    ∃ t f, fourCores.optimizeParameters .cryptonight 0 0 75 false=some (t,f) ∧
      RespectsLimits fourCores .cryptonight 0 0 75 false t f :=
  limits_respected (by decide) .cryptonight 0 0 75 false (by decide)

/-- Safe mode with everything else automatic divides by 0. -/
theorem safe_auto_not_tuned :
    1 ≤ fourCores.m_totalThreads ∧ ¬TunesSafely fourCores .cryptonight 0 0 75 true := by
  refine ⟨by decide,?_⟩
  rintro ⟨t,h,htuned,-⟩
  have hnone : fourCores.optimizeParameters .cryptonight 0 0 75 true=none := by decide
  rw [hnone] at htuned
  cases htuned

end XmrigCC.CpuTuning
