import XmrigCC.ByteText
import XmrigCC.CpuTuning

/-!
# Options of the miner's threads

The part of `Options` that decides how many threads hash, how many blocks each of them hashes at
once and with which algorithm. An argument out of its range is refused and changes nothing;
at the end `optimizeAlgorithmConfiguration` replaces what is automatic.
-/

namespace XmrigCC.MinerOptions

open ByteText CpuTuning

/-- `Options::AesNi`. -/
inductive AesNi where
  /-- `AESNI_AUTO`. -/
  | auto
  /-- `AESNI_ON`. -/
  | on
  /-- `AESNI_OFF`. -/
  | off
  deriving DecidableEq

/-- The members of `Options` that are used for the threads. -/
structure Options where
  /-- Memory is to be taken from huge pages. -/
  m_hugePages : Bool
  /-- Everything given is lowered to what fits. -/
  m_safe : Bool
  /-- Algorithm. -/
  m_algo : Algo
  /-- Number of an `AlgoVariant`, 0 for automatic. -/
  m_algoVariant : ℕ
  /-- Hardware AES. -/
  m_aesni : AesNi
  /-- Blocks hashed at once, 0 for automatic. -/
  m_hashFactor : ℕ
  /-- Per cent of the processors for automatic threads. -/
  m_maxCpuUsage : ℕ
  /-- Threads, 0 for automatic. -/
  m_threads : ℕ
  /-- Threads that hash several blocks at once. -/
  m_multiHashThreadMask : BitVec 64
  deriving DecidableEq

/-- The options before any argument. -/
def Options.new : Options :=
  ⟨true,false,.cryptonight,0,.auto,0,75,0,BitVec.allOnes 64⟩

/-- Options with a number as argument. -/
inductive Key where
  /-- `--threads`. -/
  | threads
  /-- `--av`. -/
  | av
  /-- `--aesni`. -/
  | aesni
  /-- `--multihash-factor`. -/
  | multihashFactor
  /-- `--max-cpu-usage`. -/
  | maxCpuUsage
  /-- `--multihash-thread-mask`. -/
  | multihashThreadMask

namespace Options

variable (options : Options)

/-- `Options::parseArg(int, uint64_t)`. -/
def parseArg (arg : UInt64) : Key → Bool×Options
  | .threads =>
    if arg<1 ∨ 1024<arg then (false,options) else (true,{options with m_threads := arg.toNat})
  | .av =>
    if 1000<arg then (false,options) else (true,{options with m_algoVariant := arg.toNat})
  | .aesni =>
    if 2<arg then (false,options)
    else (true,{options with m_aesni := if arg=0 then .auto else if arg=1 then .on else .off})
  | .multihashFactor =>
    if MAX_NUM_HASH_BLOCKS<arg.toNat then (false,options)
    else (true,{options with m_hashFactor := arg.toNat})
  | .maxCpuUsage =>
    if arg<1 ∨ 100<arg then (false,options) else (true,{options with m_maxCpuUsage := arg.toNat})
  | .multihashThreadMask =>
    if arg=0 then (true,options)
    else (true,{options with m_multiHashThreadMask := arg.toBitVec})

/-- `Options::setAlgo`. -/
def setAlgo (algo : Bytes) : Bool×Options :=
  if algo=text "cryptonight" then (true,{options with m_algo := .cryptonight})
  else if algo=text "cryptonight-lite" ∨ algo=text "cryptonight-light" then
    (true,{options with m_algo := .cryptonightLite})
  else (false,options)

/-- Blocks that the algorithm variant hashes at once. -/
def variantHashFactor : ℕ :=
  match options.m_algoVariant with
  | 1 => 1
  | 2 => 2
  | 3 => 1
  | 4 => 2
  | _ => options.m_hashFactor

/-- Hardware AES of the algorithm variant. -/
def variantAesni : AesNi :=
  match options.m_algoVariant with
  | 1 => .on
  | 2 => .on
  | 3 => .off
  | 4 => .off
  | _ => options.m_aesni

/-- The block for arguments that still set a variant: it decides what is automatic. -/
def applyVariant : Options :=
  if options.m_algoVariant ≠ 0 then
    {options with
      m_hashFactor := if options.m_hashFactor=0 then options.variantHashFactor
        else options.m_hashFactor
      m_aesni := if options.m_aesni=.auto then options.variantAesni else options.m_aesni}
  else options

/-- The block that asks the processor for AES. -/
def detectAesni (hasAES : Bool) : Options :=
  if options.m_aesni=.auto ∨ options.m_safe=true then
    {options with m_aesni := if hasAES then .on else .off}
  else options

/-- `Options::optimizeAlgorithmConfiguration`, none where tuning divides by 0. -/
def optimizeAlgorithmConfiguration (cpu : CpuImpl) (hasAES : Bool) : Option Options :=
  let options := options.applyVariant.detectAesni hasAES
  (cpu.optimizeParameters options.m_algo options.m_threads options.m_hashFactor
    options.m_maxCpuUsage options.m_safe).map fun tuned =>
      {options with m_threads := tuned.1,m_hashFactor := tuned.2}

end Options

/-- An argument on the command line or in a file. -/
inductive Setting where
  /-- One with a number. -/
  | number (key : Key) (arg : UInt64)
  /-- `--threads=all`. -/
  | allThreads
  /-- `--safe`. -/
  | safe (enable : Bool)
  /-- `--no-huge-pages`. -/
  | hugePages (enable : Bool)
  /-- `--algo`. -/
  | algo (arg : Bytes)

/-- The options after an argument, and whether it is accepted. -/
def applySetting (cpu : CpuImpl) (options : Options) : Setting → Bool×Options
  | .number key arg => options.parseArg arg key
  | .allThreads => (true,{options with m_threads := cpu.m_totalThreads})
  | .safe enable => (true,{options with m_safe := enable})
  | .hugePages enable => (true,{options with m_hugePages := enable})
  | .algo arg => options.setAlgo arg

/-- The options that a list of arguments leaves. -/
def parsed (cpu : CpuImpl) : Options → List Setting → Options
  | options,[] => options
  | options,setting::settings => parsed cpu (applySetting cpu options setting).2 settings

/-- What the program runs with. -/
def configured (cpu : CpuImpl) (hasAES : Bool) (settings : List Setting) : Option Options :=
  (parsed cpu Options.new settings).optimizeAlgorithmConfiguration cpu hasAES

/-- Options in their ranges. -/
structure InRange (cpu : CpuImpl) (options : Options) : Prop where
  /-- Threads. -/
  threads : options.m_threads ≤ max 1024 cpu.m_totalThreads
  /-- Blocks hashed at once. -/
  hashFactor : options.m_hashFactor ≤ MAX_NUM_HASH_BLOCKS
  /-- Per cent. -/
  maxCpuUsage : 1 ≤ options.m_maxCpuUsage ∧ options.m_maxCpuUsage ≤ 100

section Ranges

variable {cpu : CpuImpl} {options : Options}

/-- A number that is refused changes nothing. -/
theorem parseArg_refused {arg : UInt64} {key : Key} (h : (options.parseArg arg key).1=false) :
    (options.parseArg arg key).2=options := by
  cases key
  all_goals
    rw [Options.parseArg] at h ⊢
    split
    · rfl
    · rename_i hok
      rw [if_neg hok] at h
      cases h

/-- A number keeps the options in their ranges. -/
theorem inRange_parseArg (h : InRange cpu options) (arg : UInt64) (key : Key) :
    InRange cpu (options.parseArg arg key).2 := by
  obtain ⟨hthreads,hfactor,husage⟩ := h
  cases key with
  | threads =>
    rw [Options.parseArg]
    split
    · exact ⟨hthreads,hfactor,husage⟩
    · rename_i hok
      rw [not_or,UInt64.not_lt,UInt64.not_lt,UInt64.le_iff_toNat_le,UInt64.le_iff_toNat_le] at hok
      simp only [UInt64.reduceToNat] at hok
      exact ⟨le_max_of_le_left hok.2,hfactor,husage⟩
  | av => rw [Options.parseArg]; split <;> exact ⟨hthreads,hfactor,husage⟩
  | aesni => rw [Options.parseArg]; split <;> exact ⟨hthreads,hfactor,husage⟩
  | multihashFactor =>
    rw [Options.parseArg]
    split
    · exact ⟨hthreads,hfactor,husage⟩
    · rename_i hok
      exact ⟨hthreads,Nat.not_lt.mp hok,husage⟩
  | maxCpuUsage =>
    rw [Options.parseArg]
    split
    · exact ⟨hthreads,hfactor,husage⟩
    · rename_i hok
      rw [not_or,UInt64.not_lt,UInt64.not_lt,UInt64.le_iff_toNat_le,UInt64.le_iff_toNat_le] at hok
      simp only [UInt64.reduceToNat] at hok
      exact ⟨hthreads,hfactor,hok⟩
  | multihashThreadMask => rw [Options.parseArg]; split <;> exact ⟨hthreads,hfactor,husage⟩

/-- So does every argument. -/
theorem inRange_applySetting (h : InRange cpu options) (setting : Setting) :
    InRange cpu (applySetting cpu options setting).2 := by
  cases setting with
  | number key arg => exact inRange_parseArg h arg key
  | allThreads => exact ⟨Nat.le_max_right _ _,h.hashFactor,h.maxCpuUsage⟩
  | safe enable => exact ⟨h.threads,h.hashFactor,h.maxCpuUsage⟩
  | hugePages enable => exact ⟨h.threads,h.hashFactor,h.maxCpuUsage⟩
  | algo arg =>
    simp only [applySetting,Options.setAlgo]
    split
    · exact ⟨h.threads,h.hashFactor,h.maxCpuUsage⟩
    · split <;> exact ⟨h.threads,h.hashFactor,h.maxCpuUsage⟩

/-- And every list of arguments. -/
theorem inRange_parsed (h : InRange cpu options) (settings : List Setting) :
    InRange cpu (parsed cpu options settings) := by
  induction settings generalizing options with
  | nil => exact h
  | cons setting settings ih => exact ih (inRange_applySetting h setting)

theorem inRange_new : InRange cpu Options.new :=
  ⟨Nat.zero_le _,Nat.zero_le _,by decide⟩

/-- A variant changes the factor and AES only. -/
theorem applyVariant_eq : ∃ hashFactor aesni,
    options.applyVariant={options with m_hashFactor := hashFactor,m_aesni := aesni} := by
  rw [Options.applyVariant]
  split
  · exact ⟨_,_,rfl⟩
  · exact ⟨options.m_hashFactor,options.m_aesni,rfl⟩

/-- Detection changes AES only. -/
theorem detectAesni_eq (hasAES : Bool) :
    ∃ aesni, options.detectAesni hasAES={options with m_aesni := aesni} := by
  rw [Options.detectAesni]
  split
  · exact ⟨_,rfl⟩
  · exact ⟨options.m_aesni,rfl⟩

/-- Tuning comes last and leaves all but AES, threads and factor as it was given. -/
theorem optimizeAlgorithmConfiguration_eq (options : Options) (cpu : CpuImpl) (hasAES : Bool) :
    ∃ hashFactor aesni, options.optimizeAlgorithmConfiguration cpu hasAES=
      (cpu.optimizeParameters options.m_algo options.m_threads hashFactor options.m_maxCpuUsage
        options.m_safe).map fun tuned =>
          {options with m_aesni := aesni,m_threads := tuned.1,m_hashFactor := tuned.2} := by
  obtain ⟨hashFactor,aesni,hvariant⟩ := @applyVariant_eq options
  obtain ⟨aesni',hdetect⟩ := @detectAesni_eq options.applyVariant hasAES
  refine ⟨hashFactor,aesni',?_⟩
  rw [Options.optimizeAlgorithmConfiguration,hdetect,hvariant]

/-- A configuration is found unless safe mode meets an automatic number of threads. -/
theorem configured_isSome_iff (hthreads : 1 ≤ cpu.m_totalThreads) (hasAES : Bool)
    (settings : List Setting) :
    (configured cpu hasAES settings).isSome=true ↔
      ¬((parsed cpu Options.new settings).m_safe=true ∧
        (parsed cpu Options.new settings).m_threads=0) := by
  obtain ⟨hashFactor,aesni,heq⟩ :=
    optimizeAlgorithmConfiguration_eq (parsed cpu Options.new settings) cpu hasAES
  rw [configured,heq,Option.isSome_map]
  constructor
  · intro h hauto
    obtain ⟨tuned,htuned⟩ := Option.isSome_iff_exists.mp h
    rw [hauto.1,hauto.2,optimizeParameters_safe,limitSafely_zero] at htuned
    cases htuned
  · intro h
    obtain ⟨t,f,htuned,-⟩ := tuned hthreads (parsed cpu Options.new settings).m_algo _ hashFactor
      (parsed cpu Options.new settings).m_maxCpuUsage h
    rw [htuned]
    rfl

/-- A configuration has a thread and a block to hash at least, and stays in the ranges. -/
theorem configured_inRange (hthreads : 1 ≤ cpu.m_totalThreads) {hasAES : Bool}
    {settings : List Setting} (h : configured cpu hasAES settings=some options) :
    InRange cpu options ∧ 1 ≤ options.m_threads ∧ 1 ≤ options.m_hashFactor := by
  have hrange := inRange_parsed (@inRange_new cpu) settings
  have hsome := (configured_isSome_iff hthreads hasAES settings).mp (by rw [h]; rfl)
  obtain ⟨hashFactor,aesni,heq⟩ :=
    optimizeAlgorithmConfiguration_eq (parsed cpu Options.new settings) cpu hasAES
  obtain ⟨t,f,htuned,ht,hf,hmax,hlimits⟩ := tuned hthreads
    (parsed cpu Options.new settings).m_algo _ hashFactor
    (parsed cpu Options.new settings).m_maxCpuUsage hsome
  rw [configured,heq,htuned] at h
  obtain rfl := Option.some.inj h
  refine ⟨⟨?_,hmax,hrange.maxCpuUsage⟩,ht,hf⟩
  have hgiven := hrange.threads
  dsimp only
  cases hsafe : (parsed cpu Options.new settings).m_safe with
  | true => exact (hlimits.safe_threads hsafe).2.trans hgiven
  | false =>
    by_cases hauto : (parsed cpu Options.new settings).m_threads=0
    · exact (hlimits.auto_threads hsafe hauto).1.trans (Nat.le_max_right _ _)
    · rw [hlimits.kept_threads hsafe (Nat.pos_of_ne_zero hauto)]
      exact hgiven

end Ranges

end XmrigCC.MinerOptions
