import XmrigCC.CellMemory
import XmrigCC.MinerOptions

/-!
# Memory of the hashing threads

`Mem::allocate` adds up what every thread needs, one context and its scratchpads, and
`Mem::create` adds up the same again to find where a thread begins. How many scratchpads
a thread has depends on a bit of a mask of 64, unless all bits are set.
-/

namespace XmrigCC.ThreadMemory

open BlockLayout CpuTuning MinerOptions

/-- `MEMORY`. -/
def MEMORY : ℕ := 2097152

/-- `MEMORY_LITE`. -/
def MEMORY_LITE : ℕ := 1048576

/-- The members of `Mem`. -/
structure Mem where
  /-- Algorithm. -/
  m_algo : Algo
  /-- Threads. -/
  m_threads : ℕ
  /-- Blocks that a thread of the mask hashes at once. -/
  m_hashFactor : ℕ
  /-- `std::bitset<64>`. -/
  m_multiHashThreadMask : BitVec 64
  /-- Bytes allocated. -/
  m_memorySize : ℕ

/-- Variants of `Mem::allocate`. -/
inductive Platform where
  /-- `Mem_unix.cpp`. -/
  | unix
  /-- `Mem_unix.cpp` with `__APPLE__`. -/
  | apple
  /-- `Mem_win.cpp`. -/
  | windows

/-- Where `Mem::create` puts a context and its scratchpads. -/
structure Context where
  /-- Offset of the context. -/
  offset : ℕ
  /-- Offset of the scratchpads. -/
  memory : ℕ

namespace Mem

variable (mem : Mem) (ctxSize : ℕ)

/-- `Mem::getThreadHashFactor`, none where `std::bitset<64>::test` is out of range. -/
def getThreadHashFactor (threadId : ℕ) : Option ℕ :=
  if mem.m_multiHashThreadMask=BitVec.allOnes 64 then some mem.m_hashFactor
  else if 64 ≤ threadId then none
  else some (if mem.m_multiHashThreadMask.getLsbD threadId then mem.m_hashFactor else 1)

/-- `scratchPadSize`. -/
def scratchPadSize : ℕ := if mem.m_algo=.cryptonight then MEMORY else MEMORY_LITE

/-- The loop of `allocate` and of `create`: the blocks of threads from one on, as many as
remain, are added to a sum. -/
def addBlocks : ℕ → ℕ → ℕ → Option ℕ
  | _,0,sum => some sum
  | i,n+1,sum => do
    let factor ← mem.getThreadHashFactor i
    addBlocks (i+1) n (sum+ctxSize+mem.scratchPadSize*factor)

/-- `Mem::create`. -/
def create (threadId : ℕ) : Option Context := do
  let offset ← mem.addBlocks ctxSize 0 threadId 0
  return ⟨offset,offset+ctxSize⟩

end Mem

/-- The size of whole huge pages that hold a size, and one more when it is one. -/
def wholePages (size : ℕ) : ℕ := size-size%MEMORY+MEMORY

/-- The size allocated for the sum of the blocks. -/
def Platform.memorySize (hugePages : Bool) (sum : ℕ) : Platform → ℕ
  | .unix => sum
  | .apple => if hugePages then wholePages sum else sum
  | .windows => wholePages sum

/-- The members that `Mem::allocate` copies from the options. -/
def memOf (options : Options) : Mem :=
  ⟨options.m_algo,options.m_threads,options.m_hashFactor,options.m_multiHashThreadMask,0⟩

/-- `Mem::allocate`. -/
def allocate (ctxSize : ℕ) (platform : Platform) (options : Options) : Option Mem := do
  let sum ← (memOf options).addBlocks ctxSize 0 options.m_threads 0
  return {memOf options with m_memorySize := platform.memorySize options.m_hugePages sum}

/-- The context of a thread and the number of its scratchpads. -/
structure ThreadBlock extends Context where
  /-- Scratchpads. -/
  factor : ℕ

/-- The block that `create` and `Workers::onReady` make a thread use. -/
def Mem.threadBlock (mem : Mem) (ctxSize threadId : ℕ) : Option ThreadBlock := do
  let context ← mem.create ctxSize threadId
  let factor ← mem.getThreadHashFactor threadId
  return ⟨context,factor⟩

/-- Its cells. -/
def Mem.region (mem : Mem) (b : ThreadBlock) : Set ℕ :=
  Set.Ico b.offset (b.memory+mem.scratchPadSize*b.factor)

/-- The blocks of the threads partition the memory. -/
structure Partitions (mem : Mem) (ctxSize : ℕ) : Prop where
  /-- Every thread has one. -/
  placed : ∀ id < mem.m_threads, (mem.threadBlock ctxSize id).isSome=true
  /-- A context is followed by its scratchpads. -/
  follows : ∀ id < mem.m_threads, ∀ b, mem.threadBlock ctxSize id=some b →
    b.memory=b.offset+ctxSize
  /-- The blocks of two threads are apart. -/
  apart : ∀ id < mem.m_threads, ∀ id' < mem.m_threads, id ≠ id' → ∀ b b',
    mem.threadBlock ctxSize id=some b → mem.threadBlock ctxSize id'=some b' →
    Disjoint (mem.region b) (mem.region b')
  /-- They lie in the memory. -/
  inside : ∀ id < mem.m_threads, ∀ b, mem.threadBlock ctxSize id=some b →
    mem.region b ⊆ Set.Ico 0 mem.m_memorySize
  /-- Contexts and scratchpads begin at multiples of 16. -/
  aligned : ∀ id < mem.m_threads, ∀ b, mem.threadBlock ctxSize id=some b →
    16 ∣ b.offset ∧ ∀ k<b.factor, 16 ∣ b.memory+mem.scratchPadSize*k
  /-- For as many threads as an `int` counts the sums are values of `size_t`. -/
  fits : mem.m_threads<2^31 → ctxSize<2^20 → mem.m_hashFactor ≤ MAX_NUM_HASH_BLOCKS →
    mem.m_memorySize<2^64

/-- No lookup of a thread's hash factor is out of range: in `allocate`, in `create` and in
`Workers::onReady`, for any thread. -/
def LookupsInRange (ctxSize : ℕ) (platform : Platform) (options : Options) : Prop :=
  ∃ mem, allocate ctxSize platform options=some mem ∧ ∀ id < mem.m_threads,
    (mem.create ctxSize id).isSome=true ∧ (mem.getThreadHashFactor id).isSome=true

section Lookups

variable {mem : Mem} {ctxSize : ℕ}

/-- Scratchpads of a thread whose lookup is in range. -/
def Mem.factorOf (mem : Mem) (threadId : ℕ) : ℕ :=
  if mem.m_multiHashThreadMask=BitVec.allOnes 64 ∨ mem.m_multiHashThreadMask.getLsbD threadId=true
  then mem.m_hashFactor else 1

/-- Bytes of a thread's block. -/
def Mem.blockSize (mem : Mem) (ctxSize threadId : ℕ) : ℕ :=
  ctxSize+mem.scratchPadSize*mem.factorOf threadId

/-- A lookup is in range if the mask is full or has the bit. -/
theorem getThreadHashFactor_eq {threadId : ℕ}
    (h : mem.m_multiHashThreadMask=BitVec.allOnes 64 ∨ threadId<64) :
    mem.getThreadHashFactor threadId=some (mem.factorOf threadId) := by
  by_cases hfull : mem.m_multiHashThreadMask=BitVec.allOnes 64
  · rw [Mem.getThreadHashFactor,if_pos hfull,Mem.factorOf,if_pos (Or.inl hfull)]
  · have hbit := h.resolve_left hfull
    rw [Mem.getThreadHashFactor,if_neg hfull,if_neg (by omega),Mem.factorOf]
    simp only [hfull,false_or]

/-- Otherwise it is not. -/
theorem getThreadHashFactor_out {threadId : ℕ}
    (h : ¬mem.m_multiHashThreadMask=BitVec.allOnes 64) (hid : 64 ≤ threadId) :
    mem.getThreadHashFactor threadId=none := by
  rw [Mem.getThreadHashFactor,if_neg h,if_pos hid]

/-- The loop reaches the start of the block after the last one it adds. -/
theorem addBlocks_eq (i n : ℕ)
    (h : mem.m_multiHashThreadMask=BitVec.allOnes 64 ∨ i+n ≤ 64) :
    mem.addBlocks ctxSize i n (start (mem.blockSize ctxSize) i)=
      some (start (mem.blockSize ctxSize) (i+n)) := by
  induction n generalizing i with
  | zero => rfl
  | succ n ih =>
    have hstep : start (mem.blockSize ctxSize) i+ctxSize+mem.scratchPadSize*mem.factorOf i=
        start (mem.blockSize ctxSize) (i+1) := by
      rw [start_succ,Mem.blockSize,Nat.add_assoc]
    rw [Mem.addBlocks,getThreadHashFactor_eq (h.imp_right fun hle => by omega)]
    dsimp only [Option.bind_eq_bind,Option.bind_some]
    rw [hstep,ih (i+1) (h.imp_right fun hle => by omega),Nat.add_right_comm,Nat.add_assoc]

theorem create_eq {threadId : ℕ}
    (h : mem.m_multiHashThreadMask=BitVec.allOnes 64 ∨ threadId ≤ 64) :
    mem.create ctxSize threadId=some ⟨start (mem.blockSize ctxSize) threadId,
      start (mem.blockSize ctxSize) threadId+ctxSize⟩ := by
  have hsum := @addBlocks_eq mem ctxSize 0 threadId (h.imp_right fun hle => by omega)
  rw [start_zero,Nat.zero_add] at hsum
  rw [Mem.create,hsum]
  rfl

/-- A thread's block is the one of the layout. -/
theorem threadBlock_eq {threadId : ℕ}
    (h : mem.m_multiHashThreadMask=BitVec.allOnes 64 ∨ threadId<64) :
    mem.threadBlock ctxSize threadId=some ⟨⟨start (mem.blockSize ctxSize) threadId,
      start (mem.blockSize ctxSize) threadId+ctxSize⟩,mem.factorOf threadId⟩ := by
  rw [Mem.threadBlock,create_eq (h.imp_right Nat.le_of_lt),getThreadHashFactor_eq h]
  rfl

theorem allocate_eq {platform : Platform} {options : Options}
    (h : options.m_multiHashThreadMask=BitVec.allOnes 64 ∨ options.m_threads ≤ 64) :
    allocate ctxSize platform options=some {memOf options with
      m_memorySize := platform.memorySize options.m_hugePages
        (start ((memOf options).blockSize ctxSize) options.m_threads)} := by
  have hsum := @addBlocks_eq (memOf options) ctxSize 0 options.m_threads
    (h.imp_right fun hle => by omega)
  rw [start_zero,Nat.zero_add] at hsum
  rw [allocate,hsum]
  rfl

/-- The scratchpads of a thread end where the next thread's context begins. -/
theorem region_eq (threadId : ℕ) :
    mem.region ⟨⟨start (mem.blockSize ctxSize) threadId,
      start (mem.blockSize ctxSize) threadId+ctxSize⟩,mem.factorOf threadId⟩=
      block (mem.blockSize ctxSize) threadId := by
  rw [Mem.region,block,start_succ,Mem.blockSize,Nat.add_assoc]

theorem scratchPadSize_dvd : 16 ∣ mem.scratchPadSize := by
  rw [Mem.scratchPadSize]
  split <;> decide

/-- Blocks of a thread are bounded if the hash factor is. -/
theorem blockSize_le (hctx : ctxSize<2^20) (hfactor : mem.m_hashFactor ≤ MAX_NUM_HASH_BLOCKS)
    (threadId : ℕ) : mem.blockSize ctxSize threadId ≤ 2^20+MEMORY*MAX_NUM_HASH_BLOCKS := by
  have hpad : mem.scratchPadSize ≤ MEMORY := by
    rw [Mem.scratchPadSize]
    split <;> decide
  have hle : mem.factorOf threadId ≤ MAX_NUM_HASH_BLOCKS := by
    rw [Mem.factorOf]
    split
    · exact hfactor
    · decide
  exact Nat.add_le_add (Nat.le_of_lt hctx) (Nat.mul_le_mul hpad hle)

/-- Memory that holds the sum of the blocks, and a huge page more at most, is partitioned. -/
theorem partitions (hmask : mem.m_multiHashThreadMask=BitVec.allOnes 64 ∨ mem.m_threads ≤ 64)
    (hctx : 16 ∣ ctxSize)
    (hsize : start (mem.blockSize ctxSize) mem.m_threads ≤ mem.m_memorySize)
    (hmore : mem.m_memorySize ≤ start (mem.blockSize ctxSize) mem.m_threads+MEMORY) :
    Partitions mem ctxSize := by
  have hblock : ∀ id < mem.m_threads, ∀ b, mem.threadBlock ctxSize id=some b →
      b=⟨⟨start (mem.blockSize ctxSize) id,start (mem.blockSize ctxSize) id+ctxSize⟩,
        mem.factorOf id⟩ := by
    intro id hid b hb
    rw [threadBlock_eq (hmask.imp_right fun hle => by omega)] at hb
    exact (Option.some.inj hb).symm
  have hpads : ∀ k, 16 ∣ mem.scratchPadSize*k := fun k => scratchPadSize_dvd.mul_right k
  have hstart := @dvd_start (mem.blockSize ctxSize) 16 fun i => hctx.add (hpads _)
  refine ⟨?_,?_,?_,?_,?_,?_⟩
  · intro id hid
    rw [threadBlock_eq (hmask.imp_right fun hle => by omega)]
    rfl
  · intro id hid b hb
    rw [hblock id hid b hb]
  · intro id hid id' hid' hne b b' hb hb'
    rw [hblock id hid b hb,hblock id' hid' b' hb',region_eq,region_eq]
    exact block_disjoint hne
  · intro id hid b hb
    rw [hblock id hid b hb,region_eq]
    exact block_subset hid hsize
  · intro id hid b hb
    rw [hblock id hid b hb]
    exact ⟨hstart id,fun k _ => ((hstart id).add hctx).add (hpads k)⟩
  · intro hthreads hbound hfactor
    have hsum := start_le (@blockSize_le mem ctxSize hbound hfactor) mem.m_threads
    have hmul := Nat.mul_le_mul_right (2^20+MEMORY*MAX_NUM_HASH_BLOCKS) (Nat.le_of_lt hthreads)
    simp only [MEMORY,MAX_NUM_HASH_BLOCKS] at hsum hmul hmore
    omega

end Lookups

/-- What a platform allocates holds the sum, and a huge page more at most. -/
theorem memorySize_bounds (platform : Platform) (hugePages : Bool) (sum : ℕ) :
    sum ≤ platform.memorySize hugePages sum ∧ platform.memorySize hugePages sum ≤ sum+MEMORY := by
  have hpages : sum ≤ wholePages sum ∧ wholePages sum ≤ sum+MEMORY := by
    have hlt := Nat.mod_lt sum (by decide : 0<MEMORY)
    have hle := Nat.mod_le sum MEMORY
    rw [wholePages]
    omega
  cases platform with
  | unix => exact ⟨le_refl _,Nat.le_add_right _ _⟩
  | apple =>
    rw [Platform.memorySize]
    split
    · exact hpages
    · exact ⟨le_refl _,Nat.le_add_right _ _⟩
  | windows => exact hpages

/-- Memory of the threads. With a full mask, or 64 threads at most, `allocate` on any platform
gives memory that the blocks found by `create` partition. -/
theorem thread_blocks_partition {ctxSize : ℕ} (hctx : 16 ∣ ctxSize) (platform : Platform)
    {options : Options}
    (hmask : options.m_multiHashThreadMask=BitVec.allOnes 64 ∨ options.m_threads ≤ 64) :
    ∃ mem, allocate ctxSize platform options=some mem ∧ mem.m_threads=options.m_threads ∧
      Partitions mem ctxSize := by
  obtain ⟨hsize,hmore⟩ := memorySize_bounds platform options.m_hugePages
    (start ((memOf options).blockSize ctxSize) options.m_threads)
  exact ⟨_,allocate_eq hmask,rfl,partitions hmask hctx hsize hmore⟩

/-- Options with many threads, of which the first hashes two blocks at once. -/
def maskedOptions (threads : ℕ) : Options := ⟨false,false,.cryptonight,0,.on,2,75,threads,1⟩

/-- Blocks of 64 threads on Windows, two of them for the first thread. -/
theorem masked_blocks_partition :
    ∃ mem, allocate 1056 .windows (maskedOptions 64)=some mem ∧ mem.m_threads=64 ∧
      Partitions mem 1056 :=
  thread_blocks_partition (by decide) .windows (Or.inr (le_refl 64))

/-- Lookups of the mask. They are all in range exactly when the mask is full or there are 64
threads at most. -/
theorem lookups_in_range_iff (ctxSize : ℕ) (platform : Platform) (options : Options) :
    LookupsInRange ctxSize platform options ↔
      options.m_multiHashThreadMask=BitVec.allOnes 64 ∨ options.m_threads ≤ 64 := by
  constructor
  · rintro ⟨mem,halloc,hall⟩
    by_contra hnot
    rw [not_or] at hnot
    obtain ⟨sum,-,hmem⟩ := Option.bind_eq_some_iff.mp halloc
    obtain rfl := Option.some.inj hmem
    have hlookup := (hall 64 (Nat.not_le.mp hnot.2)).2
    rw [getThreadHashFactor_out hnot.1 (le_refl 64)] at hlookup
    cases hlookup
  · intro h
    refine ⟨_,allocate_eq h,fun id hid => ⟨?_,?_⟩⟩
    · rw [create_eq (h.imp_right fun hle => (Nat.le_of_lt hid).trans hle)]
      rfl
    · rw [getThreadHashFactor_eq (h.imp_right fun hle => Nat.lt_of_lt_of_le hid hle)]
      rfl

/-- The arguments --threads=65 --multihash-factor=2 --multihash-thread-mask=1 and
--no-huge-pages. -/
def wideSettings : List Setting :=
  [.number .threads 65,.number .multihashFactor 2,.number .multihashThreadMask 1,
    .hugePages false]

/-- They are accepted, and thread 64 is looked up in a mask of 64 bits. -/
theorem sixty_five_out_of_range :
    configured fourCores true wideSettings=some (maskedOptions 65) ∧
    ¬LookupsInRange 1056 .unix (maskedOptions 65) := by
  refine ⟨by decide +kernel,?_⟩
  rintro ⟨mem,halloc,-⟩
  have hnone : (allocate 1056 .unix (maskedOptions 65)).isNone=true := by decide +kernel
  rw [halloc] at hnone
  cases hnone

end XmrigCC.ThreadMemory
