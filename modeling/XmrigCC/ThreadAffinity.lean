import Mathlib

/-!
# Threads pinned to the CPUs of a mask

`CpuImpl::setAffinity` on Windows counts the set bits of the affinity mask up to the one that
belongs to the thread. The number of bits it looks at is that of the logical CPUs, and
`std::bitset<64>::test` throws for a position of 64 or more. `GetSystemInfo`, from which the number
comes, directly or through libcpuid, is documented to count the logical CPUs of one processor
group, which has 64 at most.
-/

namespace XmrigCC.ThreadAffinity

/-- What a call does. -/
inductive Outcome where
  /-- `SetProcessAffinityMask` with this mask. -/
  | process (mask : UInt64)
  /-- `SetThreadAffinityMask` with this mask. -/
  | pinned (mask : UInt64)
  /-- Nothing is called. -/
  | unpinned
  /-- `std::out_of_range` is thrown. -/
  | outOfRange
  deriving DecidableEq

/-- A call with the positions it tested. -/
structure Report where
  /-- What is done. -/
  outcome : Outcome
  /-- Positions given to `test`, in order. -/
  tested : List ℕ

/-- `Mem::ThreadBitSet(mask).test(pos)`, none when it throws. -/
def test (mask : UInt64) (pos : ℕ) : Option Bool :=
  if pos<64 then some (mask.toNat.testBit pos) else none

/-- `1ULL << i`. -/
def cpu (i : ℕ) : UInt64 := 1<<<UInt64.ofNat i

/-- The loop from a position on, with as many iterations as remain. -/
def pinFrom (mask : UInt64) (id : ℤ) : ℕ → ℕ → ℤ → Report
  | 0,_,_ => ⟨.unpinned,[]⟩
  | n+1,i,threadCount =>
    match test mask i with
    | none => ⟨.outOfRange,[i]⟩
    | some true =>
      if threadCount=id then ⟨.pinned (cpu i),[i]⟩
      else
        let rest := pinFrom mask id n (i+1) (threadCount+1)
        ⟨rest.outcome,i::rest.tested⟩
    | some false =>
      let rest := pinFrom mask id n (i+1) threadCount
      ⟨rest.outcome,i::rest.tested⟩

/-- `CpuImpl::setAffinity`. -/
def setAffinity (m_totalThreads : ℕ) (id : ℤ) (mask : UInt64) : Report :=
  if id=-1 then ⟨.process mask,[]⟩ else pinFrom mask id m_totalThreads 0 0

/-- Number of set bits of a mask below a position. -/
def rank (mask : UInt64) (n : ℕ) : ℕ := n.count fun i => mask.toNat.testBit i=true

/-- Each of some threads is pinned when there is a CPU for it, and to the CPU of its rank. -/
structure PinnedRight (m_totalThreads : ℕ) (mask : UInt64) (threads : ℕ) : Prop where
  /-- A thread is pinned exactly when its number is below that of the set bits. -/
  pinned : ∀ id<threads, (∃ cpus, (setAffinity m_totalThreads id mask).outcome=.pinned cpus) ↔
    id<rank mask m_totalThreads
  /-- It is pinned to the CPU that as many set bits precede, one of the mask. -/
  ranked : ∀ id<threads, ∀ cpus, (setAffinity m_totalThreads id mask).outcome=.pinned cpus →
    ∃ i < m_totalThreads, i<64 ∧ mask.toNat.testBit i=true ∧ rank mask i=id ∧ cpus=cpu i
  /-- No two threads are pinned to the same CPU. -/
  apart : ∀ id<threads, ∀ id'<threads, ∀ cpus,
    (setAffinity m_totalThreads id mask).outcome=.pinned cpus →
    (setAffinity m_totalThreads id' mask).outcome=.pinned cpus → id=id'
  /-- All positions tested are bits of the mask. -/
  tested : ∀ id<threads, ∀ i∈(setAffinity m_totalThreads id mask).tested, i<64

section Loop

variable {mask : UInt64} {id : ℕ}

theorem rank_succ (mask : UInt64) (n : ℕ) :
    rank mask (n+1)=rank mask n+(if mask.toNat.testBit n=true then 1 else 0) :=
  Nat.count_succ _ n

/-- A set bit has a position below 64. -/
theorem lt_of_testBit {i : ℕ} (h : mask.toNat.testBit i=true) : i<64 := by
  by_contra hge
  have hsmall : mask.toNat<2^i :=
    mask.toNat_lt.trans_le (Nat.pow_le_pow_right (by decide) (Nat.not_lt.mp hge))
  rw [Nat.testBit_lt_two_pow hsmall] at h
  cases h

/-- A position with its bit set and of the rank of the thread is where the loop stops. -/
theorem pinFrom_found {n i j : ℕ} (hi : i ≤ j) (hj : j < i+n)
    (hset : mask.toNat.testBit j=true) (hrank : rank mask j=id) :
    pinFrom mask id n i (rank mask i)=⟨.pinned (cpu j),List.range' i (j+1-i)⟩ := by
  have hlt := lt_of_testBit hset
  induction n generalizing i with
  | zero => omega
  | succ n ih =>
    have htest : test mask i=some (mask.toNat.testBit i) := if_pos (by omega)
    rw [pinFrom,htest]
    by_cases hhere : i=j
    · subst hhere
      have hone : i+1-i=1 := by omega
      rw [hset,hrank,if_pos rfl,hone]
      rfl
    · have hnext := ih (i:=i+1) (by omega) (by omega)
      have hlength : j+1-i=j+1-(i+1)+1 := by omega
      rw [rank_succ] at hnext
      cases hbit : mask.toNat.testBit i with
      | false =>
        rw [hbit,if_neg Bool.false_ne_true,Nat.add_zero (rank mask i)] at hnext
        dsimp only
        rw [hnext,hlength]
        rfl
      | true =>
        have hless : rank mask i<rank mask j := Nat.count_strict_mono hbit (by omega)
        rw [hbit,if_pos rfl,Nat.cast_add,Nat.cast_one] at hnext
        dsimp only
        rw [if_neg (by omega),hnext,hlength]
        rfl

/-- Without enough set bits the loop goes through all positions, or up to the first that is
none of the mask. -/
theorem pinFrom_missing {n i : ℕ} (hi : i ≤ 64) (hrank : rank mask (i+n) ≤ id) :
    pinFrom mask id n i (rank mask i)=
      if i+n ≤ 64 then ⟨.unpinned,List.range' i n⟩ else ⟨.outOfRange,List.range' i (65-i)⟩ := by
  induction n generalizing i with
  | zero =>
    rw [if_pos (by omega)]
    rfl
  | succ n ih =>
    have hshift : i+1+n=i+(n+1) := by omega
    by_cases hlast : i=64
    · subst hlast
      rw [if_neg (by omega)]
      rfl
    · have htest : test mask i=some (mask.toNat.testBit i) := if_pos (by omega)
      have hnext := ih (i:=i+1) (by omega) (by rw [hshift]; exact hrank)
      have hlength : 65-i=65-(i+1)+1 := by omega
      rw [rank_succ,hshift] at hnext
      rw [pinFrom,htest]
      cases hbit : mask.toNat.testBit i with
      | false =>
        rw [hbit,if_neg Bool.false_ne_true,Nat.add_zero (rank mask i)] at hnext
        dsimp only
        rw [hnext,hlength]
        split <;> rfl
      | true =>
        have hless : rank mask i<rank mask (i+(n+1)) := Nat.count_strict_mono hbit (by omega)
        rw [hbit,if_pos rfl,Nat.cast_add,Nat.cast_one] at hnext
        dsimp only
        rw [if_neg (by omega),hnext,hlength]
        split <;> rfl

end Loop

section Calls

variable {m_totalThreads id : ℕ} {mask : UInt64}

theorem setAffinity_eq (m_totalThreads id : ℕ) (mask : UInt64) :
    setAffinity m_totalThreads id mask=pinFrom mask id m_totalThreads 0 (rank mask 0) :=
  if_neg (by omega)

/-- Below the rank of the last position there is a position of each rank. -/
theorem exists_of_lt_rank {n : ℕ} (h : id<rank mask n) :
    ∃ i<n, mask.toNat.testBit i=true ∧ rank mask i=id := by
  induction n with
  | zero => cases h
  | succ n ih =>
    by_cases hless : id<rank mask n
    · obtain ⟨i,hi,hset⟩ := ih hless
      exact ⟨i,by omega,hset⟩
    · rw [rank_succ] at h
      split at h
      · rename_i hset
        exact ⟨n,by omega,hset,by omega⟩
      · omega

/-- A thread that has a CPU is pinned to it, and the positions up to it are tested. -/
theorem setAffinity_found (h : id<rank mask m_totalThreads) :
    ∃ i < m_totalThreads, mask.toNat.testBit i=true ∧ rank mask i=id ∧
      setAffinity m_totalThreads id mask=⟨.pinned (cpu i),List.range' 0 (i+1)⟩ := by
  obtain ⟨i,hi,hset,hrank⟩ := exists_of_lt_rank h
  refine ⟨i,hi,hset,hrank,?_⟩
  rw [setAffinity_eq]
  exact pinFrom_found (Nat.zero_le i) (by omega) hset hrank

/-- A thread that has none is not pinned, and all positions are tested, up to the one that is
none of the mask. -/
theorem setAffinity_missing (h : rank mask m_totalThreads ≤ id) :
    setAffinity m_totalThreads id mask=
      if m_totalThreads ≤ 64 then ⟨.unpinned,List.range' 0 m_totalThreads⟩
      else ⟨.outOfRange,List.range' 0 65⟩ := by
  have hrank : rank mask (0+m_totalThreads) ≤ id := by rwa [Nat.zero_add]
  have hloop := pinFrom_missing (Nat.zero_le 64) hrank
  rw [Nat.zero_add] at hloop
  rw [setAffinity_eq,hloop]

/-- A thread is pinned exactly when it has a CPU. -/
theorem pinned_iff :
    (∃ cpus, (setAffinity m_totalThreads id mask).outcome=.pinned cpus) ↔
      id<rank mask m_totalThreads := by
  constructor
  · rintro ⟨cpus,hpinned⟩
    by_contra hless
    rw [setAffinity_missing (Nat.not_lt.mp hless)] at hpinned
    split at hpinned <;> cases hpinned
  · intro h
    obtain ⟨i,-,-,-,hcall⟩ := setAffinity_found h
    exact ⟨cpu i,by rw [hcall]⟩

/-- What a pinned thread is pinned to. -/
theorem ranked_of_pinned {cpus : UInt64}
    (h : (setAffinity m_totalThreads id mask).outcome=.pinned cpus) :
    ∃ i < m_totalThreads, i<64 ∧ mask.toNat.testBit i=true ∧ rank mask i=id ∧ cpus=cpu i := by
  obtain ⟨i,hi,hset,hrank,hcall⟩ := setAffinity_found (pinned_iff.mp ⟨cpus,h⟩)
  rw [hcall,Outcome.pinned.injEq] at h
  exact ⟨i,hi,lt_of_testBit hset,hset,hrank,h.symm⟩

/-- CPUs have masks of their own. -/
theorem cpu_injective : ∀ i<64, ∀ j<64, cpu i=cpu j → i=j := by
  have hbit : ∀ i<64, (cpu i).toNat=2^i := by decide
  intro i hi j hj h
  have hpow : 2^i=2^j := by rw [←hbit i hi,←hbit j hj,h]
  exact Nat.pow_right_injective (le_refl 2) hpow

end Calls

/-- The threads are pinned right when there are at most 64 logical CPUs, or each thread has a CPU in
the mask. -/
theorem pinnedRight_of_fits {m_totalThreads : ℕ} {mask : UInt64} {threads : ℕ}
    (h : m_totalThreads ≤ 64 ∨ threads ≤ rank mask m_totalThreads) :
    PinnedRight m_totalThreads mask threads := by
  refine ⟨fun id _ => pinned_iff,fun id _ cpus => ranked_of_pinned,?_,?_⟩
  · intro id _ id' _ cpus hid hid'
    obtain ⟨i,-,hi,-,hrank,rfl⟩ := ranked_of_pinned hid
    obtain ⟨j,-,hj,-,hrank',hcpu⟩ := ranked_of_pinned hid'
    rw [←hrank,←hrank',cpu_injective i hi j hj hcpu]
  · intro id hid i hi
    by_cases hless : id<rank mask m_totalThreads
    · obtain ⟨j,-,hset,-,hcall⟩ := setAffinity_found hless
      have hj := lt_of_testBit hset
      rw [hcall,List.mem_range'_1] at hi
      omega
    · rw [setAffinity_missing (Nat.not_lt.mp hless),if_pos (by omega),List.mem_range'_1] at hi
      omega

/-- The threads are pinned right exactly when there are at most 64 logical CPUs, or each thread
has a CPU in the mask. -/
theorem pinned_right_iff (m_totalThreads : ℕ) (mask : UInt64) (threads : ℕ) :
    PinnedRight m_totalThreads mask threads ↔
      m_totalThreads ≤ 64 ∨ threads ≤ rank mask m_totalThreads := by
  constructor
  · intro h
    by_contra hwide
    rw [not_or] at hwide
    have htested := h.tested (rank mask m_totalThreads) (by omega) 64
    rw [setAffinity_missing (le_refl _),if_neg hwide.1] at htested
    exact absurd (htested (by decide)) (by decide)
  · exact pinnedRight_of_fits

/-- Logical CPUs that `GetSystemInfo` reports at most. -/
def reportedCpus : ℕ := 64

/-- Any number of threads is pinned right by any mask while the number of CPUs is one that
`GetSystemInfo` reports. -/
theorem pinnedRight_of_reported {m_totalThreads : ℕ} (h : m_totalThreads ≤ reportedCpus)
    (mask : UInt64) (threads : ℕ) : PinnedRight m_totalThreads mask threads :=
  pinnedRight_of_fits (.inl h)

/-- With 128 logical CPUs and one of them in the mask, the second of two threads tests bit 64. -/
theorem second_thread_not_pinned_right : ¬PinnedRight 128 1 2 := by
  intro h
  have htested := h.tested 1 (by decide) 64
  exact absurd (htested (by decide)) (by decide)

end XmrigCC.ThreadAffinity
