import Mathlib

/-!
# Addressed cells, stored runs and block copies

A memory is a total function from addresses to cell contents; bounds are
facts about the addresses used, proved by the client. A block copy follows
the library contract of `memcpy`: it writes only its destination, and it
moves the source when source and destination are apart. What it leaves on
overlapping regions is not specified. Blocks that are laid out one after another are
apart.
-/

namespace XmrigCC.CellMemory

variable {α : Type*}

/-- Contents of every cell; addresses are relative to a chosen origin. -/
abbrev Cells (α : Type*) := ℕ → α

/-- The contents of consecutive cells, as a list. -/
def slice (m : Cells α) : ℕ → ℕ → List α
  | _,0 => []
  | a,n+1 => m a::slice m (a+1) n

/-- Store a list in consecutive cells. -/
def store (m : Cells α) (a : ℕ) (xs : List α) : Cells α :=
  fun c => if a ≤ c then (xs[c-a]?).getD (m c) else m c

@[simp] theorem slice_zero (m : Cells α) (a : ℕ) : slice m a 0=[] := rfl

@[simp] theorem slice_succ (m : Cells α) (a n : ℕ) :
    slice m a (n+1)=m a::slice m (a+1) n := rfl

@[simp] theorem length_slice (m : Cells α) (a n : ℕ) : (slice m a n).length=n := by
  induction n generalizing a with
  | zero => rfl
  | succ n ih => simp only [slice_succ,List.length_cons,ih]

@[simp] theorem getElem_slice (m : Cells α) (a n i : ℕ) (h : i<(slice m a n).length) :
    (slice m a n)[i]=m (a+i) := by
  induction n generalizing a i with
  | zero => cases h
  | succ n ih =>
    cases i with
    | zero => rfl
    | succ i =>
      simp only [slice_succ,List.getElem_cons_succ]
      rw [ih,show a+1+i=a+(i+1) by omega]

/-- Adjacent regions are read one after the other. -/
theorem slice_add (m : Cells α) (a n k : ℕ) :
    slice m a (n+k)=slice m a n++slice m (a+n) k := by
  induction n generalizing a with
  | zero => simp only [Nat.zero_add,slice_zero,List.nil_append,Nat.add_zero]
  | succ n ih =>
    rw [show n+1+k=n+k+1 by omega,slice_succ,slice_succ,ih,List.cons_append,
      show a+1+n=a+(n+1) by omega]

/-- A region depends only on the cells inside it. -/
theorem slice_congr {m m' : Cells α} {a b n : ℕ} (h : ∀ i<n, m (a+i)=m' (b+i)) :
    slice m a n=slice m' b n := by
  induction n generalizing a b with
  | zero => rfl
  | succ n ih =>
    have hhead := h 0 (by omega)
    simp only [Nat.add_zero] at hhead
    have htail : slice m (a+1) n=slice m' (b+1) n := by
      apply ih
      intro i hi
      have hc := h (i+1) (by omega)
      rwa [show a+1+i=a+(i+1) by omega,show b+1+i=b+(i+1) by omega]
    rw [slice_succ,slice_succ,hhead,htail]

/-- Equal regions hold equal cells. -/
theorem cell_eq_of_slice_eq {m m' : Cells α} {a b n : ℕ} (h : slice m a n=slice m' b n) :
    ∀ i<n, m (a+i)=m' (b+i) := by
  induction n generalizing a b with
  | zero => intro i hi; omega
  | succ n ih =>
    rw [slice_succ,slice_succ,List.cons.injEq] at h
    intro i hi
    cases i with
    | zero => exact h.1
    | succ i =>
      have hc := ih h.2 i (by omega)
      rwa [show a+1+i=a+(i+1) by omega,show b+1+i=b+(i+1) by omega] at hc

/-- Cells outside the stored run keep their contents. -/
theorem store_outside {m : Cells α} {a c : ℕ} {xs : List α} (h : c<a ∨ a+xs.length ≤ c) :
    store m a xs c=m c := by
  unfold store
  split
  · have hc : xs.length ≤ c-a := by omega
    rw [List.getElem?_eq_none hc,Option.getD_none]
  · rfl

/-- Cells inside the stored run hold its elements. -/
theorem store_inside {m : Cells α} {a i : ℕ} {xs : List α} (h : i<xs.length) :
    store m a xs (a+i)=xs[i] := by
  unfold store
  rw [if_pos (by omega),show a+i-a=i by omega,List.getElem?_eq_getElem h,Option.getD_some]

/-- A stored run is read back unchanged. -/
theorem slice_store_same (m : Cells α) (a : ℕ) (xs : List α) :
    slice (store m a xs) a xs.length=xs := by
  induction xs generalizing m a with
  | nil => rfl
  | cons x xs ih =>
    have hhead : store m a (x::xs) a=x := store_inside (i:=0) (by simp)
    have htail : slice (store m a (x::xs)) (a+1) xs.length=xs := by
      calc
        slice (store m a (x::xs)) (a+1) xs.length=
            slice (store m (a+1) xs) (a+1) xs.length := by
          apply slice_congr
          intro i hi
          have hlen : i+1<(x::xs).length := by simp only [List.length_cons]; omega
          have hl : store m a (x::xs) (a+(i+1))=(x::xs)[i+1] := store_inside hlen
          rw [show a+1+i=a+(i+1) by omega,hl,show a+(i+1)=a+1+i by omega,store_inside hi]
          rfl
        _ = xs := ih m (a+1)
    rw [List.length_cons,slice_succ,hhead,htail]

/-- A store apart from a region does not change it. -/
theorem slice_store_apart {m : Cells α} {a b n : ℕ} {xs : List α}
    (h : b+n ≤ a ∨ a+xs.length ≤ b) : slice (store m a xs) b n=slice m b n := by
  apply slice_congr
  intro i hi
  exact store_outside (by omega)

/-- Two regions of the same length have no cell in common. -/
def Apart (a b n : ℕ) : Prop := a+n ≤ b ∨ b+n ≤ a

instance (a b n : ℕ) : Decidable (Apart a b n) := inferInstanceAs (Decidable (_ ∨ _))

/-- A block copy in the sense of the C library: destination, source, length. -/
structure BlockCopy (α : Type*) where
  /-- Memory after copying; arbitrary in the destination when the regions overlap. -/
  copy : Cells α → ℕ → ℕ → ℕ → Cells α
  /-- Only the destination is written. -/
  frame : ∀ m dst src n c, (c<dst ∨ dst+n ≤ c) → copy m dst src n c=m c
  /-- Regions that are apart are copied. -/
  moves : ∀ m dst src n, Apart dst src n → ∀ i<n, copy m dst src n (dst+i)=m (src+i)

/-- One call delivers its source; nothing promises this on overlapping regions. -/
def BlockCopy.Delivers (cpy : BlockCopy α) (m : Cells α) (dst src n : ℕ) : Prop :=
  slice (cpy.copy m dst src n) dst n=slice m src n

/-- The copy through an intermediate buffer, correct on overlapping regions too. -/
def BlockCopy.buffered : BlockCopy α where
  copy m dst src n := store m dst (slice m src n)
  frame m dst src n c h := store_outside (by rwa [length_slice])
  moves m dst src n _ := by
    have hs := slice_store_same m dst (slice m src n)
    rw [length_slice] at hs
    exact cell_eq_of_slice_eq hs

end XmrigCC.CellMemory

/-! Block i of a layout begins where the sizes before it add up to. Blocks of any sizes are
apart from each other, lie below the sum of all sizes, and begin at multiples of what
divides all sizes. -/

namespace XmrigCC.BlockLayout

/-- First cell of a block. -/
def start (size : ℕ → ℕ) (i : ℕ) : ℕ := ∑ j∈Finset.range i, size j

/-- Cells of a block. -/
def block (size : ℕ → ℕ) (i : ℕ) : Set ℕ := Set.Ico (start size i) (start size (i+1))

section Layout

variable {size : ℕ → ℕ}

@[simp] theorem start_zero : start size 0=0 := Finset.sum_range_zero _

theorem start_succ (i : ℕ) : start size (i+1)=start size i+size i := Finset.sum_range_succ _ _

theorem start_monotone : Monotone (start size) :=
  monotone_nat_of_le_succ fun i => by
    rw [start_succ]
    exact Nat.le_add_right _ _

/-- Different blocks have no cell in common. -/
theorem block_disjoint {i j : ℕ} (h : i ≠ j) : Disjoint (block size i) (block size j) :=
  start_monotone.pairwise_disjoint_on_Ico_succ h

/-- The blocks counted lie below the sum of their sizes. -/
theorem block_subset {i n m : ℕ} (hi : i<n) (hm : start size n ≤ m) :
    block size i ⊆ Set.Ico 0 m := by
  intro c hc
  have hend : start size (i+1) ≤ start size n := start_monotone hi
  exact ⟨Nat.zero_le c,hc.2.trans_le (hend.trans hm)⟩

/-- What divides all sizes divides every start. -/
theorem dvd_start {d : ℕ} (h : ∀ i, d ∣ size i) (n : ℕ) : d ∣ start size n :=
  Finset.dvd_sum fun i _ => h i

/-- Blocks of bounded sizes take no more than the bound each. -/
theorem start_le {bound : ℕ} (h : ∀ i, size i ≤ bound) (n : ℕ) : start size n ≤ n*bound := by
  have hsum := Finset.sum_le_card_nsmul (Finset.range n) size bound fun i _ => h i
  rwa [Finset.card_range,smul_eq_mul] at hsum

end Layout

end XmrigCC.BlockLayout
