import Mathlib

/-!
# Rings that keep the newest of a history

Cells are written one after another and from the start again. Read backwards from the place
that is written next, a ring shows the history, the newest entry first, and behind it what
the cells held before.
-/

namespace XmrigCC.RingHistories

/-- Cells, and the one that is written next. -/
structure CellRing (α : Type*) where
  /-- Contents by index. -/
  cells : ℕ → α
  /-- The index of the next write. -/
  next : ℕ

variable {α : Type*}

/-- Write an entry, in a ring of a given size. -/
def CellRing.put (size : ℕ) (r : CellRing α) (a : α) : CellRing α :=
  ⟨Function.update r.cells r.next a,(r.next+1)%size⟩

/-- The cell so many places back. -/
def CellRing.back (size : ℕ) (r : CellRing α) (i : ℕ) : α := r.cells ((r.next+size-i)%size)

/-- The cells that are read first, going back. -/
def CellRing.recent (size : ℕ) (r : CellRing α) (k : ℕ) : List α :=
  (List.range k).map fun j => r.back size (j+1)

section Reading

variable {size : ℕ} {r : CellRing α}

@[simp] theorem length_recent (k : ℕ) : (r.recent size k).length=k := by
  simp [CellRing.recent]

theorem put_next_lt (hsize : 0 < size) (a : α) : (r.put size a).next < size :=
  Nat.mod_lt _ hsize

theorem back_put_one (hnext : r.next < size) (a : α) : (r.put size a).back size 1=a := by
  have hidx : ((r.next+1)%size+size-1)%size=r.next := by
    rcases Nat.lt_or_ge (r.next+1) size with h | h
    · rw [Nat.mod_eq_of_lt h,show r.next+1+size-1=r.next+size from by omega,
        Nat.add_mod_right,Nat.mod_eq_of_lt hnext]
    · rw [show r.next+1=size from by omega,Nat.mod_self,Nat.mod_eq_of_lt (by omega)]
      omega
  simp [CellRing.back,CellRing.put,hidx]

/-- A write moves what is read one place back, up to the cell that it replaces. -/
theorem back_put_succ (hnext : r.next < size) (a : α) {i : ℕ} (hi : 1 ≤ i) (his : i < size) :
    (r.put size a).back size (i+1)=r.back size i := by
  have hidx : ((r.next+1)%size+size-(i+1))%size=(r.next+size-i)%size := by
    rcases Nat.lt_or_ge (r.next+1) size with h | h
    · rw [Nat.mod_eq_of_lt h,show r.next+1+size-(i+1)=r.next+size-i from by omega]
    · rw [show r.next+1=size from by omega,Nat.mod_self,
        show r.next+size-i=0+size-(i+1)+size from by omega,Nat.add_mod_right]
  have hother : (r.next+size-i)%size ≠ r.next := by
    rcases Nat.lt_or_ge r.next i with h | h
    · rw [Nat.mod_eq_of_lt (by omega)]
      omega
    · rw [show r.next+size-i=r.next-i+size from by omega,Nat.add_mod_right,
        Nat.mod_eq_of_lt (by omega)]
      omega
  simp [CellRing.back,CellRing.put,hidx,Function.update_of_ne hother]

theorem recent_put (hnext : r.next < size) (a : α) {k : ℕ} (hk : k ≤ size) :
    (r.put size a).recent size k=(a::r.recent size k).take k := by
  cases k with
  | zero => rfl
  | succ k =>
    have hrest : (List.range k).map (fun j => (r.put size a).back size (j+1+1))=
        r.recent size k := by
      apply List.map_congr_left
      intro j hj
      exact back_put_succ hnext a (by omega) (by have := List.mem_range.mp hj; omega)
    have htake : (r.recent size (k+1)).take k=r.recent size k := by
      rw [CellRing.recent,← List.map_take,List.take_range,Nat.min_eq_left (by omega)]
      rfl
    rw [List.take_succ_cons,htake,CellRing.recent,List.range_succ_eq_map,List.map_cons,List.map_map]
    exact congrArg₂ List.cons (back_put_one hnext a) hrest

/-- The newest of a history, and behind it what was there before. -/
theorem recent_foldl (hnext : r.next < size) (history : List α) {k : ℕ} (hk : k ≤ size) :
    (history.foldl (CellRing.put size) r).recent size k=
      (history.reverse++r.recent size k).take k := by
  induction history generalizing r with
  | nil => rw [List.foldl_nil,List.reverse_nil,List.nil_append,List.take_of_length_le (by simp)]
  | cons a history ih =>
    have hcut : ∀ front back : List α, (front++back.take k).take k=(front++back).take k := by
      intro front back
      rw [List.take_append,List.take_append,List.take_take,Nat.min_eq_left (by omega)]
    rw [List.foldl_cons,ih (put_next_lt (by omega) a),recent_put hnext a hk,hcut,
      List.reverse_cons,List.append_assoc,List.singleton_append]

end Reading

end XmrigCC.RingHistories
