import Mathlib

/-!
# Arrays of a fixed length

The cells of an array are read and set one at a time. A loop runs over the numbers of the cells in
order. A copy into a buffer has a result when it stays inside the buffer and inside its source.
-/

namespace XmrigCC.FixedArrays

variable {α σ : Type*} {n : ℕ}

/-- An array with as many cells as its length says. -/
@[ext]
structure FixedArray (α : Type*) (n : ℕ) where
  /-- What the cells contain. -/
  cell : Fin n → α

instance : CoeFun (FixedArray α n) fun _ => Fin n → α := ⟨FixedArray.cell⟩

/-- A cell is set. -/
def FixedArray.set (v : FixedArray α n) (i : Fin n) (x : α) : FixedArray α n :=
  ⟨Function.update v.cell i x⟩

/-- The same content in every cell. -/
def fill (n : ℕ) (x : α) : FixedArray α n := ⟨fun _ => x⟩

/-- The contents in order. -/
def FixedArray.toList (v : FixedArray α n) : List α := List.ofFn v.cell

/-- A loop over the numbers below a bound, in order. -/
def forEach (n : ℕ) (body : Fin n → σ → σ) (s : σ) : σ :=
  (List.finRange n).foldl (fun s i => body i s) s

@[simp] theorem set_same (v : FixedArray α n) (i : Fin n) (x : α) : v.set i x i=x := by
  change Function.update v.cell i x i=x
  rw [Function.update_self]

@[simp] theorem set_other (v : FixedArray α n) {i j : Fin n} (h : j ≠ i) (x : α) :
    v.set i x j=v j := by
  change Function.update v.cell i x j=v j
  rw [Function.update_of_ne h]

theorem array_ext {v w : FixedArray α n} (h : ∀ i, v i=w i) : v=w := FixedArray.ext (funext h)

@[simp] theorem length_toList (v : FixedArray α n) : v.toList.length=n := List.length_ofFn

/-- A loop that sets each cell in its turn, to a content made from what the cell had. -/
theorem forEach_set (g : Fin n → α → α) (v : FixedArray α n) (i : Fin n) :
    forEach n (fun i v => v.set i (g i (v i))) v i=g i (v i) := by
  have hloop : ∀ (l : List (Fin n)), l.Nodup → ∀ v : FixedArray α n,
      l.foldl (fun v i => v.set i (g i (v i))) v i=if i∈l then g i (v i) else v i := by
    intro l hl
    induction l with
    | nil => exact fun v => (if_neg List.not_mem_nil).symm
    | cons j l ih =>
      intro v
      obtain ⟨hj,hl⟩ := List.nodup_cons.mp hl
      rw [List.foldl_cons,ih hl]
      by_cases hij : i=j
      · subst hij
        rw [if_neg hj,if_pos List.mem_cons_self,set_same]
      · rw [set_other v hij]
        by_cases hi : i∈l
        · rw [if_pos hi,if_pos (List.mem_cons_of_mem j hi)]
        · rw [if_neg hi,if_neg fun hc => (List.mem_cons.mp hc).elim hij hi]
  exact (hloop _ (List.nodup_finRange n) v).trans (if_pos (List.mem_finRange i))

/-- What each turn of a loop carries on holds behind the loop. -/
theorem forEach_induct {body : Fin n → σ → σ} {P : ℕ → σ → Prop} {s : σ} (hs : P 0 s)
    (hstep : ∀ (i : Fin n) s, P i s → P (i+1) (body i s)) : P n (forEach n body s) := by
  induction n generalizing s with
  | zero => exact hs
  | succ n ih =>
    have hloop : forEach (n+1) body s=
        body (Fin.last n) (forEach n (fun i => body i.castSucc) s) := by
      rw [forEach,List.finRange_succ_last,List.foldl_append,List.foldl_map]
      rfl
    rw [hloop]
    exact hstep (Fin.last n) _ (ih hs fun i s => hstep i.castSucc s)

/-- `len` cells of a source are copied into a buffer, from a place on. -/
def copyInto (dst : List α) (at' : ℕ) (src : List α) (len : ℕ) : Option (List α) :=
  if at'+len ≤ dst.length ∧ len ≤ src.length then
    some (dst.take at'++src.take len++dst.drop (at'+len))
  else none

/-- A copy that stays inside both, and what the buffer then begins with. -/
theorem copyInto_eq (dst src : List α) (at' len : ℕ) (hdst : at'+len ≤ dst.length)
    (hsrc : len ≤ src.length) : ∃ buf, copyInto dst at' src len=some buf ∧
      buf.length=dst.length ∧ buf.take (at'+len)=dst.take at'++src.take len ∧
      buf.drop (at'+len)=dst.drop (at'+len) := by
  have hfirst : (dst.take at'++src.take len).length=at'+len := by
    rw [List.length_append,List.length_take,List.length_take]
    omega
  refine ⟨_,if_pos ⟨hdst,hsrc⟩,?_,?_,?_⟩
  · rw [List.length_append,hfirst,List.length_drop]
    omega
  · exact List.take_left' hfirst
  · exact List.drop_left' hfirst

/-- A copy that fills its buffer to the end. -/
theorem copyInto_full (dst src : List α) (at' len : ℕ) (hdst : at'+len=dst.length)
    (hsrc : len ≤ src.length) : copyInto dst at' src len=some (dst.take at'++src.take len) := by
  rw [copyInto,if_pos ⟨hdst.le,hsrc⟩,hdst,List.drop_length,List.append_nil]

end XmrigCC.FixedArrays
