import Mathlib

/-!
# Loops over partial steps, seen through a view

A step that may fail simulates a total machine through a view when it never
fails and its effect, seen there, is the machine's. Loops inherit this.
-/

namespace XmrigCC.PartialLoops

variable {α β : Type}

/-- A loop of a number of iterations. -/
def iterate (f : α → Option α) : ℕ → α → Option α
  | 0,a => some a
  | n+1,a => f a >>= iterate f n

/-- A loop over the indices below a bound, in order. -/
def forBelow (f : ℕ → α → Option α) : ℕ → α → Option α
  | 0,a => some a
  | n+1,a => forBelow f n a >>= f n

/-- The step always succeeds, and in the view it is the machine's step. -/
def Runs (f : α → Option α) (view : α → β) (g : β → β) : Prop :=
  ∀ a, (f a).map view=some (g (view a))

/-- A simulated step succeeds. -/
theorem Runs.some {f : α → Option α} {view : α → β} {g : β → β} (h : Runs f view g) (a : α) :
    ∃ a', f a=some a' ∧ view a'=g (view a) := Option.map_eq_some_iff.mp (h a)

theorem runs_of_some {f : α → Option α} {view : α → β} {g : β → β}
    (h : ∀ a, ∃ a', f a=some a' ∧ view a'=g (view a)) : Runs f view g :=
  fun a => Option.map_eq_some_iff.mpr (h a)

/-- A step simulated in several views succeeds once for all of them. -/
theorem runs_all {ι : Type} [Nonempty ι] {f : α → Option α} {view : ι → α → β}
    {g : ι → β → β} (h : ∀ k, Runs f (view k) (g k)) (a : α) :
    ∃ a', f a=some a' ∧ ∀ k, view k a'=g k (view k a) := by
  obtain ⟨k⟩ := ‹Nonempty ι›
  obtain ⟨a',ha,-⟩ := (h k).some a
  refine ⟨a',ha,?_⟩
  intro j
  obtain ⟨b,hb,hv⟩ := (h j).some a
  rw [ha,Option.some.injEq] at hb
  rw [hb,hv]

/-- One step after another simulates one machine after another. -/
theorem Runs.bind {f f' : α → Option α} {view : α → β} {g g' : β → β} (h : Runs f view g)
    (h' : Runs f' view g') : Runs (fun a => f a >>= f') view (g'∘g) := by
  apply runs_of_some
  intro a
  obtain ⟨b,hb,hv⟩ := h.some a
  obtain ⟨c,hc,hw⟩ := h'.some b
  refine ⟨c,?_,?_⟩
  · rw [hb]
    exact hc
  · rw [hw,hv,Function.comp_apply]

/-- The iterated step simulates the iterated machine. -/
theorem runs_iterate {f : α → Option α} {view : α → β} {g : β → β} (h : Runs f view g) (n : ℕ) :
    Runs (iterate f n) view g^[n] := by
  apply runs_of_some
  intro a
  induction n generalizing a with
  | zero => exact ⟨a,rfl,rfl⟩
  | succ n ih =>
    obtain ⟨a',ha,hv⟩ := h.some a
    obtain ⟨b,hb,hw⟩ := ih a'
    refine ⟨b,?_,?_⟩
    · rw [iterate,ha]
      exact hb
    · rw [hw,hv,Function.iterate_succ_apply]

/-- A loop in which one index makes the view's step and the others leave the view alone
makes it once, or not at all when the index is not reached. -/
theorem runs_forBelow {f : ℕ → α → Option α} {view : α → β} {g : β → β} {k n : ℕ}
    (hk : k<n → Runs (f k) view g) (hother : ∀ i<n, i ≠ k → Runs (f i) view id) :
    Runs (forBelow f n) view (if k<n then g else id) := by
  apply runs_of_some
  intro a
  induction n with
  | zero => exact ⟨a,rfl,rfl⟩
  | succ n ih =>
    obtain ⟨a',ha,hv⟩ := ih (fun hlt => hk (by omega)) (fun i hi => hother i (by omega))
    by_cases hnk : n=k
    · subst hnk
      obtain ⟨b,hb,hw⟩ := (hk (Nat.lt_succ_self n)).some a'
      rw [if_neg (Nat.lt_irrefl n)] at hv
      refine ⟨b,?_,?_⟩
      · rw [forBelow,ha]
        exact hb
      · rw [if_pos (Nat.lt_succ_self n),hw,hv,id]
    · obtain ⟨b,hb,hw⟩ := (hother n (Nat.lt_succ_self n) hnk).some a'
      refine ⟨b,?_,?_⟩
      · rw [forBelow,ha]
        exact hb
      · rw [hw,id,hv]
        by_cases hlt : k<n
        · rw [if_pos hlt,if_pos (by omega)]
        · rw [if_neg hlt,if_neg (by omega)]

/-- A loop that reaches an index at which its body fails has no result. -/
theorem forBelow_none {f : ℕ → α → Option α} {k n : ℕ} (h : ∀ a, f k a=none) (hk : k<n) (a : α) :
    forBelow f n a=none := by
  induction n with
  | zero => cases hk
  | succ n ih =>
    rw [forBelow]
    by_cases hnk : n=k
    · subst hnk
      cases forBelow f n a with
      | none => rfl
      | some b => exact h b
    · rw [ih (by omega)]
      rfl

end XmrigCC.PartialLoops
