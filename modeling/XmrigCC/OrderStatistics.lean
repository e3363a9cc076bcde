import Mathlib

/-!
# Order statistics

The greatest elements of a growing history, kept in a list of fixed length, and the element
of a given rank, found without sorting everything. Both are read off the sorted history.
-/

namespace XmrigCC.OrderStatistics

variable {α : Type*} [LinearOrder α]

/-- From the least element on. -/
def ascending (xs : List α) : List α := xs.mergeSort fun a b => decide (a ≤ b)

/-- From the greatest element on. -/
def descending (xs : List α) : List α := xs.mergeSort fun a b => decide (b ≤ a)

theorem ascending_perm (xs : List α) : (ascending xs).Perm xs := List.mergeSort_perm xs _

theorem descending_perm (xs : List α) : (descending xs).Perm xs := List.mergeSort_perm xs _

theorem ascending_pairwise (xs : List α) : (ascending xs).Pairwise fun a b => a ≤ b := by
  have h : (ascending xs).Pairwise fun a b => decide (a ≤ b)=true :=
    List.pairwise_mergeSort (by simpa using fun a b c => le_trans) (by simpa using le_total) xs
  simpa using h

theorem descending_pairwise (xs : List α) : (descending xs).Pairwise fun a b => b ≤ a := by
  have h : (descending xs).Pairwise fun a b => decide (b ≤ a)=true :=
    List.pairwise_mergeSort (by simpa using fun a b c hab hbc => le_trans hbc hab)
      (by simpa using fun a b => le_total b a) xs
  simpa using h

/-- There is one way to sort a list. -/
theorem eq_ascending {sorted xs : List α} (hs : sorted.Pairwise fun a b => a ≤ b)
    (hp : sorted.Perm xs) : sorted=ascending xs :=
  List.Perm.eq_of_pairwise (fun _ _ _ _ hab hba => le_antisymm hab hba) hs
    (ascending_pairwise xs) (hp.trans (ascending_perm xs).symm)

theorem eq_descending {sorted xs : List α} (hs : sorted.Pairwise fun a b => b ≤ a)
    (hp : sorted.Perm xs) : sorted=descending xs :=
  List.Perm.eq_of_pairwise (fun _ _ _ _ hab hba => le_antisymm hba hab) hs
    (descending_pairwise xs) (hp.trans (descending_perm xs).symm)

/-- The greatest elements of a history, in order. -/
structure IsTop (top history : List α) : Prop where
  /-- They are sorted. -/
  sorted : top.Pairwise fun a b => b ≤ a
  /-- The other elements are not above them. -/
  others : ∃ rest, (top++rest).Perm history ∧ ∀ a∈top, ∀ b∈rest, b ≤ a

theorem IsTop.eq_take {top history : List α} (h : IsTop top history) :
    top=(descending history).take top.length := by
  obtain ⟨hs,rest,hp,hr⟩ := h
  have hsorted : (top++descending rest).Pairwise fun a b => b ≤ a :=
    List.pairwise_append.mpr ⟨hs,descending_pairwise rest,fun a ha b hb =>
      hr a ha b ((descending_perm rest).mem_iff.mp hb)⟩
  have hperm : (top++descending rest).Perm history :=
    ((descending_perm rest).append_left top).trans hp
  rw [← eq_descending hsorted hperm,List.take_left]

section NewElement

variable {kept history : List α} {least x : α}

theorem IsTop.least_le (h : IsTop (kept++[least]) history) : ∀ a∈kept++[least], least ≤ a := by
  intro a ha
  rcases List.mem_append.mp ha with hk | hl
  · exact (List.pairwise_append.mp h.sorted).2.2 a hk least (List.mem_singleton_self _)
  · exact (List.mem_singleton.mp hl).ge

/-- A greater element takes the place of the least one. -/
theorem IsTop.replace (h : IsTop (kept++[least]) history) (hx : least < x) :
    IsTop (descending (kept++[x])) (history++[x]) := by
  obtain ⟨rest,hp,hr⟩ := h.others
  refine ⟨descending_pairwise _,least::rest,?_,?_⟩
  · calc (descending (kept++[x])++least::rest).Perm (kept++[x]++least::rest) :=
          (descending_perm _).append_right _
      _ = kept++(x::[least]++rest) := by simp
      _ |>.Perm (kept++([least]++rest++[x])) :=
          List.Perm.append_left kept (List.perm_append_singleton x ([least]++rest)).symm
      _ = kept++[least]++rest++[x] := by simp
      _ |>.Perm (history++[x]) := hp.append_right [x]
  · have hleast : ∀ a∈kept++[x], least ≤ a := by
      intro a ha
      rcases List.mem_append.mp ha with hk | hl
      · exact h.least_le a (List.mem_append_left _ hk)
      · exact (List.mem_singleton.mp hl ▸ hx).le
    intro a ha b hb
    refine le_trans ?_ (hleast a ((descending_perm _).mem_iff.mp ha))
    rcases List.mem_cons.mp hb with rfl | hb
    · exact le_rfl
    · exact hr least (by simp) b hb

/-- Any other one changes nothing. -/
theorem IsTop.skip (h : IsTop (kept++[least]) history) (hx : x ≤ least) :
    IsTop (kept++[least]) (history++[x]) := by
  obtain ⟨rest,hp,hr⟩ := h.others
  refine ⟨h.sorted,rest++[x],?_,?_⟩
  · rw [← List.append_assoc]
    exact hp.append_right [x]
  · intro a ha b hb
    rcases List.mem_append.mp hb with hb | hb
    · exact hr a ha b hb
    · exact List.mem_singleton.mp hb ▸ hx.trans (h.least_le a ha)

end NewElement

/-- As many least values as are kept. -/
theorem isTop_replicate (n : ℕ) (a : α) : IsTop (List.replicate n a) (List.replicate n a) :=
  ⟨List.pairwise_replicate.mpr (.inr le_rfl),[],by simp,by simp⟩

/-- A way to bring the element of a rank to its place. -/
structure NthElement (α : Type*) [LinearOrder α] where
  /-- The list, rearranged for that rank. -/
  rearrange : List α → ℕ → List α
  /-- Nothing is lost or added. -/
  perm : ∀ v n, (rearrange v n).Perm v
  /-- What stands before the place is not above it, and what stands behind not below it. -/
  placed : ∀ v n, n < v.length → ∃ before nth behind, rearrange v n=before++nth::behind ∧
    before.length=n ∧ (∀ a∈before, a ≤ nth) ∧ ∀ b∈behind, nth ≤ b

/-- The place holds what sorting everything would put there. -/
theorem NthElement.rearrange_getElem (way : NthElement α) (v : List α) (n : ℕ)
    (hn : n < v.length) : (way.rearrange v n)[n]?=(ascending v)[n]? := by
  obtain ⟨before,nth,behind,he,hlen,hbefore,hbehind⟩ := way.placed v n hn
  have hsorted : (ascending before++nth::ascending behind).Pairwise fun a b => a ≤ b := by
    refine List.pairwise_append.mpr ⟨ascending_pairwise _,List.pairwise_cons.mpr
      ⟨fun b hb => hbehind b ((ascending_perm _).mem_iff.mp hb),ascending_pairwise _⟩,?_⟩
    intro a ha b hb
    have hle : a ≤ nth := hbefore a ((ascending_perm _).mem_iff.mp ha)
    rcases List.mem_cons.mp hb with rfl | hb
    · exact hle
    · exact hle.trans (hbehind b ((ascending_perm _).mem_iff.mp hb))
  have hperm : (ascending before++nth::ascending behind).Perm v :=
    ((ascending_perm before).append ((ascending_perm behind).cons nth)).trans
      (he ▸ way.perm v n)
  have hascending : (ascending before).length=n := (ascending_perm before).length_eq.trans hlen
  rw [he,← eq_ascending hsorted hperm,List.getElem?_append_right hlen.le,
    List.getElem?_append_right hascending.le,hlen,hascending]
  simp

/-- Sorting everything is one way. -/
def NthElement.bySorting (α : Type*) [LinearOrder α] : NthElement α where
  rearrange v _ := ascending v
  perm v _ := ascending_perm v
  placed v n hn := by
    have hn' : n < (ascending v).length := (ascending_perm v).length_eq.symm ▸ hn
    have hcut := List.take_append_drop n (ascending v)
    rw [List.drop_eq_getElem_cons hn'] at hcut
    have hs := ascending_pairwise v
    rw [← hcut] at hs
    obtain ⟨-,hbehind,hbefore⟩ := List.pairwise_append.mp hs
    exact ⟨_,_,_,hcut.symm,by rw [List.length_take,Nat.min_eq_left hn'.le],
      fun a ha => hbefore a ha _ List.mem_cons_self,(List.pairwise_cons.mp hbehind).1⟩

end XmrigCC.OrderStatistics
