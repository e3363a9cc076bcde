import Mathlib

/-!
# Slots that own the blocks they point to

A heap holds blocks under their addresses, and slots hold pointers to them. Every slot
owns its block: the block is there, and no other slot points to it. A slot is renewed as C
programs do it, the old block is freed first and the new text is copied afterwards. Reading
a freed block, or freeing it again, has no result.
-/

namespace XmrigCC.OwnedBlocks

variable {κ β : Type*}

/-- A heap and the pointers of the slots, none for null. -/
structure Owners (κ β : Type*) where
  /-- Blocks by address. -/
  heap : Finmap fun _ : ℕ => β
  /-- Pointer of a slot. -/
  slot : κ → Option ℕ

/-- An allocator finds an address where no block is. -/
structure Allocator (β : Type*) where
  /-- Address of the next block. -/
  malloc : (Finmap fun _ : ℕ => β) → ℕ
  /-- It is new. -/
  fresh : ∀ heap, malloc heap∉heap

/-- The address behind all others. -/
def Allocator.behind : Allocator β where
  malloc heap := heap.keys.sup id+1
  fresh heap h := by
    have hle : heap.keys.sup id+1 ≤ heap.keys.sup id :=
      Finset.le_sup (f:=id) (Finmap.mem_keys.mpr h)
    omega

namespace Owners

/-- Every slot owns the block it points to. -/
structure Owned (s : Owners κ β) : Prop where
  /-- The block is there. -/
  live : ∀ k p, s.slot k=some p → p∈s.heap
  /-- No other slot points to it. -/
  apart : ∀ j k p, s.slot j=some p → s.slot k=some p → j=k

/-- The slots but one keep their pointers. -/
def KeepsSlots (s s' : Owners κ β) (k : κ) : Prop := ∀ j ≠ k, s'.slot j=s.slot j

/-- The block behind a pointer, none if there is no block. -/
def read (s : Owners κ β) (p : Option ℕ) : Option β := p.bind s.heap.lookup

/-- The block of a slot. -/
def value (s : Owners κ β) (k : κ) : Option β := s.read (s.slot k)

/-- `free`: nothing for null, no result where no block is. -/
def free (s : Owners κ β) : Option ℕ → Option (Owners κ β)
  | none => some s
  | some p => if p∈s.heap then some {s with heap := s.heap.erase p} else none

/-- A block of the caller. -/
def alloc (A : Allocator β) (s : Owners κ β) (x : β) : Owners κ β :=
  {s with heap := s.heap.insert (A.malloc s.heap) x}

variable [DecidableEq κ]

/-- A slot is pointed to a new block. -/
def plant (A : Allocator β) (s : Owners κ β) (k : κ) (x : β) : Owners κ β :=
  ⟨s.heap.insert (A.malloc s.heap) x,Function.update s.slot k (some (A.malloc s.heap))⟩

/-- A slot is null. -/
def forget (s : Owners κ β) (k : κ) : Owners κ β := ⟨s.heap,Function.update s.slot k none⟩

/-- The block of a slot is freed, and the slot is null. -/
def drop (s : Owners κ β) (k : κ) : Option (Owners κ β) :=
  (s.free (s.slot k)).map fun s => s.forget k

/-- The block of a slot is freed, and a copy of what is behind a pointer takes its place. -/
def renew (A : Allocator β) (s : Owners κ β) (k : κ) (p : Option ℕ) : Option (Owners κ β) :=
  (s.free (s.slot k)).bind fun s => (s.read p).map (s.plant A k)

section Spec

variable {A : Allocator β} {s s' : Owners κ β} {k : κ} {p : Option ℕ}

omit [DecidableEq κ] in
/-- An owned slot has a value unless it is null. -/
theorem Owned.value_eq_none_iff (h : s.Owned) : s.value k=none ↔ s.slot k=none := by
  unfold value read
  cases hk : s.slot k with
  | none => exact iff_of_true rfl rfl
  | some q =>
    refine iff_of_false (fun hnone => ?_) fun hnone => nomatch hnone
    exact Finmap.lookup_eq_none.mp hnone (h.live k q hk)

omit [DecidableEq κ] in
/-- The block of an owned slot can be freed. -/
theorem Owned.free_slot (h : s.Owned) (k : κ) : ∃ s', s.free (s.slot k)=some s' ∧
    s'.slot=s.slot ∧ (∀ p, s.slot k ≠ some p → s'.heap.lookup p=s.heap.lookup p) ∧
    ∀ p, s.slot k=some p → s'.heap.lookup p=none := by
  cases hk : s.slot k with
  | none => exact ⟨s,rfl,rfl,fun _ _ => rfl,fun _ hp => nomatch hp⟩
  | some q =>
    refine ⟨{s with heap := s.heap.erase q},if_pos (h.live k q hk),rfl,fun p hp => ?_,
      fun p hp => ?_⟩
    · exact Finmap.lookup_erase_ne fun he => hp (by rw [he])
    · cases hp
      exact Finmap.lookup_erase _ _

omit [DecidableEq κ] in
/-- An owned slot is freed once: without its block the others are owned as before. -/
theorem Owned.others (h : s.Owned) (hfree : s.free (s.slot k)=some s') {j : κ} (hj : j ≠ k) {q : ℕ}
    (hq : s'.slot j=some q) : s'.heap.lookup q=s.heap.lookup q ∧ q∈s'.heap := by
  obtain ⟨t,ht,hslot,hkeep,-⟩ := h.free_slot k
  rw [hfree,Option.some_inj] at ht
  subst ht
  rw [hslot] at hq
  have hlookup := hkeep q fun hk => hj (h.apart j k q hq hk)
  refine ⟨hlookup,Finmap.lookup_isSome.mp ?_⟩
  rw [hlookup]
  exact Finmap.lookup_isSome.mpr (h.live j q hq)

/-- A slot that gets a new block owns it, when the others own theirs. -/
theorem plant_spec {x : β} (hlive : ∀ j ≠ k, ∀ q, s.slot j=some q → q∈s.heap)
    (hapart : ∀ i ≠ k, ∀ j ≠ k, ∀ q, s.slot i=some q → s.slot j=some q → i=j) :
    (s.plant A k x).Owned ∧ (s.plant A k x).value k=some x ∧
      ∀ j ≠ k, (s.plant A k x).value j=s.value j := by
  have hnew : (s.plant A k x).slot k=some (A.malloc s.heap) := Function.update_self ..
  have hold : ∀ j ≠ k, (s.plant A k x).slot j=s.slot j := fun j hj => Function.update_of_ne hj ..
  have hfresh : ∀ j ≠ k, s.slot j ≠ some (A.malloc s.heap) :=
    fun j hj he => A.fresh s.heap (hlive j hj _ he)
  refine ⟨⟨fun j q hq => ?_,fun i j q hi hj => ?_⟩,?_,fun j hj => ?_⟩
  · refine Finmap.mem_insert.mpr ?_
    by_cases hj : j=k
    · rw [hj,hnew] at hq
      exact Or.inl (Option.some_inj.mp hq).symm
    · rw [hold j hj] at hq
      exact Or.inr (hlive j hj q hq)
  · by_cases hik : i=k
    · by_cases hjk : j=k
      · rw [hik,hjk]
      · rw [hik,hnew] at hi
        rw [hold j hjk,←hi] at hj
        exact absurd hj (hfresh j hjk)
    · by_cases hjk : j=k
      · rw [hjk,hnew] at hj
        rw [hold i hik,←hj] at hi
        exact absurd hi (hfresh i hik)
      · rw [hold i hik] at hi
        rw [hold j hjk] at hj
        exact hapart i hik j hjk q hi hj
  · rw [value,hnew]
    exact Finmap.lookup_insert _
  · rw [value,value,hold j hj]
    cases hq : s.slot j with
    | none => rfl
    | some q =>
      refine Finmap.lookup_insert_of_ne _ fun he => hfresh j hj ?_
      rw [hq,he]

/-- A renewed slot owns a copy, and the other slots keep what they own. -/
theorem Owned.renew (h : s.Owned) (hrenew : s.renew A k p=some s') :
    s'.Owned ∧ (∃ x, s.read p=some x ∧ s'.value k=some x) ∧ s.KeepsSlots s' k ∧
      ∀ j ≠ k, s'.value j=s.value j := by
  obtain ⟨t,hfree,hslot,hkeep,hgone⟩ := h.free_slot k
  rw [Owners.renew,hfree,Option.bind_some] at hrenew
  obtain ⟨x,hx,hplant⟩ := Option.map_eq_some_iff.mp hrenew
  have hother : ∀ j ≠ k, ∀ q, t.slot j=some q → t.heap.lookup q=s.heap.lookup q ∧ q∈t.heap :=
    fun j hj q hq => h.others hfree hj hq
  obtain ⟨howned,hvalue,hrest⟩ := plant_spec (A:=A) (x:=x) (fun j hj q hq => (hother j hj q hq).2)
    fun i _ j _ q hi hj => h.apart i j q (by rw [←hslot,hi]) (by rw [←hslot,hj])
  rw [←hplant]
  refine ⟨howned,⟨x,?_,hvalue⟩,fun j hj => ?_,fun j hj => ?_⟩
  · obtain ⟨q,hq,hlookup⟩ := Option.bind_eq_some_iff.mp hx
    rw [hq]
    refine (hkeep q fun hk => ?_).symm.trans hlookup
    rw [hgone q hk] at hlookup
    cases hlookup
  · exact (Function.update_of_ne hj ..).trans (congrFun hslot j)
  · rw [hrest j hj,value,value,hslot]
    cases hq : s.slot j with
    | none => rfl
    | some q => exact (hother j hj q (by rw [hslot,hq])).1

/-- A slot is renewed from the block of another one. -/
theorem Owned.renew_defined (h : s.Owned) {j : κ} {q : ℕ} (hj : j ≠ k) (hq : s.slot j=some q) :
    ∃ s', s.renew A k (some q)=some s' := by
  obtain ⟨t,hfree,-,hkeep,-⟩ := h.free_slot k
  obtain ⟨x,hx⟩ := Finmap.mem_iff.mp (h.live j q hq)
  have hread : t.read (some q)=some x := (hkeep q fun hk => hj (h.apart j k q hq hk)).trans hx
  refine ⟨t.plant A k x,?_⟩
  rw [Owners.renew,hfree,Option.bind_some,hread]
  rfl

/-- A slot is not renewed from its own block, which is freed before it is read. -/
theorem Owned.renew_self (h : s.Owned) : s.renew A k (s.slot k)=none := by
  obtain ⟨t,hfree,-,-,hgone⟩ := h.free_slot k
  rw [Owners.renew,hfree,Option.bind_some]
  cases hk : s.slot k with
  | none => rfl
  | some q =>
    have hread : t.read (some q)=none := hgone q hk
    rw [hread]
    rfl

/-- Without one slot the others own what they own. -/
theorem forget_spec (hlive : ∀ j ≠ k, ∀ q, s.slot j=some q → q∈s.heap)
    (hapart : ∀ i ≠ k, ∀ j ≠ k, ∀ q, s.slot i=some q → s.slot j=some q → i=j) :
    (s.forget k).Owned ∧ (s.forget k).value k=none ∧ ∀ j ≠ k, (s.forget k).value j=s.value j := by
  have hnew : (s.forget k).slot k=none := Function.update_self ..
  have hold : ∀ j ≠ k, (s.forget k).slot j=s.slot j := fun j hj => Function.update_of_ne hj ..
  have hne : ∀ j q, (s.forget k).slot j=some q → j ≠ k := by
    intro j q hq hj
    rw [hj,hnew] at hq
    cases hq
  refine ⟨⟨fun j q hq => ?_,fun i j q hi hj => ?_⟩,?_,fun j hj => ?_⟩
  · have hj := hne j q hq
    rw [hold j hj] at hq
    exact hlive j hj q hq
  · have hik := hne i q hi
    have hjk := hne j q hj
    rw [hold i hik] at hi
    rw [hold j hjk] at hj
    exact hapart i hik j hjk q hi hj
  · rw [value,hnew]
    rfl
  · rw [value,value,hold j hj]
    rfl

theorem Owned.plant (h : s.Owned) (k : κ) (x : β) : (s.plant A k x).Owned ∧
    (s.plant A k x).value k=some x ∧ ∀ j ≠ k, (s.plant A k x).value j=s.value j :=
  plant_spec (fun j _ => h.live j) fun i _ j _ => h.apart i j

theorem Owned.forget (h : s.Owned) (k : κ) : (s.forget k).Owned ∧ (s.forget k).value k=none ∧
    ∀ j ≠ k, (s.forget k).value j=s.value j :=
  forget_spec (fun j _ => h.live j) fun i _ j _ => h.apart i j

/-- A slot that is dropped owns nothing, and the others keep what they own. -/
theorem Owned.drop (h : s.Owned) (hdrop : s.drop k=some s') :
    s'.Owned ∧ s'.value k=none ∧ ∀ j ≠ k, s'.value j=s.value j := by
  obtain ⟨t,hfree,hslot,-,-⟩ := h.free_slot k
  rw [Owners.drop,hfree,Option.map_some,Option.some_inj] at hdrop
  rw [←hdrop]
  have hother : ∀ j ≠ k, ∀ q, t.slot j=some q → t.heap.lookup q=s.heap.lookup q ∧ q∈t.heap :=
    fun j hj q hq => h.others hfree hj hq
  obtain ⟨howned,hvalue,hrest⟩ := forget_spec (fun j hj q hq => (hother j hj q hq).2)
    fun i _ j _ q hi hj => h.apart i j q (by rw [←hslot,hi]) (by rw [←hslot,hj])
  refine ⟨howned,hvalue,fun j hj => ?_⟩
  rw [hrest j hj,value,value,hslot]
  cases hq : s.slot j with
  | none => rfl
  | some q => exact (hother j hj q (by rw [hslot,hq])).1

omit [DecidableEq κ] in
/-- A block of the caller is none of a slot. -/
theorem Owned.alloc (h : s.Owned) (x : β) :
    (s.alloc A x).Owned ∧ ∀ k, (s.alloc A x).value k=s.value k := by
  refine ⟨⟨fun k q hq => Finmap.mem_insert.mpr (Or.inr (h.live k q hq)),h.apart⟩,fun k => ?_⟩
  rw [value,value]
  change Option.bind (s.slot k) _=_
  cases hq : s.slot k with
  | none => rfl
  | some q =>
    refine Finmap.lookup_insert_of_ne _ fun he => A.fresh s.heap ?_
    rw [←he]
    exact h.live k q hq

omit [DecidableEq κ] in
/-- A block that no slot points to can be freed by the caller. -/
theorem Owned.free (h : s.Owned) {q : ℕ} (hq : ∀ k, s.slot k ≠ some q)
    (hfree : s.free (some q)=some s') : s'.Owned ∧ ∀ k, s'.value k=s.value k := by
  rw [Owners.free] at hfree
  split at hfree
  · cases hfree
    refine ⟨⟨fun k r hr => ?_,h.apart⟩,fun k => ?_⟩
    · refine Finmap.mem_erase.mpr ⟨fun he => hq k ?_,h.live k r hr⟩
      rw [hr,he]
    · rw [value,value]
      change Option.bind (s.slot k) _=_
      cases hr : s.slot k with
      | none => rfl
      | some r =>
        refine Finmap.lookup_erase_ne fun he => hq k ?_
        rw [hr,he]
  · cases hfree

end Spec

end Owners

end XmrigCC.OwnedBlocks
