import Mathlib

/-!
# Texts processed block by block

A machine processes blocks of a fixed length. What it has processed and the cells that wait for
their block to be complete stand for a text, however the text was cut when it came in.
-/

namespace XmrigCC.BlockStreams

variable {α σ τ : Type*} (f : σ → List α → σ) (n : ℕ)

/-- The blocks at the start of a text, as many as asked for. -/
def blocks : ℕ → List α → List (List α)
  | 0,_ => []
  | k+1,xs => xs.take n::blocks k (xs.drop n)

/-- All complete blocks of a text are processed, in order. -/
def absorb (s : σ) (xs : List α) : σ := (blocks n (xs.length/n) xs).foldl f s

/-- A state and the cells that wait stand for a text, from a first state on. -/
def Holds (start : σ) (text : List α) (s : σ) (waiting : List α) : Prop :=
  ∃ whole, text=whole++waiting ∧ whole.length%n=0 ∧ s=absorb f n start whole

variable {f n}

/-- The first blocks do not depend on what follows them. -/
theorem blocks_append {xs : List α} {k : ℕ} (h : xs.length=k*n) (j : ℕ) (ys : List α) :
    blocks n (k+j) (xs++ys)=blocks n k xs++blocks n j ys := by
  induction k generalizing xs with
  | zero =>
    rw [Nat.zero_mul] at h
    rw [List.eq_nil_of_length_eq_zero h,Nat.zero_add]
    rfl
  | succ k ih =>
    rw [Nat.succ_mul] at h
    have hdrop : (xs.drop n).length=k*n := by rw [List.length_drop]; omega
    rw [Nat.succ_add,blocks,blocks,List.take_append_of_le_length (by omega),
      List.drop_append_of_le_length (by omega),ih hdrop,List.cons_append]

theorem length_blocks (k : ℕ) (xs : List α) : (blocks n k xs).length=k := by
  induction k generalizing xs with
  | zero => rfl
  | succ k ih => rw [blocks,List.length_cons,ih]

/-- Blocks that are there are complete. -/
theorem length_of_mem_blocks {xs b : List α} {k : ℕ} (h : k*n ≤ xs.length)
    (hb : b∈blocks n k xs) : b.length=n := by
  induction k generalizing xs with
  | zero => cases hb
  | succ k ih =>
    rw [Nat.succ_mul] at h
    rcases List.mem_cons.mp hb with rfl | hb
    · rw [List.length_take]
      omega
    · exact ih (by rw [List.length_drop]; omega) hb

@[simp] theorem absorb_nil (s : σ) : absorb f n s []=s := by
  rw [absorb,List.length_nil,Nat.zero_div]
  rfl

/-- Complete blocks first, then the rest. -/
theorem absorb_append {xs : List α} (h : xs.length%n=0) (s : σ) (ys : List α) :
    absorb f n s (xs++ys)=absorb f n (absorb f n s xs) ys := by
  obtain ⟨k,hk⟩ := Nat.dvd_of_mod_eq_zero h
  rcases Nat.eq_zero_or_pos n with hn | hn
  · rw [hn,Nat.zero_mul] at hk
    rw [List.eq_nil_of_length_eq_zero hk,List.nil_append,absorb_nil]
  · have hcount : (xs++ys).length/n=k+ys.length/n := by
      rw [List.length_append,hk,Nat.mul_add_div hn]
    have hfirst : xs.length/n=k := by rw [hk,Nat.mul_div_cancel_left k hn]
    rw [absorb,hcount,blocks_append (hk.trans (Nat.mul_comm n k)),List.foldl_append,absorb,absorb,
      hfirst]

/-- A text that is one block. -/
theorem absorb_block (hn : 0<n) {b : List α} (h : b.length=n) (s : σ) : absorb f n s b=f s b := by
  rw [absorb,h,Nat.div_self hn]
  have htake : b.take n=b := List.take_of_length_le h.le
  change f s (b.take n)=f s b
  rw [htake]

/-- A machine that is the image of another one processes the same blocks. -/
theorem absorb_map {g : τ → List α → τ} (view : σ → τ)
    (h : ∀ s b, b.length=n → view (f s b)=g (view s) b) (s : σ) (xs : List α) :
    view (absorb f n s xs)=absorb g n (view s) xs := by
  have hblocks : ∀ b∈blocks n (xs.length/n) xs, b.length=n := fun b hb =>
    length_of_mem_blocks (Nat.div_mul_le_self _ n) hb
  rw [absorb,absorb]
  generalize blocks n (xs.length/n) xs=bs at hblocks
  induction bs generalizing s with
  | nil => rfl
  | cons b bs ih =>
    rw [List.foldl_cons,List.foldl_cons,ih,h s b (hblocks b List.mem_cons_self)]
    exact fun b' hb' => hblocks b' (List.mem_cons_of_mem _ hb')

/-- A machine that counts counts the complete blocks. -/
theorem absorb_count (n k : ℕ) (xs : List α) :
    absorb (fun (k : ℕ) (_ : List α) => k+1) n k xs=k+xs.length/n := by
  rw [absorb]
  have hcount := length_blocks (n:=n) (xs.length/n) xs
  generalize blocks n (xs.length/n) xs=bs at hcount
  rw [←hcount]
  clear hcount
  induction bs generalizing k with
  | nil => rfl
  | cons b bs ih =>
    rw [List.foldl_cons,ih,List.length_cons]
    omega

/-- Machines that agree on the blocks that come, in states that come with them. -/
theorem absorb_congr {g : σ → List α → σ} {P : ℕ → σ → Prop} {xs : List α}
    (h : ∀ k s b, (k+1)*n ≤ xs.length → P k s → f s b=g s b ∧ P (k+1) (g s b)) {s : σ}
    (hs : P 0 s) : absorb f n s xs=absorb g n s xs := by
  rw [absorb,absorb]
  have hcount := length_blocks (n:=n) (xs.length/n) xs
  generalize blocks n (xs.length/n) xs=bs at hcount
  have hrun : ∀ (bs : List (List α)) k s, k+bs.length=xs.length/n → P k s →
      bs.foldl f s=bs.foldl g s := by
    intro bs
    induction bs with
    | nil => exact fun _ _ _ _ => rfl
    | cons b bs ih =>
      intro k s hk hs
      rw [List.length_cons] at hk
      obtain ⟨heq,hnext⟩ := h k s b
        ((Nat.mul_le_mul_right n (by omega)).trans (Nat.div_mul_le_self _ n)) hs
      rw [List.foldl_cons,List.foldl_cons,heq]
      exact ih (k+1) _ (by omega) hnext
  exact hrun bs 0 s (by omega) hs

section Streams

variable {start s : σ} {text waiting : List α}

/-- Before anything has come in. -/
theorem holds_start (start : σ) : Holds f n start [] start ([] : List α) :=
  ⟨[],rfl,Nat.zero_mod n,(absorb_nil start).symm⟩

/-- What comes in waits. -/
theorem Holds.wait (h : Holds f n start text s waiting) (xs : List α) :
    Holds f n start (text++xs) s (waiting++xs) := by
  obtain ⟨whole,htext,hlen,hs⟩ := h
  exact ⟨whole,by rw [htext,List.append_assoc],hlen,hs⟩

/-- Complete blocks that wait are processed. -/
theorem Holds.absorb {b : List α} (h : Holds f n start text s (b++waiting))
    (hb : b.length%n=0) : Holds f n start text (absorb f n s b) waiting := by
  obtain ⟨whole,htext,hlen,hs⟩ := h
  refine ⟨whole++b,by rw [htext,List.append_assoc],?_,?_⟩
  · rw [List.length_append,Nat.add_mod,hlen,hb]
    exact Nat.zero_mod n
  · rw [hs,absorb_append hlen]

/-- A complete block that waits is processed. -/
theorem Holds.process {b : List α} (hn : 0<n) (h : Holds f n start text s (b++waiting))
    (hb : b.length=n) : Holds f n start text (f s b) waiting := by
  have habsorb := h.absorb (b:=b) (by rw [hb,Nat.mod_self])
  rwa [absorb_block hn hb] at habsorb

/-- How much waits follows from the length of the text. -/
theorem Holds.length_waiting (h : Holds f n start text s waiting) (hlt : waiting.length<n) :
    waiting.length=text.length%n := by
  obtain ⟨whole,htext,hlen,-⟩ := h
  rw [htext,List.length_append,Nat.add_mod,hlen,Nat.zero_add,Nat.mod_mod,Nat.mod_eq_of_lt hlt]

/-- What waits is the end of the text. -/
theorem Holds.waiting_eq (h : Holds f n start text s waiting) (hlt : waiting.length<n) :
    waiting=text.drop (text.length-text.length%n) := by
  have hwaiting := h.length_waiting hlt
  obtain ⟨whole,htext,-,-⟩ := h
  have hwhole : text.length-text.length%n=whole.length := by
    rw [←hwaiting,htext,List.length_append,Nat.add_sub_cancel]
  rw [hwhole,htext,List.drop_left]

end Streams

end XmrigCC.BlockStreams
