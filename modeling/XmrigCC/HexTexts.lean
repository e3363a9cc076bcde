import XmrigCC.MiningJob

/-!
# Texts of hex digits

`Job::fromHex` decodes a number of characters two to a byte and stops at the first
that is no hex digit. What it returns, and the bytes it leaves when all are digits,
depend on these characters only.
-/

namespace XmrigCC.HexTexts

open CellMemory MiningJob

/-- `hf_hex2bin` sets no error for this character. -/
def IsHex (c : UInt8) : Prop := (hf_hex2bin c).isSome=true

instance : DecidablePred IsHex := fun _ => inferInstanceAs (Decidable (_=_))

/-- The byte of two digits. -/
def pairByte (high low : UInt8) : UInt8 := ((hf_hex2bin high).getD 0<<<4)|||(hf_hex2bin low).getD 0

/-- The bytes of a text, two characters to a byte. -/
def hexBytes : List UInt8 → List UInt8
  | high::low::rest => pairByte high low::hexBytes rest
  | _ => []

theorem length_hexBytes (s : List UInt8) : (hexBytes s).length=s.length/2 := by
  induction s using hexBytes.induct with
  | case1 high low rest ih =>
    simp only [hexBytes,List.length_cons,ih]
    omega
  | case2 s h =>
    cases s with
    | nil => rfl
    | cons c s =>
      cases s with
      | nil => simp only [hexBytes,List.length_cons,List.length_nil,Nat.reduceAdd,Nat.reduceDiv]
      | cons d s => exact (h c d s rfl).elim

section FromHex

variable {digits out : Cells UInt8}

/-- Digits only: every pair is written as its byte. -/
theorem fromHexFrom_digits (a n : ℕ)
    (h : ∀ k, 2*a ≤ k → k<2*(a+n) → IsHex (digits k)) :
    fromHexFrom digits a n out=(true,fun c =>
      if a ≤ c ∧ c<a+n then pairByte (digits (2*c)) (digits (2*c+1)) else out c) := by
  induction n generalizing a out with
  | zero =>
    rw [fromHexFrom]
    congr
    funext c
    rw [if_neg (by omega)]
  | succ n ih =>
    have hhigh : (hf_hex2bin (digits (2*a))).isSome=true := h (2*a) (le_refl _) (by omega)
    have hlow : (hf_hex2bin (digits (2*a+1))).isSome=true := h (2*a+1) (by omega) (by omega)
    have hgo : ¬((hf_hex2bin (digits (2*a))).isNone=true ∨
        (hf_hex2bin (digits (2*a+1))).isNone=true) := by
      simp only [Option.isNone_iff_eq_none,←Option.not_isSome_iff_eq_none,hhigh,hlow,not_true,
        or_self,not_false_eq_true]
    rw [fromHexFrom,if_neg hgo,ih (a+1) fun k hge hlt => h k (by omega) (by omega)]
    congr
    funext c
    rcases Nat.lt_trichotomy c a with hc|rfl|hc
    · rw [if_neg (by omega),if_neg (by omega),store_outside (Or.inl hc)]
    · have hhead : store out c [pairByte (digits (2*c)) (digits (2*c+1))] (c+0)=
          pairByte (digits (2*c)) (digits (2*c+1)) :=
        store_inside (by simp only [List.length_cons,Nat.zero_lt_succ])
      rw [if_neg (by omega),if_pos (by omega)]
      exact hhead
    · by_cases hin : c<a+(n+1)
      · rw [if_pos (by omega),if_pos (by omega)]
      · rw [if_neg (by omega),if_neg (by omega),
          store_outside (Or.inr (by simp only [List.length_cons,List.length_nil]; omega))]

/-- Another character: the loop gives up. -/
theorem fromHexFrom_stops (a n : ℕ) {k : ℕ} (hk : 2*a ≤ k ∧ k<2*(a+n))
    (h : ¬IsHex (digits k)) : (fromHexFrom digits a n out).1=false := by
  induction n generalizing a out with
  | zero => omega
  | succ n ih =>
    rw [fromHexFrom]
    split
    · rfl
    · rename_i hgo
      apply ih (a+1)
      by_contra hlast
      have hnone : (hf_hex2bin (digits k)).isNone=true := by
        rw [Option.isNone_iff_eq_none,←Option.not_isSome_iff_eq_none]
        exact h
      rcases (by omega : k=2*a ∨ k=2*a+1) with rfl|rfl
      · exact hgo (Or.inl hnone)
      · exact hgo (Or.inr hnone)

/-- The characters read. -/
theorem mem_slice_iff {m : Cells UInt8} {n : ℕ} {P : UInt8 → Prop} :
    (∀ c∈slice m 0 n, P c) ↔ ∀ k<n, P (m k) := by
  constructor
  · intro h k hk
    have hlen : k<(slice m 0 n).length := by rwa [length_slice]
    have hmem := h _ (List.getElem_mem hlen)
    rwa [getElem_slice,Nat.zero_add] at hmem
  · intro h c hc
    obtain ⟨k,hk,rfl⟩ := List.getElem_of_mem hc
    rw [getElem_slice,Nat.zero_add]
    rw [length_slice] at hk
    exact h k hk

/-- `fromHex` succeeds exactly on digits. -/
theorem fromHex_iff (n : ℕ) :
    (fromHex digits (2*n) out).1=true ↔ ∀ c∈slice digits 0 (2*n), IsHex c := by
  have hpairs : (2*n+1)/2=n := by omega
  rw [mem_slice_iff,fromHex,hpairs]
  constructor
  · intro h k hk
    by_contra hno
    have hstop : (fromHexFrom digits 0 n out).1=false :=
      fromHexFrom_stops 0 n ⟨Nat.zero_le k,by omega⟩ hno
    exact Bool.noConfusion (hstop.symm.trans h)
  · intro h
    rw [fromHexFrom_digits 0 n fun k _ hk => h k (by omega)]

theorem slice_pairs (i n : ℕ) :
    slice (fun c => pairByte (digits (2*c)) (digits (2*c+1))) i n=
      hexBytes (slice digits (2*i) (2*n)) := by
  induction n generalizing i with
  | zero => rfl
  | succ n ih =>
    have hlength : 2*(n+1)=2*n+1+1 := by omega
    rw [hlength,slice_succ,slice_succ,slice_succ,hexBytes,ih (i+1)]
    rfl

/-- The bytes decoded are those of the characters, and no other byte is written. -/
theorem fromHex_bytes {n : ℕ} (h : ∀ c∈slice digits 0 (2*n), IsHex c) :
    slice (fromHex digits (2*n) out).2 0 n=hexBytes (slice digits 0 (2*n)) ∧
    ∀ c, n ≤ c → (fromHex digits (2*n) out).2 c=out c := by
  have hpairs : (2*n+1)/2=n := by omega
  rw [mem_slice_iff] at h
  rw [fromHex,hpairs,fromHexFrom_digits 0 n fun k _ hk => h k (by omega)]
  refine ⟨?_,fun c hc => if_neg (by omega)⟩
  have hbytes := @slice_pairs digits 0 n
  rw [Nat.mul_zero] at hbytes
  rw [←hbytes]
  apply slice_congr
  intro c hc
  exact if_pos (by omega)

end FromHex

section Values

/-- Little-endian value of a text. -/
def hexValue (s : List UInt8) : ℕ := leValue (hexBytes s)

theorem leValue_append (xs ys : List UInt8) :
    leValue (xs++ys)=leValue xs+256^xs.length*leValue ys := by
  induction xs with
  | nil => simp only [List.nil_append,leValue,List.length_nil,pow_zero,Nat.one_mul,Nat.zero_add]
  | cons x xs ih =>
    rw [List.cons_append,leValue,leValue,ih,List.length_cons,pow_succ]
    ring

theorem leValue_lt (xs : List UInt8) : leValue xs<256^xs.length := by
  induction xs with
  | nil => simp only [leValue,List.length_nil,pow_zero,Nat.zero_lt_one]
  | cons x xs ih =>
    have hx : x.toNat<256 := x.toNat_lt
    rw [leValue,List.length_cons,pow_succ]
    omega

theorem leValue_eq_zero_iff {xs : List UInt8} : leValue xs=0 ↔ ∀ x∈xs, x=0 := by
  induction xs with
  | nil => simp only [leValue,List.not_mem_nil,false_implies,implies_true]
  | cons x xs ih =>
    have hx : x.toNat=0 ↔ x=0 := UInt8.toNat_inj (b:=0)
    rw [leValue,List.forall_mem_cons,←ih,←hx]
    omega

/-- The ranges of characters that are digits, with their values. -/
theorem hex2bin_some {c v : UInt8} (h : hf_hex2bin c=some v) :
    (48 ≤ c.toNat ∧ c.toNat ≤ 57 ∧ v.toNat=c.toNat-48) ∨
    (97 ≤ c.toNat ∧ c.toNat ≤ 102 ∧ v.toNat=c.toNat-87) ∨
    (65 ≤ c.toNat ∧ c.toNat ≤ 70 ∧ v.toNat=c.toNat-55) := by
  have hrange : ∀ {low high : UInt8}, low ≤ c ∧ c ≤ high →
      low.toNat ≤ c.toNat ∧ c.toNat ≤ high.toNat :=
    fun hc => ⟨UInt8.le_iff_toNat_le.mp hc.1,UInt8.le_iff_toNat_le.mp hc.2⟩
  rw [hf_hex2bin] at h
  split at h
  · rename_i hc
    have hnat := hrange hc
    obtain rfl := Option.some.inj h
    rw [UInt8.toNat_sub_of_le _ _ hc.1]
    exact Or.inl ⟨hnat.1,hnat.2,rfl⟩
  · split at h
    · rename_i hc
      have hnat := hrange hc
      obtain rfl := Option.some.inj h
      rw [UInt8.toNat_add,UInt8.toNat_sub_of_le _ _ hc.1]
      simp only [UInt8.reduceToNat] at hnat ⊢
      omega
    · split at h
      · rename_i hc
        have hnat := hrange hc
        obtain rfl := Option.some.inj h
        rw [UInt8.toNat_add,UInt8.toNat_sub_of_le _ _ hc.1]
        simp only [UInt8.reduceToNat] at hnat ⊢
        omega
      · cases h

/-- A byte is its high digit times sixteen plus its low digit. -/
theorem pairByte_toNat {high low a b : UInt8} (ha : hf_hex2bin high=some a)
    (hb : hf_hex2bin low=some b) : (pairByte high low).toNat=16*a.toNat+b.toNat := by
  have hlta : a.toNat<16 := by
    have hcases := hex2bin_some ha
    omega
  have hltb : b.toNat<2^4 := by
    have hcases := hex2bin_some hb
    omega
  have hshift : a.toNat<<<4%2^8=a.toNat<<<4 := by
    rw [Nat.shiftLeft_eq]
    omega
  rw [pairByte,ha,hb,Option.getD_some,Option.getD_some,UInt8.toNat_or,UInt8.toNat_shiftLeft]
  simp only [UInt8.reduceToNat,Nat.reduceMod]
  rw [hshift,←Nat.shiftLeft_add_eq_or_of_lt hltb,Nat.shiftLeft_eq,Nat.mul_comm]

/-- A byte of digits is 0 for two zeros only. -/
theorem pairByte_eq_zero_iff {high low : UInt8} (hhigh : IsHex high) (hlow : IsHex low) :
    pairByte high low=0 ↔ high=48 ∧ low=48 := by
  obtain ⟨a,ha⟩ := Option.isSome_iff_exists.mp hhigh
  obtain ⟨b,hb⟩ := Option.isSome_iff_exists.mp hlow
  have hbyte := pairByte_toNat ha hb
  have hcasesa := hex2bin_some ha
  have hcasesb := hex2bin_some hb
  rw [←UInt8.toNat_inj,←UInt8.toNat_inj,←UInt8.toNat_inj,hbyte]
  simp only [UInt8.reduceToNat]
  omega

/-- A text of even length without a first pair is empty. -/
theorem eq_nil_of_short {s : List UInt8} (heven : s.length%2=0)
    (hshort : ∀ c d rest, s=c::d::rest → False) : s=[] := by
  cases s with
  | nil => rfl
  | cons c s =>
    cases s with
    | nil => simp only [List.length_cons,List.length_nil] at heven; omega
    | cons d s => exact (hshort c d s rfl).elim

/-- An even number of digits is worth 0 when all of them are zeros. -/
theorem hexValue_eq_zero_iff {s : List UInt8} (heven : s.length%2=0) (h : ∀ c∈s, IsHex c) :
    hexValue s=0 ↔ ∀ c∈s, c=48 := by
  rw [hexValue,leValue_eq_zero_iff]
  induction s using hexBytes.induct with
  | case1 high low rest ih =>
    simp only [List.forall_mem_cons] at h
    simp only [List.length_cons] at heven
    rw [hexBytes,List.forall_mem_cons,List.forall_mem_cons,List.forall_mem_cons,
      pairByte_eq_zero_iff h.1 h.2.1,ih (by omega) h.2.2,and_assoc]
  | case2 s hshort =>
    rw [eq_nil_of_short heven hshort]
    simp only [hexBytes,List.not_mem_nil,false_implies,implies_true]

theorem hexBytes_append {s t : List UInt8} (heven : s.length%2=0) :
    hexBytes (s++t)=hexBytes s++hexBytes t := by
  induction s using hexBytes.induct with
  | case1 high low rest ih =>
    simp only [List.length_cons] at heven
    rw [List.cons_append,List.cons_append,hexBytes,hexBytes,ih (by omega),List.cons_append]
  | case2 s hshort =>
    rw [eq_nil_of_short heven hshort]
    rfl

end Values

end XmrigCC.HexTexts
