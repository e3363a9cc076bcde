import Mathlib

/-!
# The field of bytes

A number stands for the polynomial over the field with two elements whose coefficients are its
bits. Bytes are added by exclusive or, and multiplied without carries, with the remainder of
the product modulo `x^8+x^4+x^3+x+1`. They compute in the quotient by that polynomial.
-/

namespace XmrigCC.ByteField

open Polynomial

/-- Product without carries of a number and the lowest bits of another one. -/
def product (a b : ℕ) : ℕ → ℕ
  | 0 => 0
  | n+1 => product a b n^^^if b.testBit n then a<<<n else 0

/-- Remainder modulo a number with the highest bit `d`: the bits from `d+n-1` down to `d` are
cleared. -/
def remainder (p d : ℕ) : ℕ → ℕ → ℕ
  | 0,x => x
  | n+1,x => remainder p d n (if x.testBit (d+n) then x^^^p<<<n else x)

/-- `x^8+x^4+x^3+x+1`. -/
def fieldPolynomial : ℕ := 0x11b

/-- Product of two bytes. -/
def times (a b : UInt8) : UInt8 :=
  UInt8.ofNat (remainder fieldPolynomial 8 7 (product a.toNat b.toNat 8))

section Polynomials

/-- The polynomial whose coefficients are the bits of a number. -/
noncomputable def bits (n : ℕ) : (ZMod 2)[X] :=
  ∑ i∈Finset.range n, if n.testBit i then X^i else 0

theorem coeff_bits (n i : ℕ) : (bits n).coeff i=if n.testBit i then 1 else 0 := by
  have hterm : ∀ j∈Finset.range n, ((if n.testBit j then X^j else 0 : (ZMod 2)[X]).coeff i)=
      if i=j then (if n.testBit i then 1 else 0) else 0 := by
    intro j _
    split
    · rename_i hj
      rw [coeff_X_pow]
      split
      · rename_i h
        rw [h,if_pos hj]
      · rfl
    · rename_i hj
      rw [coeff_zero]
      split
      · rename_i h
        rw [h,if_neg hj]
      · rfl
  rw [bits,finsetSum_coeff,Finset.sum_congr rfl hterm,Finset.sum_ite_eq]
  split
  · rfl
  · rename_i h
    rw [Finset.mem_range,not_lt] at h
    rw [Nat.testBit_lt_two_pow (h.trans_lt Nat.lt_two_pow_self)]
    rfl

/-- Exclusive or is the sum. -/
theorem bits_xor (a b : ℕ) : bits (a^^^b)=bits a+bits b := by
  ext i
  rw [coeff_add,coeff_bits,coeff_bits,coeff_bits,Nat.testBit_xor]
  cases a.testBit i <;> cases b.testBit i <;> decide

/-- A shift is the product with a power. -/
theorem bits_shiftLeft (a n : ℕ) : bits (a<<<n)=bits a*X^n := by
  ext i
  rw [coeff_mul_X_pow',coeff_bits,coeff_bits,Nat.testBit_shiftLeft]
  by_cases h : n ≤ i
  · rw [if_pos h,decide_eq_true h,Bool.true_and]
  · rw [if_neg h,decide_eq_false h,Bool.false_and]
    rfl

theorem bits_zero : bits 0=0 := rfl

/-- The lowest bits of a number. -/
theorem bits_mod (b n : ℕ) :
    bits (b%2^(n+1))=bits (b%2^n)+if b.testBit n then X^n else 0 := by
  ext i
  have hterm : (if b.testBit n then X^n else 0 : (ZMod 2)[X]).coeff i=
      if b.testBit n ∧ i=n then 1 else 0 := by
    split
    · rename_i h
      rw [coeff_X_pow]
      exact if_congr ⟨fun hi => ⟨h,hi⟩,fun hi => hi.2⟩ rfl rfl
    · rename_i h
      rw [coeff_zero,if_neg fun hi => h hi.1]
  rw [coeff_add,coeff_bits,coeff_bits,hterm,Nat.testBit_mod_two_pow,Nat.testBit_mod_two_pow]
  rcases lt_trichotomy i n with h | h | h
  · have hne : ¬ (b.testBit n ∧ i=n) := fun hi => h.ne hi.2
    rw [decide_eq_true h,decide_eq_true (by omega),if_neg hne,add_zero]
  · rw [h,decide_eq_true (by omega),decide_eq_false (lt_irrefl n)]
    simp only [and_true]
    cases b.testBit n <;> decide
  · have hne : ¬ (b.testBit n ∧ i=n) := fun hi => h.ne' hi.2
    rw [decide_eq_false (by omega),decide_eq_false (by omega),if_neg hne,add_zero]

/-- The product without carries is that of the polynomials. -/
theorem bits_product (a b n : ℕ) : bits (product a b n)=bits a*bits (b%2^n) := by
  induction n with
  | zero => rw [product,pow_zero,Nat.mod_one,bits_zero,mul_zero]
  | succ n ih =>
    rw [product,bits_xor,ih,bits_mod,mul_add]
    split
    · rw [bits_shiftLeft]
    · rw [bits_zero,mul_zero]

/-- The remainder is that of the polynomials: nothing but multiples are subtracted. -/
theorem mk_remainder (p d n x : ℕ) :
    AdjoinRoot.mk (bits p) (bits (remainder p d n x))=AdjoinRoot.mk (bits p) (bits x) := by
  induction n generalizing x with
  | zero => rfl
  | succ n ih =>
    rw [remainder,ih]
    split
    · rw [bits_xor,bits_shiftLeft,map_add,map_mul,AdjoinRoot.mk_self,zero_mul,add_zero]
    · rfl

/-- The remainder has no bit from the highest bit of the divisor on. -/
theorem remainder_lt {p d : ℕ} (hp : p<2^(d+1)) (htop : p.testBit d=true) {n x : ℕ}
    (hx : x<2^(d+n)) : remainder p d n x<2^d := by
  induction n generalizing x with
  | zero => exact hx
  | succ n ih =>
    rw [remainder]
    refine ih (Nat.lt_pow_two_of_testBit _ fun i hi => ?_)
    have hhigh : ∀ j, d+n+1 ≤ j → x.testBit j=false := fun j hj =>
      Nat.testBit_lt_two_pow (hx.trans_le (Nat.pow_le_pow_right (by decide) hj))
    split
    · rename_i hbit
      rw [Nat.testBit_xor,Nat.testBit_shiftLeft,decide_eq_true (by omega),Bool.true_and]
      by_cases he : i=d+n
      · rw [he,hbit,Nat.add_sub_cancel,htop]
        rfl
      · rw [hhigh i (by omega),Nat.testBit_lt_two_pow
          (hp.trans_le (Nat.pow_le_pow_right (by decide) (by omega)))]
        rfl
    · rename_i hbit
      by_cases he : i=d+n
      · rw [he]
        exact Bool.eq_false_iff.mpr hbit
      · exact hhigh i (by omega)

/-- A product without carries has one bit less than the factors together. -/
theorem product_lt {a m : ℕ} (ha : a<2^m) (b n : ℕ) : product a b (n+1)<2^(m+n) := by
  have hterm : ∀ n, (if b.testBit n then a<<<n else 0)<2^(m+n) := by
    intro n
    split
    · rw [Nat.shiftLeft_eq,pow_add]
      exact Nat.mul_lt_mul_of_pos_right ha (Nat.two_pow_pos n)
    · exact Nat.two_pow_pos _
  induction n with
  | zero =>
    rw [product,product,Nat.zero_xor]
    exact hterm 0
  | succ n ih =>
    rw [product]
    exact Nat.xor_lt_two_pow (ih.trans_le (Nat.pow_le_pow_right (by decide) (by omega))) (hterm _)

end Polynomials

section Values

/-- What a byte stands for. -/
noncomputable def value (x : UInt8) : AdjoinRoot (bits fieldPolynomial) :=
  AdjoinRoot.mk (bits fieldPolynomial) (bits x.toNat)

/-- Bytes are added as what they stand for. -/
theorem value_xor (x y : UInt8) : value (x^^^y)=value x+value y := by
  rw [value,UInt8.toNat_xor,bits_xor,map_add]
  rfl

theorem toNat_times (x y : UInt8) :
    (times x y).toNat=remainder fieldPolynomial 8 7 (product x.toNat y.toNat 8) := by
  have hproduct : product x.toNat y.toNat 8<2^(8+7) := product_lt x.toNat_lt _ _
  have htop : fieldPolynomial.testBit 8=true := by decide
  exact UInt8.toNat_ofNat_of_lt' (remainder_lt (by decide) htop hproduct)

/-- Bytes are multiplied as what they stand for. -/
theorem value_times (x y : UInt8) : value (times x y)=value x*value y := by
  rw [value,toNat_times,mk_remainder,bits_product,map_mul,Nat.mod_eq_of_lt y.toNat_lt]
  rfl

theorem value_one : value 1=1 := by
  have hone : bits 1=1 := by
    rw [bits,Finset.sum_range_one]
    rfl
  rw [value]
  exact (congrArg _ hone).trans (map_one _)

/-- Bytes with the product 1 are inverse to each other in the field. -/
theorem value_inverse {x y : UInt8} (h : times x y=1) : value x*value y=1 := by
  rw [←value_times,h,value_one]

end Values

end XmrigCC.ByteField
