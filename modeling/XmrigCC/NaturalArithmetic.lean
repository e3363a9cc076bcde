import Mathlib

/-!
# Quotients and products of natural numbers

Division where a divisor of 0 gives no value, and when dividing twice gives the divisor back.
A product of two numbers of two digits each, from the products of the digits: sums are kept
modulo the square of the base, and what leaves them is carried.
-/

namespace XmrigCC.NaturalArithmetic

/-- `a / b`, none for a divisor of 0. -/
def quotient (a b : ℕ) : Option ℕ := if b=0 then none else some (a/b)

@[simp] theorem quotient_zero (a : ℕ) : quotient a 0=none := if_pos rfl

theorem quotient_of_pos {a b : ℕ} (h : 0<b) : quotient a b=some (a/b) :=
  if_neg (Nat.ne_of_gt h)

theorem quotient_eq_some_iff {a b q : ℕ} : quotient a b=some q ↔ 0<b ∧ a/b=q := by
  by_cases h : 0<b
  · rw [quotient_of_pos h,Option.some.injEq,and_iff_right h]
  · have hzero : b=0 := by omega
    rw [hzero,quotient_zero]
    simp only [reduceCtorEq,lt_self_iff_false,false_and]

/-- A divisor not above the root of the dividend is the quotient by its quotient. -/
theorem div_div_of_mul_succ_le {n d : ℕ} (hd : 0<d) (h : d*(d+1) ≤ n) : n/(n/d)=d := by
  have hquot : d+1 ≤ n/d := by
    rw [Nat.le_div_iff_mul_le hd,Nat.mul_comm]
    exact h
  have hrest : n%d<d := Nat.mod_lt n hd
  have hn : d*(n/d)+n%d=n := Nat.div_add_mod n d
  have hlow : d ≤ n/(n/d) := by
    rw [Nat.le_div_iff_mul_le (by omega)]
    omega
  have hhigh : n/(n/d)<d+1 := by
    rw [Nat.div_lt_iff_lt_mul (by omega),Nat.add_mul,Nat.one_mul]
    omega
  omega

/-- The carry of a sum that was reduced: whether it came out below a summand. -/
def carry (sum summand : ℕ) : ℕ := if sum<summand then 1 else 0

/-- A reduced sum and its carry are the sum. -/
theorem mod_add_carry {M x y : ℕ} (hx : x<M) (hy : y<M) :
    (x+y)%M+M*carry ((x+y)%M) x=x+y := by
  rw [carry]
  by_cases hfits : x+y<M
  · rw [Nat.mod_eq_of_lt hfits,if_neg (by omega)]
    omega
  · have hreduced : (x+y)%M=x+y-M := by
      rw [Nat.mod_eq_sub_mod (by omega),Nat.mod_eq_of_lt (by omega)]
    rw [hreduced,if_pos (by omega)]
    omega

/-- A product of two digits is below the square of the base. -/
theorem digit_mul_lt {B x y : ℕ} (hx : x<B) (hy : y<B) : x*y<B*B :=
  Nat.mul_lt_mul'' hx hy

section Product

variable {B a b c d : ℕ}

/-- The low digits of the product: the last product and the low digit of the middle sum. -/
def low (B a b c d : ℕ) : ℕ := (b*d+((a*d+b*c)%(B*B)*B)%(B*B))%(B*B)

/-- The high digits: the first product, the high digit of the middle sum and the carries. -/
def high (B a b c d : ℕ) : ℕ :=
  a*c+(a*d+b*c)%(B*B)/B+carry ((a*d+b*c)%(B*B)) (a*d)*B+carry (low B a b c d) (b*d)

/-- Both together are the product. -/
theorem high_low (ha : a<B) (hb : b<B) (hc : c<B) (hd : d<B) :
    high B a b c d*(B*B)+low B a b c d=(a*B+b)*(c*B+d) := by
  have hbase : 0<B := by omega
  have hmiddle := mod_add_carry (digit_mul_lt ha hd) (digit_mul_lt hb hc)
  have hlast := mod_add_carry (digit_mul_lt hb hd)
    (Nat.mod_lt ((a*d+b*c)%(B*B)*B) (Nat.mul_pos hbase hbase))
  have hdigits := Nat.div_add_mod ((a*d+b*c)%(B*B)) B
  have hshift : ((a*d+b*c)%(B*B)*B)%(B*B)=(a*d+b*c)%(B*B)%B*B := Nat.mul_mod_mul_right _ _ _
  rw [high,low]
  rw [hshift] at hlast ⊢
  generalize (a*d+b*c)%(B*B)=middle at *
  generalize (b*d+middle%B*B)%(B*B)=last at *
  calc (a*c+middle/B+carry middle (a*d)*B+carry last (b*d))*(B*B)+last=
        a*c*(B*B)+middle/B*(B*B)+B*(B*B*carry middle (a*d))+(last+B*B*carry last (b*d)) := by ring
    _ = a*c*(B*B)+middle/B*(B*B)+B*(B*B*carry middle (a*d))+(b*d+middle%B*B) := by rw [hlast]
    _ = a*c*(B*B)+B*((B*(middle/B)+middle%B)+B*B*carry middle (a*d))+b*d := by ring
    _ = a*c*(B*B)+B*(a*d+b*c)+b*d := by rw [hdigits,hmiddle]
    _ = (a*B+b)*(c*B+d) := by ring

/-- The high digits do not overflow. -/
theorem high_lt (ha : a<B) (hb : b<B) (hc : c<B) (hd : d<B) : high B a b c d<B*B := by
  have hproduct := high_low ha hb hc hd
  have hfirst : a*B+b<B*B := by
    calc a*B+b<a*B+B := by omega
      _ = (a+1)*B := by ring
      _ ≤ B*B := Nat.mul_le_mul_right B ha
  have hsecond : c*B+d<B*B := by
    calc c*B+d<c*B+B := by omega
      _ = (c+1)*B := by ring
      _ ≤ B*B := Nat.mul_le_mul_right B hc
  by_contra hlarge
  have hbound : B*B*(B*B) ≤ high B a b c d*(B*B) := Nat.mul_le_mul_right _ (Nat.not_lt.mp hlarge)
  have hless := Nat.mul_lt_mul'' hfirst hsecond
  omega

end Product

end XmrigCC.NaturalArithmetic
