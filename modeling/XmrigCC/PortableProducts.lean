import XmrigCC.CryptoNight
import XmrigCC.NaturalArithmetic

/-!
# The product of two 64-bit words without 128-bit integers

`__umul128` as 32-bit x86 and ARMv7 have it: both words are split into halves of 32 bits, and
every intermediate value is a `uint64_t`.
-/

namespace XmrigCC.PortableProducts

open NaturalArithmetic

/-- `__umul128(multiplier, multiplicand, product_hi)`: what is returned, and `*product_hi`. -/
def umul128 (multiplier multiplicand : UInt64) : UInt64×UInt64 :=
  let a := multiplier>>>32
  let b := multiplier&&&0xFFFFFFFF
  let c := multiplicand>>>32
  let d := multiplicand&&&0xFFFFFFFF
  let ad := a*d
  let bd := b*d
  let adbc := ad+b*c
  let adbc_carry : UInt64 := if adbc<ad then 1 else 0
  let product_lo := bd+(adbc<<<32)
  let product_lo_carry : UInt64 := if product_lo<bd then 1 else 0
  (product_lo,a*c+(adbc>>>32)+(adbc_carry<<<32)+product_lo_carry)

/-- The upper half of a word. -/
theorem toNat_upper (x : UInt64) : (x>>>32).toNat=x.toNat/2^32 := by
  rw [UInt64.toNat_shiftRight]
  exact Nat.shiftRight_eq_div_pow _ 32

/-- The lower half of a word. -/
theorem toNat_lower (x : UInt64) : (x&&&0xFFFFFFFF).toNat=x.toNat%2^32 := by
  rw [UInt64.toNat_and]
  exact Nat.and_two_pow_sub_one_eq_mod _ 32

/-- A half moved up. -/
theorem toNat_raised (x : UInt64) : (x<<<32).toNat=(x.toNat*2^32)%2^64 := by
  rw [UInt64.toNat_shiftLeft]
  exact congrArg (·%2^64) (Nat.shiftLeft_eq _ 32)

/-- The carry of a sum of words. -/
theorem toNat_carry (sum summand : UInt64) :
    (if sum<summand then (1 : UInt64) else 0).toNat=carry sum.toNat summand.toNat := by
  rw [carry]
  split
  · rename_i h
    rw [if_pos (UInt64.lt_iff_toNat_lt.mp h)]
    rfl
  · rename_i h
    rw [if_neg fun hn => h (UInt64.lt_iff_toNat_lt.mpr hn)]
    rfl

/-- A product of halves is not reduced. -/
theorem toNat_mul_halves {x y : UInt64} (hx : x.toNat<2^32) (hy : y.toNat<2^32) :
    (x*y).toNat=x.toNat*y.toNat := by
  rw [UInt64.toNat_mul]
  exact Nat.mod_eq_of_lt (digit_mul_lt hx hy)

section Halves

variable {a b c d : UInt64} (ha : a.toNat<2^32) (hb : b.toNat<2^32) (hc : c.toNat<2^32)
  (hd : d.toNat<2^32)
include ha hb hc hd

/-- The sum of the middle products. -/
theorem toNat_middle :
    (a*d+b*c).toNat=(a.toNat*d.toNat+b.toNat*c.toNat)%(2^32*2^32) := by
  rw [UInt64.toNat_add,toNat_mul_halves ha hd,toNat_mul_halves hb hc]
  rfl

/-- `product_lo`. -/
theorem toNat_product_lo :
    (b*d+((a*d+b*c)<<<32)).toNat=low (2^32) a.toNat b.toNat c.toNat d.toNat := by
  rw [low,UInt64.toNat_add,toNat_raised,toNat_middle ha hb hc hd,toNat_mul_halves hb hd]
  rfl

/-- `*product_hi`: its sum does not overflow. -/
theorem toNat_product_hi :
    (a*c+((a*d+b*c)>>>32)+((if a*d+b*c<a*d then (1 : UInt64) else 0)<<<32)+
      (if b*d+((a*d+b*c)<<<32)<b*d then 1 else 0)).toNat=
      high (2^32) a.toNat b.toNat c.toNat d.toNat := by
  have hfits := high_lt ha hb hc hd
  rw [UInt64.toNat_add,UInt64.toNat_add,UInt64.toNat_add,toNat_raised,toNat_upper,toNat_carry,
    toNat_carry,toNat_product_lo ha hb hc hd,toNat_middle ha hb hc hd,toNat_mul_halves ha hc,
    toNat_mul_halves ha hd,toNat_mul_halves hb hd]
  rw [high] at hfits ⊢
  omega

end Halves

/-- What is returned and what is stored, from the halves of the factors. -/
theorem umul128_digits (x y : UInt64) :
    (umul128 x y).1.toNat=
      low (2^32) (x.toNat/2^32) (x.toNat%2^32) (y.toNat/2^32) (y.toNat%2^32) ∧
    (umul128 x y).2.toNat=
      high (2^32) (x.toNat/2^32) (x.toNat%2^32) (y.toNat/2^32) (y.toNat%2^32) := by
  have hx := x.toNat_lt
  have hy := y.toNat_lt
  have ha : (x>>>32).toNat<2^32 := by rw [toNat_upper]; omega
  have hb : (x&&&0xFFFFFFFF : UInt64).toNat<2^32 := by rw [toNat_lower]; omega
  have hc : (y>>>32).toNat<2^32 := by rw [toNat_upper]; omega
  have hd : (y&&&0xFFFFFFFF : UInt64).toNat<2^32 := by rw [toNat_lower]; omega
  have hlow := toNat_product_lo ha hb hc hd
  have hhigh := toNat_product_hi ha hb hc hd
  rw [toNat_upper,toNat_upper,toNat_lower,toNat_lower] at hlow hhigh
  exact ⟨hlow,hhigh⟩

/-- For any two words the halves are those of their product, and so are those that the 128-bit
variant gives. -/
theorem umul128_exact (x y : UInt64) :
    (umul128 x y).2.toNat*2^64+(umul128 x y).1.toNat=x.toNat*y.toNat ∧
    umul128 x y=CryptoNight.umul128 x y := by
  have hx := x.toNat_lt
  have hy := y.toNat_lt
  have hproduct : (umul128 x y).2.toNat*2^64+(umul128 x y).1.toNat=x.toNat*y.toNat := by
    have hbase := high_low (B:=2^32) (a:=x.toNat/2^32) (b:=x.toNat%2^32) (c:=y.toNat/2^32)
      (d:=y.toNat%2^32) (by omega) (by omega) (by omega) (by omega)
    rw [Nat.div_add_mod',Nat.div_add_mod'] at hbase
    rw [(umul128_digits x y).1,(umul128_digits x y).2]
    exact hbase
  have hlow := (umul128 x y).1.toNat_lt
  have hhigh := (umul128 x y).2.toNat_lt
  refine ⟨hproduct,?_⟩
  rw [CryptoNight.umul128,←hproduct]
  apply Prod.ext
  · apply UInt64.toNat_inj.mp
    rw [UInt64.toNat_ofNat']
    omega
  · apply UInt64.toNat_inj.mp
    rw [UInt64.toNat_ofNat']
    omega

end XmrigCC.PortableProducts
