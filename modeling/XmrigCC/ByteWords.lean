import Mathlib

/-!
# Words as bytes

A number and its bytes, the lowest first. Words of 32 and 64 bits are read from such bytes, or
from bytes in the other order.
-/

namespace XmrigCC.ByteWords

/-- The number with given bytes, the lowest first. -/
def number (bs : List UInt8) : ℕ := Nat.ofDigits 256 (bs.map UInt8.toNat)

/-- The lowest bytes of a number, the lowest first. -/
def bytesOf : ℕ → ℕ → List UInt8
  | 0,_ => []
  | n+1,v => UInt8.ofNat v::bytesOf n (v/256)

/-- The 64-bit word at a place, counted in words. -/
def word64 (bs : List UInt8) (i : ℕ) : UInt64 := UInt64.ofNat (number ((bs.drop (8*i)).take 8))

/-- The 32-bit word at a place, the highest byte first. -/
def bigWord32 (bs : List UInt8) (i : ℕ) : UInt32 :=
  UInt32.ofNat (number ((bs.drop (4*i)).take 4).reverse)

@[simp] theorem number_nil : number []=0 := rfl

@[simp] theorem number_cons (b : UInt8) (bs : List UInt8) :
    number (b::bs)=b.toNat+256*number bs := Nat.ofDigits_cons

theorem number_lt (bs : List UInt8) : number bs<256^bs.length := by
  have hlt := Nat.ofDigits_lt_base_pow_length (b:=256) (l:=bs.map UInt8.toNat) (by decide)
    (fun x hx => by
      obtain ⟨b,-,rfl⟩ := List.mem_map.mp hx
      exact b.toNat_lt)
  rwa [List.length_map] at hlt

@[simp] theorem length_bytesOf (n v : ℕ) : (bytesOf n v).length=n := by
  induction n generalizing v with
  | zero => rfl
  | succ n ih => rw [bytesOf,List.length_cons,ih]

/-- The lower bytes first, then the upper ones. -/
theorem bytesOf_add (m n v : ℕ) : bytesOf (m+n) v=bytesOf m v++bytesOf n (v/256^m) := by
  induction m generalizing v with
  | zero => rw [Nat.zero_add,pow_zero,Nat.div_one]; rfl
  | succ m ih =>
    rw [Nat.succ_add,bytesOf,bytesOf,ih,List.cons_append,Nat.div_div_eq_div_mul,pow_succ']

/-- Bytes above the ones that are taken do not matter. -/
theorem bytesOf_mod (n v : ℕ) : bytesOf n (v%256^n)=bytesOf n v := by
  induction n generalizing v with
  | zero => rfl
  | succ n ih =>
    have hhead : UInt8.ofNat (v%256^(n+1))=UInt8.ofNat v := by
      apply UInt8.toNat_inj.mp
      rw [UInt8.toNat_ofNat',UInt8.toNat_ofNat',pow_succ',Nat.mod_mul_right_mod]
    have htail : v%256^(n+1)/256=v/256%256^n := by
      rw [pow_succ',Nat.mod_mul_right_div_self]
    rw [bytesOf,bytesOf,hhead,htail,ih]

/-- Behind the last byte there are words without bits. -/
theorem word64_of_le {bs : List UInt8} {i : ℕ} (h : bs.length ≤ 8*i) : word64 bs i=0 := by
  rw [word64,List.drop_eq_nil_of_le h]
  rfl

/-- A word does not depend on the bytes behind it. -/
theorem word64_take {n i : ℕ} (h : i<n) (bs : List UInt8) :
    word64 (bs.take (8*n)) i=word64 bs i := by
  rw [word64,List.drop_take,List.take_take,Nat.min_eq_left (by omega),word64]

end XmrigCC.ByteWords
