import XmrigCC.BlockStreams
import XmrigCC.ByteWords

/-!
# The Keccak permutation and its sponge

The state is five times five lanes of 64 bits. The step mappings, the offsets of the rotations and
the round constants are those of the standard, which generates both by rules. A text is padded to
whole blocks, which are added to the first lanes one after the other.
-/

namespace XmrigCC.KeccakSponge

open BlockStreams ByteWords

local instance neZero_five : NeZero 5 := ⟨by decide⟩

/-- The lanes, by column and row. -/
abbrev Lanes := Fin 5 → Fin 5 → UInt64

/-- A lane rotated to the left. -/
def rot (v : UInt64) (n : ℕ) : UInt64 := v<<<UInt64.ofNat n|||v>>>UInt64.ofNat (64-n%64)

/-- θ: the parities of two columns are added. -/
def theta (A : Lanes) : Lanes :=
  let C : Fin 5 → UInt64 := fun x => A x 0^^^A x 1^^^A x 2^^^A x 3^^^A x 4
  fun x y => A x y^^^(C (x-1)^^^rot (C (x+1)) 1)

/-- The lanes in the order in which their offsets grow. -/
def walk : ℕ → Fin 5×Fin 5
  | 0 => (1,0)
  | t+1 => ((walk t).2,2*(walk t).1+3*(walk t).2)

/-- Offset of a lane. -/
def offset (x y : Fin 5) : ℕ :=
  match (List.range 24).find? fun t => walk t=(x,y) with
  | none => 0
  | some t => (t+1)*(t+2)/2%64

/-- ρ: each lane is rotated by its offset. -/
def rho (A : Lanes) : Lanes := fun x y => rot (A x y) (offset x y)

/-- π: the lanes are moved. -/
def pi (A : Lanes) : Lanes := fun x y => A (x+3*y) x

/-- χ: the only step that is not linear. -/
def chi (A : Lanes) : Lanes := fun x y => A x y^^^(~~~A (x+1) y&&&A (x+2) y)

/-- The shift register of the round constants. -/
def register : ℕ → ℕ
  | 0 => 1
  | t+1 => if register t<128 then 2*register t else 2*register t%256^^^0x71

/-- Round constant: the bits at the places below a power of two. -/
def roundConstant (r : ℕ) : UInt64 :=
  UInt64.ofNat (((List.range 7).map fun j => register (j+7*r)%2*2^(2^j-1)).sum)

/-- ι: the round constant is added to the first lane. -/
def iota (r : ℕ) (A : Lanes) : Lanes :=
  fun x y => if x=0 ∧ y=0 then A x y^^^roundConstant r else A x y

/-- A round. -/
def oneRound (r : ℕ) (A : Lanes) : Lanes := iota r (chi (pi (rho (theta A))))

/-- The rounds below a number. -/
def rounds : ℕ → Lanes → Lanes
  | 0,A => A
  | r+1,A => oneRound r (rounds r A)

/-- A block is added to the first lanes. -/
def addBlock (A : Lanes) (block : List UInt8) : Lanes :=
  fun x y => A x y^^^word64 block (x.val+5*y.val)

/-- A block is absorbed. -/
def step (A : Lanes) (block : List UInt8) : Lanes := rounds 24 (addBlock A block)

/-- The bits 1, 0, ..., 0, 1 behind a text, from the lowest bit of a byte on. -/
def padding (rate length : ℕ) : List UInt8 :=
  let k := rate-length%rate
  if k=1 then [0x81] else 0x01::(List.replicate (k-2) 0++[0x80])

/-- The state after a text. -/
def sponge (rate : ℕ) (text : List UInt8) : Lanes :=
  absorb step rate (fun _ _ => 0) (text++padding rate text.length)

/-- The bytes of a state. -/
def bytes (A : Lanes) : List UInt8 :=
  (List.range 25).flatMap fun i => bytesOf 8 (A (Fin.ofNat 5 i) (Fin.ofNat 5 (i/5))).toNat

/-- A lane that is not rotated. -/
theorem rot_zero (v : UInt64) : rot v 0=v := by
  apply UInt64.toNat_inj.mp
  rw [rot,UInt64.toNat_or,UInt64.toNat_shiftLeft,UInt64.toNat_shiftRight]
  change v.toNat<<<0%2^64|||v.toNat>>>0=v.toNat
  rw [Nat.shiftLeft_zero,Nat.shiftRight_zero,Nat.mod_eq_of_lt v.toNat_lt,Nat.or_self]

section Padding

theorem length_padding {rate : ℕ} (h : 0<rate) (length : ℕ) :
    (padding rate length).length=rate-length%rate := by
  have hlt := Nat.mod_lt length h
  rw [padding]
  split
  · rename_i hone
    rw [hone]
    rfl
  · rw [List.length_cons,List.length_append,List.length_replicate,List.length_singleton]
    omega

end Padding

end XmrigCC.KeccakSponge
