import XmrigCC.ByteField

/-!
# Rounds of Rijndael

A block is four columns of four bytes. The round and its parts are those of the textbook, for
any substitution of bytes, and so are the two orders in which processors compute it: the key is
added behind the mixed columns, or before the bytes are substituted.
-/

namespace XmrigCC.Rijndael

open ByteField

/-- There are rows and columns, so their numbers can be written as numerals. -/
scoped instance neZero_rows : NeZero 4 := ⟨by decide⟩

/-- A column, from the first row to the last. -/
abbrev Column := Fin 4 → UInt8

/-- A block, by column and row. -/
abbrev State := Fin 4 → Column

/-- The matrix of the mixed columns. -/
def mix : Fin 4 → Fin 4 → UInt8 := ![![2,3,1,1],![1,2,3,1],![1,1,2,3],![3,1,1,2]]

/-- `SubBytes`. -/
def subBytes (S : UInt8 → UInt8) (s : State) : State := fun c r => S (s c r)

/-- `ShiftRows`: row r is taken from r columns further. -/
def shiftRows (s : State) : State := fun c r => s (c+r) r

/-- `MixColumns`. -/
def mixColumns (s : State) : State := fun c r =>
  times (mix r 0) (s c 0)^^^times (mix r 1) (s c 1)^^^times (mix r 2) (s c 2)^^^
    times (mix r 3) (s c 3)

/-- `AddRoundKey`. -/
def addRoundKey (s key : State) : State := fun c r => s c r^^^key c r

/-- A round: the key is added last. -/
def aesenc (S : UInt8 → UInt8) (s key : State) : State :=
  addRoundKey (mixColumns (subBytes S (shiftRows s))) key

/-- The first half of a round of another kind: the key is added first. -/
def aese (S : UInt8 → UInt8) (s key : State) : State :=
  subBytes S (shiftRows (addRoundKey s key))

/-- `SubWord`. -/
def subWord (S : UInt8 → UInt8) (w : Column) : Column := fun r => S (w r)

/-- `RotWord`. -/
def rotWord (w : Column) : Column := fun r => w (r+1)

/-- A word with a round constant added to its first byte. -/
def addRcon (rcon : UInt8) (w : Column) : Column := ![w 0^^^rcon,w 1,w 2,w 3]

/-- What helps to generate a key: words 1 and 3 substituted, and rotated besides with the round
constant. -/
def keygenassist (S : UInt8 → UInt8) (rcon : UInt8) (s : State) : State :=
  ![subWord S (s 1),addRcon rcon (rotWord (subWord S (s 1))),
    subWord S (s 3),addRcon rcon (rotWord (subWord S (s 3)))]

/-- Exclusive or of two words. -/
def addWord (v w : Column) : Column := fun r => v r^^^w r

/-- The round constants of the key expansion: the powers of 2. -/
def roundConstant : ℕ → UInt8
  | 0 => 1
  | n+1 => times 2 (roundConstant n)

/-- What the key expansion adds, from the word before. -/
def expansionTerm (S : UInt8 → UInt8) (i : ℕ) (w : Column) : Column :=
  if i%8=0 then addRcon (roundConstant (i/8)) (subWord S (rotWord w))
  else if i%8=4 then subWord S w
  else w

/-- The words of the key expansion, for a key of eight words. -/
def keyWord (S : UInt8 → UInt8) (key : Fin 8 → Column) (i : ℕ) : Column :=
  if h : i<8 then key ⟨i,h⟩
  else addWord (keyWord S key (i-8)) (expansionTerm S (i-8) (keyWord S key (i-1)))
termination_by i

/-- A byte rotated to the left. -/
def rotl (x n : UInt8) : UInt8 := x<<<n|||x>>>(8-n)

/-- The affine map of the S-box. -/
def affine (x : UInt8) : UInt8 := x^^^rotl x 1^^^rotl x 2^^^rotl x 3^^^rotl x 4^^^0x63

/-- The S-box: the affine map of the inverse, where 0 counts as the inverse of 0. -/
def IsSBox (S : UInt8 → UInt8) : Prop :=
  ∀ x, ∃ y, (if x=0 then y=0 else times x y=1) ∧ S x=affine y

/-- A block without bits changes nothing. -/
theorem addRoundKey_zero (s : State) : addRoundKey s (fun _ _ => 0)=s := by
  funext c r
  exact UInt8.xor_zero

/-- With the key 0 the first kind of round is the second one, and the key is added behind. -/
theorem aesenc_eq (S : UInt8 → UInt8) (s key : State) :
    aesenc S s key=addRoundKey (mixColumns (aese S s fun _ _ => 0)) key := by
  rw [aese,addRoundKey_zero]
  rfl

theorem addWord_assoc (u v w : Column) : addWord (addWord u v) w=addWord u (addWord v w) :=
  funext fun r => UInt8.xor_assoc (u r) (v r) (w r)

theorem addWord_zero (w : Column) : addWord w 0=w := funext fun _ => UInt8.xor_zero

theorem keyWord_first (S : UInt8 → UInt8) (key : Fin 8 → Column) (i : Fin 8) :
    keyWord S key i=key i := by
  rw [keyWord]
  exact dif_pos i.isLt

theorem keyWord_next (S : UInt8 → UInt8) (key : Fin 8 → Column) (i : ℕ) :
    keyWord S key (i+8)=
      addWord (keyWord S key i) (expansionTerm S i (keyWord S key (i+7))) := by
  rw [keyWord,dif_neg (by omega)]
  rfl

section Rounds

variable {α : Type*} (add : α → α → α) (r : α → α)

/-- Rounds that add their key last. -/
def roundsLast (x : α) (keys : List α) : α := keys.foldl (fun x k => add (r x) k) x

/-- Rounds that add their key first. -/
def roundsFirst (x : α) (keys : List α) : α := keys.foldl (fun x k => r (add x k)) x

/-- Rounds of the second kind compute those of the first when all keys come one round later, with
a key without effect before them and the last key added behind. -/
theorem roundsFirst_shift {zero : α} (hzero : ∀ x, add x zero=x) (x : α) (keys : List α)
    (last : α) : add (roundsFirst add r x (zero::keys)) last=roundsLast add r x (keys++[last]) := by
  have hshift : ∀ x, roundsFirst add r (r x) keys=r (roundsLast add r x keys) := by
    induction keys with
    | nil => exact fun x => rfl
    | cons k keys ih => exact fun x => ih (add (r x) k)
  rw [roundsFirst,List.foldl_cons,hzero]
  rw [roundsLast,List.foldl_append,List.foldl_cons,List.foldl_nil]
  exact congrArg (add · last) (hshift x)

end Rounds

end XmrigCC.Rijndael
