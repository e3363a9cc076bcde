import XmrigCC.FixedArrays
import XmrigCC.KeccakSponge

/-!
# Keccak as it is coded

`keccakf` computes on an array of 25 words in place: the rotations and moves follow one cycle
through the array, and the rows of the last step are computed one word after the other. `keccak`
xors blocks from the input, and the last one from a buffer of 144 bytes.
-/

namespace XmrigCC.Keccak

open BlockStreams ByteWords FixedArrays KeccakSponge

local instance neZero_five : NeZero 5 := ⟨by decide⟩

/-- `ROTL64`. -/
def ROTL64 (x y : UInt64) : UInt64 := x<<<y|||x>>>(64-y)

/-- `keccakf_rndc`. -/
def keccakf_rndc : Vector UInt64 24 :=
  #v[0x0000000000000001,0x0000000000008082,0x800000000000808a,
  0x8000000080008000,0x000000000000808b,0x0000000080000001,
  0x8000000080008081,0x8000000000008009,0x000000000000008a,
  0x0000000000000088,0x0000000080008009,0x000000008000000a,
  0x000000008000808b,0x800000000000008b,0x8000000000008089,
  0x8000000000008003,0x8000000000008002,0x8000000000000080,
  0x000000000000800a,0x800000008000000a,0x8000000080008081,
  0x8000000000008080,0x0000000080000001,0x8000000080008008]

/-- `state_t`. -/
abbrev State := FixedArray UInt64 25

section Steps

/-- The body of the loop of theta; the array has 25 words, so `i + 20` is below 25. -/
def thetaColumn (bc : FixedArray UInt64 5) (i : Fin 5) (st : State) : State :=
  let t := bc (i+4)^^^ROTL64 (bc (i+1)) 1
  let at' := fun k : Fin 5 => (⟨i.val+5*k.val,by omega⟩ : Fin 25)
  let st := st.set (at' 0) (st (at' 0)^^^t)
  let st := st.set (at' 1) (st (at' 1)^^^t)
  let st := st.set (at' 2) (st (at' 2)^^^t)
  let st := st.set (at' 3) (st (at' 3)^^^t)
  st.set (at' 4) (st (at' 4)^^^t)

/-- Theta. -/
def thetaStep (st : State) : State :=
  let bc : FixedArray UInt64 5 := ⟨![st 0^^^st 5^^^st 10^^^st 15^^^st 20,
    st 1^^^st 6^^^st 11^^^st 16^^^st 21,st 2^^^st 7^^^st 12^^^st 17^^^st 22,
    st 3^^^st 8^^^st 13^^^st 18^^^st 23,st 4^^^st 9^^^st 14^^^st 19^^^st 24]⟩
  forEach 5 (thetaColumn bc) st

/-- Rho Pi. -/
def rhoPiStep (st : State) : State :=
  let t := st 1
  let st := st.set 1 (ROTL64 (st 6) 44)
  let st := st.set 6 (ROTL64 (st 9) 20)
  let st := st.set 9 (ROTL64 (st 22) 61)
  let st := st.set 22 (ROTL64 (st 14) 39)
  let st := st.set 14 (ROTL64 (st 20) 18)
  let st := st.set 20 (ROTL64 (st 2) 62)
  let st := st.set 2 (ROTL64 (st 12) 43)
  let st := st.set 12 (ROTL64 (st 13) 25)
  let st := st.set 13 (ROTL64 (st 19) 8)
  let st := st.set 19 (ROTL64 (st 23) 56)
  let st := st.set 23 (ROTL64 (st 15) 41)
  let st := st.set 15 (ROTL64 (st 4) 27)
  let st := st.set 4 (ROTL64 (st 24) 14)
  let st := st.set 24 (ROTL64 (st 21) 2)
  let st := st.set 21 (ROTL64 (st 8) 55)
  let st := st.set 8 (ROTL64 (st 16) 45)
  let st := st.set 16 (ROTL64 (st 5) 36)
  let st := st.set 5 (ROTL64 (st 3) 28)
  let st := st.set 3 (ROTL64 (st 18) 21)
  let st := st.set 18 (ROTL64 (st 17) 15)
  let st := st.set 17 (ROTL64 (st 11) 10)
  let st := st.set 11 (ROTL64 (st 7) 6)
  let st := st.set 7 (ROTL64 (st 10) 3)
  st.set 10 (ROTL64 t 1)

/-- Chi on the row that starts at `j`, for the first four rows. -/
def chiRow (j : Fin 25) (st : State) : State :=
  let bc0 := st j
  let bc1 := st (j+1)
  let st := st.set j (st j^^^(~~~st (j+1)&&&st (j+2)))
  let st := st.set (j+1) (st (j+1)^^^(~~~st (j+2)&&&st (j+3)))
  let st := st.set (j+2) (st (j+2)^^^(~~~st (j+3)&&&st (j+4)))
  let st := st.set (j+3) (st (j+3)^^^(~~~st (j+4)&&&bc0))
  st.set (j+4) (st (j+4)^^^(~~~bc0&&&bc1))

/-- Chi on the last row. -/
def chiLast (j : Fin 25) (st : State) : State :=
  let bc0 := st j
  let bc1 := st (j+1)
  let bc2 := st (j+2)
  let bc3 := st (j+3)
  let bc4 := st (j+4)
  let st := st.set j (st j^^^(~~~bc1&&&bc2))
  let st := st.set (j+1) (st (j+1)^^^(~~~bc2&&&bc3))
  let st := st.set (j+2) (st (j+2)^^^(~~~bc3&&&bc4))
  let st := st.set (j+3) (st (j+3)^^^(~~~bc4&&&bc0))
  st.set (j+4) (st (j+4)^^^(~~~bc0&&&bc1))

/-- Chi. -/
def chiStep (st : State) : State :=
  let st := chiRow 0 st
  let st := chiRow 5 st
  let st := chiRow 10 st
  let st := chiRow 15 st
  chiLast 20 st

/-- The loop of `keccakf`, as many rounds as remain; none when it reads behind the constants. -/
def keccakfFrom : ℕ → ℕ → State → Option State
  | 0,_,st => some st
  | n+1,round,st => do
    let st := chiStep (rhoPiStep (thetaStep st))
    let rndc ← keccakf_rndc[round]?
    keccakfFrom n (round+1) (st.set 0 (st 0^^^rndc))

/-- `keccakf`. -/
def keccakf (st : State) (rounds : ℕ) : Option State := keccakfFrom rounds 0 st

end Steps

/-- `KECCAK_ROUNDS`. -/
def KECCAK_ROUNDS : ℕ := 24

/-- `HASH_DATA_AREA`. -/
def HASH_DATA_AREA : ℤ := 136

/-- `rsiz`. -/
def rsizOf (mdlen : ℤ) : ℤ := if mdlen=200 then HASH_DATA_AREA else 200-2*mdlen

/-- `for (i = 0; i < rsizw; i++) st[i] ^= ((uint64_t *) in)[i]`: none when it reads behind the
input or writes behind the state. -/
def xorWords (rsizw : ℕ) (input : List UInt8) (st : State) : Option State :=
  if rsizw ≤ 25 ∧ 8*rsizw ≤ input.length then
    some (forEach 25
      (fun i st => st.set i (if i.val<rsizw then st i^^^word64 input i else st i)) st)
  else none

/-- The loop over the blocks, with as many iterations as may be made. -/
def absorbLoop (rsiz : ℤ) : ℕ → List UInt8 → ℤ → State → Option (List UInt8×ℤ×State)
  | 0,_,_,_ => none
  | n+1,input,inlen,st =>
    if rsiz ≤ inlen then do
      let st ← xorWords (rsiz/8).toNat input st
      let st ← keccakf st KECCAK_ROUNDS
      absorbLoop rsiz n (input.drop rsiz.toNat) (inlen-rsiz) st
    else some (input,inlen,st)

/-- The bytes of `temp` up to `rsiz`: the rest of the input, 1, zeros, and 0x80 added to the last
byte. None when they do not fit in 144 bytes, or the input is shorter than it should be. -/
def lastBlock (rsiz inlen : ℤ) (input : List UInt8) : Option (List UInt8) :=
  if 0 ≤ inlen ∧ inlen ≤ input.length ∧ inlen<rsiz ∧ rsiz ≤ 144 then
    some ((input.take inlen.toNat++1::List.replicate (rsiz-inlen-1).toNat 0).modify
      (rsiz-1).toNat (·|||0x80))
  else none

/-- The bytes of a state in memory order. -/
def stateBytes (st : State) : List UInt8 := st.toList.flatMap fun v => bytesOf 8 v.toNat

/-- `keccak`; a size that `200 - 2 * mdlen` has no `int` for is one that has no result. -/
def keccak (input : List UInt8) (inlen mdlen : Int32) : Option (List UInt8) := do
  let rsiz := rsizOf mdlen.toInt
  let (input,inlen,st) ← absorbLoop rsiz (inlen.toInt.toNat+1) input inlen.toInt (fill 25 0)
  let temp ← lastBlock rsiz inlen input
  let st ← xorWords (rsiz/8).toNat temp st
  let st ← keccakf st KECCAK_ROUNDS
  if 0 ≤ mdlen.toInt ∧ mdlen.toInt ≤ 200 then some ((stateBytes st).take mdlen.toInt.toNat)
  else none

/-- `keccak1600`. -/
def keccak1600 (input : List UInt8) (inlen : Int32) : Option (List UInt8) := keccak input inlen 200

section Permutation

/-- The lanes of an array. -/
def lanes (st : State) : Lanes := fun x y => st ⟨x.val+5*y.val,by omega⟩

theorem lanes_thetaStep (st : State) : lanes (thetaStep st)=theta (lanes st) := by
  funext x y
  fin_cases x <;> fin_cases y <;> rfl

theorem lanes_chiStep (st : State) : lanes (chiStep st)=chi (lanes st) := by
  funext x y
  fin_cases x <;> fin_cases y <;> rfl

theorem lanes_rhoPiStep (st : State) : lanes (rhoPiStep st)=pi (rho (lanes st)) := by
  funext x y
  by_cases hfirst : x=0 ∧ y=0
  · -- the first lane stays where it is
    obtain ⟨rfl,rfl⟩ := hfirst
    exact (rot_zero (st 0)).symm
  · fin_cases x <;> fin_cases y <;> first | exact absurd ⟨rfl,rfl⟩ hfirst | rfl

/-- The table has the round constants. -/
theorem keccakf_rndc_eq : ∀ r<24, keccakf_rndc[r]?=some (roundConstant r) := by decide +kernel

theorem lanes_iota (st : State) (r : ℕ) :
    lanes (st.set 0 (st 0^^^roundConstant r))=iota r (lanes st) := by
  funext x y
  fin_cases x <;> fin_cases y <;> rfl

/-- The rounds that remain complete those that have been made. -/
theorem lanes_keccakfFrom {n r : ℕ} (h : r+n ≤ 24) {st : State} {A : Lanes}
    (hst : lanes st=rounds r A) :
    ∃ st', keccakfFrom n r st=some st' ∧ lanes st'=rounds (r+n) A := by
  induction n generalizing r st with
  | zero => exact ⟨st,rfl,hst⟩
  | succ n ih =>
    let next := chiStep (rhoPiStep (thetaStep st))
    have hnext : lanes (next.set 0 (next 0^^^roundConstant r))=rounds (r+1) A := by
      rw [lanes_iota,lanes_chiStep,lanes_rhoPiStep,lanes_thetaStep,hst]
      rfl
    obtain ⟨st',hrun,hlanes⟩ := ih (r:=r+1) (by omega) hnext
    refine ⟨st',?_,?_⟩
    · rw [keccakfFrom,keccakf_rndc_eq r (by omega)]
      exact hrun
    · rw [hlanes,Nat.add_right_comm]
      rfl

/-- `keccakf` makes the rounds of the permutation. -/
theorem lanes_keccakf {n : ℕ} (h : n ≤ 24) (st : State) :
    ∃ st', keccakf st n=some st' ∧ lanes st'=rounds n (lanes st) := by
  have hrun := lanes_keccakfFrom (n:=n) (r:=0) (by omega) (A:=lanes st) rfl
  rwa [Nat.zero_add] at hrun

end Permutation

section Blocks

variable {w : ℕ}

/-- The words of a block are added to the first lanes. -/
theorem xorWords_eq (hw : w ≤ 25) {input : List UInt8} (hinput : 8*w ≤ input.length)
    (st : State) : ∃ st', xorWords w input st=some st' ∧
      lanes st'=addBlock (lanes st) (input.take (8*w)) := by
  refine ⟨_,if_pos ⟨hw,hinput⟩,?_⟩
  funext x y
  rw [lanes,forEach_set (fun i w' => if i.val<w then w'^^^word64 input i else w') st,addBlock,lanes]
  dsimp only
  split
  · rename_i hi
    rw [word64_take hi]
  · rename_i hi
    rw [word64_of_le (by rw [List.length_take]; omega),UInt64.xor_zero]

/-- A block is absorbed; bytes that do not fill a word are left out. -/
def stepWords (w : ℕ) (A : Lanes) (block : List UInt8) : Lanes := step A (block.take (8*w))

/-- What the body of the loop does with a block. -/
theorem absorbed (hw : w ≤ 25) (block : List UInt8) (hblock : 8*w ≤ block.length) (st : State) :
    ∃ st' st'', xorWords w block st=some st' ∧ keccakf st' KECCAK_ROUNDS=some st'' ∧
      lanes st''=stepWords w (lanes st) block := by
  obtain ⟨st',hxor,hlanes⟩ := xorWords_eq hw hblock st
  obtain ⟨st'',hrun,hlanes'⟩ := lanes_keccakf (n:=KECCAK_ROUNDS) (le_refl _) st'
  refine ⟨st',st'',hxor,hrun,?_⟩
  rw [hlanes',hlanes]
  rfl

variable {r : ℕ}

/-- The loop takes the blocks from the input and leaves the rest. -/
theorem absorbLoop_eq (hr : 0<r) (hbuffer : r ≤ 144) {n : ℕ} {input : List UInt8}
    (hn : input.length<n) (st : State) :
    ∃ whole rest st', input=whole++rest ∧ whole.length%r=0 ∧ rest.length<r ∧
      absorbLoop r n input input.length st=some (rest,(rest.length : ℤ),st') ∧
      lanes st'=absorb (stepWords (r/8)) r (lanes st) whole := by
  induction n generalizing input st with
  | zero => cases hn
  | succ n ih =>
    by_cases hblock : r ≤ input.length
    · -- a block is there: it is the first one of the text
      have htake : (input.take r).length=r := by rw [List.length_take,Nat.min_eq_left hblock]
      have hdrop : (input.drop r).length=input.length-r := List.length_drop
      obtain ⟨st1,st2,hxor,hrun,hlanes⟩ := absorbed (w:=r/8) (by omega)
        input (by omega) st
      have hless : (input.drop r).length<n := by omega
      obtain ⟨whole,rest,st',hinput,hwhole,hrest,hloop,hst'⟩ := ih hless st2
      refine ⟨input.take r++whole,rest,st',?_,?_,hrest,?_,?_⟩
      · rw [List.append_assoc,←hinput,List.take_append_drop]
      · rw [List.length_append,htake,Nat.add_mod,Nat.mod_self,hwhole]
        exact Nat.zero_mod r
      · have hcount : ((r : ℤ)/8).toNat=r/8 := by omega
        have hleft : (input.length : ℤ)-r=((input.drop r).length : ℤ) := by omega
        rw [absorbLoop,if_pos (Int.ofNat_le.mpr hblock),hcount,hxor,hleft]
        change (keccakf st1 KECCAK_ROUNDS).bind _=_
        rw [hrun]
        exact hloop
      · have hwords : stepWords (r/8) (lanes st) input=
            stepWords (r/8) (lanes st) (input.take r) := by
          rw [stepWords,stepWords,List.take_take,Nat.min_eq_left (Nat.mul_div_le r 8)]
        rw [hst',hlanes,hwords,absorb_append (by rw [htake,Nat.mod_self]),absorb_block hr htake]
    · refine ⟨[],input,st,rfl,Nat.zero_mod r,Nat.not_le.mp hblock,?_,(absorb_nil _).symm⟩
      rw [absorbLoop,if_neg (by omega)]

theorem modify_last {α : Type*} (xs : List α) (x : α) (f : α → α) :
    (xs++[x]).modify xs.length f=xs++[f x] := by
  induction xs with
  | nil => rfl
  | cons y xs ih => exact congrArg (y::·) ih

/-- The last block is the rest of the input with the padding behind it. -/
theorem lastBlock_eq (hbuffer : r ≤ 144) {rest : List UInt8} (hrest : rest.length<r) {length : ℕ}
    (hlength : length%r=rest.length) :
    lastBlock r rest.length rest=some (rest++padding r length) := by
  have hguard : 0 ≤ (rest.length : ℤ) ∧ (rest.length : ℤ) ≤ rest.length ∧
      (rest.length : ℤ)<r ∧ (r : ℤ) ≤ 144 := by omega
  have hzeros : ((r : ℤ)-rest.length-1).toNat=r-rest.length-1 := by omega
  rw [lastBlock,if_pos hguard,Int.toNat_natCast,List.take_length,hzeros,padding,hlength]
  by_cases hone : r-rest.length=1
  · -- the first and the last byte of the padding are the same one
    have hlast : ((r : ℤ)-1).toNat=rest.length := by omega
    rw [if_pos hone,hone,hlast]
    exact congrArg some (modify_last rest 1 _)
  · have hsplit : rest++1::List.replicate (r-rest.length-1) 0=
        (rest++1::List.replicate (r-rest.length-2) 0)++[0] := by
      have hcount : r-rest.length-1=r-rest.length-2+1 := by omega
      rw [List.append_assoc,List.cons_append,hcount,List.replicate_succ']
    have hlast : ((r : ℤ)-1).toNat=(rest++1::List.replicate (r-rest.length-2) 0).length := by
      rw [List.length_append,List.length_cons,List.length_replicate]
      omega
    rw [if_neg hone,hsplit,hlast,modify_last,List.append_assoc,List.cons_append]
    rfl

end Blocks

section Hashes

/-- The bytes of the array are those of the lanes. -/
theorem stateBytes_eq (st : State) : stateBytes st=bytes (lanes st) := by
  rfl

/-- A length that an `int` has. -/
theorem toInt_length {input : List UInt8} (h : input.length<2^31) :
    (Int32.ofNat input.length).toInt=input.length := Int32.toInt_ofNat_of_lt h

section Inputs

variable {input : List UInt8} (hinput : input.length<2^31) {mdlen : Int32}

include hinput

/-- What `keccak` computes at any rate that fits the buffer. -/
theorem keccak_eq {r : ℕ} (hrsiz : rsizOf mdlen.toInt=r) (hr : 0<r) (hbuffer : r ≤ 144)
    (hmdlen : 0 ≤ mdlen.toInt ∧ mdlen.toInt ≤ 200) :
    keccak input (Int32.ofNat input.length) mdlen=
      some ((bytes (absorb (stepWords (r/8)) r (fun _ _ => 0)
        (input++padding r input.length))).take mdlen.toInt.toNat) := by
  obtain ⟨whole,rest,st1,hsplit,hwhole,hrest,hloop,hst1⟩ :=
    absorbLoop_eq hr hbuffer (Nat.lt_succ_self input.length) (fill 25 0)
  have hlength : input.length%r=rest.length := by
    rw [hsplit,List.length_append,Nat.add_mod,hwhole,Nat.zero_add,Nat.mod_mod,
      Nat.mod_eq_of_lt hrest]
  have hlast := lastBlock_eq hbuffer hrest hlength
  have hblock : (rest++padding r input.length).length=r := by
    rw [List.length_append,length_padding hr,hlength]
    omega
  obtain ⟨st2,st3,hxor,hrun,hst3⟩ := absorbed (w:=r/8) (by omega)
    (rest++padding r input.length) (by omega) st1
  have hcount : ((r : ℤ)/8).toNat=r/8 := by omega
  have hwords : lanes st3=absorb (stepWords (r/8)) r (fun _ _ => 0)
      (input++padding r input.length) := by
    rw [hst3,hst1,hsplit,List.append_assoc,←hsplit,absorb_append hwhole,absorb_block hr hblock]
    rfl
  rw [keccak,hrsiz,toInt_length hinput,Int.toNat_natCast,hloop]
  simp only [Option.bind_eq_bind,Option.bind_some,hlast,hcount,hxor,hrun]
  rw [if_pos hmdlen,stateBytes_eq,hwords]

omit hinput in
/-- A block that does not fit the buffer. -/
theorem keccak_overflow (h : 144<rsizOf mdlen.toInt) (inlen : Int32) :
    keccak input inlen mdlen=none := by
  have hlast : ∀ inlen input, lastBlock (rsizOf mdlen.toInt) inlen input=none := fun _ _ =>
    if_neg fun hfits => absurd hfits.2.2.2 (by omega)
  rw [keccak]
  cases absorbLoop (rsizOf mdlen.toInt) (inlen.toInt.toNat+1) input inlen.toInt (fill 25 0) with
  | none => rfl
  | some left => simp only [Option.bind_eq_bind,Option.bind_some,hlast,Option.bind_none]

omit hinput in
/-- Without bytes in a block the loop does not end. -/
theorem absorbLoop_endless {rsiz : ℤ} (h : rsiz ≤ 0) (n : ℕ) (input : List UInt8) {inlen : ℤ}
    (hinlen : 0 ≤ inlen) (st : State) : absorbLoop rsiz n input inlen st=none := by
  induction n generalizing input inlen st with
  | zero => rfl
  | succ n ih =>
    rw [absorbLoop,if_pos (by omega)]
    cases xorWords (rsiz/8).toNat input st with
    | none => rfl
    | some st' =>
      cases hrun : keccakf st' KECCAK_ROUNDS with
      | none => simp only [Option.bind_eq_bind,Option.bind_some,hrun,Option.bind_none]
      | some st'' =>
        simp only [Option.bind_eq_bind,Option.bind_some,hrun]
        exact ih _ (by omega) st''

omit hinput in
/-- A length below zero is copied as a huge one. -/
theorem keccak_negative {inlen : Int32} (h : inlen.toInt<0) : keccak input inlen mdlen=none := by
  have hlast : ∀ input, lastBlock (rsizOf mdlen.toInt) inlen.toInt input=none := fun _ =>
    if_neg fun hfits => absurd hfits.1 (by omega)
  have hfuel : inlen.toInt.toNat+1=1 := by omega
  rw [keccak,hfuel,absorbLoop]
  split
  · cases xorWords (rsizOf mdlen.toInt/8).toNat input (fill 25 0) with
    | none => rfl
    | some st' =>
      cases hrun : keccakf st' KECCAK_ROUNDS with
      | none => simp only [Option.bind_eq_bind,Option.bind_some,hrun,Option.bind_none]
      | some st'' => simp only [Option.bind_eq_bind,Option.bind_some,hrun,absorbLoop,
          Option.bind_none]
  · simp only [Option.bind_eq_bind,Option.bind_some,hlast,Option.bind_none]

/-- Sizes of a digest for which `keccak` has a result. -/
def Returns (mdlen : ℤ) : Prop := mdlen=200 ∨ 28 ≤ mdlen ∧ mdlen ≤ 99

instance (mdlen : ℤ) : Decidable (Returns mdlen) := inferInstanceAs (Decidable (_ ∨ _))

/-- Sizes of a digest of whole words. -/
def Standard (mdlen : ℤ) : Prop := Returns mdlen ∧ 4∣mdlen

instance (mdlen : ℤ) : Decidable (Standard mdlen) := inferInstanceAs (Decidable (_ ∧ _))

theorem keccak_isSome_iff :
    (keccak input (Int32.ofNat input.length) mdlen).isSome=true ↔ Returns mdlen.toInt := by
  constructor
  · intro hsome
    by_contra hsize
    have hother : mdlen.toInt ≠ 200 := fun h => hsize (.inl h)
    have hrsiz : rsizOf mdlen.toInt=200-2*mdlen.toInt := if_neg hother
    rw [Returns,not_or] at hsize
    by_cases hlarge : 144<rsizOf mdlen.toInt
    · rw [keccak_overflow hlarge] at hsome
      cases hsome
    · rw [keccak,toInt_length hinput,
        absorbLoop_endless (by omega) _ _ (Int.natCast_nonneg _)] at hsome
      cases hsome
  · rintro (heq | hrange)
    · rw [keccak_eq (r:=136) hinput (by rw [heq]; rfl) (by decide) (by decide) (by omega)]
      rfl
    · have hrsiz : rsizOf mdlen.toInt=((200-2*mdlen.toInt.toNat : ℕ) : ℤ) := by
        rw [rsizOf,if_neg (by omega)]
        omega
      rw [keccak_eq hinput hrsiz (by omega) (by omega) (by omega)]
      rfl

end Inputs

/-- At a rate of whole words no byte is left out. -/
theorem absorb_stepWords {r : ℕ} (h : r%8=0) (xs : List UInt8) (A : Lanes) :
    absorb (stepWords (r/8)) r A xs=absorb step r A xs := by
  refine absorb_map id (fun B b hb => ?_) A xs
  rw [id,id,stepWords,List.take_of_length_le (by omega)]

/-- `keccakf` makes the first rounds of the permutation, up to the 24 it has constants for. -/
theorem keccakf_exact (st : State) (n : ℕ) :
    (keccakf st n).map lanes=if n ≤ 24 then some (rounds n (lanes st)) else none := by
  split
  · rename_i hn
    obtain ⟨st',hrun,hlanes⟩ := lanes_keccakf hn st
    rw [hrun,Option.map_some,hlanes]
  · rename_i hn
    have hbehind : ∀ {n r : ℕ}, r ≤ 24 → 24<r+n → ∀ st, keccakfFrom n r st=none := by
      intro n
      induction n with
      | zero => intro r hr hlt; omega
      | succ n ih =>
        intro r hr hlt st
        rw [keccakfFrom]
        by_cases hlast : r=24
        · rw [hlast]
          rfl
        · rw [keccakf_rndc_eq r (by omega)]
          exact ih (by omega) (by omega) _
    rw [keccakf,hbehind (by decide) (by omega)]
    rfl

/-- `keccak` has a result, for an input of a length that an `int` has, exactly when a block fits its
buffer and is not empty, and then, when a block is made of whole words, the result is the start of
the sponge's state. With a length below zero it has none. -/
theorem keccak_exact {input : List UInt8} (hinput : input.length<2^31) (mdlen : Int32) :
    ((keccak input (Int32.ofNat input.length) mdlen).isSome=true ↔ Returns mdlen.toInt) ∧
    (Standard mdlen.toInt → keccak input (Int32.ofNat input.length) mdlen=
      some ((bytes (sponge (rsizOf mdlen.toInt).toNat input)).take mdlen.toInt.toNat)) ∧
    ∀ inlen : Int32, inlen.toInt<0 → keccak input inlen mdlen=none := by
  refine ⟨keccak_isSome_iff hinput,?_,fun inlen => keccak_negative⟩
  rintro ⟨hreturns,hwords⟩
  have hrsiz : ∃ r, rsizOf mdlen.toInt=((r : ℕ) : ℤ) ∧ 0<r ∧ r ≤ 144 ∧ r%8=0 ∧
      (0 ≤ mdlen.toInt ∧ mdlen.toInt ≤ 200) := by
    rcases hreturns with heq | hrange
    · exact ⟨136,by rw [heq]; rfl,by omega⟩
    · refine ⟨200-2*mdlen.toInt.toNat,?_,by omega⟩
      rw [rsizOf,if_neg (by omega)]
      omega
  obtain ⟨r,hr,hpos,hbuffer,hmod,hmdlen⟩ := hrsiz
  rw [keccak_eq hinput hr hpos hbuffer hmdlen,hr,Int.toNat_natCast,absorb_stepWords hmod]
  rfl

/-- Two blocks, the second one with the padding. -/
theorem keccak_exact_256 : keccak (List.replicate 200 7) 200 32=
    some ((bytes (sponge 136 (List.replicate 200 7))).take 32) := by
  have hlength : (List.replicate 200 (7 : UInt8)).length<2^31 := by
    rw [List.length_replicate]
    decide
  have hexact := (keccak_exact hlength 32).2.1 (by decide)
  rwa [List.length_replicate] at hexact

example : keccak [97,98,99] 3 32=some
    [0x4e,0x03,0x65,0x7a,0xea,0x45,0xa9,0x4f,0xc7,0xd4,0x7b,0xa8,0x26,0xc8,0xd6,0x67,
    0xc0,0xd1,0xe6,0xe3,0x3a,0x64,0xa0,0x36,0xec,0x44,0xf5,0x8f,0xa1,0x2d,0x6c,0x45] := by
  decide +kernel

end Hashes

end XmrigCC.Keccak
