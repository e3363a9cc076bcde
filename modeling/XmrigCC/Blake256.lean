import XmrigCC.BlakeHash
import XmrigCC.FixedArrays
import XmrigCC.SoftAes

/-!
# BLAKE-256 as it is coded

`blake256_update` fills a buffer, compresses it and then blocks of the input, and
`blake256_final_h` pads through further updates, for which it moves the counter of the bits back.
-/

namespace XmrigCC.Blake256

open BlakeHash BlockStreams ByteWords FixedArrays

local instance neZero_two : NeZero 2 := ⟨by decide⟩

local instance neZero_four : NeZero 4 := ⟨by decide⟩

local instance neZero_eight : NeZero 8 := ⟨by decide⟩

local instance neZero_sixteen : NeZero 16 := ⟨by decide⟩

/-- `sigma`. -/
def sigmaTable : Vector (Vector (Fin 16) 16) 14 :=
  #v[#v[0,1,2,3,4,5,6,7,8,9,10,11,12,13,14,15],
  #v[14,10,4,8,9,15,13,6,1,12,0,2,11,7,5,3],
  #v[11,8,12,0,5,2,15,13,10,14,3,6,7,1,9,4],
  #v[7,9,3,1,13,12,11,14,2,6,5,10,4,0,15,8],
  #v[9,0,5,7,2,4,10,15,14,1,11,12,6,8,3,13],
  #v[2,12,6,10,0,11,8,3,4,13,7,5,15,14,1,9],
  #v[12,5,1,15,14,13,4,10,0,7,6,3,9,2,8,11],
  #v[13,11,7,14,12,1,3,9,5,0,15,4,8,6,2,10],
  #v[6,15,14,9,11,3,0,8,12,2,13,7,1,4,10,5],
  #v[10,2,8,4,7,6,1,5,15,11,9,14,3,12,13,0],
  #v[0,1,2,3,4,5,6,7,8,9,10,11,12,13,14,15],
  #v[14,10,4,8,9,15,13,6,1,12,0,2,11,7,5,3],
  #v[11,8,12,0,5,2,15,13,10,14,3,6,7,1,9,4],
  #v[7,9,3,1,13,12,11,14,2,6,5,10,4,0,15,8]]

/-- `sigma[i][e]`. -/
def sigma (i : Fin 14) (e : Fin 16) : Fin 16 := (sigmaTable.get i).get e

/-- `cst`. -/
def cst : FixedArray UInt32 16 :=
  ⟨![0x243F6A88,0x85A308D3,0x13198A2E,0x03707344,
  0xA4093822,0x299F31D0,0x082EFA98,0xEC4E6C89,
  0x452821E6,0x38D01377,0xBE5466CF,0x34E90C6C,
  0xC0AC29B7,0xC97C50DD,0x3F84D5B5,0xB5470917]⟩

/-- `padding`. -/
def paddingBytes : List UInt8 := 0x80::List.replicate 63 0

/-- `state`. -/
structure State where
  /-- The chain. -/
  h : FixedArray UInt32 8
  /-- The salt. -/
  s : FixedArray UInt32 4
  /-- Bits up to the end of the block. -/
  t : FixedArray UInt32 2
  /-- Bits in the buffer. -/
  buflen : ℕ
  /-- Whether the bits are not counted. -/
  nullt : ℕ
  /-- The buffer. -/
  buf : List UInt8

/-- `U8TO32(p + at)`. -/
def U8TO32 (p : List UInt8) (at' : ℕ) : UInt32 :=
  (p.getD at' 0).toUInt32<<<24|||(p.getD (at'+1) 0).toUInt32<<<16|||
    (p.getD (at'+2) 0).toUInt32<<<8|||(p.getD (at'+3) 0).toUInt32

/-- `U32TO8`. -/
def U32TO8 (v : UInt32) : List UInt8 :=
  [(v>>>24).toUInt8,(v>>>16).toUInt8,(v>>>8).toUInt8,v.toUInt8]

/-- `ROT`. -/
def ROT (x n : UInt32) : UInt32 := x<<<(32-n)|||x>>>n

/-- `G`. -/
def G (m : FixedArray UInt32 16) (i : Fin 14) (a b c d e : Fin 16) (v : FixedArray UInt32 16) :
    FixedArray UInt32 16 :=
  let v := v.set a (v a+((m (sigma i e)^^^cst (sigma i (e+1)))+v b))
  let v := v.set d (ROT (v d^^^v a) 16)
  let v := v.set c (v c+v d)
  let v := v.set b (ROT (v b^^^v c) 12)
  let v := v.set a (v a+((m (sigma i (e+1))^^^cst (sigma i e))+v b))
  let v := v.set d (ROT (v d^^^v a) 8)
  let v := v.set c (v c+v d)
  v.set b (ROT (v b^^^v c) 7)

/-- The body of the loop of rounds. -/
def round (m : FixedArray UInt32 16) (i : Fin 14) (v : FixedArray UInt32 16) :
    FixedArray UInt32 16 :=
  let v := G m i 0 4 8 12 0 v
  let v := G m i 1 5 9 13 2 v
  let v := G m i 2 6 10 14 4 v
  let v := G m i 3 7 11 15 6 v
  let v := G m i 3 4 9 14 14 v
  let v := G m i 2 7 8 13 12 v
  let v := G m i 0 5 10 15 8 v
  G m i 1 6 11 12 10 v

/-- The loop that fills `m`. -/
def loadBlock (block : List UInt8) : FixedArray UInt32 16 :=
  forEach 16 (fun i m => m.set i (U8TO32 block (i.val*4))) (fill 16 0)

/-- `v` before the rounds. -/
def firstVector (S : State) : FixedArray UInt32 16 :=
  let v : FixedArray UInt32 16 :=
    ⟨![S.h 0,S.h 1,S.h 2,S.h 3,S.h 4,S.h 5,S.h 6,S.h 7,
    S.s 0^^^0x243F6A88,S.s 1^^^0x85A308D3,S.s 2^^^0x13198A2E,S.s 3^^^0x03707344,
    0xA4093822,0x299F31D0,0x082EFA98,0xEC4E6C89]⟩
  if S.nullt=0 then
    let v := v.set 12 (v 12^^^S.t 0)
    let v := v.set 13 (v 13^^^S.t 0)
    let v := v.set 14 (v 14^^^S.t 1)
    v.set 15 (v 15^^^S.t 1)
  else v

/-- The loops over `h` behind the rounds. -/
def addVector (S : State) (v : FixedArray UInt32 16) : FixedArray UInt32 8 :=
  let h := forEach 16 (fun i h => h.set (Fin.ofNat 8 i) (h (Fin.ofNat 8 i)^^^v i)) S.h
  forEach 8 (fun i h => h.set i (h i^^^S.s (Fin.ofNat 4 i))) h

/-- `blake256_compress`, none when it reads behind the block. -/
def blake256_compress (S : State) (block : List UInt8) : Option State :=
  if 64 ≤ block.length then
    some {S with h := addVector S (forEach 14 (round (loadBlock block)) (firstVector S))}
  else none

/-- `blake256_init`. -/
def blake256_init (S : State) : State :=
  {S with
    h := ⟨![0x6A09E667,0xBB67AE85,0x3C6EF372,0xA54FF53A,
      0x510E527F,0x9B05688C,0x1F83D9AB,0x5BE0CD19]⟩
    t := fill 2 0
    buflen := 0
    nullt := 0
    s := fill 4 0}

/-- `blake224_init`. -/
def blake224_init (S : State) : State :=
  {S with
    h := ⟨![0xC1059ED8,0x367CD507,0x3070DD17,0xF70E5939,
      0xFFC00B31,0x68581511,0x64F98FA7,0xBEFA4FA4]⟩
    t := fill 2 0
    buflen := 0
    nullt := 0
    s := fill 4 0}

/-- `S->t[0] += 512; if (S->t[0] == 0) S->t[1]++`. -/
@[irreducible] def addBlock (t : FixedArray UInt32 2) : FixedArray UInt32 2 :=
  let lo := t 0+512
  if lo=0 then (t.set 0 lo).set 1 (t 1+1) else t.set 0 lo

/-- The loop over the blocks of the input, with as many iterations as there are blocks. -/
def compressBlocks : ℕ → State → List UInt8 → Option (State×List UInt8)
  | 0,S,data => some (S,data)
  | n+1,S,data => do
    let S ← blake256_compress {S with t := addBlock S.t} data
    compressBlocks n S (data.drop 64)

/-- What `blake256_update` does behind the first block: the loop over blocks of the input, and the
copy of the bytes that are left. -/
def updateBlocks (S : State) (data : List UInt8) (datalen : UInt64) (left : ℕ) : Option State := do
  let (S,data) ← compressBlocks (datalen.toNat/512) S data
  let datalen := datalen.toNat%512
  if 0<datalen then do
    let buf ← copyInto S.buf left data (datalen>>>3)
    pure {S with buf,buflen := left<<<3+datalen}
  else pure {S with buflen := 0}

/-- `blake256_update`. -/
def blake256_update (S : State) (data : List UInt8) (datalen : UInt64) : Option State := do
  let left := S.buflen>>>3
  let fill := 64-left
  if left ≠ 0 ∧ fill ≤ ((datalen>>>3)&&&0x3F).toNat then do
    let buf ← copyInto S.buf left data fill
    let S ← blake256_compress {S with buf,t := addBlock S.t} buf
    updateBlocks S (data.drop fill) (datalen-UInt64.ofNat (fill<<<3)) 0
  else updateBlocks S data datalen left

/-- `S->t[0] -= n`. -/
def State.back (S : State) (n : ℕ) : State := {S with t := S.t.set 0 (S.t 0-UInt32.ofNat n)}

/-- `blake256_final_h`. -/
def blake256_final_h (S : State) (pa pb : UInt8) : Option (List UInt8) := do
  let lo := S.t 0+UInt32.ofNat S.buflen
  let hi := if lo.toNat<S.buflen then S.t 1+1 else S.t 1
  let msglen := U32TO8 hi++U32TO8 lo
  let S ←
    if S.buflen=440 then blake256_update (S.back 8) [pa] 8
    else do
      let S ←
        if S.buflen<440 then
          let S := if S.buflen=0 then {S with nullt := 1} else S
          blake256_update (S.back (440-S.buflen)) paddingBytes (UInt64.ofNat (440-S.buflen))
        else do
          let S ← blake256_update (S.back (512-S.buflen)) paddingBytes
            (UInt64.ofNat (512-S.buflen))
          let S ← blake256_update (S.back 440) (paddingBytes.drop 1) 440
          pure {S with nullt := 1}
      let S ← blake256_update S [pb] 8
      pure (S.back 8)
  let S ← blake256_update (S.back 64) msglen 64
  pure (S.h.toList.flatMap U32TO8)

/-- `blake256_final`. -/
def blake256_final (S : State) : Option (List UInt8) := blake256_final_h S 0x81 0x01

/-- `blake224_final`. -/
def blake224_final (S : State) : Option (List UInt8) := blake256_final_h S 0x80 0x00

/-- `blake256_hash`, on a local state that contains whatever it contains. -/
def blake256_hash (S : State) (input : List UInt8) (inlen : UInt64) : Option (List UInt8) := do
  let S ← blake256_update (blake256_init S) input (inlen*8)
  blake256_final S

/-- `blake224_hash`. -/
def blake224_hash (S : State) (input : List UInt8) (inlen : UInt64) : Option (List UInt8) := do
  let S ← blake256_update (blake224_init S) input (inlen*8)
  blake224_final S

/-- What is coded of the family, with all eight words of the last chain as the digest. -/
def variant (iv : Chain) (last : UInt8) : Variant := member iv last 32

/-- A state whose memory has never been written. -/
def unset : State := ⟨fill 8 0,fill 4 0,fill 2 0,0,0,List.replicate 64 0⟩

section Tables

/-- The table has the words of π. -/
theorem cst_eq : cst.cell=piWord := by
  have hall : ∀ i, cst.cell i=piWord i := by decide +kernel
  exact funext hall

/-- The table has the ten permutations, and the first four again. -/
theorem sigma_eq (i : Fin 14) : sigma i=permutation i := by
  have hall : ∀ i : Fin 14, ∀ e, sigma i e=permutation i e := by decide +kernel
  exact funext (hall i)

/-- `blake256_init` starts with the words of the first eight roots. -/
theorem init256_eq (S : State) : (blake256_init S).h.cell=blake256.iv := by
  have hall : ∀ i, (blake256_init unset).h.cell i=blake256.iv i := by decide +kernel
  exact funext hall

/-- `blake224_init` starts with those of the next eight. -/
theorem init224_eq (S : State) : (blake224_init S).h.cell=blake224.iv := by
  have hall : ∀ i, (blake224_init unset).h.cell i=blake224.iv i := by decide +kernel
  exact funext hall

end Tables

section Rounds

/-- Four words are replaced by a function of them. -/
def replace (q : (Fin 4 → UInt32) → Fin 4 → UInt32) (a b c d : Fin 16)
    (v : FixedArray UInt32 16) : FixedArray UInt32 16 :=
  let w := q ![v a,v b,v c,v d]
  (((v.set a (w 0)).set b (w 1)).set c (w 2)).set d (w 3)

/-- `G` mixes four words. -/
theorem G_eq_quarter (m : FixedArray UInt32 16) (i : Fin 14) {a b c d : Fin 16} (e : Fin 16)
    (hne : [a,b,c,d].Nodup) (v : FixedArray UInt32 16) :
    G m i a b c d e v=replace (quarter (m (sigma i e)^^^cst (sigma i (e+1)))
      (m (sigma i (e+1))^^^cst (sigma i e))) a b c d v := by
  have hsum : ∀ x y z : UInt32, x+(y+z)=x+z+y := fun x y z => by
    rw [UInt32.add_comm y,UInt32.add_assoc]
  simp only [List.nodup_cons,List.mem_cons,List.not_mem_nil,or_false,not_or,List.nodup_nil,
    and_true,not_false_eq_true] at hne
  obtain ⟨⟨hab,hac,had⟩,⟨hbc,hbd⟩,hcd⟩ := hne
  have hba := Ne.symm hab
  have hca := Ne.symm hac
  have hda := Ne.symm had
  have hcb := Ne.symm hbc
  have hdb := Ne.symm hbd
  have hdc := Ne.symm hcd
  apply array_ext
  intro j
  by_cases hjd : j=d
  · subst hjd
    simp only [G,replace,quarter,set_same,set_other,hab,hac,had,hbc,hbd,hcd,hba,hca,hda,hcb,hdb,
      hdc,ne_eq,not_false_eq_true,hsum]
    rfl
  by_cases hjc : j=c
  · subst hjc
    simp only [G,replace,quarter,set_same,set_other,hab,hac,had,hbc,hbd,hcd,hba,hca,hda,hcb,hdb,
      hdc,ne_eq,not_false_eq_true,hsum]
    rfl
  by_cases hjb : j=b
  · subst hjb
    simp only [G,replace,quarter,set_same,set_other,hab,hac,had,hbc,hbd,hcd,hba,hca,hda,hcb,hdb,
      hdc,ne_eq,not_false_eq_true,hsum]
    rfl
  by_cases hja : j=a
  · subst hja
    simp only [G,replace,quarter,set_same,set_other,hab,hac,had,hbc,hbd,hcd,hba,hca,hda,hcb,hdb,
      hdc,ne_eq,not_false_eq_true,hsum]
    rfl
  · simp only [G,replace,set_other,hja,hjb,hjc,hjd,ne_eq,not_false_eq_true]

variable (iv : Chain) (last : UInt8)

theorem G_eq (m : FixedArray UInt32 16) (i : Fin 14) {a b c d : Fin 16} (k : Fin 8) {e : Fin 16}
    (he : e.val=2*k.val) (hne : [a,b,c,d].Nodup) (v : FixedArray UInt32 16) :
    G m i a b c d e v=replace (mixing (variant iv last) m i k) a b c d v := by
  have hindex : e=⟨2*k.val,by omega⟩ := Fin.ext he
  have hmixing : mixing (variant iv last) m i k=
      quarter (m (permutation i ⟨2*k.val,by omega⟩)^^^
        piWord (permutation i (⟨2*k.val,by omega⟩+1)))
      (m (permutation i (⟨2*k.val,by omega⟩+1))^^^
        piWord (permutation i ⟨2*k.val,by omega⟩)) := rfl
  rw [G_eq_quarter m i e hne v,hindex,hmixing,sigma_eq,cst_eq]

/-- The words of an array by row and column. -/
def rows (v : FixedArray UInt32 16) : Square := fun row col => v ⟨4*row.val+col.val,by omega⟩

/-- Replacing the four columns one after the other. -/
theorem rows_columns (q : Fin 4 → (Fin 4 → UInt32) → Fin 4 → UInt32) (v : FixedArray UInt32 16) :
    rows (replace (q 3) 3 7 11 15 (replace (q 2) 2 6 10 14 (replace (q 1) 1 5 9 13
      (replace (q 0) 0 4 8 12 v))))=fun row col => q col (fun k => rows v k col) row := by
  have hcol : ∀ col : Fin 4, (fun k => rows v k col)=![rows v 0 col,rows v 1 col,rows v 2 col,
      rows v 3 col] := fun col => by funext k; fin_cases k <;> rfl
  funext row col
  rw [hcol]
  fin_cases row <;> fin_cases col <;> rfl

/-- Replacing the four diagonals one after the other, the last one first. -/
theorem rows_diagonals (q : Fin 4 → (Fin 4 → UInt32) → Fin 4 → UInt32)
    (v : FixedArray UInt32 16) :
    rows (replace (q 1) 1 6 11 12 (replace (q 0) 0 5 10 15 (replace (q 2) 2 7 8 13
      (replace (q 3) 3 4 9 14 v))))=
        fun row col => q (col-row) (fun k => rows v k (col-row+k)) row := by
  have hdiagonal : ∀ i : Fin 4, (fun k => rows v k (i+k))=![rows v 0 i,rows v 1 (i+1),
      rows v 2 (i+2),rows v 3 (i+3)] := fun i => by
    funext k
    fin_cases k <;> first | rfl | (fin_cases i <;> rfl)
  funext row col
  rw [hdiagonal]
  fin_cases row <;> fin_cases col <;> rfl

/-- The body of the loop is a round. -/
theorem rows_round (m : FixedArray UInt32 16) (i : Fin 14) (v : FixedArray UInt32 16) :
    rows (Blake256.round m i v)=
      diagonals (variant iv last) m i (columns (variant iv last) m i (rows v)) := by
  rw [Blake256.round,G_eq iv last m i 0 (e:=0) rfl (by decide),
    G_eq iv last m i 1 (e:=2) rfl (by decide),G_eq iv last m i 2 (e:=4) rfl (by decide),
    G_eq iv last m i 3 (e:=6) rfl (by decide),G_eq iv last m i 7 (e:=14) rfl (by decide),
    G_eq iv last m i 6 (e:=12) rfl (by decide),G_eq iv last m i 4 (e:=8) rfl (by decide),
    G_eq iv last m i 5 (e:=10) rfl (by decide)]
  have hdiagonals := rows_diagonals (fun k => mixing (variant iv last) m i ⟨4+k.val,by omega⟩)
    (replace (mixing (variant iv last) m i 3) 3 7 11 15 (replace (mixing (variant iv last) m i 2)
      2 6 10 14 (replace (mixing (variant iv last) m i 1) 1 5 9 13
        (replace (mixing (variant iv last) m i 0) 0 4 8 12 v))))
  have hcolumns := rows_columns (fun k => mixing (variant iv last) m i ⟨k.val,by omega⟩) v
  refine hdiagonals.trans (funext fun row => funext fun col => ?_)
  exact congrArg (fun w : Square => mixing (variant iv last) m i ⟨4+(col-row).val,by omega⟩
    (fun k => w k (col-row+k)) row) hcolumns

theorem rows_loop (m : FixedArray UInt32 16) (v : FixedArray UInt32 16) :
    rows (forEach 14 (Blake256.round m) v)=roundsBelow (variant iv last) m 14 (rows v) :=
  forEach_induct (P:=fun n w => rows w=roundsBelow (variant iv last) m n (rows v)) rfl
    fun i w hw => by rw [rows_round iv last,hw]; rfl

end Rounds

section Compression

/-- `U8TO32` reads a word with the highest byte first. -/
theorem U8TO32_eq {block : List UInt8} {i : ℕ} (h : 4*i+4 ≤ block.length) :
    U8TO32 block (i*4)=bigWord32 block i := by
  obtain ⟨a,b,c,d,rest,hdrop⟩ : ∃ a b c d rest, block.drop (4*i)=a::b::c::d::rest := by
    have hlength : (block.drop (4*i)).length=block.length-4*i := List.length_drop
    match hcells : block.drop (4*i) with
    | [] | [_] | [_,_] | [_,_,_] =>
      rw [hcells] at hlength
      simp only [List.length_cons,List.length_nil] at hlength
      omega
    | a::b::c::d::rest => exact ⟨a,b,c,d,rest,rfl⟩
  have hget : ∀ k, block.getD (i*4+k) 0=(a::b::c::d::rest).getD k 0 := fun k => by
    rw [←hdrop,List.getD,List.getD,List.getElem?_drop,Nat.mul_comm]
  have hU8TO32 : U8TO32 block (i*4)=
      a.toUInt32<<<24|||b.toUInt32<<<16|||c.toUInt32<<<8|||d.toUInt32 := by
    rw [U8TO32,hget 1,hget 2,hget 3]
    exact congrArg (fun x : UInt8 => x.toUInt32<<<24|||_|||_|||_) (hget 0)
  have hlt : number [d,c,b,a]<256^4 := number_lt [d,c,b,a]
  have htake : ((a::b::c::d::rest).take 4).reverse=[d,c,b,a] := rfl
  rw [hU8TO32,bigWord32,hdrop,htake]
  refine (SoftAes.placed_eq ![d,c,b,a]).trans (UInt32.toNat_inj.mp ?_)
  rw [SoftAes.toNat_wordOf]
  refine Eq.trans ?_ (UInt32.toNat_ofNat_of_lt' hlt).symm
  simp only [number_cons,number_nil]
  change d.toNat+2^8*c.toNat+2^16*b.toNat+2^24*a.toNat=_
  omega

/-- The words of a block. -/
theorem loadBlock_eq {block : List UInt8} (h : 64 ≤ block.length) (i : Fin 16) :
    loadBlock block i=bigWord32 (block.take 64) i := by
  have hi := i.isLt
  have htake : bigWord32 (block.take 64) i=bigWord32 block i := by
    rw [bigWord32,bigWord32,List.drop_take,List.take_take,Nat.min_eq_left (by omega)]
  rw [htake,←U8TO32_eq (by omega)]
  exact forEach_set (fun i _ => U8TO32 block (i.val*4)) (fill 16 0) i

/-- The counter as a number. -/
def total (t : FixedArray UInt32 2) : ℕ := (t 0).toNat+2^32*(t 1).toNat

/-- Bits that the counter stands for. -/
def bits (nullt : ℕ) (t : FixedArray UInt32 2) : ℕ := if nullt=0 then total t else 0

variable (iv : Chain) (last : UInt8)

theorem rows_firstVector (S : State) :
    rows (firstVector S)=square (variant iv last) S.h S.s (bits S.nullt S.t) := by
  have hconstants : (variant iv last).c=cst.cell := cst_eq.symm
  have hsquare : square (variant iv last) S.h S.s (bits S.nullt S.t)=
      ![![S.h 0,S.h 1,S.h 2,S.h 3],![S.h 4,S.h 5,S.h 6,S.h 7],
        ![S.s 0^^^cst 0,S.s 1^^^cst 1,S.s 2^^^cst 2,S.s 3^^^cst 3],
        ![UInt32.ofNat (bits S.nullt S.t)^^^cst 4,UInt32.ofNat (bits S.nullt S.t)^^^cst 5,
          UInt32.ofNat (bits S.nullt S.t/2^32)^^^cst 6,
          UInt32.ofNat (bits S.nullt S.t/2^32)^^^cst 7]] := by
    rw [square,hconstants]
  rw [hsquare,bits,firstVector]
  split
  · have hlo : UInt32.ofNat (total S.t)=S.t 0 := by
      apply UInt32.toNat_inj.mp
      have hlt := (S.t 0).toNat_lt
      rw [UInt32.toNat_ofNat',total]
      omega
    have hhi : UInt32.ofNat (total S.t/2^32)=S.t 1 := by
      apply UInt32.toNat_inj.mp
      have hlt := (S.t 0).toNat_lt
      have hlt' := (S.t 1).toNat_lt
      rw [UInt32.toNat_ofNat',total]
      omega
    rw [hlo,hhi]
    funext r c
    fin_cases r <;> fin_cases c <;> first | rfl | exact UInt32.xor_comm _ _
  · funext r c
    fin_cases r <;> fin_cases c <;> rfl

/-- `blake256_compress` is the compression of a block. -/
theorem compress_eq (S : State) {block : List UInt8} (h : 64 ≤ block.length) :
    blake256_compress S block=some {S with
      h := ⟨compress (variant iv last) S.s S.h (bits S.nullt S.t) (block.take 64)⟩} := by
  have hwords : (loadBlock block).cell=fun i : Fin 16 => bigWord32 (block.take 64) i :=
    funext (loadBlock_eq h)
  have hrounds := rows_loop iv last (loadBlock block) (firstVector S)
  rw [rows_firstVector iv last,hwords] at hrounds
  rw [blake256_compress,if_pos h]
  generalize forEach 14 (Blake256.round (loadBlock block)) (firstVector S)=v at hrounds
  have hxor : ∀ a b c d : UInt32, a^^^b^^^c^^^d=a^^^d^^^b^^^c := fun a b c d => by
    rw [UInt32.xor_assoc (a^^^b),UInt32.xor_comm c d,←UInt32.xor_assoc,UInt32.xor_assoc a b d,
      UInt32.xor_comm b d,←UInt32.xor_assoc a d b]
  have hchain : addVector S v=
      ⟨fun i => S.h i^^^S.s (Fin.ofNat 4 i)^^^rows v (Fin.ofNat 4 (i/4)) (Fin.ofNat 4 i)^^^
        rows v (Fin.ofNat 4 (i/4+2)) (Fin.ofNat 4 i)⟩ := by
    apply array_ext
    intro i
    fin_cases i <;> exact hxor _ _ _ _
  rw [hchain,hrounds]
  rfl

end Compression

end XmrigCC.Blake256
