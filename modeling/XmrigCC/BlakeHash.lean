import XmrigCC.BlockStreams
import XmrigCC.ByteWords

/-!
# The hash family BLAKE with words of 32 bits

A round mixes the four columns of a square of sixteen words, and then its four diagonals. Blocks
are compressed one after the other, each with the number of bits of the text up to its end, which
counts as zero for a block without any.
-/

namespace XmrigCC.BlakeHash

open BlockStreams ByteWords

local instance neZero_four : NeZero 4 := ⟨by decide⟩

local instance neZero_eight : NeZero 8 := ⟨by decide⟩

local instance neZero_sixteen : NeZero 16 := ⟨by decide⟩

/-- Eight words that are passed from block to block. -/
abbrev Chain := Fin 8 → UInt32

/-- Sixteen words, by row and column. -/
abbrev Square := Fin 4 → Fin 4 → UInt32

/-- What the members of the family share and what they differ in. -/
structure Variant where
  /-- The first chain. -/
  iv : Chain
  /-- The constants. -/
  c : Fin 16 → UInt32
  /-- The permutation of a round. -/
  sigma : ℕ → Fin 16 → Fin 16
  /-- Number of rounds. -/
  rounds : ℕ
  /-- The last byte before the length. -/
  last : UInt8
  /-- Bytes of the digest. -/
  length : ℕ

section Members

/-- The first sixteen primes. -/
def primes : Fin 16 → ℕ := ![2,3,5,7,11,13,17,19,23,29,31,37,41,43,47,53]

/-- A word behind the point of a square root. -/
def rootWord (n k : ℕ) : UInt32 := UInt32.ofNat (Nat.sqrt (n*2^(64*(k+1))))

/-- The first 512 bits behind the point of π. -/
def piBits : ℕ :=
  0x243F6A8885A308D313198A2E03707344A4093822299F31D0082EFA98EC4E6C89*2^256+
    0x452821E638D01377BE5466CF34E90C6CC0AC29B7C97C50DD3F84D5B5B5470917

/-- A word of them. -/
def piWord (i : Fin 16) : UInt32 := UInt32.ofNat (piBits/2^(32*(15-i.val)))

/-- The ten permutations. -/
def permutations : Fin 10 → Fin 16 → Fin 16 :=
  ![![0,1,2,3,4,5,6,7,8,9,10,11,12,13,14,15],![14,10,4,8,9,15,13,6,1,12,0,2,11,7,5,3],
    ![11,8,12,0,5,2,15,13,10,14,3,6,7,1,9,4],![7,9,3,1,13,12,11,14,2,6,5,10,4,0,15,8],
    ![9,0,5,7,2,4,10,15,14,1,11,12,6,8,3,13],![2,12,6,10,0,11,8,3,4,13,7,5,15,14,1,9],
    ![12,5,1,15,14,13,4,10,0,7,6,3,9,2,8,11],![13,11,7,14,12,1,3,9,5,0,15,4,8,6,2,10],
    ![6,15,14,9,11,3,0,8,12,2,13,7,1,4,10,5],![10,2,8,4,7,6,1,5,15,11,9,14,3,12,13,0]]

/-- The permutation of a round; behind the last one they begin again. -/
def permutation (r : ℕ) : Fin 16 → Fin 16 := permutations ⟨r%10,Nat.mod_lt r (by decide)⟩

/-- A member with words of 32 bits. -/
def member (iv : Chain) (last : UInt8) (length : ℕ) : Variant where
  iv
  c := piWord
  sigma := permutation
  rounds := 14
  last
  length

/-- BLAKE-256 starts with the first words of the roots of the first eight primes. -/
def blake256 : Variant := member (fun i => rootWord (primes ⟨i.val,by omega⟩) 0) 0x01 32

/-- BLAKE-224 starts with the second words of the roots of the next eight. -/
def blake224 : Variant := member (fun i => rootWord (primes ⟨8+i.val,by omega⟩) 1) 0x00 28

end Members

/-- A word rotated to the right. -/
def rotr (x n : UInt32) : UInt32 := x<<<(32-n)|||x>>>n

/-- The mixing of four words, with two words of the message and the constants. -/
def quarter (x y : UInt32) (v : Fin 4 → UInt32) : Fin 4 → UInt32 :=
  let a := v 0+v 1+x
  let d := rotr (v 3^^^a) 16
  let c := v 2+d
  let b := rotr (v 1^^^c) 12
  let a := a+b+y
  let d := rotr (d^^^a) 8
  let c := c+d
  let b := rotr (b^^^c) 7
  ![a,b,c,d]

section Rounds

variable (P : Variant) (m : Fin 16 → UInt32) (r : ℕ)

/-- The mixing with the number `i` in a round. -/
def mixing (i : Fin 8) (v : Fin 4 → UInt32) : Fin 4 → UInt32 :=
  let e : Fin 16 := ⟨2*i.val,by omega⟩
  quarter (m (P.sigma r e)^^^P.c (P.sigma r (e+1))) (m (P.sigma r (e+1))^^^P.c (P.sigma r e)) v

/-- The four columns are mixed. -/
def columns (v : Square) : Square :=
  fun row col => mixing P m r ⟨col.val,by omega⟩ (fun k => v k col) row

/-- The four diagonals are mixed. -/
def diagonals (v : Square) : Square :=
  fun row col =>
    let i := col-row
    mixing P m r ⟨4+i.val,by omega⟩ (fun k => v k (i+k)) row

/-- The rounds below a number. -/
def roundsBelow : ℕ → Square → Square
  | 0,v => v
  | r+1,v => diagonals P m r (columns P m r (roundsBelow r v))

end Rounds

/-- The square before the rounds. -/
def square (P : Variant) (h : Chain) (s : Fin 4 → UInt32) (t : ℕ) : Square :=
  let lo := UInt32.ofNat t
  let hi := UInt32.ofNat (t/2^32)
  ![![h 0,h 1,h 2,h 3],![h 4,h 5,h 6,h 7],
    ![s 0^^^P.c 0,s 1^^^P.c 1,s 2^^^P.c 2,s 3^^^P.c 3],
    ![lo^^^P.c 4,lo^^^P.c 5,hi^^^P.c 6,hi^^^P.c 7]]

/-- The chain after a block. -/
def compress (P : Variant) (s : Fin 4 → UInt32) (h : Chain) (t : ℕ) (block : List UInt8) : Chain :=
  let v := roundsBelow P (fun i => bigWord32 block i) P.rounds (square P h s t)
  fun i => h i^^^s (Fin.ofNat 4 i)^^^v (Fin.ofNat 4 (i/4)) (Fin.ofNat 4 i)^^^
    v (Fin.ofNat 4 (i/4+2)) (Fin.ofNat 4 i)

/-- Zeros between the two marks behind a text, and the marks. -/
def marks (P : Variant) (length : ℕ) : List UInt8 :=
  let k := (119-length%64)%64
  if k=0 then [0x80|||P.last] else 0x80::(List.replicate (k-1) 0++[P.last])

/-- What is put behind a text: marks and zeros, and the number of its bits. -/
def padding (P : Variant) (length : ℕ) : List UInt8 :=
  marks P length++(bytesOf 8 (8*length)).reverse

/-- Bits of a text of a length up to the end of a block, none for a block without any. -/
def counter (length i : ℕ) : ℕ := if length ≤ 64*i then 0 else 8*min length (64*(i+1))

/-- A block of a text of a length: the number of the block and the chain. -/
def step (P : Variant) (s : Fin 4 → UInt32) (length : ℕ) (x : ℕ×Chain) (block : List UInt8) :
    ℕ×Chain :=
  (x.1+1,compress P s x.2 (counter length x.1) block)

/-- The chain after a text. -/
def chain (P : Variant) (s : Fin 4 → UInt32) (text : List UInt8) : Chain :=
  (absorb (step P s text.length) 64 (0,P.iv) (text++padding P text.length)).2

/-- The bytes of a chain, the highest of a word first. -/
def digest (h : Chain) : List UInt8 :=
  (List.finRange 8).flatMap fun i => (bytesOf 4 (h i).toNat).reverse

/-- The hash of a text without salt: as many bytes as the digest has. -/
def hash (P : Variant) (text : List UInt8) : List UInt8 :=
  (digest (chain P (fun _ => 0) text)).take P.length

@[simp] theorem length_digest (h : Chain) : (digest h).length=32 := by
  rw [digest,List.length_flatMap]
  simp only [List.length_reverse,length_bytesOf]
  rfl

/-- The bytes of the last chain are the hash and those that the digest leaves out. -/
theorem digest_eq_hash_append (P : Variant) (text : List UInt8) :
    ∃ more, more.length=32-P.length ∧ digest (chain P (fun _ => 0) text)=hash P text++more := by
  refine ⟨(digest (chain P (fun _ => 0) text)).drop P.length,?_,?_⟩
  · rw [List.length_drop,length_digest]
  · exact (List.take_append_drop P.length _).symm

theorem length_marks (P : Variant) (length : ℕ) :
    (marks P length).length=(119-length%64)%64+1 := by
  rw [marks]
  split
  · rename_i h
    rw [h]
    rfl
  · rw [List.length_cons,List.length_append,List.length_replicate,List.length_singleton]
    omega

section Lengths

variable (iv : Chain) (last : UInt8) (n n' : ℕ)

theorem roundsBelow_length (m : Fin 16 → UInt32) (r : ℕ) (v : Square) :
    roundsBelow (member iv last n) m r v=roundsBelow (member iv last n') m r v := by
  induction r with
  | zero => rfl
  | succ r ih =>
    rw [roundsBelow,roundsBelow,ih]
    rfl

theorem compress_length (s : Fin 4 → UInt32) (h : Chain) (t : ℕ) (block : List UInt8) :
    compress (member iv last n) s h t block=compress (member iv last n') s h t block := by
  have hrounds := roundsBelow_length iv last n n' (fun i => bigWord32 block i)
    (member iv last n').rounds (square (member iv last n') h s t)
  rw [compress,compress,←hrounds]
  rfl

/-- The chain does not depend on how much of it the digest has. -/
theorem chain_length (s : Fin 4 → UInt32) (text : List UInt8) :
    chain (member iv last n) s text=chain (member iv last n') s text := by
  have hstep : step (member iv last n) s text.length=step (member iv last n') s text.length := by
    funext x block
    rw [step,step,compress_length iv last n n']
  rw [chain,chain,hstep]
  rfl

end Lengths

section Blocks

variable (P : Variant) (s : Fin 4 → UInt32)

/-- A block in front of the last ones: the number of the block and the chain. -/
def fullStep (x : ℕ×Chain) (block : List UInt8) : ℕ×Chain :=
  (x.1+1,compress P s x.2 (512*(x.1+1)) block)

/-- The counter has two words. -/
theorem compress_mod (h : Chain) (t : ℕ) (block : List UInt8) :
    compress P s h (t%2^64) block=compress P s h t block := by
  have hlo : UInt32.ofNat (t%2^64)=UInt32.ofNat t := by
    apply UInt32.toNat_inj.mp
    rw [UInt32.toNat_ofNat',UInt32.toNat_ofNat']
    omega
  have hhi : UInt32.ofNat (t%2^64/2^32)=UInt32.ofNat (t/2^32) := by
    apply UInt32.toNat_inj.mp
    rw [UInt32.toNat_ofNat',UInt32.toNat_ofNat']
    omega
  rw [compress,compress,square,square,hlo,hhi]

/-- Blocks are counted. -/
theorem fullStep_count (x : ℕ×Chain) (xs : List UInt8) :
    (absorb (fullStep P s) 64 x xs).1=x.1+xs.length/64 := by
  have hmap := absorb_map (f:=fullStep P s) (g:=fun k _ => k+1) (n:=64) Prod.fst
    (fun _ _ _ => rfl) x xs
  rw [hmap,absorb_count]

/-- In front of the last blocks every block is full. -/
theorem absorb_step {length : ℕ} {h : Chain} {whole : List UInt8}
    (hlength : whole.length ≤ length) :
    absorb (step P s length) 64 (0,h) whole=absorb (fullStep P s) 64 (0,h) whole := by
  refine absorb_congr (P:=fun k x => x.1=k) ?_ rfl
  intro k x b hk hx
  refine ⟨?_,congrArg (·+1) hx⟩
  have hcounter : counter length x.1=512*(x.1+1) := by
    rw [counter,if_neg (by omega),Nat.min_eq_right (by omega)]
    omega
  rw [step,hcounter]
  rfl

variable {P s}

/-- The chain of a text, from the chain of its full blocks and what waits. -/
theorem chain_holds {text waiting : List UInt8} {n : ℕ} {h : Chain}
    (hholds : Holds (fullStep P s) 64 (0,P.iv) text (n,h) waiting) (hwaiting : waiting.length<64) :
    chain P s text=
      let last := waiting++padding P text.length
      if waiting.length ≤ 55 then
        compress P s h (if waiting=[] then 0 else 8*text.length) last
      else compress P s (compress P s h (8*text.length) (last.take 64)) 0 (last.drop 64) := by
  have hrest := hholds.length_waiting hwaiting
  obtain ⟨whole,htext,hwhole,hrun⟩ := hholds
  have hlength : text.length=whole.length+waiting.length := by rw [htext,List.length_append]
  have hcount : n=whole.length/64 := by
    have hfst := congrArg Prod.fst hrun
    rwa [fullStep_count,Nat.zero_add] at hfst
  have hlast : (waiting++padding P text.length).length=
      if waiting.length ≤ 55 then 64 else 128 := by
    rw [List.length_append,padding,List.length_append,length_marks,List.length_reverse,
      length_bytesOf]
    split <;> omega
  have hfirst : absorb (step P s text.length) 64 (0,P.iv) (text++padding P text.length)=
      absorb (step P s text.length) 64 (n,h) (waiting++padding P text.length) := by
    have hsplit : text++padding P text.length=whole++(waiting++padding P text.length) := by
      rw [←List.append_assoc,←htext]
    rw [hsplit,absorb_append hwhole,absorb_step P s (by omega),←hrun]
  rw [chain,hfirst]
  dsimp only
  by_cases hone : waiting.length ≤ 55
  · rw [if_pos hone] at hlast ⊢
    have hcounter : counter text.length n=if waiting=[] then 0 else 8*text.length := by
      rw [counter]
      by_cases hnil : waiting=[]
      · rw [if_pos hnil,if_pos (by rw [hlength,hnil,List.length_nil]; omega)]
      · have hpos := List.length_pos_of_ne_nil hnil
        rw [if_neg hnil,if_neg (by omega),Nat.min_eq_left (by omega)]
    rw [absorb_block (by decide) hlast,step,hcounter]
  · rw [if_neg hone] at hlast ⊢
    generalize hblocks : waiting++padding P text.length=last at hlast
    have hfront : (last.take 64).length=64 := by rw [List.length_take,hlast]; rfl
    have hback : (last.drop 64).length=64 := by rw [List.length_drop,hlast]
    have hcounter : counter text.length n=8*text.length := by
      rw [counter,if_neg (by omega),Nat.min_eq_left (by omega)]
    have hcounter' : counter text.length (n+1)=0 := if_pos (by omega)
    have htake := List.take_append_drop 64 last
    rw [←htake,absorb_append (by rw [hfront]),absorb_block (by decide) hfront,
      absorb_block (by decide) hback,htake]
    rw [step,step,hcounter,hcounter']

end Blocks

end XmrigCC.BlakeHash
