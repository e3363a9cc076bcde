import XmrigCC.ByteText
import XmrigCC.CryptoNight
import XmrigCC.Rijndael

/-!
# AES in software

`soft_aesenc` looks up four tables of words that the macros of `soft_aes.h` make from the S-box,
and `soft_aeskeygenassist` the S-box itself. A block is read as four words, and a word as four
bytes, the lowest first.
-/

namespace XmrigCC.SoftAes

open ByteText CryptoNight Rijndael
open ByteField (times)

set_option maxRecDepth 2000 in
/-- `saes_data`. -/
def saes_data : Vector UInt8 256 :=
  #v[0x63,0x7c,0x77,0x7b,0xf2,0x6b,0x6f,0xc5,0x30,0x01,0x67,0x2b,0xfe,0xd7,0xab,0x76,
  0xca,0x82,0xc9,0x7d,0xfa,0x59,0x47,0xf0,0xad,0xd4,0xa2,0xaf,0x9c,0xa4,0x72,0xc0,
  0xb7,0xfd,0x93,0x26,0x36,0x3f,0xf7,0xcc,0x34,0xa5,0xe5,0xf1,0x71,0xd8,0x31,0x15,
  0x04,0xc7,0x23,0xc3,0x18,0x96,0x05,0x9a,0x07,0x12,0x80,0xe2,0xeb,0x27,0xb2,0x75,
  0x09,0x83,0x2c,0x1a,0x1b,0x6e,0x5a,0xa0,0x52,0x3b,0xd6,0xb3,0x29,0xe3,0x2f,0x84,
  0x53,0xd1,0x00,0xed,0x20,0xfc,0xb1,0x5b,0x6a,0xcb,0xbe,0x39,0x4a,0x4c,0x58,0xcf,
  0xd0,0xef,0xaa,0xfb,0x43,0x4d,0x33,0x85,0x45,0xf9,0x02,0x7f,0x50,0x3c,0x9f,0xa8,
  0x51,0xa3,0x40,0x8f,0x92,0x9d,0x38,0xf5,0xbc,0xb6,0xda,0x21,0x10,0xff,0xf3,0xd2,
  0xcd,0x0c,0x13,0xec,0x5f,0x97,0x44,0x17,0xc4,0xa7,0x7e,0x3d,0x64,0x5d,0x19,0x73,
  0x60,0x81,0x4f,0xdc,0x22,0x2a,0x90,0x88,0x46,0xee,0xb8,0x14,0xde,0x5e,0x0b,0xdb,
  0xe0,0x32,0x3a,0x0a,0x49,0x06,0x24,0x5c,0xc2,0xd3,0xac,0x62,0x91,0x95,0xe4,0x79,
  0xe7,0xc8,0x37,0x6d,0x8d,0xd5,0x4e,0xa9,0x6c,0x56,0xf4,0xea,0x65,0x7a,0xae,0x08,
  0xba,0x78,0x25,0x2e,0x1c,0xa6,0xb4,0xc6,0xe8,0xdd,0x74,0x1f,0x4b,0xbd,0x8b,0x8a,
  0x70,0x3e,0xb5,0x66,0x48,0x03,0xf6,0x0e,0x61,0x35,0x57,0xb9,0x86,0xc1,0x1d,0x9e,
  0xe1,0xf8,0x98,0x11,0x69,0xd9,0x8e,0x94,0x9b,0x1e,0x87,0xe9,0xce,0x55,0x28,0xdf,
  0x8c,0xa1,0x89,0x0d,0xbf,0xe6,0x42,0x68,0x41,0x99,0x2d,0x0f,0xb0,0x54,0xbb,0x16]

section Blocks

/-- Two words as one of 64 bits. -/
def joined (low high : UInt32) : UInt64 := UInt64.ofNat (low.toNat+2^32*high.toNat)

/-- `_mm_set_epi32`. -/
def mm_set_epi32 (e3 e2 e1 e0 : UInt32) : M128 := ⟨joined e0 e1,joined e2 e3⟩

/-- A word of a block. -/
def word (x : M128) : Fin 4 → UInt32 :=
  ![x.lo.toUInt32,(x.lo>>>32).toUInt32,x.hi.toUInt32,(x.hi>>>32).toUInt32]

/-- `_mm_cvtsi128_si32`. -/
def mm_cvtsi128_si32 (x : M128) : UInt32 := word x 0

/-- `_mm_shuffle_epi32`. -/
def mm_shuffle_epi32 (x : M128) (imm : UInt8) : M128 :=
  mm_set_epi32 (word x (Fin.ofNat 4 (imm.toNat>>>6))) (word x (Fin.ofNat 4 (imm.toNat>>>4)))
    (word x (Fin.ofNat 4 (imm.toNat>>>2))) (word x (Fin.ofNat 4 imm.toNat))

/-- A byte of a word. -/
def byteAt (w : UInt32) (r : Fin 4) : UInt8 := UInt8.ofNat (w.toNat>>>(8*r.val))

/-- The word with given bytes. -/
def wordOf (b : Column) : UInt32 :=
  UInt32.ofNat ((b 0).toNat+2^8*(b 1).toNat+2^16*(b 2).toNat+2^24*(b 3).toNat)

/-- The state that a block is for AES. -/
def state (x : M128) : State := fun c r => byteAt (word x c) r

/-- The block of a state. -/
def ofState (s : State) : M128 :=
  mm_set_epi32 (wordOf (s 3)) (wordOf (s 2)) (wordOf (s 1)) (wordOf (s 0))

end Blocks

section Tables

/-- `SAES_WPOLY`. -/
def SAES_WPOLY : UInt32 := 0x011b

/-- `saes_b2w`. -/
def saes_b2w (b0 b1 b2 b3 : UInt32) : UInt32 := b3<<<24|||b2<<<16|||b1<<<8|||b0

/-- `saes_f2`. -/
def saes_f2 (x : UInt32) : UInt32 := x<<<1^^^(x>>>7&&&1)*SAES_WPOLY

/-- `saes_f3`. -/
def saes_f3 (x : UInt32) : UInt32 := saes_f2 x^^^x

/-- `saes_u0` to `saes_u3`. -/
def saes_u : Fin 4 → UInt32 → UInt32
  | 0,p => saes_b2w (saes_f2 p) p p (saes_f3 p)
  | 1,p => saes_b2w (saes_f3 p) (saes_f2 p) p p
  | 2,p => saes_b2w p (saes_f3 p) (saes_f2 p) p
  | 3,p => saes_b2w p p (saes_f3 p) (saes_f2 p)

/-- `saes_table`. -/
def saes_table (t : Fin 4) (b : Fin 256) : UInt32 := saes_u t (saes_data.get b).toUInt32

/-- `saes_sbox`. -/
def saes_sbox (b : Fin 256) : UInt8 := saes_data.get b

/-- The index `x & 0xff`. -/
def low (x : UInt32) : Fin 256 :=
  ⟨(x&&&0xff).toNat,by
    rw [UInt32.toNat_and]
    exact Nat.and_lt_two_pow _ (n:=8) (by decide)⟩

/-- The index `x >> 24`. -/
def top (x : UInt32) : Fin 256 :=
  ⟨(x>>>24).toNat,by
    rw [UInt32.toNat_shiftRight]
    have hlt := x.toNat_lt
    rw [show (24 : UInt32).toNat%32=24 from rfl,Nat.shiftRight_eq_div_pow]
    omega⟩

end Tables

/-- `soft_aesenc`. -/
def soft_aesenc (x key : M128) : M128 :=
  let x0 := mm_cvtsi128_si32 x
  let x1 := mm_cvtsi128_si32 (mm_shuffle_epi32 x 0x55)
  let x2 := mm_cvtsi128_si32 (mm_shuffle_epi32 x 0xAA)
  let x3 := mm_cvtsi128_si32 (mm_shuffle_epi32 x 0xFF)
  let out := mm_set_epi32
    (saes_table 0 (low x3)^^^saes_table 1 (low (x0>>>8))^^^saes_table 2 (low (x1>>>16))^^^
      saes_table 3 (top x2))
    (saes_table 0 (low x2)^^^saes_table 1 (low (x3>>>8))^^^saes_table 2 (low (x0>>>16))^^^
      saes_table 3 (top x1))
    (saes_table 0 (low x1)^^^saes_table 1 (low (x2>>>8))^^^saes_table 2 (low (x3>>>16))^^^
      saes_table 3 (top x0))
    (saes_table 0 (low x0)^^^saes_table 1 (low (x1>>>8))^^^saes_table 2 (low (x2>>>16))^^^
      saes_table 3 (top x3))
  out.xor key

/-- `sub_word`. -/
def sub_word (key : UInt32) : UInt32 :=
  (saes_sbox (top key)).toUInt32<<<24|||(saes_sbox (low (key>>>16))).toUInt32<<<16|||
    (saes_sbox (low (key>>>8))).toUInt32<<<8|||(saes_sbox (low key)).toUInt32

/-- `_rotr`. -/
def rotr (value amount : UInt32) : UInt32 := value>>>amount|||value<<<((32-amount)&&&31)

/-- `soft_aeskeygenassist`. -/
def soft_aeskeygenassist (rcon : UInt8) (key : M128) : M128 :=
  let X1 := sub_word (mm_cvtsi128_si32 (mm_shuffle_epi32 key 0x55))
  let X3 := sub_word (mm_cvtsi128_si32 (mm_shuffle_epi32 key 0xFF))
  mm_set_epi32 (rotr X3 8^^^rcon.toUInt32) X3 (rotr X1 8^^^rcon.toUInt32) X1

section Words

theorem toNat_wordOf (b : Column) : (wordOf b).toNat=
    (b 0).toNat+2^8*(b 1).toNat+2^16*(b 2).toNat+2^24*(b 3).toNat := by
  have h0 := (b 0).toNat_lt
  have h1 := (b 1).toNat_lt
  have h2 := (b 2).toNat_lt
  have h3 := (b 3).toNat_lt
  exact UInt32.toNat_ofNat_of_lt' (by rw [UInt32.size]; omega)

theorem toNat_byteAt (w : UInt32) (r : Fin 4) : (byteAt w r).toNat=w.toNat/2^(8*r.val)%256 := by
  rw [byteAt,UInt8.toNat_ofNat',Nat.shiftRight_eq_div_pow]

/-- A word has the bytes it was made of. -/
theorem byteAt_wordOf (b : Column) (r : Fin 4) : byteAt (wordOf b) r=b r := by
  have h0 := (b 0).toNat_lt
  have h1 := (b 1).toNat_lt
  have h2 := (b 2).toNat_lt
  have h3 := (b 3).toNat_lt
  apply UInt8.toNat_inj.mp
  rw [toNat_byteAt,toNat_wordOf]
  match r with
  | 0 => change _/2^0%256=_; omega
  | 1 => change _/2^8%256=_; omega
  | 2 => change _/2^16%256=_; omega
  | 3 => change _/2^24%256=_; omega

/-- A word is made of its bytes. -/
theorem wordOf_byteAt (w : UInt32) : wordOf (byteAt w)=w := by
  have hlt := w.toNat_lt
  apply UInt32.toNat_inj.mp
  rw [toNat_wordOf,toNat_byteAt,toNat_byteAt,toNat_byteAt,toNat_byteAt]
  change w.toNat/2^0%256+2^8*(w.toNat/2^8%256)+2^16*(w.toNat/2^16%256)+
    2^24*(w.toNat/2^24%256)=w.toNat
  omega

theorem toNat_joined (low high : UInt32) : (joined low high).toNat=low.toNat+2^32*high.toNat := by
  have hlow := low.toNat_lt
  have hhigh := high.toNat_lt
  exact UInt64.toNat_ofNat_of_lt' (by rw [UInt64.size]; omega)

theorem low_joined (low high : UInt32) : (joined low high).toUInt32=low := by
  have hlow := low.toNat_lt
  apply UInt32.toNat_inj.mp
  rw [UInt64.toNat_toUInt32,toNat_joined]
  omega

theorem high_joined (low high : UInt32) : (joined low high>>>32).toUInt32=high := by
  have hlow := low.toNat_lt
  have hhigh := high.toNat_lt
  apply UInt32.toNat_inj.mp
  rw [UInt64.toNat_toUInt32,UInt64.toNat_shiftRight,toNat_joined,Nat.shiftRight_eq_div_pow]
  change (low.toNat+2^32*high.toNat)/2^32%2^32=_
  omega

theorem joined_halves (x : UInt64) : joined x.toUInt32 (x>>>32).toUInt32=x := by
  have hlt := x.toNat_lt
  apply UInt64.toNat_inj.mp
  rw [toNat_joined,UInt64.toNat_toUInt32,UInt64.toNat_toUInt32,UInt64.toNat_shiftRight,
    Nat.shiftRight_eq_div_pow]
  change x.toNat%2^32+2^32*(x.toNat/2^32%2^32)=_
  omega

theorem word_set (e3 e2 e1 e0 : UInt32) : word (mm_set_epi32 e3 e2 e1 e0)=![e0,e1,e2,e3] := by
  rw [word,mm_set_epi32,low_joined,high_joined,low_joined,high_joined]

theorem set_word (x : M128) : mm_set_epi32 (word x 3) (word x 2) (word x 1) (word x 0)=x := by
  obtain ⟨lo,hi⟩ := x
  exact M128.mk.injEq .. |>.mpr ⟨joined_halves lo,joined_halves hi⟩

/-- A block is the state it was made of. -/
theorem state_ofState (s : State) : state (ofState s)=s := by
  funext c r
  rw [state,ofState,word_set]
  match c with
  | 0 => exact byteAt_wordOf _ r
  | 1 => exact byteAt_wordOf _ r
  | 2 => exact byteAt_wordOf _ r
  | 3 => exact byteAt_wordOf _ r

/-- A block is made of its state. -/
theorem ofState_state (x : M128) : ofState (state x)=x := by
  have hword : ∀ c, wordOf (state x c)=word x c := fun c => wordOf_byteAt _
  rw [ofState,hword,hword,hword,hword,set_word]

theorem state_injective : Function.Injective state :=
  Function.LeftInverse.injective ofState_state

end Words

section Bits

theorem byteAt_xor (v w : UInt32) (r : Fin 4) : byteAt (v^^^w) r=byteAt v r^^^byteAt w r := by
  rw [byteAt,UInt32.toNat_xor,Nat.shiftRight_xor_distrib,UInt8.ofNat_xor]
  rfl

theorem high_xor (a b : UInt64) : (a^^^b)>>>32=a>>>32^^^b>>>32 := by
  apply UInt64.toNat_inj.mp
  rw [UInt64.toNat_xor,UInt64.toNat_shiftRight,UInt64.toNat_shiftRight,UInt64.toNat_shiftRight,
    UInt64.toNat_xor,Nat.shiftRight_xor_distrib]

theorem word_xor (x y : M128) (c : Fin 4) : word (x.xor y) c=word x c^^^word y c := by
  rw [word,M128.xor,high_xor,high_xor,UInt64.toUInt32_xor,UInt64.toUInt32_xor,UInt64.toUInt32_xor,
    UInt64.toUInt32_xor]
  match c with
  | 0 => rfl
  | 1 => rfl
  | 2 => rfl
  | 3 => rfl

/-- Exclusive or adds a key. -/
theorem state_xor (x y : M128) : state (x.xor y)=addRoundKey (state x) (state y) := by
  funext c r
  rw [state,word_xor,byteAt_xor]
  rfl

/-- Bits below those that are set are added. -/
theorem or_below (a : ℕ) {b n : ℕ} (h : b<2^n) : 2^n*a|||b=2^n*a+b :=
  (Nat.two_pow_add_eq_or_of_lt h a).symm

/-- Four bytes that are shifted and joined are those of the word. -/
theorem placed_eq (b : Column) :
    (b 3).toUInt32<<<24|||(b 2).toUInt32<<<16|||(b 1).toUInt32<<<8|||(b 0).toUInt32=wordOf b := by
  have h0 := (b 0).toNat_lt
  have h1 := (b 1).toNat_lt
  have h2 := (b 2).toNat_lt
  have h3 := (b 3).toNat_lt
  have hplaced : ∀ (x : UInt8) (n : UInt32), n.toNat ≤ 24 →
      (x.toUInt32<<<n).toNat=2^n.toNat*x.toNat := by
    intro x n hn
    have hx := x.toNat_lt
    have hpow : 2^n.toNat ≤ 2^24 := Nat.pow_le_pow_right (by decide) hn
    have hmod : n.toNat%32=n.toNat := by omega
    rw [UInt32.toNat_shiftLeft,UInt8.toNat_toUInt32,hmod,Nat.shiftLeft_eq,Nat.mul_comm]
    exact Nat.mod_eq_of_lt ((Nat.mul_lt_mul_of_le_of_lt hpow hx (by decide)).trans_eq rfl)
  apply UInt32.toNat_inj.mp
  rw [UInt32.toNat_or,UInt32.toNat_or,UInt32.toNat_or,hplaced _ 24 (by decide),
    hplaced _ 16 (by decide),hplaced _ 8 (by decide),UInt8.toNat_toUInt32,toNat_wordOf]
  change 2^24*(b 3).toNat|||2^16*(b 2).toNat|||2^8*(b 1).toNat|||(b 0).toNat=_
  have hhigh : 2^24*(b 3).toNat+2^16*(b 2).toNat=2^16*(2^8*(b 3).toNat+(b 2).toNat) := by omega
  have hupper : 2^16*(2^8*(b 3).toNat+(b 2).toNat)+2^8*(b 1).toNat=
      2^8*(2^8*(2^8*(b 3).toNat+(b 2).toNat)+(b 1).toNat) := by omega
  rw [or_below _ (by omega : 2^16*(b 2).toNat<2^24),hhigh,
    or_below _ (by omega : 2^8*(b 1).toNat<2^16),hupper,or_below _ (by omega : (b 0).toNat<2^8)]
  omega

/-- A rotation to the right by eight bits is a rotation of the bytes. -/
theorem rotr_wordOf (b : Column) : rotr (wordOf b) 8=wordOf (rotWord b) := by
  have h0 := (b 0).toNat_lt
  have h1 := (b 1).toNat_lt
  have h2 := (b 2).toNat_lt
  have h3 := (b 3).toNat_lt
  apply UInt32.toNat_inj.mp
  rw [rotr,UInt32.toNat_or,UInt32.toNat_shiftRight,UInt32.toNat_shiftLeft,toNat_wordOf,
    toNat_wordOf]
  change (_>>>8|||_<<<24%2^32)=(b 1).toNat+2^8*(b 2).toNat+2^16*(b 3).toNat+2^24*(b 0).toNat
  rw [Nat.shiftRight_eq_div_pow,Nat.shiftLeft_eq,Nat.or_comm]
  have hlow : ((b 0).toNat+2^8*(b 1).toNat+2^16*(b 2).toNat+2^24*(b 3).toNat)*2^24%2^32=
      2^24*(b 0).toNat := by omega
  rw [hlow,or_below _ (by omega)]
  omega

theorem byteAt_rotr (w : UInt32) : byteAt (rotr w 8)=rotWord (byteAt w) := by
  have hrotr : rotr w 8=wordOf (rotWord (byteAt w)) := by
    rw [←rotr_wordOf,wordOf_byteAt]
  rw [hrotr]
  exact funext (byteAt_wordOf _)

end Bits

section Lookups

/-- The index of a byte. -/
def index (x : UInt8) : Fin 256 := ⟨x.toNat,x.toNat_lt⟩

/-- The S-box as a map of bytes. -/
def sbox (x : UInt8) : UInt8 := saes_sbox (index x)

/-- The lowest bits of a shifted word are one of its bytes. -/
theorem low_shift (w n : UInt32) (r : Fin 4) (hn : n.toNat%32=8*r.val) :
    low (w>>>n)=index (byteAt w r) := by
  apply Fin.ext
  change (w>>>n&&&0xff).toNat=(byteAt w r).toNat
  rw [UInt32.toNat_and,UInt32.toNat_shiftRight,hn,toNat_byteAt,Nat.shiftRight_eq_div_pow]
  exact Nat.and_two_pow_sub_one_eq_mod _ 8

theorem low_eq (w : UInt32) : low w=index (byteAt w 0) := by
  have hzero : w>>>0=w := UInt32.shiftRight_zero
  have hlow := low_shift w 0 0 rfl
  rwa [hzero] at hlow

/-- The highest bits of a word are its last byte. -/
theorem top_eq (w : UInt32) : top w=index (byteAt w 3) := by
  have hlt := w.toNat_lt
  apply Fin.ext
  change (w>>>24).toNat=(byteAt w 3).toNat
  rw [UInt32.toNat_shiftRight,toNat_byteAt,Nat.shiftRight_eq_div_pow]
  change w.toNat/2^24=w.toNat/2^24%256
  omega

/-- An entry of the S-box and its place: the affine map of the inverse. -/
def entryRight (entry : UInt8×ℕ) : Bool :=
  let y := rotl entry.1 1^^^rotl entry.1 3^^^rotl entry.1 6^^^0x05
  decide ((if UInt8.ofNat entry.2=0 then y=0 else times (UInt8.ofNat entry.2) y=1) ∧
    entry.1=affine y)

/-- `saes_data` is the S-box of AES. -/
theorem isSBox_sbox : IsSBox sbox := by
  have hentries : saes_data.toList.zipIdx.all entryRight=true := by decide +kernel
  intro x
  have hmem : (sbox x,x.toNat)∈saes_data.toList.zipIdx := by
    rw [List.mk_mem_zipIdx_iff_getElem?,List.getElem?_eq_some_iff]
    refine ⟨?_,?_⟩
    · rw [Vector.length_toList]
      exact x.toNat_lt
    · rw [Vector.getElem_toList]
      rfl
  have hentry := of_decide_eq_true (List.all_eq_true.mp hentries _ hmem)
  rw [UInt8.ofNat_toNat] at hentry
  exact ⟨_,hentry⟩

theorem times_one (p : UInt8) : times 1 p=p := by
  revert p
  exact forall_byte (by decide +kernel)

/-- `saes_f2` is the product with 2. -/
theorem saes_f2_eq (p : UInt8) : saes_f2 p.toUInt32=(times 2 p).toUInt32 := by
  revert p
  exact forall_byte (by decide +kernel)

/-- `saes_f3` is the product with 3. -/
theorem saes_f3_eq (p : UInt8) : saes_f3 p.toUInt32=(times 3 p).toUInt32 := by
  revert p
  exact forall_byte (by decide +kernel)

/-- An entry of a table is a column of the matrix times a byte. -/
theorem saes_u_eq (t : Fin 4) (p : UInt8) :
    saes_u t p.toUInt32=wordOf fun r => times (mix r t) p := by
  refine Eq.trans ?_ (placed_eq fun r => times (mix r t) p)
  match t with
  | 0 =>
    change saes_b2w _ _ _ _=saes_b2w (times 2 p).toUInt32 (times 1 p).toUInt32
      (times 1 p).toUInt32 (times 3 p).toUInt32
    rw [times_one,saes_f2_eq,saes_f3_eq]
  | 1 =>
    change saes_b2w _ _ _ _=saes_b2w (times 3 p).toUInt32 (times 2 p).toUInt32
      (times 1 p).toUInt32 (times 1 p).toUInt32
    rw [times_one,saes_f2_eq,saes_f3_eq]
  | 2 =>
    change saes_b2w _ _ _ _=saes_b2w (times 1 p).toUInt32 (times 3 p).toUInt32
      (times 2 p).toUInt32 (times 1 p).toUInt32
    rw [times_one,saes_f2_eq,saes_f3_eq]
  | 3 =>
    change saes_b2w _ _ _ _=saes_b2w (times 1 p).toUInt32 (times 1 p).toUInt32
      (times 3 p).toUInt32 (times 2 p).toUInt32
    rw [times_one,saes_f2_eq,saes_f3_eq]

/-- The entry that a byte of a word selects. -/
theorem byteAt_table (t r : Fin 4) (x : UInt8) :
    byteAt (saes_table t (index x)) r=times (mix r t) (sbox x) := by
  rw [saes_table,saes_u_eq,byteAt_wordOf]
  rfl

/-- Four lookups, one in each table, are a byte of a mixed column. -/
theorem byteAt_lookups (r : Fin 4) (v0 v1 v2 v3 : UInt32) :
    byteAt (saes_table 0 (low v0)^^^saes_table 1 (low (v1>>>8))^^^saes_table 2 (low (v2>>>16))^^^
      saes_table 3 (top v3)) r=
    times (mix r 0) (sbox (byteAt v0 0))^^^times (mix r 1) (sbox (byteAt v1 1))^^^
      times (mix r 2) (sbox (byteAt v2 2))^^^
        times (mix r 3) (sbox (byteAt v3 3)) := by
  rw [low_eq,low_shift v1 8 1 rfl,low_shift v2 16 2 rfl,top_eq,byteAt_xor,byteAt_xor,byteAt_xor,
    byteAt_table,byteAt_table,byteAt_table,byteAt_table]

/-- The word that a shuffle moves to the front. -/
theorem shuffle_front (x : M128) (imm : UInt8) :
    mm_cvtsi128_si32 (mm_shuffle_epi32 x imm)=word x (Fin.ofNat 4 imm.toNat) := by
  rw [mm_cvtsi128_si32,mm_shuffle_epi32,word_set]
  rfl

/-- `soft_aesenc` computes a round of AES. -/
theorem state_soft_aesenc (x key : M128) :
    state (soft_aesenc x key)=aesenc sbox (state x) (state key) := by
  unfold soft_aesenc
  rw [state_xor,shuffle_front,shuffle_front,shuffle_front]
  refine congrArg (addRoundKey · (state key)) (funext fun c => funext fun r => ?_)
  rw [state,word_set]
  match c with
  | 0 => exact byteAt_lookups r _ _ _ _
  | 1 => exact byteAt_lookups r _ _ _ _
  | 2 => exact byteAt_lookups r _ _ _ _
  | 3 => exact byteAt_lookups r _ _ _ _

/-- `sub_word` substitutes the bytes of a word. -/
theorem byteAt_sub_word (key : UInt32) : byteAt (sub_word key)=subWord sbox (byteAt key) := by
  rw [sub_word,top_eq,low_shift _ 16 2 rfl,low_shift _ 8 1 rfl,low_eq]
  refine Eq.trans ?_ (funext (byteAt_wordOf (subWord sbox (byteAt key))))
  exact congrArg byteAt (placed_eq (subWord sbox (byteAt key)))

/-- A constant is added to the first byte. -/
theorem byteAt_rcon (w : UInt32) (rcon : UInt8) :
    byteAt (w^^^rcon.toUInt32)=addRcon rcon (byteAt w) := by
  have hfirst : byteAt rcon.toUInt32=![rcon,0,0,0] := by
    have hrcon : rcon.toUInt32=wordOf ![rcon,0,0,0] := by
      apply UInt32.toNat_inj.mp
      rw [toNat_wordOf,UInt8.toNat_toUInt32]
      rfl
    rw [hrcon]
    exact funext (byteAt_wordOf _)
  funext r
  rw [byteAt_xor,hfirst]
  match r with
  | 0 => rfl
  | 1 => exact UInt8.xor_zero
  | 2 => exact UInt8.xor_zero
  | 3 => exact UInt8.xor_zero

/-- `soft_aeskeygenassist` computes what the instruction does. -/
theorem state_soft_aeskeygenassist (rcon : UInt8) (key : M128) :
    state (soft_aeskeygenassist rcon key)=keygenassist sbox rcon (state key) := by
  unfold soft_aeskeygenassist
  rw [shuffle_front,shuffle_front]
  have hassist : ∀ w, byteAt (rotr (sub_word w) 8^^^rcon.toUInt32)=
      addRcon rcon (rotWord (subWord sbox (byteAt w))) := by
    intro w
    rw [byteAt_rcon,byteAt_rotr,byteAt_sub_word]
  funext c
  unfold state
  rw [word_set]
  match c with
  | 0 => exact byteAt_sub_word (word key 1)
  | 1 => exact hassist (word key 1)
  | 2 => exact byteAt_sub_word (word key 3)
  | 3 => exact hassist (word key 3)

end Lookups

end XmrigCC.SoftAes
