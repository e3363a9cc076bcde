import XmrigCC.CpuTuning
import XmrigCC.MiningJob
import XmrigCC.PartialLoops

/-!
# CryptoNight over one and several lanes

`CryptoNightMultiHash` with its specialisations for one to five lanes and the
loop over any number of them. All lanes share one scratchpad allocation, lane k
at the pointer k * MEM. An access is made through a lane's pointer, and has no
result when it leaves the lane. The loop has none either when it needs more hash
states than a context has. The AES round, the key schedule, keccak and the final
hashes are parameters.
-/

namespace XmrigCC.CryptoNight

open CellMemory MiningJob PartialLoops
open CpuTuning (MAX_NUM_HASH_BLOCKS)

/-- `__m128i`. -/
structure M128 where
  /-- Low half, `EXTRACT64`. -/
  lo : UInt64
  /-- High half. -/
  hi : UInt64
  deriving DecidableEq

/-- `_mm_xor_si128`. -/
def M128.xor (a b : M128) : M128 := ⟨a.lo^^^b.lo,a.hi^^^b.hi⟩

/-- The eight bytes of a 64-bit word in memory order. -/
def le64 (v : UInt64) : List UInt8 :=
  [v.toUInt8,(v>>>8).toUInt8,(v>>>16).toUInt8,(v>>>24).toUInt8,
    (v>>>32).toUInt8,(v>>>40).toUInt8,(v>>>48).toUInt8,(v>>>56).toUInt8]

@[simp] theorem length_le64 (v : UInt64) : (le64 v).length=8 := rfl

/-- A 64-bit read. -/
def read64 (m : Cells UInt8) (a : ℕ) : UInt64 := UInt64.ofNat (leValue (slice m a 8))

/-- A 128-bit read. -/
def read128 (m : Cells UInt8) (a : ℕ) : M128 := ⟨read64 m a,read64 m (a+8)⟩

/-- A 64-bit write. -/
def write64 (m : Cells UInt8) (a : ℕ) (v : UInt64) : Cells UInt8 := store m a (le64 v)

/-- A 128-bit write. -/
def write128 (m : Cells UInt8) (a : ℕ) (v : M128) : Cells UInt8 :=
  store m a (le64 v.lo++le64 v.hi)

/-- The 200 bytes of a hash state as `uint64_t h[25]`. -/
abbrev Words := Cells UInt64

/-- Template arguments, and the functions that are taken as they are. -/
structure Config where
  /-- Iterations of the main loop. -/
  ITERATIONS : ℕ
  /-- Bytes of a lane. -/
  MEM : ℕ
  /-- Mask of the offsets in a lane. -/
  MASK : UInt64
  /-- Whether AES is computed in software. -/
  SOFT_AES : Bool
  /-- `soft_aesenc`. -/
  soft_aesenc : M128 → M128 → M128
  /-- `_mm_aesenc_si128`. -/
  mm_aesenc : M128 → M128 → M128
  /-- `aes_genkey<SOFT_AES>` on two blocks: the keys k0 to k9. -/
  aes_genkey : Bool → M128 → M128 → Fin 10 → M128
  /-- `keccak` on an input and its length as an int. -/
  keccak : List UInt8 → ℤ → Words
  /-- `keccakf` with a number of rounds. -/
  keccakf : Words → ℕ → Words
  /-- `extra_hashes`. -/
  extra_hashes : Fin 4 → Words → Vector UInt8 32

/-- The AES round that `SOFT_AES` selects. -/
def Config.aesenc (P : Config) (x key : M128) : M128 :=
  if P.SOFT_AES then P.soft_aesenc x key else P.mm_aesenc x key

/-- `idx & MASK`. -/
def Config.masked (P : Config) (idx : UInt64) : ℕ := (idx&&&P.MASK).toNat

/-- `extra_hashes[state[0] & 3](state, 200, ...)`. -/
def Config.extra (P : Config) (h : Words) : List UInt8 :=
  (P.extra_hashes (Fin.ofNat 4 (h 0).toNat) h).toList

/-- `(int) size`. -/
def intOf (size : ℕ) : ℤ := Int.bmod size (2^32)

/-- `__umul128`: low and high half of the product. -/
def umul128 (a b : UInt64) : UInt64×UInt64 :=
  (UInt64.ofNat (a.toNat*b.toNat),UInt64.ofNat (a.toNat*b.toNat/2^64))

section Accesses

variable (P : Config) (m : Cells UInt8) (l off : ℕ)

/-- `_mm_load_si128` at an offset from a lane's pointer. -/
def load128 : Option M128 := if off+16 ≤ P.MEM then some (read128 m (l+off)) else none

/-- `_mm_store_si128` at an offset from a lane's pointer. -/
def store128 (v : M128) : Option (Cells UInt8) :=
  if off+16 ≤ P.MEM then some (write128 m (l+off) v) else none

/-- A load of `((uint64_t*) &l[off])[i]`. -/
def load64 (i : ℕ) : Option UInt64 :=
  if off+8*i+8 ≤ P.MEM then some (read64 m (l+(off+8*i))) else none

/-- A store to `((uint64_t*) &l[off])[i]`. -/
def store64 (i : ℕ) (v : UInt64) : Option (Cells UInt8) :=
  if off+8*i+8 ≤ P.MEM then some (write64 m (l+(off+8*i)) v) else none

end Accesses

/-- `aes_round` on the eight blocks. -/
def aes_round (P : Config) (key : M128) (x : Fin 8 → M128) : Fin 8 → M128 :=
  fun j => P.aesenc (x j) key

/-- The ten rounds of an iteration. -/
def aes_rounds (P : Config) (k : Fin 10 → M128) (x : Fin 8 → M128) : Fin 8 → M128 :=
  let x := aes_round P (k 0) x
  let x := aes_round P (k 1) x
  let x := aes_round P (k 2) x
  let x := aes_round P (k 3) x
  let x := aes_round P (k 4) x
  let x := aes_round P (k 5) x
  let x := aes_round P (k 6) x
  let x := aes_round P (k 7) x
  let x := aes_round P (k 8) x
  aes_round P (k 9) x

/-- `_mm_load_si128(h + j)`. -/
def block (h : Words) (j : ℕ) : M128 := ⟨h (2*j),h (2*j+1)⟩

/-- `_mm_store_si128(h + j, v)`. -/
def setBlock (h : Words) (j : ℕ) (v : M128) : Words :=
  Function.update (Function.update h (2*j) v.lo) (2*j+1) v.hi

/-- `_mm_store_si128(output + i + j, xin_j)` for the eight blocks. -/
def storeBlocks (P : Config) (l i : ℕ) (x : Fin 8 → M128) (m : Cells UInt8) :
    Option (Cells UInt8) := do
  let m ← store128 P m l (16*(i+0)) (x 0)
  let m ← store128 P m l (16*(i+1)) (x 1)
  let m ← store128 P m l (16*(i+2)) (x 2)
  let m ← store128 P m l (16*(i+3)) (x 3)
  let m ← store128 P m l (16*(i+4)) (x 4)
  let m ← store128 P m l (16*(i+5)) (x 5)
  let m ← store128 P m l (16*(i+6)) (x 6)
  store128 P m l (16*(i+7)) (x 7)

/-- The same stores on the bytes of the lane alone. -/
def writeBlocks (i : ℕ) (x : Fin 8 → M128) (m : Cells UInt8) : Cells UInt8 :=
  let m := write128 m (16*(i+0)) (x 0)
  let m := write128 m (16*(i+1)) (x 1)
  let m := write128 m (16*(i+2)) (x 2)
  let m := write128 m (16*(i+3)) (x 3)
  let m := write128 m (16*(i+4)) (x 4)
  let m := write128 m (16*(i+5)) (x 5)
  let m := write128 m (16*(i+6)) (x 6)
  write128 m (16*(i+7)) (x 7)

/-- `_mm_load_si128(input + i + j)` for the eight blocks. -/
def loadBlocks (P : Config) (l i : ℕ) (m : Cells UInt8) : Option (Fin 8 → M128) := do
  let b0 ← load128 P m l (16*(i+0))
  let b1 ← load128 P m l (16*(i+1))
  let b2 ← load128 P m l (16*(i+2))
  let b3 ← load128 P m l (16*(i+3))
  let b4 ← load128 P m l (16*(i+4))
  let b5 ← load128 P m l (16*(i+5))
  let b6 ← load128 P m l (16*(i+6))
  let b7 ← load128 P m l (16*(i+7))
  return ![b0,b1,b2,b3,b4,b5,b6,b7]

/-- The loop of `cn_explode_scratchpad`: as many iterations as remain, from a block on. -/
def explodeFrom (P : Config) (k : Fin 10 → M128) (l : ℕ) :
    ℕ → ℕ → (Fin 8 → M128) → Cells UInt8 → Option (Cells UInt8)
  | 0,_,_,m => some m
  | n+1,i,x,m => do
    let x := aes_rounds P k x
    let m ← storeBlocks P l i x m
    explodeFrom P k l n (i+8) x m

/-- Iterations of `for (i = 0; i < MEM / sizeof(__m128i); i += 8)`. -/
def Config.rounds (P : Config) : ℕ := (P.MEM/16+7)/8

/-- `cn_explode_scratchpad`, from a state to a lane. -/
def cn_explode_scratchpad (P : Config) (h : Words) (l : ℕ) (m : Cells UInt8) :
    Option (Cells UInt8) :=
  explodeFrom P (P.aes_genkey P.SOFT_AES (block h 0) (block h 1)) l P.rounds 0
    (fun j => block h (4+j)) m

/-- The loop of `cn_implode_scratchpad`. -/
def implodeFrom (P : Config) (k : Fin 10 → M128) (l : ℕ) (m : Cells UInt8) :
    ℕ → ℕ → (Fin 8 → M128) → Option (Fin 8 → M128)
  | 0,_,x => some x
  | n+1,i,x => do
    let b ← loadBlocks P l i m
    implodeFrom P k l m n (i+8) (aes_rounds P k fun j => (b j).xor (x j))

/-- Store of the eight blocks at `output + 4` and after. -/
def storeState (h : Words) (x : Fin 8 → M128) : Words :=
  let h := setBlock h 4 (x 0)
  let h := setBlock h 5 (x 1)
  let h := setBlock h 6 (x 2)
  let h := setBlock h 7 (x 3)
  let h := setBlock h 8 (x 4)
  let h := setBlock h 9 (x 5)
  let h := setBlock h 10 (x 6)
  setBlock h 11 (x 7)

/-- `cn_implode_scratchpad`, from a lane to a state. -/
def cn_implode_scratchpad (P : Config) (m : Cells UInt8) (l : ℕ) (h : Words) : Option Words := do
  let x ← implodeFrom P (P.aes_genkey P.SOFT_AES (block h 2) (block h 3)) l m P.rounds 0
    (fun j => block h (4+j))
  return storeState h x

/-- There are states, so their numbers can be written as numerals. -/
instance neZero_states : NeZero MAX_NUM_HASH_BLOCKS := ⟨by decide⟩

/-- `state[MAX_NUM_HASH_BLOCKS]` as words. -/
abbrev States := Fin MAX_NUM_HASH_BLOCKS → Words

/-- `state[hashBlock]`, none behind the last one. -/
def States.read (state : States) (hashBlock : ℕ) : Option Words :=
  if h : hashBlock<MAX_NUM_HASH_BLOCKS then some (state ⟨hashBlock,h⟩) else none

/-- A write to `state[hashBlock]`, none behind the last one. -/
def States.write (state : States) (hashBlock : ℕ) (w : Words) : Option States :=
  if h : hashBlock<MAX_NUM_HASH_BLOCKS then some (Function.update state ⟨hashBlock,h⟩ w) else none

/-- `cryptonight_ctx`. -/
structure Ctx where
  /-- `state`. -/
  state : States
  /-- `memory`. -/
  memory : Cells UInt8

/-- What a call of `hash` leaves. -/
structure Report where
  /-- The context. -/
  ctx : Ctx
  /-- The memory at `output`. -/
  output : Cells UInt8

/-- The variables of the main loop for one lane. -/
structure LaneVars where
  /-- `al`. -/
  al : UInt64
  /-- `ah`. -/
  ah : UInt64
  /-- `bx`. -/
  bx : M128
  /-- `idx`. -/
  idx : UInt64

/-- The main loop's body for one lane. -/
def body1 (P : Config) (l0 : ℕ) : LaneVars×Cells UInt8 → Option (LaneVars×Cells UInt8)
  | (v,m) => do
    let cx ← load128 P m l0 (P.masked v.idx)
    let cx := P.aesenc cx ⟨v.al,v.ah⟩
    let m ← store128 P m l0 (P.masked v.idx) (v.bx.xor cx)
    let idx := cx.lo
    let bx := cx
    let cl ← load64 P m l0 (P.masked idx) 0
    let ch ← load64 P m l0 (P.masked idx) 1
    let (lo,hi) := umul128 idx cl
    let al := v.al+hi
    let ah := v.ah+lo
    let m ← store64 P m l0 (P.masked idx) 0 al
    let m ← store64 P m l0 (P.masked idx) 1 ah
    let ah := ah^^^ch
    let al := al^^^cl
    let idx := al
    return (⟨al,ah,bx,idx⟩,m)

/-- `CryptoNightMultiHash<..., 1>::hash`. -/
def hash1 (P : Config) (input : Cells UInt8) (size : ℕ) (output : Cells UInt8) (ctx : Ctx) :
    Option Report := do
  let h := P.keccak (slice input 0 size) (intOf size)
  let l := 0
  let m ← cn_explode_scratchpad P h l ctx.memory
  let al := h 0^^^h 4
  let ah := h 1^^^h 5
  let bx : M128 := ⟨h 2^^^h 6,h 3^^^h 7⟩
  let idx := h 0^^^h 4
  let (_,m) ← iterate (body1 P l) P.ITERATIONS (⟨al,ah,bx,idx⟩,m)
  let h ← cn_implode_scratchpad P m l h
  let h := P.keccakf h 24
  let output := store output 0 (P.extra h)
  return ⟨⟨Function.update ctx.state 0 h,m⟩,output⟩

/-- The main loop's body for two lanes. -/
def body2 (P : Config) (l0 l1 : ℕ) :
    (Fin 2 → LaneVars)×Cells UInt8 → Option ((Fin 2 → LaneVars)×Cells UInt8)
  | (v,m) => do
    let cx0 ← load128 P m l0 (P.masked (v 0).idx)
    let cx1 ← load128 P m l1 (P.masked (v 1).idx)
    let cx0 := P.aesenc cx0 ⟨(v 0).al,(v 0).ah⟩
    let cx1 := P.aesenc cx1 ⟨(v 1).al,(v 1).ah⟩
    let m ← store128 P m l0 (P.masked (v 0).idx) ((v 0).bx.xor cx0)
    let m ← store128 P m l1 (P.masked (v 1).idx) ((v 1).bx.xor cx1)
    let idx0 := cx0.lo
    let idx1 := cx1.lo
    let bx0 := cx0
    let bx1 := cx1
    let cl ← load64 P m l0 (P.masked idx0) 0
    let ch ← load64 P m l0 (P.masked idx0) 1
    let (lo,hi) := umul128 idx0 cl
    let al0 := (v 0).al+hi
    let ah0 := (v 0).ah+lo
    let m ← store64 P m l0 (P.masked idx0) 0 al0
    let m ← store64 P m l0 (P.masked idx0) 1 ah0
    let ah0 := ah0^^^ch
    let al0 := al0^^^cl
    let idx0 := al0
    let cl ← load64 P m l1 (P.masked idx1) 0
    let ch ← load64 P m l1 (P.masked idx1) 1
    let (lo,hi) := umul128 idx1 cl
    let al1 := (v 1).al+hi
    let ah1 := (v 1).ah+lo
    let m ← store64 P m l1 (P.masked idx1) 0 al1
    let m ← store64 P m l1 (P.masked idx1) 1 ah1
    let ah1 := ah1^^^ch
    let al1 := al1^^^cl
    let idx1 := al1
    return (![⟨al0,ah0,bx0,idx0⟩,⟨al1,ah1,bx1,idx1⟩],m)

/-- `CryptoNightMultiHash<..., 2>::hash`. -/
def hash2 (P : Config) (input : Cells UInt8) (size : ℕ) (output : Cells UInt8) (ctx : Ctx) :
    Option Report := do
  let h0 := P.keccak (slice input 0 size) (intOf size)
  let h1 := P.keccak (slice input size size) (intOf size)
  let l0 := 0
  let l1 := P.MEM
  let m ← cn_explode_scratchpad P h0 l0 ctx.memory
  let m ← cn_explode_scratchpad P h1 l1 m
  let al0 := h0 0^^^h0 4
  let al1 := h1 0^^^h1 4
  let ah0 := h0 1^^^h0 5
  let ah1 := h1 1^^^h1 5
  let bx0 : M128 := ⟨h0 2^^^h0 6,h0 3^^^h0 7⟩
  let bx1 : M128 := ⟨h1 2^^^h1 6,h1 3^^^h1 7⟩
  let idx0 := h0 0^^^h0 4
  let idx1 := h1 0^^^h1 4
  let (_,m) ← iterate (body2 P l0 l1) P.ITERATIONS (![⟨al0,ah0,bx0,idx0⟩,⟨al1,ah1,bx1,idx1⟩],m)
  let h0 ← cn_implode_scratchpad P m l0 h0
  let h1 ← cn_implode_scratchpad P m l1 h1
  let h0 := P.keccakf h0 24
  let h1 := P.keccakf h1 24
  let output := store output 0 (P.extra h0)
  let output := store output 32 (P.extra h1)
  let state := Function.update ctx.state 0 h0
  let state := Function.update state 1 h1
  return ⟨⟨state,m⟩,output⟩

/-- The main loop's body for three lanes. -/
def body3 (P : Config) (l0 l1 l2 : ℕ) :
    (Fin 3 → LaneVars)×Cells UInt8 → Option ((Fin 3 → LaneVars)×Cells UInt8)
  | (v,m) => do
    let cx0 ← load128 P m l0 (P.masked (v 0).idx)
    let cx1 ← load128 P m l1 (P.masked (v 1).idx)
    let cx2 ← load128 P m l2 (P.masked (v 2).idx)
    let cx0 := P.aesenc cx0 ⟨(v 0).al,(v 0).ah⟩
    let cx1 := P.aesenc cx1 ⟨(v 1).al,(v 1).ah⟩
    let cx2 := P.aesenc cx2 ⟨(v 2).al,(v 2).ah⟩
    let m ← store128 P m l0 (P.masked (v 0).idx) ((v 0).bx.xor cx0)
    let m ← store128 P m l1 (P.masked (v 1).idx) ((v 1).bx.xor cx1)
    let m ← store128 P m l2 (P.masked (v 2).idx) ((v 2).bx.xor cx2)
    let idx0 := cx0.lo
    let idx1 := cx1.lo
    let idx2 := cx2.lo
    let bx0 := cx0
    let bx1 := cx1
    let bx2 := cx2
    let cl ← load64 P m l0 (P.masked idx0) 0
    let ch ← load64 P m l0 (P.masked idx0) 1
    let (lo,hi) := umul128 idx0 cl
    let al0 := (v 0).al+hi
    let ah0 := (v 0).ah+lo
    let m ← store64 P m l0 (P.masked idx0) 0 al0
    let m ← store64 P m l0 (P.masked idx0) 1 ah0
    let ah0 := ah0^^^ch
    let al0 := al0^^^cl
    let idx0 := al0
    let cl ← load64 P m l1 (P.masked idx1) 0
    let ch ← load64 P m l1 (P.masked idx1) 1
    let (lo,hi) := umul128 idx1 cl
    let al1 := (v 1).al+hi
    let ah1 := (v 1).ah+lo
    let m ← store64 P m l1 (P.masked idx1) 0 al1
    let m ← store64 P m l1 (P.masked idx1) 1 ah1
    let ah1 := ah1^^^ch
    let al1 := al1^^^cl
    let idx1 := al1
    let cl ← load64 P m l2 (P.masked idx2) 0
    let ch ← load64 P m l2 (P.masked idx2) 1
    let (lo,hi) := umul128 idx2 cl
    let al2 := (v 2).al+hi
    let ah2 := (v 2).ah+lo
    let m ← store64 P m l2 (P.masked idx2) 0 al2
    let m ← store64 P m l2 (P.masked idx2) 1 ah2
    let ah2 := ah2^^^ch
    let al2 := al2^^^cl
    let idx2 := al2
    return (![⟨al0,ah0,bx0,idx0⟩,⟨al1,ah1,bx1,idx1⟩,⟨al2,ah2,bx2,idx2⟩],m)

/-- `CryptoNightMultiHash<..., 3>::hash`. -/
def hash3 (P : Config) (input : Cells UInt8) (size : ℕ) (output : Cells UInt8) (ctx : Ctx) :
    Option Report := do
  let h0 := P.keccak (slice input 0 size) (intOf size)
  let h1 := P.keccak (slice input size size) (intOf size)
  let h2 := P.keccak (slice input (2*size) size) (intOf size)
  let l0 := 0
  let l1 := P.MEM
  let l2 := 2*P.MEM
  let m ← cn_explode_scratchpad P h0 l0 ctx.memory
  let m ← cn_explode_scratchpad P h1 l1 m
  let m ← cn_explode_scratchpad P h2 l2 m
  let al0 := h0 0^^^h0 4
  let al1 := h1 0^^^h1 4
  let al2 := h2 0^^^h2 4
  let ah0 := h0 1^^^h0 5
  let ah1 := h1 1^^^h1 5
  let ah2 := h2 1^^^h2 5
  let bx0 : M128 := ⟨h0 2^^^h0 6,h0 3^^^h0 7⟩
  let bx1 : M128 := ⟨h1 2^^^h1 6,h1 3^^^h1 7⟩
  let bx2 : M128 := ⟨h2 2^^^h2 6,h2 3^^^h2 7⟩
  let idx0 := h0 0^^^h0 4
  let idx1 := h1 0^^^h1 4
  let idx2 := h2 0^^^h2 4
  let (_,m) ← iterate (body3 P l0 l1 l2) P.ITERATIONS
    (![⟨al0,ah0,bx0,idx0⟩,⟨al1,ah1,bx1,idx1⟩,⟨al2,ah2,bx2,idx2⟩],m)
  let h0 ← cn_implode_scratchpad P m l0 h0
  let h1 ← cn_implode_scratchpad P m l1 h1
  let h2 ← cn_implode_scratchpad P m l2 h2
  let h0 := P.keccakf h0 24
  let h1 := P.keccakf h1 24
  let h2 := P.keccakf h2 24
  let output := store output 0 (P.extra h0)
  let output := store output 32 (P.extra h1)
  let output := store output 64 (P.extra h2)
  let state := Function.update ctx.state 0 h0
  let state := Function.update state 1 h1
  let state := Function.update state 2 h2
  return ⟨⟨state,m⟩,output⟩

/-- The main loop's body for four lanes. -/
def body4 (P : Config) (l0 l1 l2 l3 : ℕ) :
    (Fin 4 → LaneVars)×Cells UInt8 → Option ((Fin 4 → LaneVars)×Cells UInt8)
  | (v,m) => do
    let cx0 ← load128 P m l0 (P.masked (v 0).idx)
    let cx1 ← load128 P m l1 (P.masked (v 1).idx)
    let cx2 ← load128 P m l2 (P.masked (v 2).idx)
    let cx3 ← load128 P m l3 (P.masked (v 3).idx)
    let cx0 := P.aesenc cx0 ⟨(v 0).al,(v 0).ah⟩
    let cx1 := P.aesenc cx1 ⟨(v 1).al,(v 1).ah⟩
    let cx2 := P.aesenc cx2 ⟨(v 2).al,(v 2).ah⟩
    let cx3 := P.aesenc cx3 ⟨(v 3).al,(v 3).ah⟩
    let m ← store128 P m l0 (P.masked (v 0).idx) ((v 0).bx.xor cx0)
    let m ← store128 P m l1 (P.masked (v 1).idx) ((v 1).bx.xor cx1)
    let m ← store128 P m l2 (P.masked (v 2).idx) ((v 2).bx.xor cx2)
    let m ← store128 P m l3 (P.masked (v 3).idx) ((v 3).bx.xor cx3)
    let idx0 := cx0.lo
    let idx1 := cx1.lo
    let idx2 := cx2.lo
    let idx3 := cx3.lo
    let bx0 := cx0
    let bx1 := cx1
    let bx2 := cx2
    let bx3 := cx3
    let cl ← load64 P m l0 (P.masked idx0) 0
    let ch ← load64 P m l0 (P.masked idx0) 1
    let (lo,hi) := umul128 idx0 cl
    let al0 := (v 0).al+hi
    let ah0 := (v 0).ah+lo
    let m ← store64 P m l0 (P.masked idx0) 0 al0
    let m ← store64 P m l0 (P.masked idx0) 1 ah0
    let ah0 := ah0^^^ch
    let al0 := al0^^^cl
    let idx0 := al0
    let cl ← load64 P m l1 (P.masked idx1) 0
    let ch ← load64 P m l1 (P.masked idx1) 1
    let (lo,hi) := umul128 idx1 cl
    let al1 := (v 1).al+hi
    let ah1 := (v 1).ah+lo
    let m ← store64 P m l1 (P.masked idx1) 0 al1
    let m ← store64 P m l1 (P.masked idx1) 1 ah1
    let ah1 := ah1^^^ch
    let al1 := al1^^^cl
    let idx1 := al1
    let cl ← load64 P m l2 (P.masked idx2) 0
    let ch ← load64 P m l2 (P.masked idx2) 1
    let (lo,hi) := umul128 idx2 cl
    let al2 := (v 2).al+hi
    let ah2 := (v 2).ah+lo
    let m ← store64 P m l2 (P.masked idx2) 0 al2
    let m ← store64 P m l2 (P.masked idx2) 1 ah2
    let ah2 := ah2^^^ch
    let al2 := al2^^^cl
    let idx2 := al2
    let cl ← load64 P m l3 (P.masked idx3) 0
    let ch ← load64 P m l3 (P.masked idx3) 1
    let (lo,hi) := umul128 idx3 cl
    let al3 := (v 3).al+hi
    let ah3 := (v 3).ah+lo
    let m ← store64 P m l3 (P.masked idx3) 0 al3
    let m ← store64 P m l3 (P.masked idx3) 1 ah3
    let ah3 := ah3^^^ch
    let al3 := al3^^^cl
    let idx3 := al3
    return (![⟨al0,ah0,bx0,idx0⟩,⟨al1,ah1,bx1,idx1⟩,⟨al2,ah2,bx2,idx2⟩,
      ⟨al3,ah3,bx3,idx3⟩],m)

/-- `CryptoNightMultiHash<..., 4>::hash`. -/
def hash4 (P : Config) (input : Cells UInt8) (size : ℕ) (output : Cells UInt8) (ctx : Ctx) :
    Option Report := do
  let h0 := P.keccak (slice input 0 size) (intOf size)
  let h1 := P.keccak (slice input size size) (intOf size)
  let h2 := P.keccak (slice input (2*size) size) (intOf size)
  let h3 := P.keccak (slice input (3*size) size) (intOf size)
  let l0 := 0
  let l1 := P.MEM
  let l2 := 2*P.MEM
  let l3 := 3*P.MEM
  let m ← cn_explode_scratchpad P h0 l0 ctx.memory
  let m ← cn_explode_scratchpad P h1 l1 m
  let m ← cn_explode_scratchpad P h2 l2 m
  let m ← cn_explode_scratchpad P h3 l3 m
  let al0 := h0 0^^^h0 4
  let al1 := h1 0^^^h1 4
  let al2 := h2 0^^^h2 4
  let al3 := h3 0^^^h3 4
  let ah0 := h0 1^^^h0 5
  let ah1 := h1 1^^^h1 5
  let ah2 := h2 1^^^h2 5
  let ah3 := h3 1^^^h3 5
  let bx0 : M128 := ⟨h0 2^^^h0 6,h0 3^^^h0 7⟩
  let bx1 : M128 := ⟨h1 2^^^h1 6,h1 3^^^h1 7⟩
  let bx2 : M128 := ⟨h2 2^^^h2 6,h2 3^^^h2 7⟩
  let bx3 : M128 := ⟨h3 2^^^h3 6,h3 3^^^h3 7⟩
  let idx0 := h0 0^^^h0 4
  let idx1 := h1 0^^^h1 4
  let idx2 := h2 0^^^h2 4
  let idx3 := h3 0^^^h3 4
  let (_,m) ← iterate (body4 P l0 l1 l2 l3) P.ITERATIONS
    (![⟨al0,ah0,bx0,idx0⟩,⟨al1,ah1,bx1,idx1⟩,⟨al2,ah2,bx2,idx2⟩,⟨al3,ah3,bx3,idx3⟩],m)
  let h0 ← cn_implode_scratchpad P m l0 h0
  let h1 ← cn_implode_scratchpad P m l1 h1
  let h2 ← cn_implode_scratchpad P m l2 h2
  let h3 ← cn_implode_scratchpad P m l3 h3
  let h0 := P.keccakf h0 24
  let h1 := P.keccakf h1 24
  let h2 := P.keccakf h2 24
  let h3 := P.keccakf h3 24
  let output := store output 0 (P.extra h0)
  let output := store output 32 (P.extra h1)
  let output := store output 64 (P.extra h2)
  let output := store output 96 (P.extra h3)
  let state := Function.update ctx.state 0 h0
  let state := Function.update state 1 h1
  let state := Function.update state 2 h2
  let state := Function.update state 3 h3
  return ⟨⟨state,m⟩,output⟩

/-- The main loop's body for five lanes. -/
def body5 (P : Config) (l0 l1 l2 l3 l4 : ℕ) :
    (Fin 5 → LaneVars)×Cells UInt8 → Option ((Fin 5 → LaneVars)×Cells UInt8)
  | (v,m) => do
    let cx0 ← load128 P m l0 (P.masked (v 0).idx)
    let cx1 ← load128 P m l1 (P.masked (v 1).idx)
    let cx2 ← load128 P m l2 (P.masked (v 2).idx)
    let cx3 ← load128 P m l3 (P.masked (v 3).idx)
    let cx4 ← load128 P m l4 (P.masked (v 4).idx)
    let cx0 := P.aesenc cx0 ⟨(v 0).al,(v 0).ah⟩
    let cx1 := P.aesenc cx1 ⟨(v 1).al,(v 1).ah⟩
    let cx2 := P.aesenc cx2 ⟨(v 2).al,(v 2).ah⟩
    let cx3 := P.aesenc cx3 ⟨(v 3).al,(v 3).ah⟩
    let cx4 := P.aesenc cx4 ⟨(v 4).al,(v 4).ah⟩
    let m ← store128 P m l0 (P.masked (v 0).idx) ((v 0).bx.xor cx0)
    let m ← store128 P m l1 (P.masked (v 1).idx) ((v 1).bx.xor cx1)
    let m ← store128 P m l2 (P.masked (v 2).idx) ((v 2).bx.xor cx2)
    let m ← store128 P m l3 (P.masked (v 3).idx) ((v 3).bx.xor cx3)
    let m ← store128 P m l4 (P.masked (v 4).idx) ((v 4).bx.xor cx4)
    let idx0 := cx0.lo
    let idx1 := cx1.lo
    let idx2 := cx2.lo
    let idx3 := cx3.lo
    let idx4 := cx4.lo
    let bx0 := cx0
    let bx1 := cx1
    let bx2 := cx2
    let bx3 := cx3
    let bx4 := cx4
    let cl ← load64 P m l0 (P.masked idx0) 0
    let ch ← load64 P m l0 (P.masked idx0) 1
    let (lo,hi) := umul128 idx0 cl
    let al0 := (v 0).al+hi
    let ah0 := (v 0).ah+lo
    let m ← store64 P m l0 (P.masked idx0) 0 al0
    let m ← store64 P m l0 (P.masked idx0) 1 ah0
    let ah0 := ah0^^^ch
    let al0 := al0^^^cl
    let idx0 := al0
    let cl ← load64 P m l1 (P.masked idx1) 0
    let ch ← load64 P m l1 (P.masked idx1) 1
    let (lo,hi) := umul128 idx1 cl
    let al1 := (v 1).al+hi
    let ah1 := (v 1).ah+lo
    let m ← store64 P m l1 (P.masked idx1) 0 al1
    let m ← store64 P m l1 (P.masked idx1) 1 ah1
    let ah1 := ah1^^^ch
    let al1 := al1^^^cl
    let idx1 := al1
    let cl ← load64 P m l2 (P.masked idx2) 0
    let ch ← load64 P m l2 (P.masked idx2) 1
    let (lo,hi) := umul128 idx2 cl
    let al2 := (v 2).al+hi
    let ah2 := (v 2).ah+lo
    let m ← store64 P m l2 (P.masked idx2) 0 al2
    let m ← store64 P m l2 (P.masked idx2) 1 ah2
    let ah2 := ah2^^^ch
    let al2 := al2^^^cl
    let idx2 := al2
    let cl ← load64 P m l3 (P.masked idx3) 0
    let ch ← load64 P m l3 (P.masked idx3) 1
    let (lo,hi) := umul128 idx3 cl
    let al3 := (v 3).al+hi
    let ah3 := (v 3).ah+lo
    let m ← store64 P m l3 (P.masked idx3) 0 al3
    let m ← store64 P m l3 (P.masked idx3) 1 ah3
    let ah3 := ah3^^^ch
    let al3 := al3^^^cl
    let idx3 := al3
    let cl ← load64 P m l4 (P.masked idx4) 0
    let ch ← load64 P m l4 (P.masked idx4) 1
    let (lo,hi) := umul128 idx4 cl
    let al4 := (v 4).al+hi
    let ah4 := (v 4).ah+lo
    let m ← store64 P m l4 (P.masked idx4) 0 al4
    let m ← store64 P m l4 (P.masked idx4) 1 ah4
    let ah4 := ah4^^^ch
    let al4 := al4^^^cl
    let idx4 := al4
    return (![⟨al0,ah0,bx0,idx0⟩,⟨al1,ah1,bx1,idx1⟩,⟨al2,ah2,bx2,idx2⟩,
      ⟨al3,ah3,bx3,idx3⟩,⟨al4,ah4,bx4,idx4⟩],m)

/-- `CryptoNightMultiHash<..., 5>::hash`. -/
def hash5 (P : Config) (input : Cells UInt8) (size : ℕ) (output : Cells UInt8) (ctx : Ctx) :
    Option Report := do
  let h0 := P.keccak (slice input 0 size) (intOf size)
  let h1 := P.keccak (slice input size size) (intOf size)
  let h2 := P.keccak (slice input (2*size) size) (intOf size)
  let h3 := P.keccak (slice input (3*size) size) (intOf size)
  let h4 := P.keccak (slice input (4*size) size) (intOf size)
  let l0 := 0
  let l1 := P.MEM
  let l2 := 2*P.MEM
  let l3 := 3*P.MEM
  let l4 := 4*P.MEM
  let m ← cn_explode_scratchpad P h0 l0 ctx.memory
  let m ← cn_explode_scratchpad P h1 l1 m
  let m ← cn_explode_scratchpad P h2 l2 m
  let m ← cn_explode_scratchpad P h3 l3 m
  let m ← cn_explode_scratchpad P h4 l4 m
  let al0 := h0 0^^^h0 4
  let al1 := h1 0^^^h1 4
  let al2 := h2 0^^^h2 4
  let al3 := h3 0^^^h3 4
  let al4 := h4 0^^^h4 4
  let ah0 := h0 1^^^h0 5
  let ah1 := h1 1^^^h1 5
  let ah2 := h2 1^^^h2 5
  let ah3 := h3 1^^^h3 5
  let ah4 := h4 1^^^h4 5
  let bx0 : M128 := ⟨h0 2^^^h0 6,h0 3^^^h0 7⟩
  let bx1 : M128 := ⟨h1 2^^^h1 6,h1 3^^^h1 7⟩
  let bx2 : M128 := ⟨h2 2^^^h2 6,h2 3^^^h2 7⟩
  let bx3 : M128 := ⟨h3 2^^^h3 6,h3 3^^^h3 7⟩
  let bx4 : M128 := ⟨h4 2^^^h4 6,h4 3^^^h4 7⟩
  let idx0 := h0 0^^^h0 4
  let idx1 := h1 0^^^h1 4
  let idx2 := h2 0^^^h2 4
  let idx3 := h3 0^^^h3 4
  let idx4 := h4 0^^^h4 4
  let (_,m) ← iterate (body5 P l0 l1 l2 l3 l4) P.ITERATIONS
    (![⟨al0,ah0,bx0,idx0⟩,⟨al1,ah1,bx1,idx1⟩,⟨al2,ah2,bx2,idx2⟩,
      ⟨al3,ah3,bx3,idx3⟩,⟨al4,ah4,bx4,idx4⟩],m)
  let h0 ← cn_implode_scratchpad P m l0 h0
  let h1 ← cn_implode_scratchpad P m l1 h1
  let h2 ← cn_implode_scratchpad P m l2 h2
  let h3 ← cn_implode_scratchpad P m l3 h3
  let h4 ← cn_implode_scratchpad P m l4 h4
  let h0 := P.keccakf h0 24
  let h1 := P.keccakf h1 24
  let h2 := P.keccakf h2 24
  let h3 := P.keccakf h3 24
  let h4 := P.keccakf h4 24
  let output := store output 0 (P.extra h0)
  let output := store output 32 (P.extra h1)
  let output := store output 64 (P.extra h2)
  let output := store output 96 (P.extra h3)
  let output := store output 128 (P.extra h4)
  let state := Function.update ctx.state 0 h0
  let state := Function.update state 1 h1
  let state := Function.update state 2 h2
  let state := Function.update state 3 h3
  let state := Function.update state 4 h4
  return ⟨⟨state,m⟩,output⟩

/-- The arrays of the n-loop version. -/
structure Arrays where
  /-- `al[]`. -/
  al : ℕ → UInt64
  /-- `ah[]`. -/
  ah : ℕ → UInt64
  /-- `bx[]`. -/
  bx : ℕ → M128
  /-- `idx[]`. -/
  idx : ℕ → UInt64

/-- The n-loop version's inner body for one block, through the pointers `l[]`. -/
def bodyN (P : Config) (l : ℕ → ℕ) (hashBlock : ℕ) :
    Arrays×Cells UInt8 → Option (Arrays×Cells UInt8)
  | (a,m) => do
    let cx ← load128 P m (l hashBlock) (P.masked (a.idx hashBlock))
    let cx := P.aesenc cx ⟨a.al hashBlock,a.ah hashBlock⟩
    let m ← store128 P m (l hashBlock) (P.masked (a.idx hashBlock)) ((a.bx hashBlock).xor cx)
    let idx := Function.update a.idx hashBlock cx.lo
    let bx := Function.update a.bx hashBlock cx
    let cl ← load64 P m (l hashBlock) (P.masked (idx hashBlock)) 0
    let ch ← load64 P m (l hashBlock) (P.masked (idx hashBlock)) 1
    let (lo,hi) := umul128 (idx hashBlock) cl
    let al := Function.update a.al hashBlock (a.al hashBlock+hi)
    let ah := Function.update a.ah hashBlock (a.ah hashBlock+lo)
    let m ← store64 P m (l hashBlock) (P.masked (idx hashBlock)) 0 (al hashBlock)
    let m ← store64 P m (l hashBlock) (P.masked (idx hashBlock)) 1 (ah hashBlock)
    let ah := Function.update ah hashBlock (ah hashBlock^^^ch)
    let al := Function.update al hashBlock (al hashBlock^^^cl)
    let idx := Function.update idx hashBlock (al hashBlock)
    return (⟨al,ah,bx,idx⟩,m)

/-- The first loop's body: keccak into `ctx->state`. -/
def keccakN (P : Config) (input : Cells UInt8) (size hashBlock : ℕ) (state : States) :
    Option States :=
  state.write hashBlock (P.keccak (slice input (hashBlock*size) size) (intOf size))

/-- The second loop's body: fill a block's lane and set its variables. -/
def startN (P : Config) (l : ℕ → ℕ) (h : States) (hashBlock : ℕ) :
    Arrays×Cells UInt8 → Option (Arrays×Cells UInt8)
  | (a,m) => do
    let h ← h.read hashBlock
    let m ← cn_explode_scratchpad P h (l hashBlock) m
    let al := Function.update a.al hashBlock (h 0^^^h 4)
    let ah := Function.update a.ah hashBlock (h 1^^^h 5)
    let bx := Function.update a.bx hashBlock ⟨h 2^^^h 6,h 3^^^h 7⟩
    let idx := Function.update a.idx hashBlock (h 0^^^h 4)
    return (⟨al,ah,bx,idx⟩,m)

/-- The last loop's body: read a block's lane back and write its hash. -/
def finishN (P : Config) (l : ℕ → ℕ) (m : Cells UInt8) (hashBlock : ℕ) :
    States×Cells UInt8 → Option (States×Cells UInt8)
  | (state,output) => do
    let h ← state.read hashBlock
    let h ← cn_implode_scratchpad P m (l hashBlock) h
    let h := P.keccakf h 24
    let state ← state.write hashBlock h
    return (state,store output (hashBlock*32) (P.extra h))

/-- `CryptoNightMultiHash<..., NUM_HASH_BLOCKS>::hash`; `a` is what the local arrays hold
at first. -/
def hashN (P : Config) (NUM_HASH_BLOCKS : ℕ) (a : Arrays) (input : Cells UInt8) (size : ℕ)
    (output : Cells UInt8) (ctx : Ctx) : Option Report := do
  let state ← forBelow (keccakN P input size) NUM_HASH_BLOCKS ctx.state
  let l := fun hashBlock => hashBlock*P.MEM
  let (a,m) ← forBelow (startN P l state) NUM_HASH_BLOCKS (a,ctx.memory)
  let (_,m) ← iterate (forBelow (bodyN P l) NUM_HASH_BLOCKS) P.ITERATIONS (a,m)
  let (state,output) ← forBelow (finishN P l m) NUM_HASH_BLOCKS (state,output)
  return ⟨⟨state,m⟩,output⟩

end XmrigCC.CryptoNight
