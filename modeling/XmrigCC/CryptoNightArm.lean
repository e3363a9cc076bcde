import XmrigCC.AesKeys

/-!
# CryptoNight on ARM

The instruction of ARMv8 adds the key before it substitutes the bytes. The rounds of
`CryptoNight_arm.h` without `SOFT_AES` begin with a key of zeros and end with an exclusive or, and
compute what the rounds in software and those of x86 do.
-/

namespace XmrigCC.CryptoNightArm

open CellMemory CryptoNight PartialLoops Rijndael SoftAes

/-- `vaeseq_u8`. -/
def vaeseq_u8 (data key : M128) : M128 := ofState (aese sbox (state data) (state key))

/-- `vaesmcq_u8`. -/
def vaesmcq_u8 (data : M128) : M128 := ofState (mixColumns (state data))

/-- `_mm_setzero_si128` and `vdupq_n_u8(0)`. -/
def mm_setzero_si128 : M128 := ⟨0,0⟩

/-- `aes_genkey`, in software whatever `SOFT_AES` is. -/
def aes_genkey (SOFT_AES : Bool) (memory0 memory1 : M128) : Fin 10 → M128 :=
  if SOFT_AES then AesKeys.aes_genkey true memory0 memory1
  else AesKeys.aes_genkey true memory0 memory1

/-- `aes_round`, on eight blocks. -/
def aes_round (SOFT_AES : Bool) (key : M128) (x : Fin 8 → M128) : Fin 8 → M128 :=
  if SOFT_AES then fun j => soft_aesenc (x j) key else fun j => vaesmcq_u8 (vaeseq_u8 (x j) key)

/-- There are keys, so their numbers can be written as numerals. -/
local instance neZero_keys : NeZero 10 := ⟨by decide⟩

/-- The rounds of an iteration. -/
def aes_rounds (SOFT_AES : Bool) (k : Fin 10 → M128) (x : Fin 8 → M128) : Fin 8 → M128 :=
  let x := if SOFT_AES=false then aes_round SOFT_AES mm_setzero_si128 x else x
  let x := aes_round SOFT_AES (k 0) x
  let x := aes_round SOFT_AES (k 1) x
  let x := aes_round SOFT_AES (k 2) x
  let x := aes_round SOFT_AES (k 3) x
  let x := aes_round SOFT_AES (k 4) x
  let x := aes_round SOFT_AES (k 5) x
  let x := aes_round SOFT_AES (k 6) x
  let x := aes_round SOFT_AES (k 7) x
  let x := aes_round SOFT_AES (k 8) x
  if SOFT_AES=false then fun j => (x j).xor (k 9) else aes_round SOFT_AES (k 9) x

section Scratchpads

variable (P : Config) (SOFT_AES : Bool)

/-- The loop of `cn_explode_scratchpad`: as many iterations as remain, from a block on. -/
def explodeFrom (k : Fin 10 → M128) (l : ℕ) :
    ℕ → ℕ → (Fin 8 → M128) → Cells UInt8 → Option (Cells UInt8)
  | 0,_,_,m => some m
  | n+1,i,x,m => do
    let x := aes_rounds SOFT_AES k x
    let m ← storeBlocks P l i x m
    explodeFrom k l n (i+8) x m

/-- `cn_explode_scratchpad`, from a state to a lane. -/
def cn_explode_scratchpad (h : Words) (l : ℕ) (m : Cells UInt8) : Option (Cells UInt8) :=
  explodeFrom P SOFT_AES (aes_genkey SOFT_AES (block h 0) (block h 1)) l P.rounds 0
    (fun j => block h (4+j)) m

/-- The loop of `cn_implode_scratchpad`. -/
def implodeFrom (k : Fin 10 → M128) (l : ℕ) (m : Cells UInt8) :
    ℕ → ℕ → (Fin 8 → M128) → Option (Fin 8 → M128)
  | 0,_,x => some x
  | n+1,i,x => do
    let b ← loadBlocks P l i m
    implodeFrom k l m n (i+8) (aes_rounds SOFT_AES k fun j => (b j).xor (x j))

/-- `cn_implode_scratchpad`, from a lane to a state. -/
def cn_implode_scratchpad (m : Cells UInt8) (l : ℕ) (h : Words) : Option Words := do
  let x ← implodeFrom P SOFT_AES (aes_genkey SOFT_AES (block h 2) (block h 3)) l m P.rounds 0
    (fun j => block h (4+j))
  return storeState h x

/-- The AES step of the main loop. -/
def mainStep (cx : M128) (al ah : UInt64) : M128 :=
  if SOFT_AES then soft_aesenc cx ⟨al,ah⟩
  else (vaesmcq_u8 (vaeseq_u8 cx mm_setzero_si128)).xor ⟨al,ah⟩

/-- The main loop's body. -/
def body1 (l0 : ℕ) : LaneVars×Cells UInt8 → Option (LaneVars×Cells UInt8)
  | (v,m) => do
    let cx ← load128 P m l0 (P.masked v.idx)
    let cx := mainStep SOFT_AES cx v.al v.ah
    let m ← store128 P m l0 (P.masked v.idx) (v.bx.xor cx)
    let idx := cx.lo
    let bx := cx
    let cl ← load64 P m l0 (P.masked idx) 0
    let ch ← load64 P m l0 (P.masked idx) 1
    let (lo,hi) := umul128 idx cl
    let al := v.al+hi
    let ah := v.ah+lo
    let m ← store64 P m l0 (P.masked idx) 0 al
    let m ← store64 P m l0 (P.masked idx) 1 ah
    let ah := ah^^^ch
    let al := al^^^cl
    let idx := al
    return (⟨al,ah,bx,idx⟩,m)

/-- `CryptoNightMultiHash<..., 1>::hash`. -/
def hash1 (input : Cells UInt8) (size : ℕ) (output : Cells UInt8) (ctx : Ctx) : Option Report := do
  let h := P.keccak (slice input 0 size) (intOf size)
  let l := 0
  let m ← cn_explode_scratchpad P SOFT_AES h l ctx.memory
  let al := h 0^^^h 4
  let ah := h 1^^^h 5
  let bx : M128 := ⟨h 2^^^h 6,h 3^^^h 7⟩
  let idx := h 0^^^h 4
  let (_,m) ← iterate (body1 P SOFT_AES l) P.ITERATIONS (⟨al,ah,bx,idx⟩,m)
  let h ← cn_implode_scratchpad P SOFT_AES m l h
  let h := P.keccakf h 24
  let output := store output 0 (P.extra h)
  return ⟨⟨Function.update ctx.state 0 h,m⟩,output⟩

end Scratchpads

section Rounds

/-- A round without its key. -/
def unkeyed (x : M128) : M128 := ofState (mixColumns (subBytes sbox (shiftRows (state x))))

theorem xor_zero (x : M128) : x.xor mm_setzero_si128=x := by
  obtain ⟨lo,hi⟩ := x
  exact M128.mk.injEq .. |>.mpr ⟨UInt64.xor_zero,UInt64.xor_zero⟩

/-- In software the key is added last. -/
theorem soft_aesenc_unkeyed (x key : M128) : soft_aesenc x key=(unkeyed x).xor key := by
  apply state_injective
  rw [state_soft_aesenc,state_xor,unkeyed,state_ofState]
  rfl

/-- The instructions add the key first. -/
theorem vaesmcq_vaeseq (x key : M128) : vaesmcq_u8 (vaeseq_u8 x key)=unkeyed (x.xor key) := by
  rw [vaesmcq_u8,vaeseq_u8,state_ofState,unkeyed,state_xor]
  rfl

/-- The rounds in software are rounds of the first kind. -/
theorem aes_rounds_soft (k : Fin 10 → M128) (x : Fin 8 → M128) (j : Fin 8) :
    aes_rounds true k x j=
      roundsLast M128.xor unkeyed (x j) [k 0,k 1,k 2,k 3,k 4,k 5,k 6,k 7,k 8,k 9] := by
  have hround : ∀ key x, aes_round true key x=fun j => (unkeyed (x j)).xor key :=
    fun key x => funext fun j => soft_aesenc_unkeyed (x j) key
  unfold aes_rounds
  simp only [hround]
  rfl

/-- The rounds of the instructions are rounds of the second kind. -/
theorem aes_rounds_hard (k : Fin 10 → M128) (x : Fin 8 → M128) (j : Fin 8) :
    aes_rounds false k x j=(roundsFirst M128.xor unkeyed (x j)
      [mm_setzero_si128,k 0,k 1,k 2,k 3,k 4,k 5,k 6,k 7,k 8]).xor (k 9) := by
  have hround : ∀ key x, aes_round false key x=fun j => unkeyed ((x j).xor key) :=
    fun key x => funext fun j => vaesmcq_vaeseq (x j) key
  unfold aes_rounds
  simp only [hround]
  rfl

/-- Both rounds of an iteration compute the same. -/
theorem aes_rounds_eq (k : Fin 10 → M128) (x : Fin 8 → M128) :
    aes_rounds true k x=aes_rounds false k x := by
  funext j
  rw [aes_rounds_soft,aes_rounds_hard,roundsFirst_shift M128.xor unkeyed xor_zero]
  rfl

end Rounds

section Paths

variable (P : Config)

theorem explodeFrom_eq (k : Fin 10 → M128) (l n i : ℕ) (x : Fin 8 → M128) (m : Cells UInt8) :
    explodeFrom P true k l n i x m=explodeFrom P false k l n i x m := by
  induction n generalizing i x m with
  | zero => rfl
  | succ n ih =>
    rw [explodeFrom,explodeFrom,aes_rounds_eq]
    exact congrArg (Option.bind _) (funext fun m => ih (i+8) (aes_rounds false k x) m)

theorem implodeFrom_eq (k : Fin 10 → M128) (l n i : ℕ) (x : Fin 8 → M128) (m : Cells UInt8) :
    implodeFrom P true k l m n i x=implodeFrom P false k l m n i x := by
  induction n generalizing i x with
  | zero => rfl
  | succ n ih =>
    rw [implodeFrom,implodeFrom]
    refine congrArg (Option.bind _) (funext fun b => ?_)
    rw [aes_rounds_eq]
    exact ih (i+8) _

theorem cn_explode_scratchpad_eq (h : Words) (l : ℕ) (m : Cells UInt8) :
    cn_explode_scratchpad P true h l m=cn_explode_scratchpad P false h l m :=
  explodeFrom_eq P _ l _ _ _ m

theorem cn_implode_scratchpad_eq (m : Cells UInt8) (l : ℕ) (h : Words) :
    cn_implode_scratchpad P true m l h=cn_implode_scratchpad P false m l h :=
  congrArg (Option.bind · _) (implodeFrom_eq P _ l _ _ _ m)

theorem mainStep_eq (cx : M128) (al ah : UInt64) :
    mainStep true cx al ah=mainStep false cx al ah := by
  rw [mainStep,mainStep,if_pos rfl,if_neg Bool.false_ne_true,vaesmcq_vaeseq,xor_zero]
  exact soft_aesenc_unkeyed cx _

theorem body1_eq (l0 : ℕ) : body1 P true l0=body1 P false l0 := by
  funext ⟨v,m⟩
  unfold body1
  simp only [mainStep_eq]

theorem hash1_eq (input : Cells UInt8) (size : ℕ) (output : Cells UInt8) (ctx : Ctx) :
    hash1 P true input size output ctx=hash1 P false input size output ctx := by
  unfold hash1
  simp only [cn_explode_scratchpad_eq,cn_implode_scratchpad_eq,body1_eq]

/-- With and without `SOFT_AES` the scratchpad and the state are the same, and so are the AES step
of the main loop and the hash. -/
theorem arm_paths_agree :
    (∀ h l m, cn_explode_scratchpad P true h l m=cn_explode_scratchpad P false h l m) ∧
    (∀ m l h, cn_implode_scratchpad P true m l h=cn_implode_scratchpad P false m l h) ∧
    (∀ cx al ah, mainStep true cx al ah=mainStep false cx al ah) ∧
    ∀ input size output ctx,
      hash1 P true input size output ctx=hash1 P false input size output ctx :=
  ⟨cn_explode_scratchpad_eq P,cn_implode_scratchpad_eq P,mainStep_eq,hash1_eq P⟩

end Paths

section Platforms

variable (P : Config) (SOFT_AES : Bool)

/-- The template arguments of x86 with the functions and instructions for AES. -/
def x86 : Config :=
  {P with
    SOFT_AES := SOFT_AES
    soft_aesenc := soft_aesenc
    mm_aesenc := AesKeys.mm_aesenc
    aes_genkey := AesKeys.aes_genkey}

theorem aesenc_x86 (x key : M128) : (x86 P SOFT_AES).aesenc x key=soft_aesenc x key := by
  cases SOFT_AES with
  | false => exact (AesKeys.soft_aesenc_eq x key).symm
  | true => rfl

theorem aes_genkey_x86 (memory0 memory1 : M128) :
    AesKeys.aes_genkey SOFT_AES memory0 memory1=aes_genkey true memory0 memory1 := by
  cases SOFT_AES with
  | false => exact (AesKeys.aes_genkey_eq memory0 memory1).symm
  | true => rfl

theorem aes_rounds_x86 (k : Fin 10 → M128) (x : Fin 8 → M128) :
    CryptoNight.aes_rounds (x86 P SOFT_AES) k x=aes_rounds true k x := by
  have hround : ∀ key x, CryptoNight.aes_round (x86 P SOFT_AES) key x=aes_round true key x :=
    fun key x => funext fun j => aesenc_x86 P SOFT_AES (x j) key
  unfold CryptoNight.aes_rounds
  simp only [hround]
  rfl

theorem cn_explode_scratchpad_x86 (h : Words) (l : ℕ) (m : Cells UInt8) :
    CryptoNight.cn_explode_scratchpad (x86 P SOFT_AES) h l m=
      cn_explode_scratchpad P true h l m := by
  have hloop : ∀ k n i x m, CryptoNight.explodeFrom (x86 P SOFT_AES) k l n i x m=
      explodeFrom P true k l n i x m := by
    intro k n
    induction n with
    | zero => exact fun i x m => rfl
    | succ n ih =>
      intro i x m
      rw [CryptoNight.explodeFrom,explodeFrom,aes_rounds_x86]
      exact congrArg (Option.bind _) (funext fun m => ih (i+8) (aes_rounds true k x) m)
  unfold CryptoNight.cn_explode_scratchpad cn_explode_scratchpad
  rw [hloop,←aes_genkey_x86 SOFT_AES]
  rfl

theorem cn_implode_scratchpad_x86 (m : Cells UInt8) (l : ℕ) (h : Words) :
    CryptoNight.cn_implode_scratchpad (x86 P SOFT_AES) m l h=
      cn_implode_scratchpad P true m l h := by
  have hloop : ∀ k n i x, CryptoNight.implodeFrom (x86 P SOFT_AES) k l m n i x=
      implodeFrom P true k l m n i x := by
    intro k n
    induction n with
    | zero => exact fun i x => rfl
    | succ n ih =>
      intro i x
      rw [CryptoNight.implodeFrom,implodeFrom]
      refine congrArg (Option.bind _) (funext fun b => ?_)
      rw [aes_rounds_x86]
      exact ih (i+8) _
  unfold CryptoNight.cn_implode_scratchpad cn_implode_scratchpad
  rw [hloop,←aes_genkey_x86 SOFT_AES]
  rfl

/-- The hash of one block is the same on both platforms, with and without the instructions. -/
theorem hash1_x86 (SOFT_AES' : Bool) (input : Cells UInt8) (size : ℕ) (output : Cells UInt8)
    (ctx : Ctx) : CryptoNight.hash1 (x86 P SOFT_AES) input size output ctx=
      hash1 P SOFT_AES' input size output ctx := by
  have hbody : CryptoNight.body1 (x86 P SOFT_AES) 0=body1 P true 0 := by
    funext ⟨v,m⟩
    unfold CryptoNight.body1 body1
    simp only [aesenc_x86]
    rfl
  have htrue : hash1 P SOFT_AES' input size output ctx=hash1 P true input size output ctx := by
    cases SOFT_AES' with
    | false => exact (hash1_eq P input size output ctx).symm
    | true => rfl
  rw [htrue]
  unfold CryptoNight.hash1 hash1
  simp only [cn_explode_scratchpad_x86,cn_implode_scratchpad_x86,hbody]
  rfl

end Platforms

end XmrigCC.CryptoNightArm
