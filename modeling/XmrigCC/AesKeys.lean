import XmrigCC.SoftAes

/-!
# Round keys and rounds with and without the instructions

`aes_genkey` makes ten round keys out of two blocks, and `aes_round` encrypts eight blocks. The
template argument `SOFT_AES` selects the functions of `soft_aes.h` or the instructions. The keys
are the first ten of the key expansion of AES-256.
-/

namespace XmrigCC.AesKeys

open CryptoNight Rijndael SoftAes

/-- `_mm_aesenc_si128`. -/
def mm_aesenc (x key : M128) : M128 := ofState (aesenc sbox (state x) (state key))

/-- `_mm_aeskeygenassist_si128`. -/
def mm_aeskeygenassist (key : M128) (rcon : UInt8) : M128 :=
  ofState (keygenassist sbox rcon (state key))

/-- `_mm_slli_si128`. -/
def mm_slli_si128 (x : M128) (bytes : ℕ) : M128 :=
  let v := (x.lo.toNat+2^64*x.hi.toNat)*2^(8*bytes)
  ⟨UInt64.ofNat v,UInt64.ofNat (v/2^64)⟩

/-- `sl_xor`. -/
def sl_xor (tmp1 : M128) : M128 :=
  let tmp4 := mm_slli_si128 tmp1 4
  let tmp1 := tmp1.xor tmp4
  let tmp4 := mm_slli_si128 tmp4 4
  let tmp1 := tmp1.xor tmp4
  let tmp4 := mm_slli_si128 tmp4 4
  tmp1.xor tmp4

/-- The body that `aes_genkey_sub` and `soft_aes_genkey_sub` share. -/
def genkey_sub (assist : M128 → UInt8 → M128) (rcon : UInt8) : M128×M128 → M128×M128
  | (xout0,xout2) =>
    let xout1 := assist xout2 rcon
    let xout1 := mm_shuffle_epi32 xout1 0xFF
    let xout0 := sl_xor xout0
    let xout0 := xout0.xor xout1
    let xout1 := assist xout0 0
    let xout1 := mm_shuffle_epi32 xout1 0xAA
    let xout2 := sl_xor xout2
    let xout2 := xout2.xor xout1
    (xout0,xout2)

/-- `aes_genkey_sub`. -/
def aes_genkey_sub (rcon : UInt8) (xout : M128×M128) : M128×M128 :=
  genkey_sub mm_aeskeygenassist rcon xout

/-- `soft_aes_genkey_sub`. -/
def soft_aes_genkey_sub (rcon : UInt8) (xout : M128×M128) : M128×M128 :=
  genkey_sub (fun key rcon => soft_aeskeygenassist rcon key) rcon xout

/-- `SOFT_AES ? soft_aes_genkey_sub<rcon>(...) : aes_genkey_sub<rcon>(...)`. -/
def selected_genkey_sub (SOFT_AES : Bool) (rcon : UInt8) (xout : M128×M128) : M128×M128 :=
  if SOFT_AES then soft_aes_genkey_sub rcon xout else aes_genkey_sub rcon xout

/-- `aes_genkey`, from `memory[0]` and `memory[1]` to k0 to k9. -/
def aes_genkey (SOFT_AES : Bool) (memory0 memory1 : M128) : Fin 10 → M128 :=
  let xout01 := (memory0,memory1)
  let xout23 := selected_genkey_sub SOFT_AES 0x01 xout01
  let xout45 := selected_genkey_sub SOFT_AES 0x02 xout23
  let xout67 := selected_genkey_sub SOFT_AES 0x04 xout45
  let xout89 := selected_genkey_sub SOFT_AES 0x08 xout67
  ![xout01.1,xout01.2,xout23.1,xout23.2,xout45.1,xout45.2,xout67.1,xout67.2,xout89.1,xout89.2]

/-- `aes_round`, on eight blocks. -/
def aes_round (SOFT_AES : Bool) (key : M128) (x : Fin 8 → M128) : Fin 8 → M128 :=
  if SOFT_AES then fun j => soft_aesenc (x j) key else fun j => mm_aesenc (x j) key

section Selection

theorem soft_aesenc_eq (x key : M128) : soft_aesenc x key=mm_aesenc x key := by
  apply state_injective
  rw [state_soft_aesenc,mm_aesenc,state_ofState]

theorem soft_aeskeygenassist_eq (rcon : UInt8) (key : M128) :
    soft_aeskeygenassist rcon key=mm_aeskeygenassist key rcon := by
  apply state_injective
  rw [state_soft_aeskeygenassist,mm_aeskeygenassist,state_ofState]

/-- Both ways to make the next two keys make the same ones. -/
theorem selected_genkey_sub_eq (SOFT_AES : Bool) (rcon : UInt8) (xout : M128×M128) :
    selected_genkey_sub SOFT_AES rcon xout=aes_genkey_sub rcon xout := by
  have hassist : (fun key rcon => soft_aeskeygenassist rcon key)=mm_aeskeygenassist := by
    funext key rcon
    exact soft_aeskeygenassist_eq rcon key
  cases SOFT_AES with
  | false => rfl
  | true =>
    rw [selected_genkey_sub,if_pos rfl,soft_aes_genkey_sub,hassist]
    rfl

/-- Both versions make the same keys. -/
theorem aes_genkey_eq (memory0 memory1 : M128) :
    aes_genkey true memory0 memory1=aes_genkey false memory0 memory1 := by
  unfold aes_genkey
  simp only [selected_genkey_sub_eq]

/-- Both versions encrypt the blocks alike. -/
theorem aes_round_eq (key : M128) (x : Fin 8 → M128) : aes_round true key x=aes_round false key x :=
  funext fun j => soft_aesenc_eq (x j) key

/-- The functions of `soft_aes.h` are a round of AES and the help for its keys, with the S-box of
AES, and both versions of the keys and the rounds compute the same. -/
theorem soft_aes_exact :
    IsSBox sbox ∧
    (∀ x key, state (soft_aesenc x key)=
      addRoundKey (mixColumns (subBytes sbox (shiftRows (state x)))) (state key)) ∧
    (∀ rcon key, state (soft_aeskeygenassist rcon key)=
      ![subWord sbox (state key 1),addRcon rcon (rotWord (subWord sbox (state key 1))),
        subWord sbox (state key 3),addRcon rcon (rotWord (subWord sbox (state key 3)))]) ∧
    (∀ x key, soft_aesenc x key=mm_aesenc x key) ∧
    (∀ rcon key, soft_aeskeygenassist rcon key=mm_aeskeygenassist key rcon) ∧
    (∀ memory0 memory1, aes_genkey true memory0 memory1=aes_genkey false memory0 memory1) ∧
    ∀ key x, aes_round true key x=aes_round false key x :=
  ⟨isSBox_sbox,state_soft_aesenc,state_soft_aeskeygenassist,soft_aesenc_eq,
    soft_aeskeygenassist_eq,aes_genkey_eq,aes_round_eq⟩

end Selection

section Expansion

/-- Words that are moved up by one. -/
theorem word_slli (x : M128) : word (mm_slli_si128 x 4)=![0,word x 0,word x 1,word x 2] := by
  have hlo := x.lo.toNat_lt
  have hhi := x.hi.toNat_lt
  funext c
  apply UInt32.toNat_inj.mp
  unfold word mm_slli_si128
  match c with
  | 0 =>
    change (UInt64.ofNat _).toUInt32.toNat=0
    rw [UInt64.toNat_toUInt32,UInt64.toNat_ofNat']
    omega
  | 1 =>
    change (UInt64.ofNat _>>>32).toUInt32.toNat=x.lo.toUInt32.toNat
    rw [UInt64.toNat_toUInt32,UInt64.toNat_toUInt32,UInt64.toNat_shiftRight,UInt64.toNat_ofNat',
      Nat.shiftRight_eq_div_pow]
    change _/2^32%2^32=_
    omega
  | 2 =>
    change (UInt64.ofNat _).toUInt32.toNat=(x.lo>>>32).toUInt32.toNat
    rw [UInt64.toNat_toUInt32,UInt64.toNat_toUInt32,UInt64.toNat_shiftRight,UInt64.toNat_ofNat',
      Nat.shiftRight_eq_div_pow]
    change _=_/2^32%2^32
    omega
  | 3 =>
    change (UInt64.ofNat _>>>32).toUInt32.toNat=x.hi.toUInt32.toNat
    rw [UInt64.toNat_toUInt32,UInt64.toNat_toUInt32,UInt64.toNat_shiftRight,UInt64.toNat_ofNat',
      Nat.shiftRight_eq_div_pow]
    change _/2^32%2^32=_
    omega

theorem byteAt_zero (r : Fin 4) : byteAt 0 r=0 := by
  apply UInt8.toNat_inj.mp
  rw [toNat_byteAt]
  change 0/2^(8*r.val)%256=0
  rw [Nat.zero_div]

theorem state_slli (x : M128) :
    state (mm_slli_si128 x 4)=![0,state x 0,state x 1,state x 2] := by
  funext c
  unfold state
  rw [word_slli]
  match c with
  | 0 => exact funext byteAt_zero
  | 1 => rfl
  | 2 => rfl
  | 3 => rfl

/-- Every word is added to those behind it. -/
theorem state_sl_xor (x : M128) : state (sl_xor x)=
    ![state x 0,addWord (state x 1) (state x 0),
      addWord (addWord (state x 2) (state x 1)) (state x 0),
      addWord (addWord (addWord (state x 3) (state x 2)) (state x 1)) (state x 0)] := by
  have hone := state_slli x
  have htwo : state (mm_slli_si128 (mm_slli_si128 x 4) 4)=![0,0,state x 0,state x 1] := by
    rw [state_slli,hone]
    rfl
  have hthree : state (mm_slli_si128 (mm_slli_si128 (mm_slli_si128 x 4) 4) 4)=
      ![0,0,0,state x 0] := by
    rw [state_slli,htwo]
    rfl
  unfold sl_xor
  rw [state_xor,state_xor,state_xor,hone,htwo,hthree]
  funext c
  match c with
  | 0 =>
    change addWord (addWord (addWord (state x 0) 0) 0) 0=_
    rw [addWord_zero,addWord_zero,addWord_zero]
    rfl
  | 1 =>
    change addWord (addWord (addWord (state x 1) (state x 0)) 0) 0=_
    rw [addWord_zero,addWord_zero]
    rfl
  | 2 =>
    change addWord (addWord (addWord (state x 2) (state x 1)) (state x 0)) 0=_
    rw [addWord_zero]
    rfl
  | 3 => rfl

theorem state_shuffle (x : M128) (imm : UInt8) (c : Fin 4) :
    state (mm_shuffle_epi32 x imm) c=state x (Fin.ofNat 4 (imm.toNat>>>(2*c.val))) := by
  unfold state mm_shuffle_epi32
  rw [word_set]
  match c with
  | 0 => rfl
  | 1 => rfl
  | 2 => rfl
  | 3 => rfl

/-- A shuffle that takes the same word everywhere. -/
theorem state_splat (x : M128) {imm : UInt8} {j : Fin 4}
    (h : ∀ c : Fin 4, Fin.ofNat 4 (imm.toNat>>>(2*c.val))=j) (c : Fin 4) :
    state (mm_shuffle_epi32 x imm) c=state x j := by
  rw [state_shuffle,h]

/-- Four words of the key expansion, from the four words eight places before. -/
theorem expansion_four (key : Fin 8 → Column) {i : ℕ} (hi : i%4=0) {x : M128}
    (hx : ∀ c : Fin 4, state x c=keyWord sbox key (i+c)) (c : Fin 4) :
    addWord (state (sl_xor x) c) (expansionTerm sbox i (keyWord sbox key (i+7)))=
      keyWord sbox key (i+8+c) := by
  have hplain : ∀ k, 0<k → k<4 → keyWord sbox key (i+k+8)=
      addWord (keyWord sbox key (i+k)) (keyWord sbox key (i+k+7)) := by
    intro k hk hk'
    rw [keyWord_next,expansionTerm,if_neg (by omega),if_neg (by omega)]
  have h0 := keyWord_next sbox key i
  have h1 := hplain 1 (by omega) (by omega)
  have h2 := hplain 2 (by omega) (by omega)
  have h3 := hplain 3 (by omega) (by omega)
  have hx0 : state x 0=keyWord sbox key i := hx 0
  have hx1 : state x 1=keyWord sbox key (i+1) := hx 1
  have hx2 : state x 2=keyWord sbox key (i+2) := hx 2
  have hx3 : state x 3=keyWord sbox key (i+3) := hx 3
  rw [show i+1+7=i+8 by omega,h0] at h1
  rw [show i+2+7=i+1+8 by omega,h1] at h2
  rw [show i+3+7=i+2+8 by omega,h2] at h3
  rw [state_sl_xor,hx0,hx1,hx2,hx3]
  match c with
  | 0 => exact h0.symm
  | 1 =>
    rw [show i+8+(1 : Fin 4).val=i+1+8 from by omega,h1]
    exact addWord_assoc _ _ _
  | 2 =>
    rw [show i+8+(2 : Fin 4).val=i+2+8 from by omega,h2]
    simp only [Matrix.cons_val,addWord_assoc]
  | 3 =>
    rw [show i+8+(3 : Fin 4).val=i+3+8 from by omega,h3]
    simp only [Matrix.cons_val,addWord_assoc]

/-- A pair of blocks that are the words of the key expansion from a place on. -/
def WordsAt (key : Fin 8 → Column) (i : ℕ) (xout : M128×M128) : Prop :=
  (∀ c : Fin 4, state xout.1 c=keyWord sbox key (i+c)) ∧
    ∀ c : Fin 4, state xout.2 c=keyWord sbox key (i+4+c)

/-- The next two keys are the next eight words. -/
theorem wordsAt_genkey_sub {key : Fin 8 → Column} {n : ℕ} {xout : M128×M128}
    (h : WordsAt key (8*n) xout) :
    WordsAt key (8*(n+1)) (aes_genkey_sub (roundConstant n) xout) := by
  obtain ⟨xout0,xout2⟩ := xout
  obtain ⟨h0,h2⟩ := h
  have hlast : ∀ (x : M128) (rcon : UInt8) (c : Fin 4),
      state (mm_shuffle_epi32 (mm_aeskeygenassist x rcon) 0xFF) c=
        addRcon rcon (rotWord (subWord sbox (state x 3))) := by
    intro x rcon c
    rw [state_splat _ (j:=3) (by decide),mm_aeskeygenassist,state_ofState]
    rfl
  have hthird : ∀ (x : M128) (c : Fin 4),
      state (mm_shuffle_epi32 (mm_aeskeygenassist x 0) 0xAA) c=subWord sbox (state x 3) := by
    intro x c
    rw [state_splat _ (j:=2) (by decide),mm_aeskeygenassist,state_ofState]
    rfl
  have hterm : expansionTerm sbox (8*n) (keyWord sbox key (8*n+7))=
      addRcon (roundConstant n) (rotWord (subWord sbox (state xout2 3))) := by
    rw [expansionTerm,if_pos (by omega),Nat.mul_div_cancel_left _ (by decide),h2]
    rfl
  have hfirst : ∀ c : Fin 4, state (aes_genkey_sub (roundConstant n) (xout0,xout2)).1 c=
      keyWord sbox key (8*(n+1)+c) := by
    intro c
    refine Eq.trans ?_ (expansion_four key (by omega) h0 c)
    rw [hterm,←hlast]
    exact congrFun (state_xor _ _) c
  refine ⟨hfirst,fun c => ?_⟩
  have hterm' : expansionTerm sbox (8*n+4) (keyWord sbox key (8*n+4+7))=
      subWord sbox (state (aes_genkey_sub (roundConstant n) (xout0,xout2)).1 3) := by
    rw [expansionTerm,if_neg (by omega),if_pos (by omega),hfirst]
    rfl
  have hplace : 8*(n+1)+4+c.val=8*n+4+8+c := by omega
  rw [hplace]
  refine Eq.trans ?_ (expansion_four key (by omega) h2 c)
  rw [hterm',←hthird]
  exact congrFun (state_xor _ _) c

/-- The key of eight words that two blocks hold. -/
def keyOf (memory0 memory1 : M128) : Fin 8 → Column :=
  ![state memory0 0,state memory0 1,state memory0 2,state memory0 3,
    state memory1 0,state memory1 1,state memory1 2,state memory1 3]

theorem wordsAt_first (memory0 memory1 : M128) :
    WordsAt (keyOf memory0 memory1) 0 (memory0,memory1) := by
  constructor
  · intro c
    have hword := keyWord_first sbox (keyOf memory0 memory1) (c.castLE (by decide))
    rw [Nat.zero_add]
    refine Eq.trans ?_ hword.symm
    match c with
    | 0 => rfl
    | 1 => rfl
    | 2 => rfl
    | 3 => rfl
  · intro c
    have hword := keyWord_first sbox (keyOf memory0 memory1) (c.natAdd 4)
    refine Eq.trans ?_ hword.symm
    match c with
    | 0 => rfl
    | 1 => rfl
    | 2 => rfl
    | 3 => rfl

/-- The ten keys are the first ten of the key expansion of AES-256, in both versions. -/
theorem aes_genkey_words (SOFT_AES : Bool) (memory0 memory1 : M128) (j : Fin 10) (c : Fin 4) :
    state (aes_genkey SOFT_AES memory0 memory1 j) c=
      keyWord sbox (keyOf memory0 memory1) (4*j+c) := by
  have h0 := wordsAt_first memory0 memory1
  have h1 := wordsAt_genkey_sub (n:=0) h0
  have h2 := wordsAt_genkey_sub h1
  have h3 := wordsAt_genkey_sub h2
  have h4 := wordsAt_genkey_sub h3
  unfold aes_genkey
  simp only [selected_genkey_sub_eq]
  match j with
  | 0 => exact h0.1 c
  | 1 => exact h0.2 c
  | 2 => exact h1.1 c
  | 3 => exact h1.2 c
  | 4 => exact h2.1 c
  | 5 => exact h2.2 c
  | 6 => exact h3.1 c
  | 7 => exact h3.2 c
  | 8 => exact h4.1 c
  | 9 => exact h4.2 c

end Expansion

end XmrigCC.AesKeys
