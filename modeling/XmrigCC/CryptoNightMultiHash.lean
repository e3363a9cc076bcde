import XmrigCC.CryptoNightLanes

/-!
# Several lanes hash as one

Each specialisation of `CryptoNightMultiHash` keeps every access inside its lane
and writes, lane by lane, the hash that the lane computes alone. The loops that
fill and read a lane go in steps of eight blocks, so this asks that a lane have
a multiple of eight, and a context has hash states for at most five lanes.
-/

namespace XmrigCC.CryptoNightMultiHash

open CellMemory CryptoNight PartialLoops CryptoNightLanes
open CpuTuning (MAX_NUM_HASH_BLOCKS)

/-- The hash states that keccak computes for the lanes. -/
def keccaks (P : Config) (input : Cells UInt8) (size k : ℕ) : Words :=
  P.keccak (slice input (k*size) size) (intOf size)

/-- The first lanes hold what their hash states fill them with. -/
def Filled (P : Config) (h : ℕ → Words) (n : ℕ) (m : Cells UInt8) : Prop :=
  ∀ k<n, view P k m=laneExplode P (h k)

/-- Exploding the next state fills the next lane. -/
theorem filled_next {P : Config} (hP : P.MEM/16%8=0) {h : ℕ → Words} {n : ℕ} {m : Cells UInt8}
    (hm : Filled P h n m) :
    ∃ m', cn_explode_scratchpad P (h n) (n*P.MEM) m=some m' ∧ Filled P h (n+1) m' := by
  obtain ⟨m',he,hv,ho⟩ := cn_explode_scratchpad_lanes hP (h n) n m
  refine ⟨m',he,?_⟩
  intro k hk
  by_cases hnk : n=k
  · rw [←hnk,hv]
  · rw [ho k hnk,hm k (by omega)]

/-- The bytes of a lane after the main loop. -/
def laneResult (P : Config) (h : Words) : Cells UInt8 :=
  ((laneStep P)^[P.ITERATIONS] (laneStart h,laneExplode P h)).2

/-- The main loop on filled lanes leaves every lane as it would leave it alone. -/
theorem loop_lanes {P : Config} {n : ℕ} [NeZero n]
    {body : (Fin n → LaneVars)×Cells UInt8 → Option ((Fin n → LaneVars)×Cells UInt8)}
    (hbody : ∀ k, Runs body (laneOf P k) (laneStep P)) {h : ℕ → Words} {m : Cells UInt8}
    (hm : Filled P h n m) (start : Fin n → LaneVars) (hstart : ∀ k, start k=laneStart (h k)) :
    ∃ s, iterate body P.ITERATIONS (start,m)=some s ∧
      ∀ k<n, view P k s.2=laneResult P (h k) := by
  obtain ⟨s,hs,hv⟩ := runs_all (fun k => runs_iterate (hbody k) P.ITERATIONS) (start,m)
  refine ⟨s,hs,?_⟩
  intro k hk
  have hlane := congrArg Prod.snd (hv ⟨k,hk⟩)
  have hfirst : laneOf P ⟨k,hk⟩ (start,m)=(laneStart (h k),laneExplode P (h k)) := by
    rw [laneOf,←hm k hk,←hstart ⟨k,hk⟩]
  rw [hfirst] at hlane
  exact hlane

/-- What a version writes for a lane. -/
def laneOutput (P : Config) (input : Cells UInt8) (size k : ℕ) : List UInt8 :=
  P.extra (P.keccakf (laneImplode P (laneResult P (keccaks P input size k))
    (keccaks P input size k)) 24)

/-- What a version writes for a lane is the hash of the lane's input. -/
theorem laneHash_eq (P : Config) (input : Cells UInt8) (size k : ℕ) :
    laneHash P (slice input (k*size) size)=laneOutput P input size k := by
  rw [laneHash,length_slice]
  rfl

/-- The hashes stored at `output + 32 * k` are apart. -/
theorem slice_store_output (P : Config) {m : Cells UInt8} {h : Words} {a b : ℕ}
    (hab : a=b ∨ a+32 ≤ b ∨ b+32 ≤ a) :
    slice (store m a (P.extra h)) b 32=if a=b then P.extra h else slice m b 32 := by
  have hlen : (P.extra h).length=32 := by rw [Config.extra,Vector.length_toList]
  split
  · rename_i he
    subst he
    have hsame := slice_store_same m a (P.extra h)
    rwa [hlen] at hsame
  · rename_i hne
    apply slice_store_apart
    rw [hlen]
    omega

/-- A call writes, for each of its lanes, the hash of the lane's input. -/
def WritesHashes (P : Config) (input : Cells UInt8) (size n : ℕ) (result : Option Report) : Prop :=
  ∃ r, result=some r ∧
    ∀ k<n, slice r.output (32*k) 32=laneHash P (slice input (k*size) size)

/-- The hashes of the first lanes, stored one behind the other. -/
def storedHashes (P : Config) (input : Cells UInt8) (size : ℕ) (output : Cells UInt8) :
    ℕ → Cells UInt8
  | 0 => output
  | n+1 => store (storedHashes P input size output n) (32*n) (laneOutput P input size n)

/-- Hashes stored one behind the other are the hashes to be written. -/
theorem writesHashes_of_stored {P : Config} {input : Cells UInt8} {size : ℕ}
    (output : Cells UInt8) {n : ℕ} {r : Report}
    (h : r.output=storedHashes P input size output n) :
    WritesHashes P input size n (some r) := by
  refine ⟨r,rfl,?_⟩
  intro k hk
  rw [h,laneHash_eq]
  clear h
  induction n with
  | zero => omega
  | succ n ih =>
    rw [storedHashes,laneOutput,slice_store_output P (by omega)]
    by_cases hkn : k=n
    · rw [if_pos (by omega),hkn,laneOutput]
    · rw [if_neg (by omega)]
      exact ih (by omega)

/-- A lane's variables and its bytes, in the state of the n-loop version. -/
def arrayLane (P : Config) (k : ℕ) (s : Arrays×Cells UInt8) : LaneVars×Cells UInt8 :=
  (⟨s.1.al k,s.1.ah k,s.1.bx k,s.1.idx k⟩,view P k s.2)

section Hashes

variable {P : Config} (hP : Masked P) (hMEM : P.MEM/16%8=0) (input : Cells UInt8) (size : ℕ)
  (output : Cells UInt8) (ctx : Ctx)

include hP hMEM

theorem hash1_lanes : WritesHashes P input size 1 (hash1 P input size output ctx) := by
  obtain ⟨m0,he0,hf0⟩ := filled_next hMEM (h:=keccaks P input size) (n:=0) (m:=ctx.memory) nofun
  obtain ⟨⟨v,m⟩,hloop,hv⟩ := (runs_iterate (body1_runs hP) P.ITERATIONS).some
    (laneStart (keccaks P input size 0),m0)
  have hresult : view P 0 m=laneResult P (keccaks P input size 0) := by
    rw [hf0 0 (by decide)] at hv
    exact congrArg Prod.snd hv
  have hi0 := cn_implode_scratchpad_lane hMEM m 0 (keccaks P input size 0)
  rw [hresult] at hi0
  simp only [keccaks,laneStart,Nat.zero_mul] at he0 hi0 hloop
  simp only [hash1,he0,hloop,hi0,Option.bind_eq_bind,Option.bind_some,
    Option.pure_def]
  apply writesHashes_of_stored output
  simp only [storedHashes,laneOutput,keccaks,Nat.zero_mul,Nat.mul_zero]

theorem hash2_lanes : WritesHashes P input size 2 (hash2 P input size output ctx) := by
  obtain ⟨m0,he0,hf0⟩ := filled_next hMEM (h:=keccaks P input size) (n:=0) (m:=ctx.memory) nofun
  obtain ⟨m1,he1,hf1⟩ := filled_next hMEM (n:=1) hf0
  obtain ⟨⟨v,m⟩,hloop,hv⟩ := loop_lanes (body2_runs hP) hf1
    ![laneStart (keccaks P input size 0),laneStart (keccaks P input size 1)]
    (fun k => match k with | 0 | 1 => rfl)
  have hi0 := cn_implode_scratchpad_lane hMEM m 0 (keccaks P input size 0)
  have hi1 := cn_implode_scratchpad_lane hMEM m 1 (keccaks P input size 1)
  rw [hv _ (by decide)] at hi0 hi1
  simp only [keccaks,laneStart,Nat.zero_mul,Nat.one_mul] at he0 he1 hi0 hi1 hloop
  simp only [hash2,he0,he1,hloop,hi0,hi1,
    Option.bind_eq_bind,Option.bind_some,Option.pure_def]
  apply writesHashes_of_stored output
  simp only [storedHashes,laneOutput,keccaks,Nat.zero_mul,Nat.one_mul,Nat.mul_zero,Nat.reduceMul]

theorem hash3_lanes : WritesHashes P input size 3 (hash3 P input size output ctx) := by
  obtain ⟨m0,he0,hf0⟩ := filled_next hMEM (h:=keccaks P input size) (n:=0) (m:=ctx.memory) nofun
  obtain ⟨m1,he1,hf1⟩ := filled_next hMEM (n:=1) hf0
  obtain ⟨m2,he2,hf2⟩ := filled_next hMEM (n:=2) hf1
  obtain ⟨⟨v,m⟩,hloop,hv⟩ := loop_lanes (body3_runs hP) hf2
    ![laneStart (keccaks P input size 0),laneStart (keccaks P input size 1),
      laneStart (keccaks P input size 2)]
    (fun k => match k with | 0 | 1 | 2 => rfl)
  have hi0 := cn_implode_scratchpad_lane hMEM m 0 (keccaks P input size 0)
  have hi1 := cn_implode_scratchpad_lane hMEM m 1 (keccaks P input size 1)
  have hi2 := cn_implode_scratchpad_lane hMEM m 2 (keccaks P input size 2)
  rw [hv _ (by decide)] at hi0 hi1 hi2
  simp only [keccaks,laneStart,Nat.zero_mul,Nat.one_mul] at he0 he1 he2 hi0 hi1 hi2 hloop
  simp only [hash3,he0,he1,he2,hloop,hi0,hi1,hi2,
    Option.bind_eq_bind,Option.bind_some,Option.pure_def]
  apply writesHashes_of_stored output
  simp only [storedHashes,laneOutput,keccaks,Nat.zero_mul,Nat.one_mul,Nat.mul_zero,Nat.reduceMul]

theorem hash4_lanes : WritesHashes P input size 4 (hash4 P input size output ctx) := by
  obtain ⟨m0,he0,hf0⟩ := filled_next hMEM (h:=keccaks P input size) (n:=0) (m:=ctx.memory) nofun
  obtain ⟨m1,he1,hf1⟩ := filled_next hMEM (n:=1) hf0
  obtain ⟨m2,he2,hf2⟩ := filled_next hMEM (n:=2) hf1
  obtain ⟨m3,he3,hf3⟩ := filled_next hMEM (n:=3) hf2
  obtain ⟨⟨v,m⟩,hloop,hv⟩ := loop_lanes (body4_runs hP) hf3
    ![laneStart (keccaks P input size 0),laneStart (keccaks P input size 1),
      laneStart (keccaks P input size 2),laneStart (keccaks P input size 3)]
    (fun k => match k with | 0 | 1 | 2 | 3 => rfl)
  have hi0 := cn_implode_scratchpad_lane hMEM m 0 (keccaks P input size 0)
  have hi1 := cn_implode_scratchpad_lane hMEM m 1 (keccaks P input size 1)
  have hi2 := cn_implode_scratchpad_lane hMEM m 2 (keccaks P input size 2)
  have hi3 := cn_implode_scratchpad_lane hMEM m 3 (keccaks P input size 3)
  rw [hv _ (by decide)] at hi0 hi1 hi2 hi3
  simp only [keccaks,laneStart,Nat.zero_mul,Nat.one_mul] at he0 he1 he2 he3 hi0 hi1 hi2 hi3 hloop
  simp only [hash4,he0,he1,he2,he3,hloop,hi0,hi1,hi2,hi3,
    Option.bind_eq_bind,Option.bind_some,Option.pure_def]
  apply writesHashes_of_stored output
  simp only [storedHashes,laneOutput,keccaks,Nat.zero_mul,Nat.one_mul,Nat.mul_zero,Nat.reduceMul]

theorem hash5_lanes : WritesHashes P input size 5 (hash5 P input size output ctx) := by
  obtain ⟨m0,he0,hf0⟩ := filled_next hMEM (h:=keccaks P input size) (n:=0) (m:=ctx.memory) nofun
  obtain ⟨m1,he1,hf1⟩ := filled_next hMEM (n:=1) hf0
  obtain ⟨m2,he2,hf2⟩ := filled_next hMEM (n:=2) hf1
  obtain ⟨m3,he3,hf3⟩ := filled_next hMEM (n:=3) hf2
  obtain ⟨m4,he4,hf4⟩ := filled_next hMEM (n:=4) hf3
  obtain ⟨⟨v,m⟩,hloop,hv⟩ := loop_lanes (body5_runs hP) hf4
    ![laneStart (keccaks P input size 0),laneStart (keccaks P input size 1),
      laneStart (keccaks P input size 2),laneStart (keccaks P input size 3),
      laneStart (keccaks P input size 4)]
    (fun k => match k with | 0 | 1 | 2 | 3 | 4 => rfl)
  have hi0 := cn_implode_scratchpad_lane hMEM m 0 (keccaks P input size 0)
  have hi1 := cn_implode_scratchpad_lane hMEM m 1 (keccaks P input size 1)
  have hi2 := cn_implode_scratchpad_lane hMEM m 2 (keccaks P input size 2)
  have hi3 := cn_implode_scratchpad_lane hMEM m 3 (keccaks P input size 3)
  have hi4 := cn_implode_scratchpad_lane hMEM m 4 (keccaks P input size 4)
  rw [hv _ (by decide)] at hi0 hi1 hi2 hi3 hi4
  simp only [keccaks,laneStart,Nat.zero_mul,
    Nat.one_mul] at he0 he1 he2 he3 he4 hi0 hi1 hi2 hi3 hi4 hloop
  simp only [hash5,he0,he1,he2,he3,he4,hloop,hi0,hi1,hi2,hi3,hi4,
    Option.bind_eq_bind,Option.bind_some,Option.pure_def]
  apply writesHashes_of_stored output
  simp only [storedHashes,laneOutput,keccaks,Nat.zero_mul,Nat.one_mul,Nat.mul_zero,Nat.reduceMul]

omit hMEM in
/-- The inner body for a block steps the block's lane. -/
theorem bodyN_runs (b k : ℕ) :
    Runs (bodyN P (fun hashBlock => hashBlock*P.MEM) b) (arrayLane P k)
      (if b=k then laneStep P else id) := by
  rintro ⟨a,m⟩
  simp only [bodyN,load128_masked hP,store128_masked hP,load64_masked_zero hP,
    load64_masked_one hP,store64_masked_zero hP,store64_masked_one hP,Option.bind_eq_bind,
    Option.bind_some,Option.pure_def,Option.map_some,arrayLane,Function.update_self,
    view_write128 hP,view_write64 hP,view_write64_next hP,Function.update_idem]
  by_cases hbk : b=k
  · subst hbk
    simp only [if_true,Function.update_self,laneStep]
  · simp only [if_neg hbk,Function.update_of_ne (Ne.symm hbk),id]

omit hP hMEM in
/-- A state of a context is read and written at its number. -/
theorem read_eq (state : States) {b : ℕ} (hb : b<MAX_NUM_HASH_BLOCKS) :
    state.read b=some (state ⟨b,hb⟩) := dif_pos hb

omit hP hMEM in
theorem write_eq (state : States) {b : ℕ} (hb : b<MAX_NUM_HASH_BLOCKS) (w : Words) :
    state.write b w=some (Function.update state ⟨b,hb⟩ w) := dif_pos hb

omit hP hMEM in
/-- Keccak of a block goes to the block's state. -/
theorem keccakN_runs {b : ℕ} (hb : b<MAX_NUM_HASH_BLOCKS) (k : Fin MAX_NUM_HASH_BLOCKS) :
    Runs (keccakN P input size b) (fun state => state k)
      (if b=k then fun _ => keccaks P input size k else id) := by
  intro state
  rw [keccakN,write_eq state hb,Option.map_some]
  by_cases hbk : b=k
  · subst hbk
    rw [if_pos rfl]
    exact congrArg some (Function.update_self k _ state)
  · have hne : k ≠ ⟨b,hb⟩ := fun h => hbk (congrArg Fin.val h).symm
    rw [if_neg hbk,Function.update_of_ne hne,id]

omit hP in
/-- The start of a block fills the block's lane and sets its variables. -/
theorem startN_runs (h : States) {b : ℕ} (hb : b<MAX_NUM_HASH_BLOCKS) (k : ℕ) :
    Runs (startN P (fun hashBlock => hashBlock*P.MEM) h b) (arrayLane P k)
      (if b=k then fun _ => (laneStart (h ⟨b,hb⟩),laneExplode P (h ⟨b,hb⟩)) else id) := by
  apply runs_of_some
  rintro ⟨a,m⟩
  obtain ⟨m',he,hv,ho⟩ := cn_explode_scratchpad_lanes hMEM (h ⟨b,hb⟩) b m
  simp only [startN,read_eq h hb,he,Option.bind_eq_bind,Option.bind_some,Option.pure_def]
  refine ⟨_,rfl,?_⟩
  by_cases hbk : b=k
  · subst hbk
    simp only [if_true,arrayLane,Function.update_self,hv,laneStart]
  · simp only [if_neg hbk,arrayLane,Function.update_of_ne (Ne.symm hbk),ho k hbk,id]

omit hP in
/-- The end of a block reads the block's lane and writes its hash. -/
theorem finishN_runs (m : Cells UInt8) {b : ℕ} (hb : b<MAX_NUM_HASH_BLOCKS)
    (k : Fin MAX_NUM_HASH_BLOCKS) :
    Runs (finishN P (fun hashBlock => hashBlock*P.MEM) m b)
      (fun s => (s.1 k,slice s.2 (32*k) 32))
      (if b=k then fun s => (P.keccakf (laneImplode P (view P k m) s.1) 24,
        P.extra (P.keccakf (laneImplode P (view P k m) s.1) 24)) else id) := by
  rintro ⟨h,out⟩
  simp only [finishN,read_eq h hb,write_eq h hb,cn_implode_scratchpad_lane hMEM,
    Option.bind_eq_bind,Option.bind_some,Option.pure_def,Option.map_some]
  by_cases hbk : b=k
  · subst hbk
    rw [slice_store_output P (by omega),if_pos (by omega),if_pos rfl,Function.update_self]
  · have hne : k ≠ ⟨b,hb⟩ := fun h => hbk (congrArg Fin.val h).symm
    rw [slice_store_output P (by omega),if_neg (by omega),if_neg hbk,
      Function.update_of_ne hne,id]

/-- The loop over as many blocks as a context has states for. -/
theorem hashN_lanes {n : ℕ} (hn : n ≤ MAX_NUM_HASH_BLOCKS) (a : Arrays) :
    WritesHashes P input size n (hashN P n a input size output ctx) := by
  obtain ⟨state,hkeccak,hv0⟩ := runs_all (fun k : Fin MAX_NUM_HASH_BLOCKS => runs_forBelow (n:=n)
    (fun _ => by
      have hr := keccakN_runs (P:=P) input size k.isLt k
      rwa [if_pos rfl] at hr)
    (fun i hi hik => by
      have hr := keccakN_runs (P:=P) input size (hi.trans_le hn) k
      rwa [if_neg hik] at hr)) ctx.state
  have hstate : ∀ {k : ℕ} (hk : k<n), state ⟨k,hk.trans_le hn⟩=keccaks P input size k := by
    intro k hk
    have hset := hv0 ⟨k,hk.trans_le hn⟩
    rwa [if_pos hk] at hset
  obtain ⟨⟨a1,m1⟩,hstart,hv1⟩ := runs_all (fun k => runs_forBelow (n:=n) (k:=k)
    (g:=fun _ => (laneStart (keccaks P input size k),laneExplode P (keccaks P input size k)))
    (fun hk => by
      have hr := startN_runs hMEM state (hk.trans_le hn) k
      rwa [if_pos rfl,hstate hk] at hr)
    (fun i hi hik => by
      have hr := startN_runs hMEM state (hi.trans_le hn) k
      rwa [if_neg hik] at hr)) (a,ctx.memory)
  obtain ⟨⟨a2,m2⟩,hloop,hv2⟩ := runs_all (fun k => runs_iterate (runs_forBelow (n:=n)
    (fun _ => by
      have hr := bodyN_runs hP k k
      rwa [if_pos rfl] at hr)
    (fun i _ hik => by
      have hr := bodyN_runs hP i k
      rwa [if_neg hik] at hr)) P.ITERATIONS) (a1,m1)
  obtain ⟨⟨state',out⟩,hfinish,hv3⟩ := runs_all (fun k : Fin MAX_NUM_HASH_BLOCKS =>
    runs_forBelow (n:=n)
    (fun _ => by
      have hr := finishN_runs hMEM m2 k.isLt k
      rwa [if_pos rfl] at hr)
    (fun i hi hik => by
      have hr := finishN_runs hMEM m2 (hi.trans_le hn) k
      rwa [if_neg hik] at hr)) (state,output)
  refine ⟨⟨⟨state',m2⟩,out⟩,?_,?_⟩
  · simp only [hashN,Option.bind_eq_bind,Option.pure_def]
    rw [hkeccak,Option.bind_some,hstart,Option.bind_some,hloop,Option.bind_some,hfinish,
      Option.bind_some]
  · intro k hk
    have hlane := hv1 k
    rw [if_pos hk] at hlane
    have hresult := hv2 k
    rw [if_pos hk,hlane] at hresult
    have hview : view P k m2=laneResult P (keccaks P input size k) := congrArg Prod.snd hresult
    have hout := congrArg Prod.snd (hv3 ⟨k,hk.trans_le hn⟩)
    rw [if_pos hk] at hout
    dsimp only at hout
    rw [hview,hstate hk] at hout
    rw [laneHash_eq,laneOutput,hout]

omit hP hMEM in
/-- The loop over more blocks writes behind the states of the context. -/
theorem hashN_none {n : ℕ} (hn : MAX_NUM_HASH_BLOCKS<n) (a : Arrays) :
    hashN P n a input size output ctx=none := by
  have hbehind : ∀ state : States,
      keccakN P input size MAX_NUM_HASH_BLOCKS state=none := fun state => by
    rw [keccakN,States.write,dif_neg (Nat.lt_irrefl _)]
  rw [hashN,forBelow_none hbehind hn]
  rfl

end Hashes

/-- The versions for several lanes; the loop starts with whatever its arrays hold. -/
inductive Version where
  /-- The specialisation for two lanes. -/
  | two
  /-- The specialisation for three lanes. -/
  | three
  /-- The specialisation for four lanes. -/
  | four
  /-- The specialisation for five lanes. -/
  | five
  /-- The n-loop version, for as many lanes as a context has states. -/
  | loop (NUM_HASH_BLOCKS : ℕ) (fits : NUM_HASH_BLOCKS ≤ MAX_NUM_HASH_BLOCKS) (a : Arrays)

/-- Lanes a version hashes. -/
def Version.lanes : Version → ℕ
  | .two => 2
  | .three => 3
  | .four => 4
  | .five => 5
  | .loop NUM_HASH_BLOCKS _ _ => NUM_HASH_BLOCKS

/-- The `hash` of a version. -/
def Version.hash (P : Config) : Version → Cells UInt8 → ℕ → Cells UInt8 → Ctx → Option Report
  | .two => hash2 P
  | .three => hash3 P
  | .four => hash4 P
  | .five => hash5 P
  | .loop NUM_HASH_BLOCKS _ a => hashN P NUM_HASH_BLOCKS a

/-- A version's call keeps every access in its lane, as does the one-block version on each
lane's input, and both write the same hash. -/
def EqualsSingleLane (P : Config) (version : Version) (input : Cells UInt8) (size : ℕ)
    (output : Cells UInt8) (ctx : Ctx) : Prop :=
  ∃ r, version.hash P input size output ctx=some r ∧
    ∀ k<version.lanes, ∀ output1 ctx1,
      ∃ r1, hash1 P (fun c => input (k*size+c)) size output1 ctx1=some r1 ∧
        slice r.output (32*k) 32=slice r1.output 0 32

/-- Every version writes for its lanes what the one-block version writes for their inputs,
when a lane has a multiple of eight blocks. -/
theorem equals_single_lane {P : Config} (hP : Masked P) (hMEM : P.MEM/16%8=0)
    (version : Version) (input : Cells UInt8) (size : ℕ) (output : Cells UInt8) (ctx : Ctx) :
    EqualsSingleLane P version input size output ctx := by
  have hmany : WritesHashes P input size version.lanes
      (version.hash P input size output ctx) := by
    cases version with
    | two => exact hash2_lanes hP hMEM input size output ctx
    | three => exact hash3_lanes hP hMEM input size output ctx
    | four => exact hash4_lanes hP hMEM input size output ctx
    | five => exact hash5_lanes hP hMEM input size output ctx
    | loop n hn a => exact hashN_lanes hP hMEM input size output ctx hn a
  obtain ⟨r,hr,hlanes⟩ := hmany
  refine ⟨r,hr,?_⟩
  intro k hk output1 ctx1
  obtain ⟨r1,hr1,hlane⟩ := hash1_lanes hP hMEM (fun c => input (k*size+c)) size output1 ctx1
  have hinput : slice (fun c => input (k*size+c)) (0*size) size=slice input (k*size) size := by
    apply slice_congr
    intro i _
    rw [Nat.zero_mul,Nat.zero_add]
  have hone := hlane 0 (by decide)
  rw [hinput] at hone
  exact ⟨r1,hr1,(hlanes k hk).trans hone.symm⟩

/-- A mask of whole blocks, with room for a block behind the last. -/
theorem masked_of_mask {P : Config} (haligned : P.MASK.toNat%16=0)
    (hroom : P.MASK.toNat+16 ≤ P.MEM) : Masked P := by
  have hand : ∀ x : UInt64, P.masked x=x.toNat&&&P.MASK.toNat := fun x => UInt64.toNat_and x P.MASK
  constructor
  · intro x
    rw [hand,show 16=2^4 by decide,Nat.and_mod_two_pow,show 2^4=16 by decide,haligned,
      Nat.and_zero]
  · intro x
    rw [hand]
    exact (Nat.add_le_add_right Nat.and_le_right 16).trans hroom

/-- Parameters with functions that return their first argument or zeros. -/
def plainConfig (iterations mem : ℕ) (mask : UInt64) : Config where
  ITERATIONS := iterations
  MEM := mem
  MASK := mask
  SOFT_AES := false
  soft_aesenc x _ := x
  mm_aesenc x _ := x
  aes_genkey _ x _ _ := x
  keccak _ _ _ := 0
  keccakf h _ := h
  extra_hashes _ _ := Vector.replicate 32 0

/-- The sizes of the full algorithm: five lanes of two megabytes. -/
theorem equals_single_lane_full :
    Masked (plainConfig 0x80000 2097152 0x1FFFF0) ∧ 2097152/16%8=0 ∧
    EqualsSingleLane (plainConfig 0x80000 2097152 0x1FFFF0) .five (fun _ => 1) 76 (fun _ => 0)
      ⟨fun _ _ => 0,fun _ => 0⟩ := by
  have hmask : Masked (plainConfig 0x80000 2097152 0x1FFFF0) :=
    masked_of_mask (by decide) (by decide)
  exact ⟨hmask,by decide,equals_single_lane hmask (by decide) .five _ 76 _ _⟩

/-- With lanes of a single block the loop that fills a lane leaves it. -/
theorem single_block_leaves_lane :
    ¬∀ (P : Config) (version : Version) (input : Cells UInt8) (size : ℕ) (output : Cells UInt8)
      (ctx : Ctx), Masked P → EqualsSingleLane P version input size output ctx := by
  intro h
  obtain ⟨r,hr,-⟩ := h (plainConfig 1 16 0) .two (fun _ => 0) 0 (fun _ => 0)
    ⟨fun _ _ => 0,fun _ => 0⟩ (masked_of_mask (by decide) (by decide))
  have hnone : hash2 (plainConfig 1 16 0) (fun _ => 0) 0 (fun _ => 0)
      ⟨fun _ _ => 0,fun _ => 0⟩=none := rfl
  rw [Version.hash,hnone] at hr
  cases hr

end XmrigCC.CryptoNightMultiHash
