import XmrigCC.CryptoNight

/-!
# Every lane runs alone

A lane on its own is a machine over its own bytes: it fills them from its hash
state, iterates a step, and reads them back. Accesses of other lanes do not
touch these bytes, so the interleaved loops run each lane's machine unchanged.
-/

namespace XmrigCC.CryptoNightLanes

open CellMemory CryptoNight PartialLoops

/-- What is asked of the mask: offsets are whole blocks of a lane. -/
structure Masked (P : Config) : Prop where
  /-- A multiple of the block size. -/
  aligned : ∀ x : UInt64, P.masked x%16=0
  /-- Room for a block. -/
  room : ∀ x : UInt64, P.masked x+16 ≤ P.MEM

/-- The bytes of lane k, from 0 on. -/
def view (P : Config) (k : ℕ) (m : Cells UInt8) : Cells UInt8 :=
  fun c => if c<P.MEM/16*16 then m (k*P.MEM+c) else 0

/-- One iteration of the main loop on a lane's own bytes. -/
def laneStep (P : Config) : LaneVars×Cells UInt8 → LaneVars×Cells UInt8
  | (v,m) =>
    let cx := P.aesenc (read128 m (P.masked v.idx)) ⟨v.al,v.ah⟩
    let m := write128 m (P.masked v.idx) (v.bx.xor cx)
    let off := P.masked cx.lo
    let cl := read64 m off
    let ch := read64 m (off+8)
    let product := umul128 cx.lo cl
    let al := v.al+product.2
    let ah := v.ah+product.1
    let m := write64 (write64 m off al) (off+8) ah
    (⟨al^^^cl,ah^^^ch,cx,al^^^cl⟩,m)

section Views

variable {P : Config}

/-- A block inside a lane ends inside its whole blocks. -/
theorem room_extent (hP : Masked P) (x : UInt64) : P.masked x+16 ≤ P.MEM/16*16 := by
  have ha := hP.aligned x
  have hr := hP.room x
  omega

theorem view_read (k : ℕ) (m : Cells UInt8) {off n : ℕ} (h : off+n ≤ P.MEM/16*16) :
    slice m (k*P.MEM+off) n=slice (view P k m) off n := by
  apply slice_congr
  intro i hi
  rw [view,if_pos (by omega),Nat.add_assoc]

/-- A store in a lane is a store in its view. -/
theorem view_store_same (k : ℕ) (m : Cells UInt8) {off : ℕ} {xs : List UInt8}
    (h : off+xs.length ≤ P.MEM/16*16) :
    view P k (store m (k*P.MEM+off) xs)=store (view P k m) off xs := by
  funext c
  rw [view]
  by_cases hin : off ≤ c ∧ c<off+xs.length
  · obtain ⟨i,rfl⟩ := Nat.exists_eq_add_of_le hin.1
    have hi : i<xs.length := by omega
    rw [if_pos (by omega),store_inside hi,show k*P.MEM+(off+i)=k*P.MEM+off+i by omega,
      store_inside hi]
  · have hout : store (view P k m) off xs c=view P k m c := store_outside (by omega)
    rw [hout,view]
    split
    · rw [store_outside (by omega)]
    · rfl

/-- A store in another lane is not seen. -/
theorem view_store_other {j k : ℕ} (hjk : j ≠ k) (m : Cells UInt8) {off : ℕ} {xs : List UInt8}
    (h : off+xs.length ≤ P.MEM/16*16) :
    view P k (store m (j*P.MEM+off) xs)=view P k m := by
  funext c
  rw [view,view]
  split
  · rename_i hc
    rw [store_outside]
    rcases Nat.lt_or_gt_of_ne hjk with hlt|hlt
    · have hle : (j+1)*P.MEM ≤ k*P.MEM := Nat.mul_le_mul_right _ hlt
      rw [Nat.succ_mul] at hle
      omega
    · have hle : (k+1)*P.MEM ≤ j*P.MEM := Nat.mul_le_mul_right _ hlt
      rw [Nat.succ_mul] at hle
      omega
  · rfl

/-- A store through a lane's pointer is seen in that lane only. -/
theorem view_store (j k : ℕ) (m : Cells UInt8) {off : ℕ} {xs : List UInt8}
    (h : off+xs.length ≤ P.MEM/16*16) :
    view P k (store m (j*P.MEM+off) xs)=
      if j=k then store (view P k m) off xs else view P k m := by
  split
  · rename_i hjk
    rw [hjk,view_store_same k m h]
  · rename_i hjk
    exact view_store_other hjk m h

end Views

section Accesses

variable {P : Config} (hP : Masked P) (m : Cells UInt8) (k : ℕ) (x : UInt64)

include hP

theorem load128_masked :
    load128 P m (k*P.MEM) (P.masked x)=some (read128 (view P k m) (P.masked x)) := by
  have hx := room_extent hP x
  rw [load128,if_pos (hP.room x),read128,read128,read64,read64,read64,read64,Nat.add_assoc,
    view_read k m (by omega),view_read k m (by omega)]

theorem load64_masked_zero :
    load64 P m (k*P.MEM) (P.masked x) 0=some (read64 (view P k m) (P.masked x)) := by
  have hx := room_extent hP x
  have hr := hP.room x
  rw [load64,if_pos (by omega),read64,read64,Nat.mul_zero,Nat.add_zero,view_read k m (by omega)]

theorem load64_masked_one :
    load64 P m (k*P.MEM) (P.masked x) 1=some (read64 (view P k m) (P.masked x+8)) := by
  have hx := room_extent hP x
  have hr := hP.room x
  rw [load64,if_pos (by omega),read64,read64,Nat.mul_one,view_read k m (by omega)]

theorem store128_masked (v : M128) :
    store128 P m (k*P.MEM) (P.masked x) v=some (write128 m (k*P.MEM+P.masked x) v) := by
  rw [store128,if_pos (hP.room x)]

theorem store64_masked_zero (v : UInt64) :
    store64 P m (k*P.MEM) (P.masked x) 0 v=some (write64 m (k*P.MEM+P.masked x) v) := by
  have hr := hP.room x
  rw [store64,if_pos (by omega),Nat.mul_zero,Nat.add_zero]

theorem store64_masked_one (v : UInt64) :
    store64 P m (k*P.MEM) (P.masked x) 1 v=some (write64 m (k*P.MEM+(P.masked x+8)) v) := by
  have hr := hP.room x
  rw [store64,if_pos (by omega),Nat.mul_one]

theorem view_write128 (j : ℕ) (v : M128) :
    view P k (write128 m (j*P.MEM+P.masked x) v)=
      if j=k then write128 (view P k m) (P.masked x) v else view P k m := by
  have hx := room_extent hP x
  exact view_store j k m hx

theorem view_write64 (j : ℕ) (v : UInt64) :
    view P k (write64 m (j*P.MEM+P.masked x) v)=
      if j=k then write64 (view P k m) (P.masked x) v else view P k m := by
  have hx := room_extent hP x
  exact view_store j k m (by rw [length_le64]; omega)

theorem view_write64_next (j : ℕ) (v : UInt64) :
    view P k (write64 m (j*P.MEM+(P.masked x+8)) v)=
      if j=k then write64 (view P k m) (P.masked x+8) v else view P k m := by
  have hx := room_extent hP x
  exact view_store j k m (by rw [length_le64]; omega)

end Accesses

/-- The loop that fills a lane, on its own bytes. -/
def laneExplodeFrom (P : Config) (k : Fin 10 → M128) :
    ℕ → ℕ → (Fin 8 → M128) → Cells UInt8 → Cells UInt8
  | 0,_,_,m => m
  | n+1,i,x,m => laneExplodeFrom P k n (i+8) (aes_rounds P k x)
    (writeBlocks i (aes_rounds P k x) m)

/-- The bytes a lane is filled with, whatever it held. -/
def laneExplode (P : Config) (h : Words) : Cells UInt8 :=
  laneExplodeFrom P (P.aes_genkey P.SOFT_AES (block h 0) (block h 1)) P.rounds 0
    (fun j => block h (4+j)) (fun _ => 0)

/-- The loop that reads a lane back, on its own bytes. -/
def laneImplodeFrom (P : Config) (k : Fin 10 → M128) (m : Cells UInt8) :
    ℕ → ℕ → (Fin 8 → M128) → Fin 8 → M128
  | 0,_,x => x
  | n+1,i,x => laneImplodeFrom P k m n (i+8)
    (aes_rounds P k fun j => (read128 m (16*(i+j))).xor (x j))

/-- The hash state after reading a lane back. -/
def laneImplode (P : Config) (m : Cells UInt8) (h : Words) : Words :=
  storeState h (laneImplodeFrom P (P.aes_genkey P.SOFT_AES (block h 2) (block h 3)) m P.rounds 0
    (fun j => block h (4+j)))

/-- The variables a lane starts with. -/
def laneStart (h : Words) : LaneVars :=
  ⟨h 0^^^h 4,h 1^^^h 5,⟨h 2^^^h 6,h 3^^^h 7⟩,h 0^^^h 4⟩

/-- The hash of one input, computed on a lane of its own. -/
def laneHash (P : Config) (input : List UInt8) : List UInt8 :=
  let h := P.keccak input (intOf input.length)
  let lane := (laneStep P)^[P.ITERATIONS] (laneStart h,laneExplode P h)
  P.extra (P.keccakf (laneImplode P lane.2 h) 24)

section Scratchpad

variable {P : Config}

theorem store128_room {m : Cells UInt8} {l off : ℕ} {v : M128} (h : off+16 ≤ P.MEM) :
    store128 P m l off v=some (write128 m (l+off) v) := if_pos h

theorem load128_room {m : Cells UInt8} {k off : ℕ} (h : off+16 ≤ P.MEM/16*16) :
    load128 P m (k*P.MEM) off=some (read128 (view P k m) off) := by
  rw [load128,if_pos (by omega),read128,read128,read64,read64,read64,read64,Nat.add_assoc,
    view_read k m (by omega),view_read k m (by omega)]

theorem view_write128_room {m : Cells UInt8} {j k off : ℕ} {v : M128}
    (h : off+16 ≤ P.MEM/16*16) :
    view P k (write128 m (j*P.MEM+off) v)=
      if j=k then write128 (view P k m) off v else view P k m :=
  view_store j k m h

/-- A block stored in a lane is written to its bytes, and to no other lane's. -/
theorem store128_runs {off : ℕ} (h : off+16 ≤ P.MEM/16*16) (b k : ℕ) (v : M128) :
    Runs (fun m => store128 P m (b*P.MEM) off v) (view P k)
      (if b=k then fun m => write128 m off v else id) := by
  intro m
  dsimp only
  rw [store128_room (by omega),Option.map_some,view_write128_room h]
  split <;> rfl

/-- Eight blocks stored in a lane are written to its bytes, and to no other lane's. -/
theorem storeBlocks_runs {i : ℕ} (h : i+8 ≤ P.MEM/16) (b k : ℕ) (x : Fin 8 → M128) :
    Runs (storeBlocks P (b*P.MEM) i x) (view P k) (if b=k then writeBlocks i x else id) := by
  have hstore : ∀ j : Fin 8, Runs (fun m => store128 P m (b*P.MEM) (16*(i+j)) (x j)) (view P k)
      (if b=k then fun m => write128 m (16*(i+j)) (x j) else id) :=
    fun j => store128_runs (by omega) b k (x j)
  have hall := (hstore 0).bind ((hstore 1).bind ((hstore 2).bind ((hstore 3).bind
    ((hstore 4).bind ((hstore 5).bind ((hstore 6).bind (hstore 7)))))))
  by_cases hbk : b=k
  · simp only [if_pos hbk] at hall ⊢
    exact hall
  · simp only [if_neg hbk] at hall ⊢
    exact hall

/-- Eight blocks loaded from a lane are read from its bytes. -/
theorem loadBlocks_eq {i : ℕ} (h : i+8 ≤ P.MEM/16) (k : ℕ) (m : Cells UInt8) :
    loadBlocks P (k*P.MEM) i m=
      some fun j : Fin 8 => read128 (view P k m) (16*(i+j)) := by
  simp (disch := omega) only [loadBlocks,load128_room,Option.bind_eq_bind,Option.bind_some,
    Option.pure_def,Option.some.injEq]
  funext j
  match j with
  | 0 | 1 | 2 | 3 | 4 | 5 | 6 | 7 => rfl

/-- Filling a lane works on its bytes alone. -/
theorem explodeFrom_runs {n i : ℕ} (h : i+8*n ≤ P.MEM/16) (keys : Fin 10 → M128) (b k : ℕ)
    (x : Fin 8 → M128) :
    Runs (explodeFrom P keys (b*P.MEM) n i x) (view P k)
      (if b=k then laneExplodeFrom P keys n i x else id) := by
  apply runs_of_some
  induction n generalizing i x with
  | zero =>
    intro m
    refine ⟨m,rfl,?_⟩
    split <;> rfl
  | succ n ih =>
    intro m
    obtain ⟨m',hm,hv⟩ :=
      (storeBlocks_runs (P:=P) (i:=i) (by omega) b k (aes_rounds P keys x)).some m
    obtain ⟨m'',hm',hw⟩ := ih (i:=i+8) (by omega) (aes_rounds P keys x) m'
    refine ⟨m'',?_,?_⟩
    · rw [explodeFrom,hm]
      exact hm'
    · rw [hw,hv]
      split <;> rfl

/-- Reading a lane back works on its bytes alone. -/
theorem implodeFrom_eq {n i : ℕ} (h : i+8*n ≤ P.MEM/16) (keys : Fin 10 → M128) (k : ℕ)
    (m : Cells UInt8) (x : Fin 8 → M128) :
    implodeFrom P keys (k*P.MEM) m n i x=some (laneImplodeFrom P keys (view P k m) n i x) := by
  induction n generalizing i x with
  | zero => rfl
  | succ n ih =>
    rw [implodeFrom,loadBlocks_eq (by omega)]
    exact ih (by omega) _

/-- Two stores of the same bytes agree where the memories did and where they wrote. -/
theorem store_congr {m m' : Cells UInt8} {a c : ℕ} {xs : List UInt8}
    (h : ¬(a ≤ c ∧ c<a+xs.length) → m c=m' c) : store m a xs c=store m' a xs c := by
  by_cases hin : a ≤ c ∧ c<a+xs.length
  · obtain ⟨i,rfl⟩ := Nat.exists_eq_add_of_le hin.1
    have hi : i<xs.length := by omega
    rw [store_inside hi,store_inside hi]
  · rw [store_outside (by omega),store_outside (by omega),h hin]

/-- Eight blocks written leave nothing of what was there. -/
theorem writeBlocks_congr {i : ℕ} {x : Fin 8 → M128} {m m' : Cells UInt8} {c : ℕ}
    (h : c<16*i ∨ 16*(i+8) ≤ c → m c=m' c) : writeBlocks i x m c=writeBlocks i x m' c := by
  have hlen : ∀ v : M128, (le64 v.lo++le64 v.hi).length=16 := fun _ => rfl
  refine store_congr fun h7 => store_congr fun h6 => store_congr fun h5 => store_congr fun h4 =>
    store_congr fun h3 => store_congr fun h2 => store_congr fun h1 => store_congr fun h0 => h ?_
  rw [hlen] at h0 h1 h2 h3 h4 h5 h6 h7
  omega

/-- A lane filled to its end does not depend on what it held. -/
theorem laneExplodeFrom_congr {n i : ℕ} (keys : Fin 10 → M128) (x : Fin 8 → M128)
    {m m' : Cells UInt8} (h : ∀ c, c<16*i ∨ 16*(i+8*n) ≤ c → m c=m' c) :
    laneExplodeFrom P keys n i x m=laneExplodeFrom P keys n i x m' := by
  induction n generalizing i x m m' with
  | zero =>
    funext c
    exact h c (by omega)
  | succ n ih =>
    rw [laneExplodeFrom,laneExplodeFrom]
    apply ih
    intro c hc
    exact writeBlocks_congr fun hout => h c (by omega)

/-- The loops over a lane's blocks end with the lane. -/
theorem rounds_eq (h : P.MEM/16%8=0) : 8*P.rounds=P.MEM/16 := by
  rw [Config.rounds]
  omega

/-- Exploding a state to a lane fills the lane, and leaves the others alone. -/
theorem cn_explode_scratchpad_lanes (hP : P.MEM/16%8=0) (h : Words) (b : ℕ) (m : Cells UInt8) :
    ∃ m', cn_explode_scratchpad P h (b*P.MEM) m=some m' ∧ view P b m'=laneExplode P h ∧
      ∀ k, b ≠ k → view P k m'=view P k m := by
  have hrounds := rounds_eq hP
  have hruns := fun k => explodeFrom_runs (P:=P) (n:=P.rounds) (i:=0) (by omega)
    (P.aes_genkey P.SOFT_AES (block h 0) (block h 1)) b k (fun j => block h (4+j))
  obtain ⟨m',hm,hv⟩ := (hruns b).some m
  refine ⟨m',hm,?_,?_⟩
  · rw [hv,if_pos rfl,laneExplode]
    apply laneExplodeFrom_congr
    intro c hc
    rw [view,if_neg (by omega)]
  · intro k hk
    obtain ⟨m'',hm',hw⟩ := (hruns k).some m
    rw [hm,Option.some.injEq] at hm'
    rw [hm',hw,if_neg hk,id]

/-- Imploding a lane to a state reads the lane. -/
theorem cn_implode_scratchpad_lane (hP : P.MEM/16%8=0) (m : Cells UInt8) (k : ℕ) (h : Words) :
    cn_implode_scratchpad P m (k*P.MEM) h=some (laneImplode P (view P k m) h) := by
  have hrounds := rounds_eq hP
  rw [cn_implode_scratchpad,implodeFrom_eq (by omega)]
  rfl

end Scratchpad

/-- A lane's variables and its bytes, in the state of an unrolled loop. -/
def laneOf (P : Config) {n : ℕ} (k : Fin n) (s : (Fin n → LaneVars)×Cells UInt8) :
    LaneVars×Cells UInt8 := (s.1 k,view P k s.2)

section Bodies

variable {P : Config} (hP : Masked P)

include hP

theorem body1_runs :
    Runs (body1 P (0*P.MEM)) (fun s => (s.1,view P 0 s.2)) (laneStep P) := by
  rintro ⟨v,m⟩
  simp only [body1,load128_masked hP,store128_masked hP,load64_masked_zero hP,
    load64_masked_one hP,store64_masked_zero hP,store64_masked_one hP,Option.bind_eq_bind,
    Option.bind_some,Option.pure_def,Option.map_some,view_write128 hP,view_write64 hP,
    view_write64_next hP,if_true,laneStep]

theorem body2_runs (k : Fin 2) :
    Runs (body2 P (0*P.MEM) (1*P.MEM)) (laneOf P k) (laneStep P) := by
  rintro ⟨v,m⟩
  simp only [body2,load128_masked hP,store128_masked hP,load64_masked_zero hP,
    load64_masked_one hP,store64_masked_zero hP,store64_masked_one hP,Option.bind_eq_bind,
    Option.bind_some,Option.pure_def,Option.map_some,laneOf,laneStep]
  match k with
  | 0 | 1 =>
    simp +decide only [view_write128 hP,view_write64 hP,view_write64_next hP,if_true,if_false]
    rfl

theorem body3_runs (k : Fin 3) :
    Runs (body3 P (0*P.MEM) (1*P.MEM) (2*P.MEM)) (laneOf P k) (laneStep P) := by
  rintro ⟨v,m⟩
  simp only [body3,load128_masked hP,store128_masked hP,load64_masked_zero hP,
    load64_masked_one hP,store64_masked_zero hP,store64_masked_one hP,Option.bind_eq_bind,
    Option.bind_some,Option.pure_def,Option.map_some,laneOf,laneStep]
  match k with
  | 0 | 1 | 2 =>
    simp +decide only [view_write128 hP,view_write64 hP,view_write64_next hP,if_true,if_false]
    rfl

theorem body4_runs (k : Fin 4) :
    Runs (body4 P (0*P.MEM) (1*P.MEM) (2*P.MEM) (3*P.MEM)) (laneOf P k) (laneStep P) := by
  rintro ⟨v,m⟩
  simp only [body4,load128_masked hP,store128_masked hP,load64_masked_zero hP,
    load64_masked_one hP,store64_masked_zero hP,store64_masked_one hP,Option.bind_eq_bind,
    Option.bind_some,Option.pure_def,Option.map_some,laneOf,laneStep]
  match k with
  | 0 | 1 | 2 | 3 =>
    simp +decide only [view_write128 hP,view_write64 hP,view_write64_next hP,if_true,if_false]
    rfl

theorem body5_runs (k : Fin 5) :
    Runs (body5 P (0*P.MEM) (1*P.MEM) (2*P.MEM) (3*P.MEM) (4*P.MEM)) (laneOf P k) (laneStep P) := by
  rintro ⟨v,m⟩
  simp only [body5,load128_masked hP,store128_masked hP,load64_masked_zero hP,
    load64_masked_one hP,store64_masked_zero hP,store64_masked_one hP,Option.bind_eq_bind,
    Option.bind_some,Option.pure_def,Option.map_some,laneOf,laneStep]
  match k with
  | 0 | 1 | 2 | 3 | 4 =>
    simp +decide only [view_write128 hP,view_write64 hP,view_write64_next hP,if_true,if_false]
    rfl

end Bodies

end XmrigCC.CryptoNightLanes
