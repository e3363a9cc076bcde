import XmrigCC.MiningJob

/-!
# The hashing worker

`MultiWorker` keeps two `State` objects. Each holds its job by value and its
nonces and lane blobs through pointers, and assigning one to the other copies
the pointers: afterwards both name the same arrays. Arrays therefore live in a
heap of allocations here, and a `State` holds the numbers of its two arrays.
-/

namespace XmrigCC.MultiWorker

open CellMemory MiningJob

/-- A job that a pool client publishes: its blob was accepted by `Job::setBlob`. -/
structure PublishedJob where
  /-- The job itself. -/
  job : Job
  /-- Smallest accepted blob. -/
  size_ge : 76 ≤ job.m_size
  /-- Largest accepted blob. -/
  size_lt : job.m_size<blobSize

/-- What a worker is constructed with. -/
structure Setup where
  /-- Lanes hashed at once, `m_hashMultiplier`. -/
  hashMultiplier : ℕ
  /-- Thread number, `m_id`. -/
  id : ℕ
  /-- Number of threads, `m_threads`. -/
  threads : ℕ
  /-- `Mem::hashFactor()`. -/
  hashFactor : ℕ
  /-- The 32 bytes that `CryptoNight::hash` writes for one lane. -/
  cryptonight : List UInt8 → List UInt8

/-- `MultiWorker::State`: the job, and the allocations its pointers lead to. -/
structure State where
  /-- Job held by value. -/
  job : Job
  /-- `uint32_t *nonces`. -/
  nonces : ℕ
  /-- `uint8_t *blob`. -/
  blob : ℕ

/-- The worker with the arrays allocated for its states. -/
structure Worker where
  /-- `*m_state`. -/
  state : State
  /-- `*m_pausedState`. -/
  paused : State
  /-- Contents of every nonce array. -/
  nonceHeap : ℕ → Cells UInt32
  /-- Contents of every lane array. -/
  blobHeap : ℕ → Cells UInt8
  /-- `m_sequence`, the sequence number read with the last job. -/
  m_sequence : UInt64

/-- The nonces that `m_state` points to. -/
def Worker.nonces (w : Worker) : Cells UInt32 := w.nonceHeap w.state.nonces

/-- The lanes that `m_state` points to. -/
def Worker.lanes (w : Worker) : Cells UInt8 := w.blobHeap w.state.blob

/-- Write the array of nonces that `m_state` points to. -/
def Worker.setNonces (w : Worker) (m : Cells UInt32) : Worker :=
  {w with nonceHeap := Function.update w.nonceHeap w.state.nonces m}

/-- Write the array of lanes that `m_state` points to. -/
def Worker.setLanes (w : Worker) (m : Cells UInt8) : Worker :=
  {w with blobHeap := Function.update w.blobHeap w.state.blob m}

/-- The constructor: two states with arrays of their own, nonces zeroed and lanes not. -/
def Worker.new (garbage pausedGarbage : Cells UInt8) (old : ℕ → Cells UInt8) : Worker where
  state := ⟨Job.new garbage (-2) false,0,0⟩
  paused := ⟨Job.new pausedGarbage (-2) false,1,1⟩
  nonceHeap _ _ := 0
  blobHeap := old
  m_sequence := 0

/-- First nonce of a lane, before the increment of the first iteration. -/
def startNonce (cfg : Setup) (job : Job) (laneNonce : UInt32) (lane : ℕ) : UInt32 :=
  if job.m_nicehash then
    UInt32.ofNat ((laneNonce&&&0xff000000).toNat+
      0xffffff/(cfg.threads*cfg.hashFactor)*(cfg.id+lane*cfg.threads))
  else
    UInt32.ofNat (0xffffffff/(cfg.threads*cfg.hashFactor)*(cfg.id+lane*cfg.threads))

/-- The loop body of `consumeJob`: copy the blob to a lane and set its first nonce. -/
def fillLane (cfg : Setup) (w : Worker) (lane : ℕ) : Worker :=
  let size := w.state.job.m_size
  let w := w.setLanes (store w.lanes (lane*size) (slice w.state.job.m_blob 0 size))
  w.setNonces (Function.update w.nonces lane
    (startNonce cfg w.state.job (nonceAt w.lanes (lane*size)) lane))

/-- The loop of `consumeJob`: from a lane on, as many as remain. -/
def fillFrom (cfg : Setup) : ℕ → ℕ → Worker → Worker
  | _,0,w => w
  | lane,n+1,w => fillFrom cfg (lane+1) n (fillLane cfg w lane)

/-- `MultiWorker::save`: the implicit assignment copies the job and both pointers. -/
def save (w : Worker) (job : Job) : Worker :=
  if job.m_poolId=-1 ∧ 0 ≤ w.state.job.m_poolId then {w with paused := w.state} else w

/-- The test of `MultiWorker::resume`. -/
def Resumes (w : Worker) (job : Job) : Prop :=
  w.state.job.m_poolId=-1 ∧ 0 ≤ job.m_poolId ∧ job.m_id=w.paused.job.m_id

instance (w : Worker) (job : Job) : Decidable (Resumes w job) :=
  inferInstanceAs (Decidable (_ ∧ _ ∧ _))

/-- `MultiWorker::resume`: the saved state back, or none when the test fails. -/
def resume (w : Worker) (job : Job) : Option Worker :=
  if Resumes w job then some {w with state := w.paused} else none

/-- `MultiWorker::consumeJob` with the job and the sequence number it reads. -/
def consumeJob (cfg : Setup) (w : Worker) (job : Job) (sequence : UInt64) : Worker :=
  let w := {w with m_sequence := sequence}
  if w.state.job.same job then w
  else
    let w := save w job
    match resume w job with
    | some w => w
    | none =>
      fillFrom cfg 0 cfg.hashMultiplier {w with state := {w.state with job := job}}

/-- The loop body `*Job::nonce(blob + i * size) = ++nonces[i]`. -/
def advanceLane (w : Worker) (lane : ℕ) : Worker :=
  let w := w.setNonces (Function.update w.nonces lane (w.nonces lane+1))
  w.setLanes (store w.lanes (lane*w.state.job.m_size+nonceOffset) (le32 (w.nonces lane)))

/-- The loop over the lanes: from a lane on, as many as remain. -/
def advanceFrom : ℕ → ℕ → Worker → Worker
  | _,0,w => w
  | lane,n+1,w => advanceFrom (lane+1) n (advanceLane w lane)

/-- `JobResult`, a share found by a worker. -/
structure JobResult where
  /-- Pool of the job. -/
  poolId : ℤ
  /-- Identifier of the job. -/
  jobId : JobId
  /-- Nonce of the lane. -/
  nonce : UInt32
  /-- Hash of the lane. -/
  result : List UInt8
  /-- Difficulty of the job. -/
  diff : ℕ

/-- One iteration of the hash loop: the data hashed and the shares submitted. -/
structure HashReport where
  /-- Worker after the iteration. -/
  worker : Worker
  /-- Bytes that `CryptoNight::hash` is given for each lane. -/
  inputs : List (List UInt8)
  /-- Results passed to `Workers::submit`. -/
  results : List JobResult

/-- The bytes of a lane. -/
def Worker.lane (w : Worker) (lane : ℕ) : List UInt8 :=
  slice w.lanes (lane*w.state.job.m_size) w.state.job.m_size

/-- The share of a lane, when its hash is below the target. -/
def shareOf (cfg : Setup) (w : Worker) (lane : ℕ) : Option JobResult :=
  let hash := cfg.cryptonight (w.lane lane)
  if leValue ((hash.drop 24).take 8)<w.state.job.m_target then
    some ⟨w.state.job.m_poolId,w.state.job.m_id,w.nonces lane,hash,w.state.job.diff⟩
  else none

/-- The body of the loop `while (!Workers::isOutdated(m_sequence))`. -/
def hashOnce (cfg : Setup) (w : Worker) : HashReport :=
  let w := advanceFrom 0 cfg.hashMultiplier w
  ⟨w,(List.range cfg.hashMultiplier).map w.lane,
    (List.range cfg.hashMultiplier).filterMap (shareOf cfg w)⟩

/-- What happens to a running worker. -/
inductive Event where
  /-- `consumeJob` reads this job and this sequence number. -/
  | consume (job : PublishedJob) (sequence : UInt64)
  /-- One iteration of the hash loop. -/
  | hash

/-- The worker after an event. -/
def step (cfg : Setup) (w : Worker) : Event → Worker
  | .consume job sequence => consumeJob cfg w job.job sequence
  | .hash => (hashOnce cfg w).worker

section Arrays

variable (cfg : Setup) (w : Worker) (lane : ℕ)

@[simp] theorem fillLane_state : (fillLane cfg w lane).state=w.state := rfl

@[simp] theorem fillLane_lanes :
    (fillLane cfg w lane).lanes=store w.lanes (lane*w.state.job.m_size)
      (slice w.state.job.m_blob 0 w.state.job.m_size) :=
  Function.update_self _ _ _

@[simp] theorem advanceLane_state : (advanceLane w lane).state=w.state := rfl

@[simp] theorem advanceLane_nonces :
    (advanceLane w lane).nonces=Function.update w.nonces lane (w.nonces lane+1) :=
  Function.update_self _ _ _

@[simp] theorem advanceLane_lanes :
    (advanceLane w lane).lanes=store w.lanes (lane*w.state.job.m_size+nonceOffset)
      (le32 (w.nonces lane+1)) := by
  have hn : (w.setNonces (Function.update w.nonces lane (w.nonces lane+1))).nonces lane=
      w.nonces lane+1 := by
    rw [Worker.nonces,Worker.setNonces]
    dsimp only
    rw [Function.update_self,Function.update_self]
  rw [advanceLane,hn]
  exact Function.update_self _ _ _

end Arrays

/-- Lanes of at least a nonce's extent follow each other without overlap. -/
theorem lane_end_le {size extent : ℕ} (h : extent ≤ size) {l k : ℕ} (hlk : l<k) :
    l*size+extent ≤ k*size := by
  calc
    l*size+extent ≤ l*size+size := Nat.add_le_add_left h _
    _ = (l+1)*size := (Nat.succ_mul l size).symm
    _ ≤ k*size := Nat.mul_le_mul_right size hlk

/-- Filling the lanes keeps both states and every cell outside the lanes filled. -/
theorem fillFrom_frame (cfg : Setup) (lane n : ℕ) (w : Worker) :
    (fillFrom cfg lane n w).state=w.state ∧ (fillFrom cfg lane n w).paused=w.paused ∧
    ∀ c, c<lane*w.state.job.m_size → (fillFrom cfg lane n w).lanes c=w.lanes c := by
  induction n generalizing lane w with
  | zero => exact ⟨rfl,rfl,fun _ _ => rfl⟩
  | succ n ih =>
    obtain ⟨hs,hp,hl⟩ := ih (lane+1) (fillLane cfg w lane)
    rw [fillFrom]
    refine ⟨hs,hp,?_⟩
    intro c hc
    have hstep : lane*w.state.job.m_size ≤ (lane+1)*w.state.job.m_size :=
      Nat.mul_le_mul_right _ (Nat.le_succ lane)
    rw [hl c (by rw [fillLane_state]; omega),fillLane_lanes,store_outside (Or.inl hc)]

/-- Every lane filled holds the blob of the job. -/
theorem fillFrom_lanes (cfg : Setup) (lane n : ℕ) (w : Worker) {l j : ℕ}
    (hl : lane ≤ l ∧ l<lane+n) (hj : j<w.state.job.m_size) :
    (fillFrom cfg lane n w).lanes (l*w.state.job.m_size+j)=w.state.job.m_blob j := by
  induction n generalizing lane w with
  | zero => omega
  | succ n ih =>
    rw [fillFrom]
    by_cases he : l=lane
    · subst he
      have hnext : l*w.state.job.m_size+j<(l+1)*w.state.job.m_size :=
        lane_end_le (Nat.succ_le_of_lt hj) (Nat.lt_succ_self l)
      have hlen : j<(slice w.state.job.m_blob 0 w.state.job.m_size).length := by
        rwa [length_slice]
      rw [(fillFrom_frame cfg (l+1) n (fillLane cfg w l)).2.2 _ hnext,fillLane_lanes,
        store_inside hlen,getElem_slice,Nat.zero_add]
    · exact ih (lane+1) (fillLane cfg w lane) (by omega) hj

/-- Advancing the nonces keeps both states and the nonces of other lanes, and changes
only the nonce fields of the lanes. -/
theorem advanceFrom_frame (lane n : ℕ) (w : Worker) :
    (advanceFrom lane n w).state=w.state ∧ (advanceFrom lane n w).paused=w.paused ∧
    (∀ l, l<lane → (advanceFrom lane n w).nonces l=w.nonces l) ∧
    ∀ c, (∀ l, lane ≤ l → l<lane+n →
        c<l*w.state.job.m_size+nonceOffset ∨ l*w.state.job.m_size+nonceOffset+4 ≤ c) →
      (advanceFrom lane n w).lanes c=w.lanes c := by
  induction n generalizing lane w with
  | zero => exact ⟨rfl,rfl,fun _ _ => rfl,fun _ _ => rfl⟩
  | succ n ih =>
    obtain ⟨hs,hp,hn,hl⟩ := ih (lane+1) (advanceLane w lane)
    rw [advanceFrom]
    refine ⟨hs,hp,?_,?_⟩
    · intro l hlt
      rw [hn l (by omega),advanceLane_nonces,Function.update_of_ne (by omega)]
    · intro c hc
      rw [hl c (fun l hge hlt => hc l (by omega) (by omega)),advanceLane_lanes,
        store_outside (hc lane (le_refl lane) (by omega))]

/-- After the loop each lane's nonce field holds the lane's nonce. -/
theorem advanceFrom_nonce (lane n : ℕ) (w : Worker)
    (hsize : nonceOffset+4 ≤ w.state.job.m_size) {l : ℕ} (hl : lane ≤ l ∧ l<lane+n) :
    slice (advanceFrom lane n w).lanes (l*w.state.job.m_size+nonceOffset) 4=
      le32 ((advanceFrom lane n w).nonces l) := by
  induction n generalizing lane w with
  | zero => omega
  | succ n ih =>
    rw [advanceFrom]
    by_cases he : l=lane
    · subst he
      obtain ⟨-,-,hn,hcells⟩ := advanceFrom_frame (l+1) n (advanceLane w l)
      have hkeep : slice (advanceFrom (l+1) n (advanceLane w l)).lanes
          (l*w.state.job.m_size+nonceOffset) 4=
          slice (advanceLane w l).lanes (l*w.state.job.m_size+nonceOffset) 4 := by
        apply slice_congr
        intro k hk
        apply hcells
        intro l' hge _
        have hnext := lane_end_le hsize (Nat.lt_of_succ_le hge)
        rw [advanceLane_state]
        exact Or.inl (by omega)
      have hsame := slice_store_same w.lanes (l*w.state.job.m_size+nonceOffset)
        (le32 (w.nonces l+1))
      rw [length_le32] at hsame
      rw [hkeep,hn l (Nat.lt_succ_self l),advanceLane_lanes,advanceLane_nonces,hsame,
        Function.update_self]
    · exact ih (lane+1) (advanceLane w lane) hsize (by omega)

end XmrigCC.MultiWorker
