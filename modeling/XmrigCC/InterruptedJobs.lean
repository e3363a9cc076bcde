import XmrigCC.NonceRanges

/-!
# Interrupted jobs

A donation job interrupts a pool job: `save` keeps the worker's state, and `resume` brings
it back when the pool job returns. What is kept are pointers to the arrays that the donation
jobs go on to fill, so the nonces and lanes found again are those the last of them left.
-/

namespace XmrigCC.InterruptedJobs

open CellMemory MiningJob MultiWorker MultiWorkerHashing NonceRanges TransitionRuns

/-- A donation job that a worker took up, and its iterations on it. -/
structure Stint where
  /-- The job. -/
  job : PublishedJob
  /-- Passes through the hash loop. -/
  iterations : ℕ

/-- Nonce of a lane at the end of a stint. -/
def Stint.nonce (cfg : Setup) (stint : Stint) (lane : ℕ) : UInt32 :=
  startNonce cfg stint.job.job (nonceAt stint.job.job.m_blob 0) lane+
    UInt32.ofNat stint.iterations

/-- Bytes of a lane then: the blob, with the nonce in it from the first iteration on. -/
def Stint.bytes (cfg : Setup) (stint : Stint) (lane : ℕ) : Cells UInt8 :=
  if stint.iterations=0 then stint.job.job.m_blob
  else store stint.job.job.m_blob nonceOffset (le32 (stint.nonce cfg lane))

/-- A stint covers the lanes as far as its blobs reach. -/
def Stint.cover (cfg : Setup) (stint : Stint) (lanes : Cells UInt8) : Cells UInt8 := fun c =>
  if c<cfg.hashMultiplier*stint.job.job.m_size then
    stint.bytes cfg (c/stint.job.job.m_size) (c%stint.job.job.m_size)
  else lanes c

/-- The stints of an interruption so far. -/
structure Stints where
  /-- The one going on. -/
  last : Stint
  /-- Those before it, latest first. -/
  before : List Stint

/-- An iteration counts for the stint going on; a job begins another one unless it compares
equal to the job worked on. -/
def Stints.step (stints : Stints) : Event → Stints
  | .hash => {stints with last := ⟨stints.last.job,stints.last.iterations+1⟩}
  | .consume job _ =>
    if stints.last.job.job.same job.job then stints
    else ⟨⟨job,0⟩,stints.last::stints.before⟩

/-- The lanes that the stints leave of those they found. -/
def Stints.cover (cfg : Setup) (stints : Stints) (lanes : Cells UInt8) : Cells UInt8 :=
  stints.last.cover cfg (stints.before.foldr (fun stint => stint.cover cfg) lanes)

/-- Events while a worker donates: iterations and jobs of the donation pool. -/
def Donates : Event → Prop
  | .hash => True
  | .consume job _ => job.job.m_poolId=-1

/-- An interruption of the pool job a worker is on, until a pool returns its identifier. -/
structure Interruption (w : Worker) where
  /-- The worker is on the job of a pool. -/
  onPool : 0 ≤ w.state.job.m_poolId
  /-- First donation job. -/
  donation : PublishedJob
  /-- Sequence number read with it. -/
  sequence : UInt64
  /-- It is a job of the donation pool. -/
  donation_pool : donation.job.m_poolId=-1
  /-- It is taken up. -/
  taken : w.state.job.same donation.job=false
  /-- What follows. -/
  events : List Event
  /-- Iterations and further donation jobs. -/
  donates : ∀ e∈events, Donates e
  /-- The job that ends the interruption. -/
  back : PublishedJob
  /-- Sequence number read with it. -/
  backSequence : UInt64
  /-- It comes from a pool. -/
  back_pool : 0 ≤ back.job.m_poolId
  /-- It has the identifier of the saved job. -/
  back_id : back.job.m_id=w.state.job.m_id

/-- The events of an interruption. -/
def Interruption.all {w : Worker} (i : Interruption w) : List Event :=
  .consume i.donation i.sequence::i.events++[.consume i.back i.backSequence]

/-- Its stints. -/
def Interruption.stints {w : Worker} (i : Interruption w) : Stints :=
  runFrom Stints.step ⟨⟨i.donation,0⟩,[]⟩ i.events

/-- A worker is on the job it was on, with the nonces and the lanes it had. -/
structure Undone (cfg : Setup) (w w' : Worker) : Prop where
  /-- Job. -/
  job_eq : w'.state.job=w.state.job
  /-- Nonces. -/
  nonce_eq : ∀ lane<cfg.hashMultiplier, w'.nonces lane=w.nonces lane
  /-- Lanes. -/
  lane_eq : ∀ lane<cfg.hashMultiplier, w'.lane lane=w.lane lane

/-- The stints happen to end with the nonces and the bytes that they found. -/
structure Coincides (cfg : Setup) (w : Worker) (stints : Stints) : Prop where
  /-- Each lane's start in the last donation job, plus its iterations, is the nonce found. -/
  nonce_eq : ∀ lane<cfg.hashMultiplier, stints.last.nonce cfg lane=w.nonces lane
  /-- The bytes written to the lanes are those found. -/
  byte_eq : ∀ lane<cfg.hashMultiplier, ∀ j<w.state.job.m_size,
    stints.cover cfg w.lanes (lane*w.state.job.m_size+j)=w.lanes (lane*w.state.job.m_size+j)

section Lanes

variable (cfg : Setup)

/-- Filling lanes writes nothing above them. -/
theorem fillFrom_above (lane n : ℕ) (w : Worker) {c : ℕ}
    (hc : (lane+n)*w.state.job.m_size ≤ c) : (fillFrom cfg lane n w).lanes c=w.lanes c := by
  induction n generalizing lane w with
  | zero => rfl
  | succ n ih =>
    have hnext : (lane+1+n)*w.state.job.m_size ≤ c := by
      rwa [Nat.add_right_comm,Nat.add_assoc]
    have hlane : (lane+1)*w.state.job.m_size ≤ c :=
      (Nat.mul_le_mul_right _ (by omega)).trans hnext
    rw [Nat.succ_mul] at hlane
    rw [fillFrom,ih (lane+1) (fillLane cfg w lane) hnext,fillLane_lanes,
      store_outside (Or.inr (by rwa [length_slice]))]

/-- A cell below the end of the lanes is in one of them. -/
theorem lane_of_cell {size count c : ℕ} (hsize : 0<size) (hc : c<count*size) :
    c/size<count ∧ c%size<size ∧ c/size*size+c%size=c := by
  refine ⟨Nat.div_lt_of_lt_mul (by rwa [Nat.mul_comm]),Nat.mod_lt c hsize,?_⟩
  rw [Nat.mul_comm]
  exact Nat.div_add_mod c size

theorem blob_room (job : PublishedJob) : nonceOffset+4 ≤ job.job.m_size := by
  have hge := job.size_ge
  simp only [nonceOffset]
  omega

/-- A job that is taken up covers the lanes with its blob. -/
theorem fillFrom_cover (job : PublishedJob) {w : Worker} (hjob : w.state.job=job.job) :
    (fillFrom cfg 0 cfg.hashMultiplier w).lanes=Stint.cover cfg ⟨job,0⟩ w.lanes := by
  have hroom := blob_room job
  funext c
  by_cases hc : c<cfg.hashMultiplier*job.job.m_size
  · obtain ⟨hlane,hj,hsplit⟩ := lane_of_cell (by omega) hc
    have hcell := fillFrom_lanes cfg 0 cfg.hashMultiplier w (l:=c/job.job.m_size)
      ⟨Nat.zero_le _,by omega⟩ (by rwa [hjob])
    rw [hjob,hsplit] at hcell
    exact hcell.trans (if_pos hc).symm
  · have hkeep := fillFrom_above cfg 0 cfg.hashMultiplier w (c:=c)
      (by rw [hjob,Nat.zero_add]; omega)
    exact hkeep.trans (if_neg hc).symm

variable {cfg} {stint : Stint}

/-- Outside the nonce field a lane holds the blob. -/
theorem Stint.bytes_outside {lane j : ℕ} (h : j<nonceOffset ∨ nonceOffset+4 ≤ j) :
    stint.bytes cfg lane j=stint.job.job.m_blob j := by
  rw [Stint.bytes]
  split
  · rfl
  · exact store_outside h

/-- After an iteration the nonce field holds the nonce. -/
theorem Stint.bytes_nonce {lane : ℕ} (h : stint.iterations ≠ 0) :
    slice (stint.bytes cfg lane) nonceOffset 4=le32 (stint.nonce cfg lane) := by
  rw [Stint.bytes,if_neg h]
  exact slice_store_same stint.job.job.m_blob nonceOffset (le32 (stint.nonce cfg lane))

/-- An iteration leaves what a stint of one more iteration leaves. -/
theorem advanceFrom_cover {w : Worker} {old : Cells UInt8}
    (hjob : w.state.job=stint.job.job) (hlanes : w.lanes=stint.cover cfg old)
    (hnonces : ∀ lane<cfg.hashMultiplier, (advanceFrom 0 cfg.hashMultiplier w).nonces lane=
      Stint.nonce cfg ⟨stint.job,stint.iterations+1⟩ lane) :
    (advanceFrom 0 cfg.hashMultiplier w).lanes=
      Stint.cover cfg ⟨stint.job,stint.iterations+1⟩ old := by
  have hroom := blob_room stint.job
  obtain ⟨-,-,-,hframe⟩ := advanceFrom_frame 0 cfg.hashMultiplier w
  rw [hjob] at hframe
  funext c
  by_cases hc : c<cfg.hashMultiplier*stint.job.job.m_size
  · obtain ⟨hlane,hj,hsplit⟩ := lane_of_cell (by omega) hc
    rw [Stint.cover,if_pos hc]
    by_cases hout : c%stint.job.job.m_size<nonceOffset ∨
        nonceOffset+4 ≤ c%stint.job.job.m_size
    · have hkeep := hframe c fun l _ _ => by
        have hcell := outside_nonces (l:=c/stint.job.job.m_size) hroom hj hout l
        rwa [hsplit] at hcell
      rw [hkeep,hlanes,Stint.cover,if_pos hc,Stint.bytes_outside hout,Stint.bytes_outside hout]
    · have hnonce := advanceFrom_nonce 0 cfg.hashMultiplier w (by rwa [hjob])
        (l:=c/stint.job.job.m_size) ⟨Nat.zero_le _,by omega⟩
      rw [hjob,hnonces _ hlane,←Stint.bytes_nonce (Nat.succ_ne_zero _)] at hnonce
      have hcell := cell_eq_of_slice_eq hnonce (c%stint.job.job.m_size-nonceOffset) (by omega)
      rwa [show c/stint.job.job.m_size*stint.job.job.m_size+nonceOffset+
          (c%stint.job.job.m_size-nonceOffset)=c by omega,
        show nonceOffset+(c%stint.job.job.m_size-nonceOffset)=c%stint.job.job.m_size by omega]
        at hcell
  · have hkeep := hframe c fun l _ hl => Or.inr <| by
      have hnext := lane_end_le hroom (Nat.zero_add cfg.hashMultiplier ▸ hl)
      omega
    rw [hkeep,hlanes,Stint.cover,Stint.cover,if_neg hc,if_neg hc]

end Lanes

/-- A worker during the stints that began at a worker: that state is saved, and the arrays
it points to are those the worker still writes. -/
structure Follows (cfg : Setup) (w : Worker) (stints : Stints) (w' : Worker) : Prop where
  /-- The worker is on the last donation job. -/
  job_eq : w'.state.job=stints.last.job.job
  /-- It is a job of the donation pool. -/
  donation_pool : w'.state.job.m_poolId=-1
  /-- The state saved. -/
  paused_eq : w'.paused=w.state
  /-- The pointer to the nonces was not changed. -/
  nonces_kept : w'.state.nonces=w.state.nonces
  /-- Nor was the pointer to the lanes. -/
  blob_kept : w'.state.blob=w.state.blob
  /-- Nonces of the last stint. -/
  nonce_eq : ∀ lane<cfg.hashMultiplier, w'.nonces lane=stints.last.nonce cfg lane
  /-- Lanes that the stints leave. -/
  lanes_eq : w'.lanes=stints.cover cfg w.lanes

/-- A donation job that differs is taken up; the state is saved if it was on a pool job. -/
theorem consumeJob_donation (cfg : Setup) {w : Worker} {job : Job} (hpool : job.m_poolId=-1)
    (hne : w.state.job.same job=false) (sequence : UInt64) :
    consumeJob cfg w job sequence=fillFrom cfg 0 cfg.hashMultiplier
      {w with
        m_sequence := sequence
        paused := if 0 ≤ w.state.job.m_poolId then w.state else w.paused
        state := {w.state with job := job}} := by
  have hno : ∀ v : Worker, ¬Resumes v job := fun v h => by
    have hback := h.2.1
    omega
  by_cases hsave : 0 ≤ w.state.job.m_poolId
  · simp only [consumeJob,hne,Bool.false_eq_true,if_false,save,if_pos (And.intro hpool hsave),
      resume,if_neg (hno _),if_pos hsave]
  · have hnosave : ¬(job.m_poolId=-1 ∧ 0 ≤ w.state.job.m_poolId) := fun h => hsave h.2
    simp only [consumeJob,hne,Bool.false_eq_true,if_false,save,if_neg hnosave,resume,
      if_neg (hno _),if_neg hsave]

section Runs

variable {cfg : Setup} {w w' : Worker} {stints : Stints}

/-- A donation job begins a stint on the arrays of the worker. -/
theorem follows_fillFrom {job : PublishedJob} (hpool : job.job.m_poolId=-1) (sequence : UInt64)
    {before : List Stint} (hnonces : w'.state.nonces=w.state.nonces)
    (hblob : w'.state.blob=w.state.blob)
    (hlanes : w'.lanes=before.foldr (fun stint => stint.cover cfg) w.lanes) :
    Follows cfg w ⟨⟨job,0⟩,before⟩ (fillFrom cfg 0 cfg.hashMultiplier
      {w' with m_sequence := sequence,paused := w.state,state := {w'.state with job := job.job}})
    := by
  have hroom := blob_room job
  obtain ⟨hstate,hpaused,-⟩ := fillFrom_frame cfg 0 cfg.hashMultiplier
    {w' with m_sequence := sequence,paused := w.state,state := {w'.state with job := job.job}}
  refine ⟨?_,?_,hpaused,?_,?_,?_,?_⟩
  · rw [hstate]
  · rw [hstate]
    exact hpool
  · rw [hstate]
    exact hnonces
  · rw [hstate]
    exact hblob
  · intro lane hlane
    rw [fillFrom_nonces cfg 0 cfg.hashMultiplier hroom,if_pos (by omega),Stint.nonce]
    exact (UInt32.add_zero _).symm
  · rw [fillFrom_cover cfg job rfl,Stints.cover,←hlanes]
    rfl

/-- An event of the interruption is followed by the stints. -/
theorem follows_step (h : Follows cfg w stints w') {e : Event} (he : Donates e) :
    Follows cfg w (stints.step e) (step cfg w' e) := by
  cases e with
  | hash =>
    obtain ⟨hstate,hpaused,-⟩ := advanceFrom_frame 0 cfg.hashMultiplier w'
    have hnonces : ∀ lane<cfg.hashMultiplier,
        (advanceFrom 0 cfg.hashMultiplier w').nonces lane=
          Stint.nonce cfg ⟨stints.last.job,stints.last.iterations+1⟩ lane := by
      intro lane hlane
      rw [advanceFrom_nonces,if_pos (by omega),h.nonce_eq lane hlane,Stint.nonce,Stint.nonce,
        UInt32.ofNat_add,UInt32.add_assoc]
      rfl
    simp only [step,hashOnce]
    refine ⟨?_,?_,hpaused.trans h.paused_eq,?_,?_,hnonces,
      advanceFrom_cover h.job_eq h.lanes_eq hnonces⟩
    · rw [hstate]
      exact h.job_eq
    · rw [hstate]
      exact h.donation_pool
    · rw [hstate]
      exact h.nonces_kept
    · rw [hstate]
      exact h.blob_kept
  | consume job sequence =>
    have hpool : job.job.m_poolId=-1 := he
    rw [step,Stints.step,←h.job_eq]
    cases hsame : w'.state.job.same job.job with
    | true =>
      rw [if_pos rfl,show consumeJob cfg w' job.job sequence={w' with m_sequence := sequence} by
        simp only [consumeJob,hsame,if_true]]
      exact ⟨h.job_eq,h.donation_pool,h.paused_eq,h.nonces_kept,h.blob_kept,h.nonce_eq,
        h.lanes_eq⟩
    | false =>
      have hnosave : ¬0 ≤ w'.state.job.m_poolId := by
        rw [h.donation_pool]
        decide
      rw [if_neg Bool.false_ne_true,consumeJob_donation cfg hpool hsame,if_neg hnosave,
        h.paused_eq]
      exact follows_fillFrom hpool sequence h.nonces_kept h.blob_kept h.lanes_eq

/-- The events of the interruption are followed by its stints. -/
theorem follows_runFrom {events : List Event} (h : Follows cfg w stints w')
    (hdonates : ∀ e∈events, Donates e) :
    Follows cfg w (runFrom Stints.step stints events) (runFrom (step cfg) w' events) := by
  induction events generalizing stints w' with
  | nil => exact h
  | cons e events ih =>
    exact ih (follows_step h (hdonates e List.mem_cons_self))
      fun e' he' => hdonates e' (List.mem_cons_of_mem e he')

/-- From the first donation job on the worker is followed by the stints. -/
theorem Interruption.follows (cfg : Setup) (i : Interruption w) :
    Follows cfg w i.stints
      (runFrom (step cfg) (consumeJob cfg w i.donation.job i.sequence) i.events) := by
  apply follows_runFrom _ i.donates
  rw [consumeJob_donation cfg i.donation_pool i.taken,if_pos i.onPool]
  exact follows_fillFrom i.donation_pool i.sequence rfl rfl rfl

/-- What the resumed worker holds is what the stints left. -/
theorem Follows.resumed (h : Follows cfg w stints w') (sequence : UInt64) :
    Undone cfg w {w' with m_sequence := sequence,state := w'.paused} ↔
      Coincides cfg w stints := by
  have hnonces : ({w' with m_sequence := sequence,state := w'.paused} : Worker).nonces=
      w'.nonces := by
    rw [Worker.nonces,Worker.nonces,h.nonces_kept,h.paused_eq]
  have hlanes : ({w' with m_sequence := sequence,state := w'.paused} : Worker).lanes=
      stints.cover cfg w.lanes := by
    rw [Worker.lanes,h.paused_eq,←h.blob_kept]
    exact h.lanes_eq
  constructor
  · intro hundone
    refine ⟨fun lane hlane => ?_,fun lane hlane j hj => ?_⟩
    · rw [←h.nonce_eq lane hlane,←hnonces]
      exact hundone.nonce_eq lane hlane
    · have hlane_eq := hundone.lane_eq lane hlane
      rw [Worker.lane,Worker.lane,hlanes,h.paused_eq] at hlane_eq
      exact cell_eq_of_slice_eq hlane_eq j hj
  · intro hcoincides
    refine ⟨congrArg State.job h.paused_eq,fun lane hlane => ?_,fun lane hlane => ?_⟩
    · rw [hnonces,h.nonce_eq lane hlane]
      exact hcoincides.nonce_eq lane hlane
    · rw [Worker.lane,Worker.lane,hlanes,h.paused_eq]
      exact slice_congr fun j hj => hcoincides.byte_eq lane hlane j hj

end Runs

/-- Resuming a pool job. After a donation job, iterations and further donation jobs a job
with the saved identifier brings the job, the nonces and the lanes back exactly when it is not
taken for the last donation job and the donation jobs happened to leave what they found. -/
theorem resume_undoes_iff (cfg : Setup) {w : Worker} (i : Interruption w) :
    Undone cfg w (runFrom (step cfg) w i.all) ↔
      i.stints.last.job.job.same i.back.job=false ∧ Coincides cfg w i.stints := by
  have hfollows := i.follows cfg
  rw [Interruption.all,List.cons_append,runFrom_cons,runFrom_append,runFrom_cons,runFrom_nil]
  simp only [step]
  rw [←hfollows.job_eq]
  rcases consumeJob_cases cfg _ i.back.job i.backSequence with
    ⟨hsame,heq⟩|⟨hsame,-,heq⟩|⟨hsame,hno,-⟩
  · rw [heq,hsame]
    refine iff_of_false (fun h => ?_) (fun h => Bool.noConfusion h.1)
    have hpool := congrArg Job.m_poolId h.job_eq
    have hdonation := hfollows.donation_pool
    have hon := i.onPool
    dsimp only at hpool
    omega
  · rw [heq,and_iff_right hsame]
    exact hfollows.resumed i.backSequence
  · refine absurd ⟨hfollows.donation_pool,i.back_pool,?_⟩ hno
    rw [hfollows.paused_eq]
    exact i.back_id

/-- A worker with one lane after an iteration on a pool job of zero bytes. -/
def poolWorker : Worker :=
  runFrom (step oneLane) newWorker [.consume (uniformJob 0 [1] 0) 1,.hash]

theorem poolWorker_onPool : 0 ≤ poolWorker.state.job.m_poolId := by decide +kernel

theorem poolWorker_takes :
    poolWorker.state.job.same (uniformJob (-1) [2] 1).job=false := by decide +kernel

theorem uniformJob_id : (uniformJob 0 [1] 0).job.m_id=poolWorker.state.job.m_id := by
  decide +kernel

theorem iterations_donate : ∀ e∈[Event.hash,.hash], Donates e := by
  intro e he
  simp only [List.mem_cons,List.not_mem_nil,or_false,or_self] at he
  rw [he]
  trivial

/-- Two iterations on a donation job of other bytes. -/
def twoDonated : Interruption poolWorker where
  onPool := poolWorker_onPool
  donation := uniformJob (-1) [2] 1
  sequence := 2
  donation_pool := rfl
  taken := poolWorker_takes
  events := [.hash,.hash]
  donates := iterations_donate
  back := uniformJob 0 [1] 0
  backSequence := 3
  back_pool := le_refl 0
  back_id := uniformJob_id

/-- The pool job goes on from nonce 2, which it has not hashed, on the donation job's bytes. -/
theorem twoDonated_not_undone :
    ¬Undone oneLane poolWorker (runFrom (step oneLane) poolWorker twoDonated.all) := by
  intro h
  have hnonce := h.nonce_eq 0 (by decide)
  exact absurd hnonce (by decide +kernel)

end XmrigCC.InterruptedJobs
