import XmrigCC.MultiWorker
import XmrigCC.TransitionRuns

/-!
# What a worker hashes

The data of a hash call must be the blob of the worker's current job, with the
nonce of the lane. Everything except `resume` establishes or keeps this: it
brings back the saved job and the saved pointers, while the arrays they lead to
have been filled for the job in between.
-/

namespace XmrigCC.MultiWorkerHashing

open CellMemory MiningJob MultiWorker TransitionRuns

/-- The blob of a job with its nonce field replaced: what a lane is meant to hash. -/
def withNonce (job : Job) (nonce : UInt32) : List UInt8 :=
  slice (store job.m_blob nonceOffset (le32 nonce)) 0 job.m_size

/-- A hash call made now is about the current job: each lane's input is its blob with
the lane's nonce, and each share submitted names that job and that nonce. -/
structure HashCallRight (cfg : Setup) (w : Worker) : Prop where
  /-- Inputs of the call, lane by lane. -/
  inputs_eq : (hashOnce cfg w).inputs=(List.range cfg.hashMultiplier).map
    (fun lane => withNonce w.state.job ((hashOnce cfg w).worker.nonces lane))
  /-- Shares submitted after the call. -/
  shares_right : ∀ share∈(hashOnce cfg w).results,
    share.poolId=w.state.job.m_poolId ∧ share.jobId=w.state.job.m_id ∧
    share.result=cfg.cryptonight (withNonce w.state.job share.nonce)

/-- Lanes that hold a job's blob outside their nonce fields. -/
def LanesHold (lanes : Cells UInt8) (job : Job) (count : ℕ) : Prop :=
  ∀ lane<count, ∀ j<job.m_size, (j<nonceOffset ∨ nonceOffset+4 ≤ j) →
    lanes (lane*job.m_size+j)=job.m_blob j

instance (lanes : Cells UInt8) (job : Job) (count : ℕ) : Decidable (LanesHold lanes job count) :=
  inferInstanceAs (Decidable (∀ lane<count, ∀ j<job.m_size, _ → _))

/-- Sizes a worker's job can have: none yet, or room for a nonce. -/
def SizeOk (job : Job) : Prop := job.m_size=0 ∨ nonceOffset+4 ≤ job.m_size

/-- Both jobs of a worker have such a size. -/
def SizesOk (w : Worker) : Prop := SizeOk w.state.job ∧ SizeOk w.paused.job

/-- Cells of a lane outside its nonce field are in no nonce field at all. -/
theorem outside_nonces {size l j : ℕ} (hsize : nonceOffset+4 ≤ size) (hj : j<size)
    (hout : j<nonceOffset ∨ nonceOffset+4 ≤ j) (k : ℕ) :
    l*size+j<k*size+nonceOffset ∨ k*size+nonceOffset+4 ≤ l*size+j := by
  rcases Nat.lt_trichotomy l k with h|h|h
  · have hnext := lane_end_le (le_refl size) h
    exact Or.inl (by omega)
  · subst h
    omega
  · have hprev := lane_end_le hsize h
    exact Or.inr (by omega)

/-- Advancing the nonces changes nothing else in the lanes. -/
theorem lanesHold_advance (w : Worker) (hsize : SizeOk w.state.job) (count : ℕ) :
    LanesHold (advanceFrom 0 count w).lanes w.state.job count ↔
      LanesHold w.lanes w.state.job count := by
  unfold LanesHold
  apply forall_congr'
  intro lane
  apply forall_congr'
  intro hlane
  apply forall_congr'
  intro j
  apply forall_congr'
  intro hj
  apply forall_congr'
  intro hout
  have hroom : nonceOffset+4 ≤ w.state.job.m_size := hsize.resolve_left (by omega)
  rw [(advanceFrom_frame 0 count w).2.2.2 _
    (fun k _ _ => outside_nonces hroom hj hout k)]

/-- A lane after the loop is the blob with the lane's nonce exactly when it held the
blob outside the nonce field. -/
theorem lane_eq_withNonce_iff (w : Worker) (hsize : nonceOffset+4 ≤ w.state.job.m_size)
    {count lane : ℕ} (hlane : lane<count) :
    (advanceFrom 0 count w).lane lane=
        withNonce w.state.job ((advanceFrom 0 count w).nonces lane) ↔
      ∀ j<w.state.job.m_size, (j<nonceOffset ∨ nonceOffset+4 ≤ j) →
        (advanceFrom 0 count w).lanes (lane*w.state.job.m_size+j)=w.state.job.m_blob j := by
  have hnonce := cell_eq_of_slice_eq ((advanceFrom_nonce 0 count w hsize ⟨Nat.zero_le lane,
    by omega⟩).trans (slice_store_same w.state.job.m_blob nonceOffset
      (le32 ((advanceFrom 0 count w).nonces lane))).symm)
  have hout : ∀ j, (j<nonceOffset ∨ nonceOffset+4 ≤ j) →
      store w.state.job.m_blob nonceOffset (le32 ((advanceFrom 0 count w).nonces lane)) j=
        w.state.job.m_blob j := fun j hj => store_outside hj
  rw [Worker.lane,(advanceFrom_frame 0 count w).1,withNonce]
  constructor
  · intro h j hj hjout
    have hc := cell_eq_of_slice_eq h j hj
    rw [hc,Nat.zero_add,hout j hjout]
  · intro h
    apply slice_congr
    intro j hj
    rw [Nat.zero_add]
    by_cases hjout : j<nonceOffset ∨ nonceOffset+4 ≤ j
    · rw [h j hj hjout,hout j hjout]
    · have hn := hnonce (j-nonceOffset) (by omega)
      rwa [show lane*w.state.job.m_size+nonceOffset+(j-nonceOffset)=
        lane*w.state.job.m_size+j by omega,show nonceOffset+(j-nonceOffset)=j by omega] at hn

/-- A hash call is about the current job exactly when the lanes hold its blob. -/
theorem hashCallRight_iff (cfg : Setup) {w : Worker} (hsize : SizeOk w.state.job) :
    HashCallRight cfg w ↔ LanesHold w.lanes w.state.job cfg.hashMultiplier := by
  have hstate := (advanceFrom_frame 0 cfg.hashMultiplier w).1
  have hlanes : (∀ lane<cfg.hashMultiplier, (advanceFrom 0 cfg.hashMultiplier w).lane lane=
      withNonce w.state.job ((advanceFrom 0 cfg.hashMultiplier w).nonces lane)) ↔
      LanesHold w.lanes w.state.job cfg.hashMultiplier := by
    rw [←lanesHold_advance w hsize cfg.hashMultiplier]
    rcases hsize with h0|hroom
    · refine iff_of_true ?_ ?_
      · intro lane _
        rw [Worker.lane,withNonce,hstate,h0,slice_zero,slice_zero]
      · intro lane _ j hj
        omega
    · apply forall_congr'
      intro lane
      apply forall_congr'
      intro hlane
      exact lane_eq_withNonce_iff w hroom hlane
  rw [←hlanes]
  constructor
  · intro h lane hlane
    exact List.map_inj_left.mp h.inputs_eq lane (List.mem_range.mpr hlane)
  · intro h
    refine ⟨List.map_congr_left fun lane hm => h lane (List.mem_range.mp hm),?_⟩
    intro share hshare
    obtain ⟨lane,hm,hs⟩ := List.mem_filterMap.mp hshare
    unfold shareOf at hs
    dsimp only at hs
    split at hs
    · rw [Option.some.injEq] at hs
      subst hs
      dsimp only
      rw [hstate,h lane (List.mem_range.mp hm)]
      exact ⟨rfl,rfl,rfl⟩
    · cases hs

/-- What `consumeJob` does: keep a job it takes to be the same, go back to the paused
state, or fill the lanes of the current arrays for the new job. -/
theorem consumeJob_cases (cfg : Setup) (w : Worker) (job : Job) (sequence : UInt64) :
    (w.state.job.same job=true ∧ consumeJob cfg w job sequence={w with m_sequence := sequence}) ∨
    (w.state.job.same job=false ∧ Resumes w job ∧
      consumeJob cfg w job sequence={w with m_sequence := sequence,state := w.paused}) ∨
    (w.state.job.same job=false ∧ ¬Resumes w job ∧
      ∃ paused, (paused=w.paused ∨ paused=w.state) ∧
        consumeJob cfg w job sequence=fillFrom cfg 0 cfg.hashMultiplier
          {w with m_sequence := sequence,paused := paused,state := {w.state with job := job}}) := by
  cases hsame : w.state.job.same job with
  | true =>
    refine Or.inl ⟨rfl,?_⟩
    simp only [consumeJob,hsame,if_true]
  | false =>
    refine Or.inr ?_
    by_cases hr : Resumes w job
    · refine Or.inl ⟨rfl,hr,?_⟩
      have hnosave : ¬(job.m_poolId=-1 ∧ 0 ≤ w.state.job.m_poolId) := by
        have hp := hr.2.1
        omega
      have hr' : Resumes {w with m_sequence := sequence} job := hr
      simp only [consumeJob,hsame,Bool.false_eq_true,if_false,save,if_neg hnosave,resume,
        if_pos hr']
    · refine Or.inr ⟨rfl,hr,?_⟩
      by_cases hsave : job.m_poolId=-1 ∧ 0 ≤ w.state.job.m_poolId
      · have hr' : ¬Resumes {w with m_sequence := sequence,paused := w.state} job :=
          fun h => by
            have hp := h.2.1
            omega
        refine ⟨w.state,Or.inr rfl,?_⟩
        simp only [consumeJob,hsame,Bool.false_eq_true,if_false,save,if_pos hsave,resume,
          if_neg hr']
      · have hr' : ¬Resumes {w with m_sequence := sequence} job := hr
        refine ⟨w.paused,Or.inl rfl,?_⟩
        simp only [consumeJob,hsame,Bool.false_eq_true,if_false,save,if_neg hsave,resume,
          if_neg hr']

/-- Where `consumeJob` resumes the paused state, the arrays that state points to still
hold its blob. -/
def ResumeFindsLanes (cfg : Setup) (w : Worker) : Event → Prop
  | .hash => True
  | .consume job _ => w.state.job.same job.job=false → Resumes w job.job →
    LanesHold (w.blobHeap w.paused.blob) w.paused.job cfg.hashMultiplier

/-- Every event keeps the sizes of both jobs. -/
theorem step_sizesOk (cfg : Setup) {w : Worker} (h : SizesOk w) (e : Event) :
    SizesOk (step cfg w e) := by
  cases e with
  | hash =>
    obtain ⟨hs,hp,-,-⟩ := advanceFrom_frame 0 cfg.hashMultiplier w
    unfold SizesOk
    simp only [step,hashOnce,hs,hp]
    exact h
  | consume job sequence =>
    have hnew : SizeOk job.job := by
      have hge := job.size_ge
      exact Or.inr (by simp only [nonceOffset]; omega)
    rw [step]
    rcases consumeJob_cases cfg w job.job sequence with ⟨-,he⟩|⟨-,-,he⟩|⟨-,-,paused,hp,he⟩
    · rw [he]
      exact h
    · rw [he]
      exact ⟨h.2,h.2⟩
    · obtain ⟨hfs,hfp,-⟩ := fillFrom_frame cfg 0 cfg.hashMultiplier
        {w with m_sequence := sequence,paused := paused,state := {w.state with job := job.job}}
      rw [he,SizesOk,hfs,hfp]
      rcases hp with rfl|rfl
      · exact ⟨hnew,h.2⟩
      · exact ⟨hnew,h.1⟩

/-- From a worker that hashes its job, an event leads to one that does exactly when a
resumption finds its lanes. -/
theorem step_hashCallRight_iff (cfg : Setup) {w : Worker} (h : SizesOk w)
    (hw : HashCallRight cfg w) (e : Event) :
    HashCallRight cfg (step cfg w e) ↔ ResumeFindsLanes cfg w e := by
  have hnext := step_sizesOk cfg h e
  have hlanes := (hashCallRight_iff cfg h.1).mp hw
  rw [hashCallRight_iff cfg hnext.1]
  cases e with
  | hash =>
    refine iff_of_true ?_ trivial
    simp only [step,hashOnce,(advanceFrom_frame 0 cfg.hashMultiplier w).1]
    exact (lanesHold_advance w h.1 cfg.hashMultiplier).mpr hlanes
  | consume job sequence =>
    rw [step]
    rcases consumeJob_cases cfg w job.job sequence with
      ⟨hsame,he⟩|⟨hsame,hr,he⟩|⟨hsame,hr,paused,-,he⟩
    · refine iff_of_true (by rw [he]; exact hlanes) ?_
      intro hne
      rw [hsame] at hne
      cases hne
    · rw [he]
      exact ⟨fun hl _ _ => hl,fun hl => hl hsame hr⟩
    · refine iff_of_true ?_ (fun _ hres => absurd hres hr)
      rw [he,(fillFrom_frame _ _ _ _).1]
      intro lane hlane j hj _
      exact fillFrom_lanes cfg 0 cfg.hashMultiplier
        {w with m_sequence := sequence,paused := paused,state := {w.state with job := job.job}}
        ⟨Nat.zero_le lane,by omega⟩ hj

/-- A worker without a job hashes no data. -/
theorem hashCallRight_new (cfg : Setup) (garbage pausedGarbage : Cells UInt8)
    (old : ℕ → Cells UInt8) : HashCallRight cfg (Worker.new garbage pausedGarbage old) := by
  have hsize : SizeOk (Worker.new garbage pausedGarbage old).state.job := Or.inl rfl
  rw [hashCallRight_iff cfg hsize]
  intro lane _ j hj
  exact absurd hj (Nat.not_lt_zero j)

/-- Hashed data and claimed job. In a run from a new worker, whatever its memory held,
every state reached hashes its own job and reports shares of it precisely when
each resumption finds the paused job's blob in the arrays it points to. -/
theorem worker_hashes_its_job_iff (cfg : Setup) (garbage pausedGarbage : Cells UInt8)
    (old : ℕ → Cells UInt8) (events : List Event) :
    AlongStates (step cfg) (HashCallRight cfg) (Worker.new garbage pausedGarbage old) events ↔
      AlongSteps (step cfg) (ResumeFindsLanes cfg) (Worker.new garbage pausedGarbage old)
        events := by
  have hsizes : SizesOk (Worker.new garbage pausedGarbage old) := ⟨Or.inl rfl,Or.inl rfl⟩
  exact alongStates_iff_alongSteps (fun w e h _ _ _ => step_sizesOk cfg h e)
    (fun w e h hw _ => step_hashCallRight_iff cfg h hw e) hsizes
    (hashCallRight_new cfg garbage pausedGarbage old) (alongSteps_true _ _ events)

/-- A hash call is about the current job. -/
def HashesItsJob (cfg : Setup) (w : Worker) : Event → Prop
  | .hash => HashCallRight cfg w
  | .consume _ _ => True

/-- The event, with a hash call behind it when it is none itself. -/
def hashedAtOnce : Event → List Event
  | .hash => [.hash]
  | .consume job sequence => [.consume job sequence,.hash]

/-- Hash calls and the job. When each resumption finds its lanes, every hash call is about the
worker's job. Where a hash call comes behind each consumed job, every one is precisely then. -/
theorem hash_calls_right_iff (cfg : Setup) (garbage pausedGarbage : Cells UInt8)
    (old : ℕ → Cells UInt8) (events : List Event) :
    let start := Worker.new garbage pausedGarbage old
    (AlongSteps (step cfg) (ResumeFindsLanes cfg) start events →
      AlongSteps (step cfg) (HashesItsJob cfg) start events) ∧
    (AlongSteps (step cfg) (HashesItsJob cfg) start (events.flatMap hashedAtOnce) ↔
      AlongSteps (step cfg) (ResumeFindsLanes cfg) start (events.flatMap hashedAtOnce)) := by
  intro start
  have hsizes : SizesOk start := ⟨Or.inl rfl,Or.inl rfl⟩
  have hstart : HashCallRight cfg start := hashCallRight_new cfg garbage pausedGarbage old
  generalize start=w at hsizes hstart
  constructor
  · induction events generalizing w with
    | nil => exact id
    | cons e events ih =>
      rintro ⟨hfinds,hrest⟩
      refine ⟨?_,ih (step cfg w e) (step_sizesOk cfg hsizes e)
        ((step_hashCallRight_iff cfg hsizes hstart e).mpr hfinds) hrest⟩
      cases e with
      | hash => exact hstart
      | consume job sequence => trivial
  · induction events generalizing w with
    | nil => exact Iff.rfl
    | cons e events ih =>
      have hnext := step_sizesOk cfg hsizes e
      have hright := step_hashCallRight_iff cfg hsizes hstart e
      rw [List.flatMap_cons]
      cases e with
      | hash =>
        exact and_congr (iff_of_true hstart trivial) (ih _ hnext (hright.mpr trivial))
      | consume job sequence =>
        -- the call behind the job is right just when the resumption found its lanes
        rw [hashedAtOnce,List.cons_append,List.cons_append,List.nil_append,alongSteps_cons,
          alongSteps_cons,alongSteps_cons,alongSteps_cons,←hright]
        have hrest := fun hcall : HashCallRight cfg (step cfg w (.consume job sequence)) =>
          ih _ (step_sizesOk cfg hnext .hash)
            ((step_hashCallRight_iff cfg hnext hcall .hash).mpr trivial)
        constructor
        · rintro ⟨-,hcall,hlater⟩
          exact ⟨hcall,trivial,(hrest hcall).mp hlater⟩
        · rintro ⟨hcall,-,hlater⟩
          exact ⟨trivial,hcall,(hrest hcall).mpr hlater⟩

/-- A job of 76 equal bytes. -/
def uniformJob (poolId : ℤ) (id : List UInt8) (byte : UInt8) : PublishedJob where
  job := {Job.new (fun _ => byte) poolId false with m_id := (JobId.setId (some id)).2,m_size := 76}
  size_ge := le_refl 76
  size_lt := show 76<84 by decide

/-- A one-lane worker. -/
def oneLane : Setup := ⟨1,0,1,1,fun _ => List.replicate 32 0⟩

/-- A pool job, a donation job and the pool job again: the worker resumes the pool job
on the lanes of the donation job, and the next hash call is not about it. -/
theorem resumed_job_not_hashed :
    ¬AlongStates (step oneLane) (HashCallRight oneLane)
      (Worker.new (fun _ => 0) (fun _ => 0) (fun _ _ => 0))
      [.consume (uniformJob 0 [1] 0) 1,.hash,.consume (uniformJob (-1) [2] 1) 2,.hash,
        .consume (uniformJob 0 [1] 0) 3,.hash] := by
  rintro ⟨-,-,-,-,-,h,-⟩
  have hlanes := (hashCallRight_iff oneLane (Or.inr (by decide +kernel))).mp h
  have hbyte := hlanes 0 (by decide) 0 (by decide +kernel) (Or.inl (by decide))
  exact absurd hbyte (by decide +kernel)

end XmrigCC.MultiWorkerHashing
