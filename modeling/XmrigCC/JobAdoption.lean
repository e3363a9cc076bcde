import XmrigCC.MultiWorkerHashing

/-!
# Adopting a published job

Of the three ways through `consumeJob` only the last copies the job it read. The
first keeps the job held when identifier and blob array agree, the second goes
back to the paused job when the identifier alone agrees; pool, size, target and
difficulty are compared by neither.
-/

namespace XmrigCC.JobAdoption

open CellMemory MiningJob MultiWorker MultiWorkerHashing TransitionRuns

/-- The bytes of a job's blob that are hashed. -/
def blobBytes (job : Job) : List UInt8 := slice job.m_blob 0 job.m_size

/-- What a worker goes by while it works on a job. -/
structure Carries (held job : Job) : Prop where
  /-- Identifier. -/
  id_eq : held.m_id=job.m_id
  /-- Pool that issued the job. -/
  poolId_eq : held.m_poolId=job.m_poolId
  /-- Blob. -/
  blob_eq : blobBytes held=blobBytes job
  /-- Bytes of the blob. -/
  size_eq : held.m_size=job.m_size
  /-- Target. -/
  target_eq : held.m_target=job.m_target
  /-- Difficulty. -/
  diff_eq : held.m_diff=job.m_diff

/-- A job that is published again, perhaps by another pool or with another target. -/
structure Reissued (held job : Job) : Prop where
  /-- The same pool. -/
  poolId_eq : held.m_poolId=job.m_poolId
  /-- The same number of bytes. -/
  size_eq : held.m_size=job.m_size
  /-- The same target. -/
  target_eq : held.m_target=job.m_target
  /-- The same difficulty. -/
  diff_eq : held.m_diff=job.m_diff

/-- After a job is read the worker holds it. -/
def Adopts (cfg : Setup) (w : Worker) : Event → Prop
  | .hash => True
  | .consume job sequence => Carries (consumeJob cfg w job.job sequence).state.job job.job

/-- The job a comparison takes for the one just read is that job in what it leaves out. -/
def ComparesRight (w : Worker) : Event → Prop
  | .hash => True
  | .consume job _ =>
    if w.state.job.same job.job then Reissued w.state.job job.job
    else Resumes w job.job →
      Reissued w.paused.job job.job ∧ blobBytes w.paused.job=blobBytes job.job

/-- A job compares equal to one with its identifier and its blob array. -/
theorem same_iff {held job : Job} :
    held.same job=true ↔
      held.m_id=job.m_id ∧ slice held.m_blob 0 blobSize=slice job.m_blob 0 blobSize := by
  simp only [Job.same,Bool.and_eq_true,decide_eq_true_eq]

/-- Equal arrays hold equal blobs of the size of a published job. -/
theorem blobBytes_of_same {held : Job} {job : PublishedJob} (hsame : held.same job.job=true)
    (hsize : held.m_size=job.job.m_size) : blobBytes held=blobBytes job.job := by
  have hcells := cell_eq_of_slice_eq (same_iff.mp hsame).2
  have hlt := job.size_lt
  rw [blobBytes,blobBytes,hsize]
  apply slice_congr
  intro i hi
  exact hcells i (by omega)

/-- A job kept because it compares equal is the job read, up to what is not compared. -/
theorem carries_of_same_iff {held : Job} {job : PublishedJob}
    (hsame : held.same job.job=true) :
    Carries held job.job ↔ Reissued held job.job := by
  constructor
  · intro h
    exact ⟨h.poolId_eq,h.size_eq,h.target_eq,h.diff_eq⟩
  · intro h
    exact ⟨(same_iff.mp hsame).1,h.poolId_eq,blobBytes_of_same hsame h.size_eq,h.size_eq,
      h.target_eq,h.diff_eq⟩

/-- A job resumed for its identifier is the job read, up to what is not compared. -/
theorem carries_of_resumes_iff {w : Worker} {job : Job} (hr : Resumes w job) :
    Carries w.paused.job job ↔
      Reissued w.paused.job job ∧ blobBytes w.paused.job=blobBytes job := by
  constructor
  · intro h
    exact ⟨⟨h.poolId_eq,h.size_eq,h.target_eq,h.diff_eq⟩,h.blob_eq⟩
  · rintro ⟨h,hblob⟩
    exact ⟨hr.2.2.symm,h.poolId_eq,hblob,h.size_eq,h.target_eq,h.diff_eq⟩

/-- In any state, reading a job adopts it exactly when the comparison made is right. -/
theorem adopts_iff (cfg : Setup) (w : Worker) (e : Event) :
    Adopts cfg w e ↔ ComparesRight w e := by
  cases e with
  | hash => exact Iff.rfl
  | consume job sequence =>
    rw [Adopts,ComparesRight]
    rcases consumeJob_cases cfg w job.job sequence with
      ⟨hsame,he⟩|⟨hsame,hr,he⟩|⟨hsame,hr,paused,-,he⟩
    · rw [he,if_pos hsame]
      exact carries_of_same_iff hsame
    · have hpath : ¬w.state.job.same job.job=true := ne_true_of_eq_false hsame
      rw [he,if_neg hpath,forall_prop_of_true hr]
      exact carries_of_resumes_iff hr
    · have hpath : ¬w.state.job.same job.job=true := ne_true_of_eq_false hsame
      rw [he,if_neg hpath,(fillFrom_frame _ _ _ _).1]
      exact iff_of_true ⟨rfl,rfl,rfl,rfl,rfl,rfl⟩ (fun h => absurd h hr)

/-- Adopting published jobs. A run of a new worker adopts every job it reads exactly when
each job it keeps or resumes in place of the one read has that job's pool, size, target and
difficulty, and for a resumed one also its blob. -/
theorem run_adopts_iff (cfg : Setup) (garbage pausedGarbage : Cells UInt8)
    (old : ℕ → Cells UInt8) (events : List Event) :
    AlongSteps (step cfg) (Adopts cfg) (Worker.new garbage pausedGarbage old) events ↔
      AlongSteps (step cfg) ComparesRight (Worker.new garbage pausedGarbage old) events := by
  have hstep : ∀ (w : Worker) (e : Event), True → True → (Adopts cfg w e ↔ ComparesRight w e) :=
    fun w e _ _ => adopts_iff cfg w e
  exact alongSteps_congr_of_invariant (I:=fun _ => True) (fun _ _ _ _ => trivial) hstep trivial
    (alongSteps_true _ _ events)

/-- A job of one pool and then, with its identifier and blob, a job of another pool: the
worker stays with the first. -/
theorem other_pool_not_adopted :
    ¬AlongSteps (step oneLane) (Adopts oneLane)
      (Worker.new (fun _ => 0) (fun _ => 0) (fun _ _ => 0))
      [.consume (uniformJob 0 [1] 0) 1,.hash,.consume (uniformJob 1 [1] 0) 2] := by
  rintro ⟨-,-,h,-⟩
  have hpool := h.poolId_eq
  exact absurd hpool (by decide +kernel)

end XmrigCC.JobAdoption
