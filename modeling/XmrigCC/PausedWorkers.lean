import XmrigCC.JobPublication

/-!
# Paused workers

A pause writes `m_paused` first and raises `m_sequence` second. A worker inside
the hash loop leaves it because of the new number, and one before the loop finds
the flag. A worker that has just seen the flag cleared takes the new number
without another look at the flag, and enters the loop with it. That read is the
only way into the loop while the workers are paused.
-/

namespace XmrigCC.PausedWorkers

open TransitionRuns WorkersControl JobPublication

variable {ι J : Type}

/-- With no call in progress, the workers paused and not stopped, a worker in the hash loop
holds an old number and leaves the loop at its next test. -/
def PausedMeansNotHashing (s : System ι J) : Prop :=
  s.control=.idle → s.m_paused=1 → s.m_sequence ≠ 0 →
    ∀ i, (s.workers i).point=.inner →
      (s.workers i).m_sequence ≠ s.m_sequence ∧
      (workerStep s (s.workers i)).point=.readJob false

/-- The workers are paused and stay so until the next call: none is in progress, or a
`setJob` that finds them disabled. -/
def Halted (s : System ι J) : Prop :=
  s.m_paused=1 ∧ (s.control=.idle ∨ (s.control=.jobWritten ∧ s.m_enabled=false))

instance (s : System ι J) : Decidable (Halted s) := inferInstanceAs (Decidable (_ ∧ _))

/-- While the workers are halted none hashes with the current number. -/
def Quiet (s : System ι J) : Prop :=
  Halted s → s.m_sequence ≠ 0 →
    ∀ i, (s.workers i).point=.inner → (s.workers i).m_sequence ≠ s.m_sequence

/-- A worker that leaves its pause loop reads the number before the workers are halted
again. -/
def ReadsAwake (s : System ι J) : Event ι J → Prop
  | .worker i => (s.workers i).point=.readSequence true → s.m_sequence ≠ 0 → ¬Halted s
  | _ => True

instance (s : System ι J) : ∀ e, Decidable (ReadsAwake s e)
  | .worker _ => inferInstanceAs (Decidable (_ → _ → _))
  | .setJob _ | .setEnabled _ | .pause | .control => isTrue trivial

theorem quiet_start (job : J) : Quiet (System.start job : System ι J) :=
  fun _ _ _ hp => (nomatch hp)

/-- A worker in the loop with an old number leaves it at its next test. -/
theorem leaves_of_outdated {s : System ι J} {t : WorkerThread J} (hp : t.point=.inner)
    (hseq : t.m_sequence ≠ s.m_sequence) : (workerStep s t).point=.readJob false := by
  rw [workerStep,hp]
  exact if_pos hseq.symm

theorem Quiet.pausedMeansNotHashing {s : System ι J} (h : Quiet s) : PausedMeansNotHashing s := by
  intro hc hp hseq i hi
  have hne := h ⟨hp,Or.inl hc⟩ hseq i hi
  exact ⟨hne,leaves_of_outdated hi hne⟩

/-- The point a worker enters the loop from while the flag is set is the read of the number
after its pause loop. -/
theorem workerStep_inner {s : System ι J} {t : WorkerThread J} (hpaused : s.m_paused=1)
    (h : (workerStep s t).point=.inner) :
    t.point=.readSequence true ∨
      (t.point=.inner ∧ (workerStep s t).m_sequence=t.m_sequence) := by
  rw [workerStep] at h ⊢
  cases hp : t.point with
  | outer =>
    rw [hp] at h
    dsimp only at h
    split at h <;> cases h
  | pausedTest =>
    rw [hp] at h
    dsimp only at h
    rw [if_pos hpaused] at h
    cases h
  | sleeping =>
    rw [hp] at h
    dsimp only at h
    rw [if_pos hpaused] at h
    cases h
  | stopTest =>
    rw [hp] at h
    dsimp only at h
    split at h <;> cases h
  | inner => exact Or.inr ⟨rfl,rfl⟩
  | readJob afterPause =>
    rw [hp] at h
    cases h
  | readSequence afterPause =>
    cases afterPause with
    | false =>
      rw [hp] at h
      cases h
    | true => exact Or.inl rfl
  | stopped =>
    rw [hp] at h
    cases hp.symm.trans h

/-- A worker's access leaves the halted workers quiet exactly when it reads awake. -/
theorem quiet_worker_iff [DecidableEq ι] {s : System ι J} (h : Quiet s) (i : ι) :
    Quiet (step s (.worker i)) ↔ ReadsAwake s (.worker i) := by
  constructor
  · intro hq hp hseq hhalt
    have hi := hq hhalt hseq i
    rw [step_worker_self,workerStep,hp] at hi
    exact hi rfl rfl
  · intro hread hhalt hseq k hk
    replace hhalt : Halted s := hhalt
    by_cases hki : k=i
    · subst hki
      rw [step_worker_self] at hk ⊢
      rcases workerStep_inner (s:=s) hhalt.1 hk with hp|⟨hp,hsame⟩
      · exact absurd hhalt (hread hp hseq)
      · rw [hsame]
        exact h hhalt hseq k hp
    · rw [step_worker_of_ne s i hki] at hk ⊢
      exact h hhalt hseq k hk

/-- An access of the control thread leaves the halted workers quiet: the pause that halts
them raises the number to a new one. -/
theorem quiet_control [DecidableEq ι] {s : System ι J} (h : Quiet s)
    (hnew : RaisesToNew s .control) : Quiet (step s .control) := by
  rw [step,controlStep]
  cases hc : s.control with
  | idle => exact h
  | jobWritten =>
    dsimp only
    split
    · rintro ⟨-,hidle|⟨hwritten,-⟩⟩
      · cases hidle
      · cases hwritten
    · rename_i hen
      rintro ⟨hp,-⟩
      exact h ⟨hp,Or.inr ⟨hc,(Bool.not_eq_true _).mp hen⟩⟩
  | sequenceRaised =>
    rintro ⟨hp,-⟩
    cases hp
  | pausedWritten => exact fun _ _ i _ => hnew (Or.inl hc) i

/-- From quiet workers an event leads to quiet ones exactly when it reads awake. -/
theorem quiet_step_iff [DecidableEq ι] {s : System ι J} (h : Quiet s) (e : Event ι J)
    (hnew : RaisesToNew s e) : Quiet (step s e) ↔ ReadsAwake s e := by
  cases e with
  | worker i => exact quiet_worker_iff h i
  | control => exact iff_of_true (quiet_control h hnew) trivial
  | setJob job =>
    refine iff_of_true ?_ trivial
    rw [step]
    split
    · rename_i hidle
      rintro ⟨hp,-⟩
      exact h ⟨hp,Or.inl hidle⟩
    · exact h
  | pause =>
    refine iff_of_true ?_ trivial
    rw [step]
    split
    · rintro ⟨-,hidle|⟨hwritten,-⟩⟩
      · cases hidle
      · cases hwritten
    · exact h
  | setEnabled enabled =>
    refine iff_of_true ?_ trivial
    rw [step]
    split
    swap
    · exact h
    rename_i hidle
    split
    · exact h
    split
    · rintro ⟨-,hc|⟨hc,-⟩⟩
      · cases hc
      · cases hc
    · rintro ⟨hp,-⟩
      exact h ⟨hp,Or.inl hidle⟩

/-- The workers are quiet throughout a run exactly when every worker reads awake. -/
theorem quiet_iff_readsAwake [DecidableEq ι] (job : J) {events : List (Event ι J)}
    (hnew : AlongSteps step RaisesToNew (System.start job) events) :
    AlongStates step Quiet (System.start job) events ↔
      AlongSteps step ReadsAwake (System.start job) events :=
  alongStates_iff_alongSteps (I:=fun _ => True) (fun _ _ _ _ _ _ => trivial)
    (fun _ e _ h hn => quiet_step_iff h e hn) trivial (quiet_start job) hnew

/-- In every run whose workers read awake, and whose increments produce new numbers, no
worker hashes while the workers are paused. -/
theorem paused_means_not_hashing [DecidableEq ι] (job : J) (events : List (Event ι J))
    (hawake : AlongSteps step ReadsAwake (System.start job) events)
    (hnew : AlongSteps step RaisesToNew (System.start job) events) :
    AlongStates step PausedMeansNotHashing (System.start job) events :=
  ((quiet_iff_readsAwake job hnew).mpr hawake).imp fun _ h => h.pausedMeansNotHashing

/-- A worker starts on a job and leaves the loop when the workers are paused. -/
def pauseWhileHashing : List (Event Unit ℕ) :=
  [.setJob 1,.control,.control,.worker (),.worker (),.worker (),.worker (),.worker (),.worker (),
    .worker (),.pause,.control,.worker ()]

/-- Paused while it hashes, a worker leaves the loop. -/
theorem paused_means_not_hashing_pauseWhileHashing :
    AlongStates step PausedMeansNotHashing (System.start 0) pauseWhileHashing :=
  paused_means_not_hashing 0 pauseWhileHashing (by decide) (by decide)

/-- A worker leaves its pause loop, and the workers are paused again before it has read the
number. -/
def pauseBeforeRead : List (Event Unit ℕ) :=
  [.worker (),.worker (),.setJob 1,.control,.control,.worker (),.worker (),
    .pause,.control,.worker (),.worker ()]

/-- There it hashes although the workers are paused. -/
theorem pauseBeforeRead_hashes :
    ¬AlongStates step PausedMeansNotHashing (System.start 0) pauseBeforeRead := by
  rw [alongStates_iff_initial]
  intro h
  have hlast := h pauseBeforeRead List.prefix_rfl (by decide) (by decide) (by decide) ()
    (by decide)
  exact absurd rfl hlast.1

end XmrigCC.PausedWorkers
