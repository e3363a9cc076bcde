import XmrigCC.WorkersControl

/-!
# Jobs reach the workers

A worker reads the job first and the sequence number second, and the control
thread writes the job first and raises the number second. A worker that reads
its number after the raise, with a job from before the write, holds a current
number and a stale job. That read is the only way to such a state.
-/

namespace XmrigCC.JobPublication

open TransitionRuns WorkersControl

variable {ι J : Type}

/-- With no call in progress and the workers running, a worker outside `consumeJob` whose
number is current has read the published job. -/
def NoStaleWorker (s : System ι J) : Prop :=
  s.control=.idle → s.m_paused=0 → ∀ i, (s.workers i).point.inConsume=false →
    (s.workers i).m_sequence=s.m_sequence → (s.workers i).job=some s.m_job

/-- The sequence number stands for the published job: the workers run and no call is in
progress, or `setJob` has raised it and only has to let them run. -/
def Announced (s : System ι J) : Prop :=
  (s.control=.idle ∧ s.m_paused=0) ∨ s.control=.sequenceRaised

instance (s : System ι J) : Decidable (Announced s) := inferInstanceAs (Decidable (_ ∨ _))

/-- The next access of the control thread is an increment of `m_sequence`. -/
def Raises (s : System ι J) : Prop :=
  s.control=.pausedWritten ∨ (s.control=.jobWritten ∧ s.m_enabled=true)

instance (s : System ι J) : Decidable (Raises s) := inferInstanceAs (Decidable (_ ∨ _))

/-- A worker that reads a sequence number standing for a job has just read that job. -/
def ReadsInTime (s : System ι J) : Event ι J → Prop
  | .worker i => (s.workers i).point.inConsume=true → Announced s →
    (s.workers i).job=some s.m_job
  | _ => True

instance [DecidableEq J] (s : System ι J) : ∀ e, Decidable (ReadsInTime s e)
  | .worker _ => inferInstanceAs (Decidable (_ → _ → _))
  | .setJob _ | .setEnabled _ | .pause | .control => isTrue trivial

/-- An increment produces a number that no worker still holds. -/
def RaisesToNew (s : System ι J) : Event ι J → Prop
  | .control => Raises s → ∀ i, (s.workers i).m_sequence ≠ s.m_sequence+1
  | _ => True

instance [Fintype ι] (s : System ι J) : ∀ e, Decidable (RaisesToNew s e)
  | .control => inferInstanceAs (Decidable (_ → ∀ _, _ ≠ _))
  | .setJob _ | .setEnabled _ | .pause | .worker _ => isTrue trivial

/-- An increment does not wrap. -/
def RaisesWithoutWrap (s : System ι J) : Event ι J → Prop
  | .control => Raises s → s.m_sequence.toNat+1<2^64
  | _ => True

/-- Workers run only while enabled and active, and `setJob` raises the number only then. -/
structure Steered (s : System ι J) : Prop where
  /-- Unpaused workers. -/
  unpaused : s.m_paused=0 → s.m_enabled=true ∧ s.m_active=true
  /-- Workers about to be unpaused. -/
  raised : s.control=.sequenceRaised → s.m_enabled=true ∧ s.m_active=true

/-- A number that stands for a job is held only by workers that have read that job. -/
def Fresh (s : System ι J) : Prop :=
  Announced s → ∀ i, (s.workers i).point.inConsume=false →
    (s.workers i).m_sequence=s.m_sequence → (s.workers i).job=some s.m_job

theorem steered_start (job : J) : Steered (System.start job : System ι J) :=
  ⟨fun h => (nomatch h),fun h => (nomatch h)⟩

theorem fresh_start (job : J) : Fresh (System.start job : System ι J) := by
  rintro (⟨-,h⟩|h) <;> cases h

/-- Between its calls' accesses the control thread is neither idle nor about to unpause. -/
theorem not_announced {s : System ι J} (h : s.control=.jobWritten ∨ s.control=.pausedWritten) :
    ¬Announced s := by
  rintro (⟨hc,-⟩|hc) <;> rcases h with h|h <;> rw [h] at hc <;> cases hc

/-- Every event keeps the control thread's own invariant. -/
theorem steered_step [DecidableEq ι] {s : System ι J} (h : Steered s) (e : Event ι J) :
    Steered (step s e) := by
  cases e with
  | worker i => exact ⟨h.unpaused,h.raised⟩
  | setJob job =>
    rw [step]
    split
    · exact ⟨h.unpaused,fun hc => (nomatch hc)⟩
    · exact h
  | pause =>
    rw [step]
    split
    · exact ⟨fun hp => (nomatch hp),fun hc => (nomatch hc)⟩
    · exact h
  | setEnabled enabled =>
    rw [step]
    split
    swap
    · exact h
    rename_i hidle
    split
    · exact h
    split
    · rename_i hactive
      refine ⟨?_,fun hc => (nomatch hc)⟩
      intro hp
      cases enabled
      · cases hp
      · exact ⟨rfl,hactive⟩
    · rename_i hactive
      refine ⟨fun hp => absurd (h.unpaused hp).2 hactive,fun hc => ?_⟩
      rw [show s.control=.sequenceRaised from hc] at hidle
      cases hidle
  | control =>
    rw [step,controlStep]
    cases hc : s.control with
    | idle => exact h
    | jobWritten =>
      dsimp only
      split
      · rename_i hen
        exact ⟨fun _ => ⟨hen,rfl⟩,fun _ => ⟨hen,rfl⟩⟩
      · rename_i hen
        exact ⟨fun hp => absurd (h.unpaused hp).1 hen,fun hs => (nomatch hs)⟩
    | sequenceRaised => exact ⟨fun _ => h.raised hc,fun hs => (nomatch hs)⟩
    | pausedWritten => exact ⟨h.unpaused,fun hs => (nomatch hs)⟩

/-- A worker's access leaves the system fresh exactly when it reads in time: only the read
of the number makes it current. -/
theorem fresh_worker_iff [DecidableEq ι] {s : System ι J} (h : Fresh s) (i : ι) :
    Fresh (step s (.worker i)) ↔ ReadsInTime s (.worker i) := by
  constructor
  · intro hf hin ha
    have hi := hf ha i
    rw [step_worker_self] at hi
    rw [workerStep] at hi
    cases hp : (s.workers i).point with
    | readSequence afterPause =>
      rw [hp] at hi
      exact hi (by cases afterPause <;> rfl) rfl
    | _ =>
      rw [hp] at hin
      cases hin
  · intro hread ha k hk hseq
    by_cases hki : k=i
    · subst hki
      rw [step_worker_self] at hk hseq ⊢
      have hold := h ha k
      revert hk hseq
      rw [workerStep]
      cases hp : (s.workers k).point with
      | readSequence afterPause =>
        intro _ _
        exact hread (by rw [hp]; rfl) ha
      | readJob afterPause =>
        intro hk
        cases hk
      | _ =>
        intro _ hseq
        exact hold (by rw [hp]; rfl) hseq
    · rw [step_worker_of_ne s i hki] at hk hseq ⊢
      exact h ha k hk hseq

/-- An access of the control thread leaves the system fresh: what it announces is new. -/
theorem fresh_control [DecidableEq ι] {s : System ι J} (hs : Steered s) (h : Fresh s)
    (hnew : RaisesToNew s .control) : Fresh (step s .control) := by
  rw [step,controlStep]
  cases hc : s.control with
  | idle => exact h
  | jobWritten =>
    dsimp only
    split
    · rename_i hen
      exact fun _ i _ hseq => absurd hseq (hnew (Or.inr ⟨hc,hen⟩) i)
    · rename_i hen
      rintro (⟨-,hp⟩|hr)
      · exact absurd (hs.unpaused hp).1 hen
      · cases hr
  | sequenceRaised => exact fun _ => h (Or.inr hc)
  | pausedWritten => exact fun _ i _ hseq => absurd hseq (hnew (Or.inl hc) i)

/-- From a fresh system an event leads to a fresh one exactly when it reads in time. -/
theorem fresh_step_iff [DecidableEq ι] {s : System ι J} (hs : Steered s) (h : Fresh s)
    (e : Event ι J) (hnew : RaisesToNew s e) : Fresh (step s e) ↔ ReadsInTime s e := by
  cases e with
  | worker i => exact fresh_worker_iff h i
  | control => exact iff_of_true (fresh_control hs h hnew) trivial
  | setJob job =>
    refine iff_of_true ?_ trivial
    rw [step]
    split
    · exact fun ha => absurd ha (not_announced (Or.inl rfl))
    · exact h
  | pause =>
    refine iff_of_true ?_ trivial
    rw [step]
    split
    · exact fun ha => absurd ha (not_announced (Or.inr rfl))
    · exact h
  | setEnabled enabled =>
    refine iff_of_true ?_ trivial
    rw [step]
    split
    · split
      · exact h
      · split
        · exact fun ha => absurd ha (not_announced (Or.inr rfl))
        · exact h
    · exact h

/-- A run stays fresh exactly when every worker reads in time. -/
theorem fresh_iff_readsInTime [DecidableEq ι] (job : J) {events : List (Event ι J)}
    (hnew : AlongSteps step RaisesToNew (System.start job) events) :
    AlongStates step Fresh (System.start job) events ↔
      AlongSteps step ReadsInTime (System.start job) events :=
  alongStates_iff_alongSteps (fun _ e hs _ _ _ => steered_step hs e)
    (fun _ e hs h hn => fresh_step_iff hs h e hn) (steered_start job) (fresh_start job) hnew

/-- Below 2^64 increments no worker holds a number that is yet to come. -/
theorem raisesToNew_of_withoutWrap [DecidableEq ι] (job : J) {events : List (Event ι J)}
    (h : AlongSteps step RaisesWithoutWrap (System.start job) events) :
    AlongSteps step RaisesToNew (System.start job) events := by
  have hstep : ∀ (s : System ι J) e, (∀ i, (s.workers i).m_sequence.toNat ≤ s.m_sequence.toNat) →
      RaisesWithoutWrap s e →
      ∀ i, ((step s e).workers i).m_sequence.toNat ≤ (step s e).m_sequence.toNat := by
    intro s e hle hwrap
    have hraise : Raises s → e=.control → s.m_sequence.toNat ≤ (s.m_sequence+1).toNat := by
      rintro hr rfl
      have hlt := hwrap hr
      rw [UInt64.toNat_add,UInt64.toNat_one,Nat.mod_eq_of_lt hlt]
      exact Nat.le_succ _
    cases e with
    | worker i =>
      intro k
      by_cases hki : k=i
      · subst hki
        rw [step_worker_self,workerStep]
        cases (s.workers k).point with
        | readSequence _ => exact le_refl _
        | _ => exact hle k
      · rw [step_worker_of_ne s i hki]
        exact hle k
    | control =>
      rw [step,controlStep]
      cases hc : s.control with
      | idle => exact hle
      | sequenceRaised => exact hle
      | pausedWritten => exact fun i => (hle i).trans (hraise (Or.inl hc) rfl)
      | jobWritten =>
        dsimp only
        split
        · rename_i hen
          exact fun i => (hle i).trans (hraise (Or.inr ⟨hc,hen⟩) rfl)
        · exact hle
    | setJob _ =>
      rw [step]
      split <;> exact hle
    | pause =>
      rw [step]
      split <;> exact hle
    | setEnabled _ =>
      rw [step]
      split
      · split
        · exact hle
        · split <;> exact hle
      · exact hle
  refine alongSteps_of_invariant hstep ?_ (fun _ => Nat.zero_le _) h
  intro s e hle hwrap
  cases e with
  | control =>
    intro hr i heq
    have hlt := hwrap hr
    have hi := hle i
    rw [heq,UInt64.toNat_add,UInt64.toNat_one,Nat.mod_eq_of_lt hlt] at hi
    exact Nat.not_succ_le_self _ hi
  | _ => trivial

/-- In every run whose workers read in time, and whose increments produce new numbers, no
worker is stuck on a stale job. -/
theorem no_stale_worker [DecidableEq ι] (job : J) (events : List (Event ι J))
    (hread : AlongSteps step ReadsInTime (System.start job) events)
    (hnew : AlongSteps step RaisesToNew (System.start job) events) :
    AlongStates step NoStaleWorker (System.start job) events := by
  have hfresh := (fresh_iff_readsInTime job hnew).mpr hread
  exact hfresh.imp fun s hs hc hp => hs (Or.inl ⟨hc,hp⟩)

/-- A job published and then read by the only worker. -/
def publishThenRead : List (Event (Fin 1) ℕ) :=
  [.setJob 1,.control,.control,.worker 0,.worker 0,.worker 0,.worker 0,.worker 0]

/-- There the worker is never stale. -/
theorem no_stale_worker_publishThenRead :
    AlongStates step NoStaleWorker (System.start 0) publishThenRead :=
  no_stale_worker 0 publishThenRead (by decide) (by decide)

/-- A second job published between the two reads of the worker. -/
def publishBetweenReads : List (Event (Fin 1) ℕ) :=
  [.setJob 1,.control,.control,.worker 0,.worker 0,.worker 0,.worker 0,
    .setJob 2,.control,.control,.worker 0]

/-- There the worker has the first job and the number of the second one. -/
theorem publishBetweenReads_stale :
    ¬AlongStates step NoStaleWorker (System.start 0) publishBetweenReads := by
  rw [alongStates_iff_initial]
  intro h
  have hlast := h publishBetweenReads List.prefix_rfl (by decide) (by decide) 0 (by decide)
    (by decide)
  exact absurd hlast (by decide)

end XmrigCC.JobPublication
