import XmrigCC.TransitionRuns

/-!
# Control thread and workers, access by access

The control thread publishes a job in three writes and pauses the workers in
two; a worker takes a job in two reads. Each access to `m_job`, `m_sequence`
and `m_paused` is a step of its own here, so that every interleaving is a run.
-/

namespace XmrigCC.WorkersControl

/-- Where the control thread stands. -/
inductive Control where
  /-- Between two calls. -/
  | idle
  /-- In `setJob`, after the write of `m_job`. -/
  | jobWritten
  /-- In `setJob`, after the increment of `m_sequence`. -/
  | sequenceRaised
  /-- In `setEnabled` or `pause`, after the write of `m_paused`. -/
  | pausedWritten
  deriving DecidableEq

/-- The next access of a worker in `MultiWorker::start` and `consumeJob`. -/
inductive Point where
  /-- `while (Workers::sequence() > 0)`. -/
  | outer
  /-- `if (Workers::isPaused())`. -/
  | pausedTest
  /-- `while (Workers::isPaused())` of the sleeping loop. -/
  | sleeping
  /-- `if (Workers::sequence() == 0) break`. -/
  | stopTest
  /-- `while (!Workers::isOutdated(m_sequence))` of the hash loop. -/
  | inner
  /-- `Job job = Workers::job()`, after a pause or after the hash loop. -/
  | readJob (afterPause : Bool)
  /-- `m_sequence = Workers::sequence()`, likewise. -/
  | readSequence (afterPause : Bool)
  /-- The thread has left `start`. -/
  | stopped
  deriving DecidableEq

/-- A worker between the two reads of `consumeJob`. -/
def Point.inConsume : Point → Bool
  | .readSequence _ => true
  | _ => false

/-- A worker thread; jobs are only copied, so their type is left open. -/
structure WorkerThread (J : Type) where
  /-- Its next access. -/
  point : Point
  /-- The job it last read, none at first. -/
  job : Option J
  /-- Its own `m_sequence`. -/
  m_sequence : UInt64

/-- The static members of `Workers`, the control thread and the worker threads. -/
structure System (ι J : Type) where
  /-- `m_job`. -/
  m_job : J
  /-- `m_active`. -/
  m_active : Bool
  /-- `m_enabled`. -/
  m_enabled : Bool
  /-- `m_paused`, 0 or 1. -/
  m_paused : ℕ
  /-- `m_sequence`. -/
  m_sequence : UInt64
  /-- Where the control thread stands. -/
  control : Control
  /-- The worker threads. -/
  workers : ι → WorkerThread J

/-- After `Workers::start`: a job without data, and workers that have read nothing. -/
def System.start {ι J : Type} (job : J) : System ι J where
  m_job := job
  m_active := false
  m_enabled := true
  m_paused := 1
  m_sequence := 1
  control := .idle
  workers _ := ⟨.outer,none,0⟩

/-- Events of a run. -/
inductive Event (ι J : Type) where
  /-- The control thread calls `setJob`, up to the write of `m_job`. -/
  | setJob (job : J)
  /-- It calls `setEnabled`, up to the write of `m_paused` or an early return. -/
  | setEnabled (enabled : Bool)
  /-- It calls `pause`, up to the write of `m_paused`. -/
  | pause
  /-- It makes the next access of the call in progress. -/
  | control
  /-- A worker makes its next access. -/
  | worker (i : ι)

/-- The next access of the call in progress. -/
def controlStep {ι J : Type} (s : System ι J) : System ι J :=
  match s.control with
  | .idle => s
  | .jobWritten =>
    if s.m_enabled then
      {s with m_active := true,m_sequence := s.m_sequence+1,control := .sequenceRaised}
    else {s with m_active := true,control := .idle}
  | .sequenceRaised => {s with m_paused := 0,control := .idle}
  | .pausedWritten => {s with m_sequence := s.m_sequence+1,control := .idle}

/-- The next access of a worker. -/
def workerStep {ι J : Type} (s : System ι J) (t : WorkerThread J) : WorkerThread J :=
  match t.point with
  | .outer => {t with point := if 0<s.m_sequence then .pausedTest else .stopped}
  | .pausedTest => {t with point := if s.m_paused=1 then .sleeping else .inner}
  | .sleeping => {t with point := if s.m_paused=1 then .sleeping else .stopTest}
  | .stopTest => {t with point := if s.m_sequence=0 then .stopped else .readJob true}
  | .inner => {t with point := if s.m_sequence ≠ t.m_sequence then .readJob false else .inner}
  | .readJob afterPause => {t with job := some s.m_job,point := .readSequence afterPause}
  | .readSequence afterPause =>
    {t with m_sequence := s.m_sequence,point := if afterPause then .inner else .outer}
  | .stopped => t

/-- The system after an event; a call made while another is in progress does not occur
and changes nothing. -/
def step {ι J : Type} [DecidableEq ι] (s : System ι J) : Event ι J → System ι J
  | .setJob job =>
    if s.control=.idle then {s with m_job := job,control := .jobWritten} else s
  | .setEnabled enabled =>
    if s.control=.idle then
      if s.m_enabled=enabled then s
      else if s.m_active then
        {s with m_enabled := enabled,m_paused := if enabled then 0 else 1,control := .pausedWritten}
      else {s with m_enabled := enabled}
    else s
  | .pause =>
    if s.control=.idle then {s with m_active := false,m_paused := 1,control := .pausedWritten}
    else s
  | .control => controlStep s
  | .worker i => {s with workers := Function.update s.workers i (workerStep s (s.workers i))}

section Accesses

variable {ι J : Type} [DecidableEq ι] (s : System ι J) (i : ι)

/-- A worker's access takes its own thread on. -/
theorem step_worker_self : (step s (.worker i)).workers i=workerStep s (s.workers i) :=
  Function.update_self i _ _

/-- And leaves the others where they are. -/
theorem step_worker_of_ne {k : ι} (hk : k ≠ i) : (step s (.worker i)).workers k=s.workers k :=
  Function.update_of_ne hk _ _

end Accesses

end XmrigCC.WorkersControl
