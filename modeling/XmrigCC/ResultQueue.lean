import XmrigCC.MultiWorker
import XmrigCC.TransitionRuns

/-!
# The queue of results

`Workers::submit` on the worker threads and `Workers::onResult` on the event
loop. A push and the `uv_async_send` after it are two steps of a worker. The
loop calls `onResult` at least once after a send, and several sends may lead to
one call. Every step keeps the results in the order of their pushes, delivered
ones first, and a result in the queue always has a call of `onResult` still to
come.
-/

namespace XmrigCC.ResultQueue

open TransitionRuns
open MultiWorker (JobResult)

variable {ι : Type}

/-- Where the loop stands in `onResult`. -/
inductive OnResult where
  /-- Not in it. -/
  | idle
  /-- Called, the queue not drained yet. -/
  | called
  /-- Delivering what the local list `results` still holds. -/
  | delivering (results : List JobResult)

/-- `Workers` as far as the results go. -/
structure Workers (ι : Type) where
  /-- `m_queue`. -/
  m_queue : List JobResult
  /-- `m_async` has been sent and `onResult` not called since. -/
  m_async : Bool
  /-- The worker has pushed a result and not executed `uv_async_send` yet. -/
  unsent : ι → Bool
  /-- The event loop. -/
  loop : OnResult

/-- Before the first share. -/
def Workers.start : Workers ι := ⟨[],false,fun _ => false,.idle⟩

/-- A step of a worker or of the event loop. -/
inductive Event (ι : Type) where
  /-- `submit` up to the unlock. -/
  | push (i : ι) (result : JobResult)
  /-- The rest of `submit`: `uv_async_send`. -/
  | send (i : ι)
  /-- The loop calls `onResult`. -/
  | call
  /-- `onResult` from the lock to the unlock. -/
  | drain
  /-- One iteration of the loop over `results`. -/
  | deliver
  /-- `onResult` returns. -/
  | finish

/-- The loop that empties `m_queue`: what it leaves there and in `results`. -/
def drainLoop (results : List JobResult) : List JobResult → List JobResult × List JobResult
  | [] => ([],results)
  | front::m_queue => drainLoop (results++[front]) m_queue

/-- Draining moves the whole queue behind what the list holds, in order. -/
theorem drainLoop_eq (results m_queue : List JobResult) :
    drainLoop results m_queue=([],results++m_queue) := by
  induction m_queue generalizing results with
  | nil => rw [drainLoop,List.append_nil]
  | cons front m_queue ih => rw [drainLoop,ih,List.append_assoc,List.singleton_append]

/-- One step. A worker is in one `submit` at a time, and the loop in one `onResult`. A call
of `onResult` takes the sends so far with it, and may also come without one. -/
def step [DecidableEq ι] (s : Workers ι) : Event ι → Workers ι
  | .push i result =>
    if s.unsent i=true then s
    else {s with m_queue := s.m_queue++[result],unsent := Function.update s.unsent i true}
  | .send i =>
    if s.unsent i=true then {s with m_async := true,unsent := Function.update s.unsent i false}
    else s
  | .call =>
    match s.loop with
    | .idle => {s with m_async := false,loop := .called}
    | _ => s
  | .drain =>
    match s.loop with
    | .called => {s with m_queue := (drainLoop [] s.m_queue).1,
                         loop := .delivering (drainLoop [] s.m_queue).2}
    | _ => s
  | .deliver =>
    match s.loop with
    | .delivering (_::results) => {s with loop := .delivering results}
    | _ => s
  | .finish =>
    match s.loop with
    | .delivering [] => {s with loop := .idle}
    | _ => s

/-- The argument of `m_listener->onJobResult`, where a step calls it. -/
def onJobResult (s : Workers ι) : Event ι → List JobResult
  | .deliver =>
    match s.loop with
    | .delivering (result::_) => [result]
    | _ => []
  | _ => []

/-- What `onResult` has drained and not delivered yet. -/
def OnResult.results : OnResult → List JobResult
  | .delivering results => results
  | _ => []

section Histories

/-- The workers that are between their push and their send, by the events alone. -/
def submitting [DecidableEq ι] (inSubmit : ι → Bool) : Event ι → ι → Bool
  | .push i _ => Function.update inSubmit i true
  | .send i => Function.update inSubmit i false
  | _ => inSubmit

/-- The result that an event pushes: a worker that has not sent yet pushes none. -/
def pushedBy (inSubmit : ι → Bool) : Event ι → List JobResult
  | .push i result => if inSubmit i=true then [] else [result]
  | _ => []

variable [DecidableEq ι]

/-- The pushes among the events. -/
def pushes (events : List (Event ι)) : List JobResult :=
  outputs submitting pushedBy (fun _ => false) events

/-- The results that the listener is given in a run. -/
def delivered (events : List (Event ι)) : List JobResult :=
  outputs step onJobResult Workers.start events

/-- Who is to send follows from the events. -/
theorem step_unsent (s : Workers ι) (e : Event ι) :
    (step s e).unsent=submitting s.unsent e := by
  cases e with
  | push i result =>
    rw [step,submitting]
    split
    · rename_i hunsent
      rw [←hunsent,Function.update_eq_self]
    · rfl
  | send i =>
    rw [step,submitting]
    split
    · rfl
    · rename_i hsent
      rw [←Bool.eq_false_of_not_eq_true hsent,Function.update_eq_self]
  | call | drain | deliver | finish =>
    rw [step]
    split <;> rfl

/-- The pushes of a run are those among its events. -/
theorem outputs_pushedBy (s : Workers ι) (events : List (Event ι)) :
    outputs step (fun s e => pushedBy s.unsent e) s events=
      outputs submitting pushedBy s.unsent events :=
  outputs_part (f:=Workers.unsent) (o:=pushedBy) step_unsent (fun _ _ => rfl) s events

end Histories

section Queue

variable [DecidableEq ι] {s : Workers ι}

/-- A push puts its result behind the queue. -/
theorem push_queue {i : ι} (h : s.unsent i=false) (result : JobResult) :
    (step s (.push i result)).m_queue=s.m_queue++[result] := by
  rw [step,if_neg (by rw [h]; exact Bool.false_ne_true)]

/-- A drain takes the whole queue. -/
theorem drain_queue (h : s.loop=.called) :
    (step s .drain).m_queue=[] ∧ (step s .drain).loop=.delivering s.m_queue := by
  rw [step,h,drainLoop_eq]
  exact ⟨rfl,rfl⟩

/-- A call of `onResult` is still to come, or has begun and is still to drain. -/
def OnResultPending (s : Workers ι) : Prop := s.m_async=true ∨ s.loop=.called

/-- A result in the queue is drained by a call still to come. -/
def Awaited (s : Workers ι) : Prop :=
  s.m_queue ≠ [] → OnResultPending s ∨ ∃ i, s.unsent i=true

/-- What a state has and has not delivered: the drained results and the queue. -/
def Workers.kept (s : Workers ι) : List JobResult := s.loop.results++s.m_queue

/-- A step delivers from the front of what is kept and pushes behind it. -/
theorem kept_step (s : Workers ι) (e : Event ι) :
    onJobResult s e++(step s e).kept=s.kept++pushedBy s.unsent e := by
  cases e with
  | push i result =>
    rw [step,pushedBy]
    split
    · exact (List.append_nil _).symm
    · exact (List.append_assoc s.loop.results s.m_queue [result]).symm
  | send i =>
    rw [step]
    split <;> exact (List.append_nil _).symm
  | call =>
    rw [step]
    split
    · rename_i hloop
      rw [Workers.kept,Workers.kept,hloop]
      exact (List.append_nil _).symm
    · exact (List.append_nil _).symm
  | drain =>
    rw [step]
    split
    · rename_i hloop
      rw [drainLoop_eq,Workers.kept,Workers.kept,hloop]
      exact (List.append_nil _).trans (List.append_nil _).symm
    · exact (List.append_nil _).symm
  | deliver =>
    rw [onJobResult,step]
    split
    · rename_i result results hloop
      rw [Workers.kept,Workers.kept,hloop]
      exact (List.append_nil _).symm
    · exact (List.append_nil _).symm
  | finish =>
    rw [step]
    split
    · rename_i hloop
      rw [Workers.kept,Workers.kept,hloop]
      exact (List.append_nil _).symm
    · exact (List.append_nil _).symm

/-- A push leaves its worker with a send to do, a send asks for a call, and a call that
begins is one that drains. -/
theorem awaited_step (h : Awaited s) (e : Event ι) :
    Awaited (step s e) := by
  cases e with
  | push i result =>
    rw [step]
    split
    · exact h
    · intro _
      exact Or.inr ⟨i,Function.update_self i true s.unsent⟩
  | send i =>
    rw [step]
    split
    · intro _
      exact Or.inl (Or.inl rfl)
    · exact h
  | call =>
    rw [step]
    split
    · intro _
      exact Or.inl (Or.inr rfl)
    · exact h
  | drain =>
    rw [step]
    split
    · intro hqueue
      rw [drainLoop_eq] at hqueue
      exact absurd rfl hqueue
    · exact h
  | deliver =>
    rw [step]
    split
    · rename_i result results hloop
      intro hqueue
      rcases h hqueue with (hasync|hcalled)|hunsent
      · exact Or.inl (Or.inl hasync)
      · rw [hloop] at hcalled
        cases hcalled
      · exact Or.inr hunsent
    · exact h
  | finish =>
    rw [step]
    split
    · rename_i hloop
      intro hqueue
      rcases h hqueue with (hasync|hcalled)|hunsent
      · exact Or.inl (Or.inl hasync)
      · rw [hloop] at hcalled
        cases hcalled
      · exact Or.inr hunsent
    · exact h

omit [DecidableEq ι] in
/-- When the loop is idle, no send is outstanding and no call is due, nothing is kept. -/
theorem kept_of_quiet (h : Awaited s) (hloop : s.loop=.idle) (hasync : s.m_async=false)
    (hunsent : ∀ i, s.unsent i=false) : s.kept=[] := by
  have hqueue : s.m_queue=[] := by
    by_contra hne
    rcases h hne with (ha|hc)|⟨i,hi⟩
    · rw [hasync] at ha
      cases ha
    · rw [hloop] at hc
      cases hc
    · rw [hunsent i] at hi
      cases hi
  rw [Workers.kept,hloop,hqueue]
  rfl

end Queue

/-- In every run, with any number of workers, the results that the listener was given, those
drained and those in the queue are the pushes among the events in their order; a result in the
queue has a call of `onResult` still to come, a push appends to the queue and a drain empties it,
and when nothing is due any more everything that was pushed has been delivered. -/
theorem results_in_order [DecidableEq ι] (events : List (Event ι)) :
    let s := runFrom step Workers.start events
    delivered events++s.loop.results++s.m_queue=pushes events ∧
    (s.m_queue ≠ [] → OnResultPending s ∨ ∃ i, s.unsent i=true) ∧
    (∀ i result, s.unsent i=false →
      (step s (.push i result)).m_queue=s.m_queue++[result]) ∧
    (s.loop=.called → (step s .drain).m_queue=[] ∧ (step s .drain).loop=.delivering s.m_queue) ∧
    (s.loop=.idle → s.m_async=false → (∀ i, s.unsent i=false) →
      delivered events=pushes events) := by
  intro s
  have hkept : delivered events++s.kept=pushes events :=
    (outputs_kept kept_step Workers.start events).trans (outputs_pushedBy Workers.start events)
  have hstart : Awaited (Workers.start : Workers ι) := fun h => absurd rfl h
  have hrun : AlongStates step Awaited Workers.start events :=
    invariant_alongStates (P:=fun _ _ => True) (fun _ e h _ => awaited_step h e) hstart
      (alongSteps_true _ _ _)
  have hawaited : Awaited s := hrun.last
  refine ⟨(List.append_assoc _ _ _).trans hkept,hawaited,fun _ result hi => push_queue hi result,
    drain_queue,?_⟩
  intro hloop hasync hunsent
  rwa [kept_of_quiet hawaited hloop hasync hunsent,List.append_nil] at hkept

end XmrigCC.ResultQueue
