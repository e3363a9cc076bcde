import XmrigCC.MiningNetwork
import XmrigCC.TransitionRuns

/-!
# Which pool a share reaches

Jobs are stamped with the pool that sent them, and only the active pool's jobs
are handed on. A share is handed to the pool active when the queue is drained.
So it reaches its issuer exactly when that is still the pool that was active
when the job was handed on, and it reaches a pool at all exactly when one is
active.
-/

namespace XmrigCC.ShareDelivery

open TransitionRuns MiningJob FailoverPools MiningNetwork
open MultiWorker (JobResult)

variable {ι : Type}

/-- A pool's job was handed on while that pool was active. -/
def Stamped (h : HeldJob) : Prop := 0 ≤ h.job.m_poolId → h.job.m_poolId=h.active

/-- What every state of a run satisfies. -/
structure Consistent (s : Network ι) : Prop where
  /-- The active pool exists. -/
  inRange : s.strategy.InRange
  /-- A client holds a job of its own pool. -/
  clientJob : ∀ i, 0 ≤ (s.clientJob i).m_poolId → (s.clientJob i).m_poolId=i
  /-- The published job. -/
  published : Stamped s.workers.m_job
  /-- The jobs of the workers' states. -/
  held : ∀ i, Stamped (s.threads i).state ∧ Stamped (s.threads i).paused
  /-- The shares in the queue. -/
  queued : ∀ share∈s.workers.m_queue, 0 ≤ share.result.poolId →
    share.result.poolId=share.active

theorem consistent_start (pools : ℕ) (retries : ℤ) (donate : Bool)
    (garbage : CellMemory.Cells UInt8) :
    Consistent (Network.start pools retries donate garbage : Network ι) := by
  have hnone : ¬0 ≤ (Job.new garbage (-2) false).m_poolId := show ¬(0 : ℤ) ≤ -2 by decide
  exact ⟨FailoverStrategy.inRange_new pools,fun _ h => absurd h hnone,fun h => absurd h hnone,
    fun _ => ⟨fun h => absurd h hnone,fun h => absurd h hnone⟩,fun _ h => (nomatch h)⟩

/-- A call that hands on a pool's job names the active pool. -/
def CallStamped (s : FailoverStrategy) : Call → Prop
  | .onJob _ job => 0 ≤ job.m_poolId → job.m_poolId=s.m_active
  | _ => True

/-- Publishing changes the published job and nothing else that is stamped. -/
theorem consistent_setJob {s : Network ι} (h : Consistent s) {job : Job}
    (hjob : 0 ≤ job.m_poolId → job.m_poolId=s.strategy.m_active) : Consistent (s.setJob job) := by
  refine ⟨h.inRange,h.clientJob,?_,h.held,?_⟩
  · rw [Network.setJob,Workers.setJob]
    dsimp only
    split <;> exact hjob
  · rw [Network.setJob,Workers.setJob]
    dsimp only
    split <;> exact h.queued

theorem consistent_onJob {s : Network ι} (h : Consistent s) (id : ℤ) {job : Job}
    (hjob : 0 ≤ job.m_poolId → job.m_poolId=s.strategy.m_active) :
    Consistent (s.onJob id job) := by
  rw [Network.onJob]
  split
  · exact h
  · exact consistent_setJob h hjob

theorem consistent_onPause {s : Network ι} (h : Consistent s) : Consistent s.onPause := by
  rw [Network.onPause]
  split
  · exact ⟨h.inRange,h.clientJob,h.published,h.held,h.queued⟩
  · exact h

/-- A stamped call keeps the invariant. -/
theorem consistent_perform {s : Network ι} (h : Consistent s) (call : Call)
    (hcall : CallStamped s.strategy call) : Consistent (s.perform call) := by
  cases call with
  | onPause => exact consistent_onPause h
  | onJob id job => exact consistent_onJob h id hcall
  | _ => exact h

/-- An operation keeps the invariant when its strategy is in range and its calls are
stamped. -/
theorem consistent_effect {s : Network ι} (h : Consistent s) (e : Effect)
    (hrange : e.strategy.InRange) (hcalls : ∀ call∈e.calls, CallStamped e.strategy call) :
    Consistent (s.effect e) := by
  have hfold : ∀ (calls : List Call) (t : Network ι), Consistent t →
      (∀ call∈calls, CallStamped t.strategy call) →
      Consistent (calls.foldl Network.perform t) := by
    intro calls
    induction calls with
    | nil => exact fun _ ht _ => ht
    | cons call calls ih =>
      intro t ht hc
      refine ih _ (consistent_perform ht call (hc call List.mem_cons_self)) ?_
      intro call' hm
      rw [t.perform_strategy]
      exact hc call' (List.mem_cons_of_mem _ hm)
  exact hfold e.calls _ ⟨hrange,h.clientJob,h.published,h.held,h.queued⟩ hcalls

/-- Calls on clients, pauses and logins hand on no job. -/
theorem callStamped_of_quiet (s : FailoverStrategy) {call : Call}
    (h : ∀ id job, call ≠ .onJob id job) : CallStamped s call := by
  cases call with
  | onJob id job => exact absurd rfl (h id job)
  | _ => trivial

/-- Taking a job keeps the jobs of both states stamped. -/
theorem stamped_take {h : HeldJobs} (hh : Stamped h.state ∧ Stamped h.paused) {job : HeldJob}
    (hjob : Stamped job) : Stamped (h.take job).state ∧ Stamped (h.take job).paused := by
  rw [HeldJobs.take]
  split
  · exact hh
  · dsimp only
    by_cases hsave : job.job.m_poolId=-1 ∧ 0 ≤ h.state.job.m_poolId
    · rw [if_pos hsave]
      split
      · exact ⟨hh.1,hh.1⟩
      · exact ⟨hjob,hh.1⟩
    · rw [if_neg hsave]
      split
      · exact ⟨hh.2,hh.2⟩
      · exact ⟨hjob,hh.2⟩

/-- A client may keep a job of its own pool. -/
theorem consistent_keepJob {s : Network ι} (h : Consistent s) (id : ℤ) (job : Job)
    (hjob : job.m_poolId=id) :
    Consistent {s with clientJob := Function.update s.clientJob id job} := by
  refine ⟨h.inRange,?_,h.published,h.held,h.queued⟩
  intro i hi
  dsimp only at hi ⊢
  by_cases hii : i=id
  · rw [hii,Function.update_self,hjob]
  · rw [Function.update_of_ne hii] at hi ⊢
    exact h.clientJob i hi

/-- A job of a pool keeps the invariant. -/
theorem consistent_jobReceived {s : Network ι} (h : Consistent s) (id : ℤ) (job : Job) :
    Consistent
      ({s with clientJob := Function.update s.clientJob id {job with m_poolId := id}}.effect
        (s.strategy.onJobReceived id {job with m_poolId := id})) := by
  refine consistent_effect (consistent_keepJob h id {job with m_poolId := id} rfl) _ ?_ ?_
  · rw [FailoverStrategy.onJobReceived_strategy]
    exact h.inRange
  · intro call hm
    obtain ⟨rfl,hactive⟩ := FailoverStrategy.onJobReceived_calls hm
    rw [FailoverStrategy.onJobReceived_strategy]
    exact fun _ => hactive.symm

/-- The end of a donation, with the job of the active client, keeps the invariant. -/
theorem consistent_resume {s : Network ι} (h : Consistent s) :
    Consistent ({s with donate := some ⟨false⟩}.effect (s.strategy.resume s.clientJob)) := by
  have hoff : Consistent {s with donate := some ⟨false⟩} :=
    ⟨h.inRange,h.clientJob,h.published,h.held,h.queued⟩
  refine consistent_effect hoff _ ?_ ?_
  · rw [FailoverStrategy.resume_strategy]
    exact h.inRange
  · intro call hm
    obtain ⟨rfl,-⟩ := FailoverStrategy.resume_calls hm
    rw [FailoverStrategy.resume_strategy]
    exact h.clientJob _

/-- A worker that takes the published job keeps the invariant. -/
theorem consistent_take [DecidableEq ι] {s : Network ι} (h : Consistent s) (i : ι) :
    Consistent {s with
      threads := Function.update s.threads i ((s.threads i).take s.workers.m_job)} := by
  refine ⟨h.inRange,h.clientJob,h.published,?_,h.queued⟩
  intro k
  dsimp only
  by_cases hki : k=i
  · subst hki
    rw [Function.update_self]
    exact stamped_take (h.held k) h.published
  · rw [Function.update_of_ne hki]
    exact h.held k

/-- Every event keeps the invariant. -/
theorem consistent_step [DecidableEq ι] {s : Network ι} (h : Consistent s) (e : Event ι) :
    Consistent (step s e) := by
  cases e with
  | connect =>
    refine consistent_effect h _ h.inRange ?_
    intro call hm
    rw [List.mem_singleton.mp hm]
    trivial
  | tick =>
    refine consistent_effect h _ h.inRange ?_
    intro call hm
    obtain ⟨i,-,rfl⟩ := List.mem_map.mp hm
    trivial
  | stop =>
    refine consistent_effect h _ FailoverStrategy.inRange_stop ?_
    intro call hm
    rcases List.mem_append.mp hm with hm|hm
    · obtain ⟨i,-,rfl⟩ := List.mem_map.mp hm
      trivial
    · rw [List.mem_singleton.mp hm]
      trivial
  | login id =>
    rw [step]
    split
    · rename_i hid
      refine consistent_effect h _ (FailoverStrategy.inRange_onLoginSuccess h.inRange
        ⟨by omega,by omega⟩) ?_
      intro call hm
      exact callStamped_of_quiet _ (FailoverStrategy.onLoginSuccess_calls hm)
    · exact h
  | job id job =>
    rw [step]
    split
    · exact consistent_jobReceived h id job
    · exact h
  | close id failures =>
    rw [step]
    split
    · refine consistent_effect h _ (FailoverStrategy.inRange_onClose h.inRange _ _ _) ?_
      intro call hm
      exact callStamped_of_quiet _ (FailoverStrategy.onClose_calls hm)
    · exact h
  | donateLogin => exact ⟨h.inRange,h.clientJob,h.published,h.held,h.queued⟩
  | donateJob job =>
    rw [step]
    split
    · exact consistent_onJob h (-1) (fun hp => absurd hp (show ¬(0 : ℤ) ≤ -1 by decide))
    · exact h
  | donateTimer =>
    rw [step]
    split
    · exact consistent_onPause (consistent_resume h)
    · exact h
  | consume i => exact consistent_take h i
  | found i nonce hash =>
    refine ⟨h.inRange,h.clientJob,h.published,h.held,?_⟩
    intro share hm
    rcases List.mem_append.mp hm with hm|hm
    · exact h.queued share hm
    · rw [List.mem_singleton.mp hm]
      exact (h.held i).1
  | onResult => exact ⟨h.inRange,h.clientJob,h.published,h.held,fun _ hm => (nomatch hm)⟩

/-- The client that `FailoverStrategy::submit` hands a result to, if the result is taken
there and the index is one of a pool. -/
def handedTo (s : Network ι) (result : JobResult) : Option ℤ :=
  match s.onJobResult result with
  | .donate => none
  | .pool index => s.strategy.client index

/-- Every share of a pool drained by this event is handed to the client of that pool. -/
def HandedToIssuer (s : Network ι) : Event ι → Prop
  | .onResult => ∀ share∈s.workers.m_queue, 0 ≤ share.result.poolId →
    ∀ client, handedTo s share.result=some client → client=share.result.poolId
  | _ => True

/-- Every share of a pool drained by this event, if a pool is active, is for a job that was
handed to the workers while the same pool was active. -/
def ActiveAsPublished (s : Network ι) : Event ι → Prop
  | .onResult => ∀ share∈s.workers.m_queue, 0 ≤ share.result.poolId →
    s.strategy.isActive=true → s.strategy.m_active=share.active
  | _ => True

/-- A share with a pool's identifier is handed to the active pool, if any. -/
theorem handedTo_eq {s : Network ι} (h : Consistent s) {result : JobResult}
    (hpool : 0 ≤ result.poolId) :
    handedTo s result=if s.strategy.isActive=true then some s.strategy.m_active else none := by
  rw [handedTo,Network.onJobResult,if_neg (fun hd => by omega),FailoverStrategy.submit]
  dsimp only
  rw [FailoverStrategy.client,FailoverStrategy.isActive]
  have hlt := h.inRange.lt
  by_cases ha : 0 ≤ s.strategy.m_active
  · rw [if_pos ⟨ha,hlt⟩,decide_eq_true ha,if_pos rfl]
  · rw [if_neg (fun hr => ha hr.1),decide_eq_false ha,if_neg (by decide)]

/-- Shares reach the pool that issued their job exactly when, at each delivery, the active
pool is the one that was active when the job was handed to the workers. -/
theorem handed_to_issuer_iff [DecidableEq ι] (pools : ℕ) (retries : ℤ) (donate : Bool)
    (garbage : CellMemory.Cells UInt8) (events : List (Event ι)) :
    AlongSteps step HandedToIssuer (Network.start pools retries donate garbage) events ↔
      AlongSteps step ActiveAsPublished (Network.start pools retries donate garbage) events := by
  refine alongSteps_congr_of_invariant (I:=Consistent) (fun _ e hs _ => consistent_step hs e) ?_
    (consistent_start pools retries donate garbage) (alongSteps_true _ _ events)
  intro s e hs _
  cases e with
  | onResult =>
    apply forall_congr'
    intro share
    apply forall_congr'
    intro hm
    apply forall_congr'
    intro hpool
    rw [handedTo_eq hs hpool,hs.queued share hm hpool]
    by_cases ha : s.strategy.isActive=true
    · rw [if_pos ha]
      exact ⟨fun h _ => h _ rfl,fun h client hc => by rw [←Option.some.inj hc,h ha]⟩
    · rw [if_neg ha]
      exact ⟨fun _ h => absurd h ha,fun _ _ hc => nomatch hc⟩
  | _ => exact Iff.rfl

section InService

/-- The pool in service after an event, by the events alone: a login puts its pool into
service if it is the first pool or none is, and a close or a stop ends the service. -/
def serveNext (pools : ℕ) : Option ℕ → Event ι → Option ℕ
  | _,.stop => none
  | p,.login id => if id<pools ∧ (id=0 ∨ p=none) then some id else p
  | p,.close id failures => if p=some id ∧ failures ≠ -1 then none else p
  | p,_ => p

/-- The pool in service after a run. -/
def inService (pools : ℕ) (events : List (Event ι)) : Option ℕ :=
  events.foldl (serveNext pools) none

/-- `m_active` for a pool in service. -/
def activeIndex : Option ℕ → ℤ
  | none => -1
  | some i => i

/-- `m_active` stands for a pool in service, which is one of the pools. -/
structure Serves (pools : ℕ) (s : FailoverStrategy) (p : Option ℕ) : Prop where
  /-- The number of pools does not change. -/
  pools_eq : s.pools=pools
  /-- The index. -/
  active_eq : s.m_active=activeIndex p
  /-- The pool exists. -/
  lt : ∀ i, p=some i → i<pools

/-- A login puts its pool into service if it is the first one or none is active. -/
theorem serves_login {pools : ℕ} {s : FailoverStrategy} {p : Option ℕ} (h : Serves pools s p)
    {id : ℕ} (hid : id<pools) :
    Serves pools (s.onLoginSuccess id).strategy
      (if id<pools ∧ (id=0 ∨ p=none) then some id else p) := by
  have hinactive : s.isActive=false ↔ p=none := by
    rw [FailoverStrategy.isActive,decide_eq_false_iff_not,h.active_eq]
    cases p with
    | none => exact iff_of_true (by decide) rfl
    | some i => exact iff_of_false (not_not.mpr (Int.natCast_nonneg i)) nofun
  have hnew : ((id : ℤ)=0 ∨ s.isActive=false) ↔ id=0 ∨ p=none :=
    or_congr Int.ofNat_eq_zero hinactive
  refine ⟨(FailoverStrategy.onLoginSuccess_pools s (Int.natCast_nonneg id)).trans h.pools_eq,?_,?_⟩
  · rw [FailoverStrategy.onLoginSuccess_m_active s (Int.natCast_nonneg id)]
    by_cases hn : id=0 ∨ p=none
    · rw [if_pos (hnew.mpr hn),if_pos ⟨hid,hn⟩]
      rfl
    · rw [if_neg fun hc => hn (hnew.mp hc),if_neg fun hc => hn hc.2]
      exact h.active_eq
  · intro i hi
    split at hi
    · rw [←Option.some.inj hi]
      exact hid
    · exact h.lt i hi

/-- A close of the pool in service ends its service, unless it reports a disconnect. -/
theorem serves_close {pools : ℕ} {s : FailoverStrategy} {p : Option ℕ} (h : Serves pools s p)
    (retries : ℤ) (id : ℕ) (failures : ℤ) :
    Serves pools (FailoverStrategy.onClose retries s id failures).strategy
      (if p=some id ∧ failures ≠ -1 then none else p) := by
  have hsame : s.m_active=id ↔ p=some id := by
    rw [h.active_eq]
    cases p with
    | none => exact iff_of_false (fun he => by rw [activeIndex] at he; omega) nofun
    | some i => exact Int.ofNat_inj.trans Option.some_inj.symm
  refine ⟨(FailoverStrategy.onClose_pools retries s id failures).trans h.pools_eq,?_,?_⟩
  · rw [FailoverStrategy.onClose_m_active]
    by_cases hc : p=some id ∧ failures ≠ -1
    · rw [if_pos hc,if_pos ⟨hc.2,hsame.mpr hc.1⟩]
      rfl
    · rw [if_neg hc,if_neg fun hn => hc ⟨hsame.mp hn.2,hn.1⟩]
      exact h.active_eq
  · intro i hi
    split at hi
    · cases hi
    · exact h.lt i hi

/-- Each event moves the pool in service as `m_active` moves. -/
theorem serves_step [DecidableEq ι] {pools : ℕ} {s : Network ι} {p : Option ℕ}
    (h : Serves pools s.strategy p) (e : Event ι) :
    Serves pools (step s e).strategy (serveNext pools p e) := by
  cases e with
  | connect | tick =>
    rw [step,Network.effect_strategy]
    exact h
  | stop =>
    rw [step,Network.effect_strategy]
    exact ⟨h.pools_eq,rfl,nofun⟩
  | login id =>
    rw [step,h.pools_eq]
    by_cases hid : id<pools
    · rw [if_pos hid,Network.effect_strategy]
      exact serves_login h hid
    · rw [if_neg hid,serveNext,if_neg fun hc => hid hc.1]
      exact h
  | job id job =>
    rw [step]
    split
    · rw [Network.effect_strategy,FailoverStrategy.onJobReceived_strategy]
      exact h
    · exact h
  | close id failures =>
    rw [step,h.pools_eq]
    by_cases hid : id<pools
    · rw [if_pos hid,Network.effect_strategy]
      exact serves_close h s.retries id failures
    · rw [if_neg hid,serveNext,if_neg fun hc => hid (h.lt id hc.1)]
      exact h
  | donateLogin | consume | found | onResult => exact h
  | donateJob job =>
    rw [step]
    split
    · rw [Network.onJob_strategy]
      exact h
    · exact h
  | donateTimer =>
    rw [step]
    split
    · rw [Network.onDonatePause,Network.onPause_strategy,Network.effect_strategy,
        FailoverStrategy.resume_strategy]
      exact h
    · exact h

/-- The strategy is active exactly while the events so far have put a pool into service:
from a login until the close of its pool or a stop. -/
theorem m_active_eq_inService [DecidableEq ι] (pools : ℕ) (retries : ℤ) (donate : Bool)
    (garbage : CellMemory.Cells UInt8) (events : List (Event ι)) :
    (runFrom step (Network.start pools retries donate garbage) events).strategy.m_active=
      activeIndex (inService pools events) := by
  have hrun : ∀ (es : List (Event ι)) (s : Network ι) (p : Option ℕ),
      Serves pools s.strategy p →
      Serves pools (runFrom step s es).strategy (es.foldl (serveNext pools) p) := by
    intro es
    induction es with
    | nil => exact fun _ _ h => h
    | cons e es ih => exact fun s p h => ih _ _ (serves_step h e)
  exact (hrun events _ none ⟨rfl,rfl,nofun⟩).active_eq

/-- An index stands for a pool or for none. -/
theorem activeIndex_nonneg_iff (p : Option ℕ) : 0 ≤ activeIndex p ↔ p ≠ none := by
  cases p with
  | none => exact iff_of_false (by decide) (not_not.mpr rfl)
  | some i => exact iff_of_true (Int.natCast_nonneg i) (Option.some_ne_none i)

end InService

/-- Every result drained by this event and taken to the pool strategy finds an index of a
pool there. -/
def SubmitsInRange (s : Network ι) : Event ι → Prop
  | .onResult => ∀ share∈s.workers.m_queue, ∀ index,
    s.onJobResult share.result=.pool index → 0 ≤ index ∧ index<s.strategy.pools
  | _ => True

/-- No event makes a donation strategy or takes it away. -/
theorem donate_isSome_step [DecidableEq ι] (s : Network ι) (e : Event ι) :
    (step s e).donate.isSome=s.donate.isSome := by
  cases e with
  | connect | stop | tick => exact congrArg Option.isSome (Network.effect_donate _ _)
  | login id =>
    rw [step]
    split
    · rw [Network.effect_donate]
    · rfl
  | job id job =>
    rw [step]
    split
    · rw [Network.effect_donate]
    · rfl
  | close id failures =>
    rw [step]
    split
    · rw [Network.effect_donate]
    · rfl
  | donateLogin => exact Option.isSome_map
  | donateJob job =>
    rw [step]
    split
    · rw [Network.onJob_donate]
    · rfl
  | donateTimer =>
    rw [step]
    split
    · rename_i hdonating
      have hsome : s.donate.isSome=true := by
        rw [Network.donating] at hdonating
        cases hdonate : s.donate with
        | none =>
          rw [hdonate] at hdonating
          cases hdonating
        | some strategy => rfl
      rw [Network.onDonatePause,Network.onPause_donate,Network.effect_donate,hsome]
      rfl
    · rfl
  | consume | found | onResult => rfl

/-- Whether there is a donation strategy is settled at the start. -/
theorem donate_isSome [DecidableEq ι] (pools : ℕ) (retries : ℤ) (donate : Bool)
    (garbage : CellMemory.Cells UInt8) (events : List (Event ι)) :
    (runFrom step (Network.start pools retries donate garbage) events).donate.isSome=donate := by
  have hstart : (Network.start pools retries donate garbage : Network ι).donate.isSome=donate := by
    cases donate <;> rfl
  exact (invariant_alongStates (P:=fun _ _ => True)
    (I:=fun s : Network ι => s.donate.isSome=donate)
    (fun s e h _ => (donate_isSome_step s e).trans h) hstart (alongSteps_true _ _ _)).last

/-- The network after a start and some events. -/
def networkAfter [DecidableEq ι] (pools : ℕ) (retries : ℤ) (donate : Bool)
    (garbage : CellMemory.Cells UInt8) (events : List (Event ι)) : Network ι :=
  runFrom step (Network.start pools retries donate garbage) events

/-- Whenever the queue is drained and has a result that is not the donation's, the events before
have put a pool into service: it has logged in when it was the first one or none was in service,
and since then it has not closed and there was no stop. -/
def ServedAtDelivery [DecidableEq ι] (pools : ℕ) (retries : ℤ) (donate : Bool)
    (garbage : CellMemory.Cells UInt8) (events : List (Event ι)) : Prop :=
  ∀ before after, events=before++.onResult::after →
    (∃ share∈(networkAfter pools retries donate garbage before).workers.m_queue,
      ¬(share.result.poolId=-1 ∧ donate=true)) → inService pools before ≠ none

/-- Results that are taken to the pool strategy find a pool there exactly when one is active. -/
theorem submitsInRange_iff {s : Network ι} (hs : Consistent s) :
    SubmitsInRange s .onResult ↔ ((∃ share∈s.workers.m_queue,
      ¬(share.result.poolId=-1 ∧ s.donate.isSome=true)) → 0 ≤ s.strategy.m_active) := by
  constructor
  · rintro h ⟨share,hm,hd⟩
    have hpool : s.onJobResult share.result=.pool s.strategy.m_active := if_neg hd
    exact (h share hm _ hpool).1
  · intro h share hm index hi
    by_cases hd : share.result.poolId=-1 ∧ s.donate.isSome=true
    · rw [Network.onJobResult,if_pos hd] at hi
      cases hi
    · rw [Network.onJobResult,if_neg hd] at hi
      rw [←Destination.pool.inj hi]
      exact ⟨h ⟨share,hm,hd⟩,hs.inRange.lt⟩

/-- `submit` indexes inside `m_pools` exactly when at each delivery to the pool strategy the events
so far have put a pool into service. -/
theorem submits_in_range_iff [DecidableEq ι] (pools : ℕ) (retries : ℤ) (donate : Bool)
    (garbage : CellMemory.Cells UInt8) (events : List (Event ι)) :
    AlongSteps step SubmitsInRange (Network.start pools retries donate garbage) events ↔
      ServedAtDelivery pools retries donate garbage events := by
  have hconsistent : ∀ before : List (Event ι),
      Consistent (networkAfter pools retries donate garbage before) := fun before =>
    (invariant_alongStates (I:=Consistent) (P:=fun _ _ => True)
      (fun _ e hs _ => consistent_step hs e) (consistent_start pools retries donate garbage)
      (alongSteps_true _ _ before)).last
  have hserved : ∀ before : List (Event ι),
      0 ≤ (networkAfter pools retries donate garbage before).strategy.m_active ↔
        inService pools before ≠ none := fun before => by
    rw [networkAfter,m_active_eq_inService,activeIndex_nonneg_iff]
  have hdonate : ∀ before : List (Event ι),
      (networkAfter pools retries donate garbage before).donate.isSome=donate :=
    donate_isSome pools retries donate garbage
  rw [alongSteps_iff_before]
  constructor
  · intro h before after hevents hshare
    have hrange := h before .onResult after hevents
    rw [←hserved]
    refine (submitsInRange_iff (hconsistent before)).mp hrange ?_
    rwa [hdonate]
  · intro h before e after hevents
    cases e with
    | onResult =>
      refine (submitsInRange_iff (hconsistent before)).mpr ?_
      rw [hdonate,hserved]
      exact h before after hevents
    | _ => trivial

/-- A job with nothing in it. -/
def emptyJob : Job := Job.new (fun _ => 0) (-2) false

/-- Pool 0 fails as often as allowed, pool 1 logs in and sends a job, a share of it is
found, and pool 0 comes back before the share is delivered. -/
def primaryReturns : List (Event Unit) :=
  [.connect,.close 0 5,.login 1,.job 1 {emptyJob with m_id := (JobId.setId (some [1])).2},
    .consume (),.found () 7 (List.replicate 32 0),.login 0,.onResult]

/-- The share of pool 1 is handed to pool 0. -/
theorem share_of_pool_one_goes_to_pool_zero :
    ¬AlongSteps step HandedToIssuer (Network.start 2 5 false (fun _ => 0)) primaryReturns := by
  rintro ⟨-,-,-,-,-,-,-,h,-⟩
  have hclient := h _ (List.mem_singleton.mpr rfl) (by decide +kernel) 0 (by decide +kernel)
  exact absurd hclient (by decide +kernel)

/-- The only active pool closes before a share of its job is delivered. -/
def lastPoolCloses : List (Event Unit) :=
  [.connect,.login 0,.job 0 {emptyJob with m_id := (JobId.setId (some [1])).2},
    .consume (),.found () 7 (List.replicate 32 0),.close 0 1,.onResult]

/-- Then `submit` takes the client at index -1. -/
theorem submit_takes_index_minus_one :
    ¬AlongSteps step SubmitsInRange (Network.start 2 5 false (fun _ => 0)) lastPoolCloses := by
  rintro ⟨-,-,-,-,-,-,h,-⟩
  have hrange := h _ (List.mem_singleton.mpr rfl) (-1) (by decide +kernel)
  exact absurd hrange.1 (by decide)

end XmrigCC.ShareDelivery
