import XmrigCC.FailoverPools
import XmrigCC.MultiWorker

/-!
# Pools, network and workers together

`Network` stands between the strategies and `Workers`: jobs of the active pool
or of the donation pool go to the workers, and the shares they push are drained
later and handed to whatever pool is active then. A history variable remembers
which pool was active when a job was handed to the workers.
-/

namespace XmrigCC.MiningNetwork

open MiningJob MultiWorker FailoverPools

/-- A job in the hands of the workers. -/
structure HeldJob where
  /-- The job. -/
  job : Job
  /-- History: the strategy's `m_active` when `Network` handed the job on. -/
  active : ℤ

/-- The jobs of a worker's two states. -/
structure HeldJobs where
  /-- `m_state->job`. -/
  state : HeldJob
  /-- `m_pausedState->job`. -/
  paused : HeldJob

/-- What `MultiWorker::consumeJob` does to the jobs of the two states. -/
def HeldJobs.take (h : HeldJobs) (job : HeldJob) : HeldJobs :=
  if h.state.job.same job.job then h
  else
    let h : HeldJobs :=
      if job.job.m_poolId=-1 ∧ 0 ≤ h.state.job.m_poolId then {h with paused := h.state} else h
    if h.state.job.m_poolId=-1 ∧ 0 ≤ job.job.m_poolId ∧ job.job.m_id=h.paused.job.m_id then
      {h with state := h.paused}
    else {h with state := job}

/-- A share in `m_queue`. -/
structure Share where
  /-- The result pushed. -/
  result : JobResult
  /-- History, taken from the job the share is for. -/
  active : ℤ

/-- A share of a held job, with a nonce and a hash. -/
def HeldJob.share (h : HeldJob) (nonce : UInt32) (hash : List UInt8) : Share :=
  ⟨⟨h.job.m_poolId,h.job.m_id,nonce,hash,h.job.diff⟩,h.active⟩

/-- The static members of `Workers`. -/
structure Workers where
  /-- `m_job`. -/
  m_job : HeldJob
  /-- `m_active`. -/
  m_active : Bool
  /-- `m_enabled`. -/
  m_enabled : Bool
  /-- `m_paused`, 0 or 1. -/
  m_paused : ℕ
  /-- `m_sequence`. -/
  m_sequence : UInt64
  /-- `m_queue`. -/
  m_queue : List Share

/-- `Workers::setJob`. -/
def Workers.setJob (w : Workers) (job : HeldJob) : Workers :=
  let w := {w with m_job := job,m_active := true}
  if w.m_enabled=false then w else {w with m_sequence := w.m_sequence+1,m_paused := 0}

/-- `Workers::pause`. -/
def Workers.pause (w : Workers) : Workers :=
  {w with m_active := false,m_paused := 1,m_sequence := w.m_sequence+1}

/-- `DonateStrategy`, as far as the network sees it. -/
structure DonateStrategy where
  /-- `m_active`. -/
  m_active : Bool

/-- The miner: network, pool clients and worker threads. -/
structure Network (ι : Type) where
  /-- `Options::i()->retries()`. -/
  retries : ℤ
  /-- `m_strategy`. -/
  strategy : FailoverStrategy
  /-- `m_pools[i]->job()`. -/
  clientJob : ℤ → Job
  /-- `m_donate`, none when donation is off. -/
  donate : Option DonateStrategy
  /-- The workers' shared state. -/
  workers : Workers
  /-- The jobs the worker threads hold. -/
  threads : ι → HeldJobs

/-- The network after start: no job has been received, and jobs keep what their memory
held. -/
def Network.start {ι : Type} (pools : ℕ) (retries : ℤ) (donate : Bool)
    (garbage : CellMemory.Cells UInt8) : Network ι where
  retries := retries
  strategy := FailoverStrategy.new pools
  clientJob _ := Job.new garbage (-2) false
  donate := if donate then some ⟨false⟩ else none
  workers := ⟨⟨Job.new garbage (-2) false,-1⟩,false,true,1,1,[]⟩
  threads _ := ⟨⟨Job.new garbage (-2) false,-1⟩,⟨Job.new garbage (-2) false,-1⟩⟩

section Operations

variable {ι : Type}

/-- `m_donate && m_donate->isActive()`. -/
def Network.donating (s : Network ι) : Bool := s.donate.any (·.m_active)

/-- `Network::setJob`. -/
def Network.setJob (s : Network ι) (job : Job) : Network ι :=
  {s with workers := s.workers.setJob ⟨job,s.strategy.m_active⟩}

/-- `Network::onJob`: while donating, jobs of the pools are not handed on. -/
def Network.onJob (s : Network ι) (id : ℤ) (job : Job) : Network ι :=
  if s.donating=true ∧ id ≠ -1 then s else s.setJob job

/-- `Network::onPause` from the pool strategy. -/
def Network.onPause (s : Network ι) : Network ι :=
  if s.strategy.isActive=false then {s with workers := s.workers.pause} else s

/-- A call on the listener; calls on clients are the environment's. -/
def Network.perform (s : Network ι) : Call → Network ι
  | .onPause => s.onPause
  | .onJob id job => s.onJob id job
  | .connect _ | .disconnect _ | .tick _ | .onActive _ => s

/-- An operation of the strategy and its calls. -/
def Network.effect (s : Network ι) (e : Effect) : Network ι :=
  e.calls.foldl Network.perform {s with strategy := e.strategy}

/-- `Network::onPause` from the donation strategy: the pools resume first. -/
def Network.onDonatePause (s : Network ι) : Network ι :=
  (s.effect (s.strategy.resume s.clientJob)).onPause

/-- Where `Network::onJobResult` takes a result. -/
inductive Destination where
  /-- `m_donate->submit`. -/
  | donate
  /-- `m_strategy->submit`, which takes the client at this index. -/
  | pool (index : ℤ)
  deriving DecidableEq

/-- `Network::onJobResult`. -/
def Network.onJobResult (s : Network ι) (result : JobResult) : Destination :=
  if result.poolId=-1 ∧ s.donate.isSome=true then .donate else .pool s.strategy.submit

/-- Events of the main loop and of the worker threads. -/
inductive Event (ι : Type) where
  /-- `Network::connect`. -/
  | connect
  /-- `Network::stop`. -/
  | stop
  /-- `Network::tick`. -/
  | tick
  /-- A pool's login is answered: the client calls `onLoginSuccess`. -/
  | login (id : ℕ)
  /-- A pool's client accepts a job, keeps it and calls `onJobReceived`. -/
  | job (id : ℕ) (job : Job)
  /-- A pool's client reports a close, with its failures. -/
  | close (id : ℕ) (failures : ℤ)
  /-- The donation pool's login is answered. -/
  | donateLogin
  /-- The donation pool sends a job. -/
  | donateJob (job : Job)
  /-- `DonateStrategy::onTimer`. -/
  | donateTimer
  /-- A worker takes the published job. -/
  | consume (i : ι)
  /-- A worker submits a share of the job it holds. -/
  | found (i : ι) (nonce : UInt32) (hash : List UInt8)
  /-- `Workers::onResult` drains the queue. -/
  | onResult

/-- The system after an event. Events of clients that do not exist change nothing. -/
def step [DecidableEq ι] (s : Network ι) : Event ι → Network ι
  | .connect => s.effect s.strategy.connect
  | .stop => s.effect s.strategy.stop
  | .tick => s.effect s.strategy.tick
  | .login id => if id<s.strategy.pools then s.effect (s.strategy.onLoginSuccess id) else s
  | .job id job =>
    if id<s.strategy.pools then
      let job := {job with m_poolId := id}
      let s := {s with clientJob := Function.update s.clientJob id job}
      s.effect (s.strategy.onJobReceived id job)
    else s
  | .close id failures =>
    if id<s.strategy.pools then
      s.effect (FailoverStrategy.onClose s.retries s.strategy id failures)
    else s
  | .donateLogin => {s with donate := s.donate.map fun _ => ⟨true⟩}
  | .donateJob job =>
    if s.donate.isSome then s.onJob (-1) {job with m_poolId := -1} else s
  | .donateTimer =>
    if s.donating then Network.onDonatePause {s with donate := some ⟨false⟩} else s
  | .consume i =>
    {s with threads := Function.update s.threads i ((s.threads i).take s.workers.m_job)}
  | .found i nonce hash =>
    {s with workers := {s.workers with
      m_queue := s.workers.m_queue++[(s.threads i).state.share nonce hash]}}
  | .onResult => {s with workers := {s.workers with m_queue := []}}

/-- Handing on a job leaves the strategy alone. -/
theorem Network.onJob_strategy (s : Network ι) (id : ℤ) (job : Job) :
    (s.onJob id job).strategy=s.strategy := by
  rw [Network.onJob]
  split <;> rfl

/-- And the donation. -/
theorem Network.onJob_donate (s : Network ι) (id : ℤ) (job : Job) :
    (s.onJob id job).donate=s.donate := by
  rw [Network.onJob]
  split <;> rfl

theorem Network.onPause_donate (s : Network ι) : s.onPause.donate=s.donate := by
  rw [Network.onPause]
  split <;> rfl

/-- So does a pause. -/
theorem Network.onPause_strategy (s : Network ι) : s.onPause.strategy=s.strategy := by
  rw [Network.onPause]
  split <;> rfl

/-- No call of the strategy changes it. -/
theorem Network.perform_strategy (s : Network ι) (call : Call) :
    (s.perform call).strategy=s.strategy := by
  cases call with
  | onPause => exact s.onPause_strategy
  | onJob id job => exact s.onJob_strategy id job
  | _ => rfl

/-- An operation leaves the strategy it computes. -/
theorem Network.effect_strategy (s : Network ι) (e : Effect) :
    (s.effect e).strategy=e.strategy := by
  have hfold : ∀ (calls : List Call) (t : Network ι),
      (calls.foldl Network.perform t).strategy=t.strategy := by
    intro calls
    induction calls with
    | nil => exact fun _ => rfl
    | cons call calls ih => exact fun t => (ih _).trans (t.perform_strategy call)
  exact hfold e.calls _

/-- The calls of an operation leave the donation alone. -/
theorem Network.effect_donate (s : Network ι) (e : Effect) : (s.effect e).donate=s.donate := by
  have hperform : ∀ (call : Call) (t : Network ι), (t.perform call).donate=t.donate := by
    intro call t
    cases call with
    | onPause => exact t.onPause_donate
    | onJob id job => exact t.onJob_donate id job
    | _ => rfl
  have hfold : ∀ (calls : List Call) (t : Network ι),
      (calls.foldl Network.perform t).donate=t.donate := by
    intro calls
    induction calls with
    | nil => exact fun _ => rfl
    | cons call calls ih => exact fun t => (ih _).trans (hperform call t)
  exact hfold e.calls _

end Operations

/-- The jobs held are those of a hashing worker. -/
structure Holds (h : HeldJobs) (w : Worker) : Prop where
  /-- `m_state->job`. -/
  state : h.state.job=w.state.job
  /-- `m_pausedState->job`. -/
  paused : h.paused.job=w.paused.job

/-- Taking a job follows `consumeJob` of the hashing worker. -/
theorem holds_take (cfg : Setup) {h : HeldJobs} {w : Worker} (hw : Holds h w) (job : HeldJob)
    (sequence : UInt64) : Holds (h.take job) (consumeJob cfg w job.job sequence) := by
  obtain ⟨hs,hp⟩ := hw
  rw [HeldJobs.take,consumeJob,hs]
  dsimp only
  split
  · exact ⟨hs,hp⟩
  · by_cases hsave : job.job.m_poolId=-1 ∧ 0 ≤ w.state.job.m_poolId
    · have hr : ¬Resumes {w with m_sequence := sequence,paused := w.state} job.job :=
        fun h => by
          have h0 := h.2.1
          omega
      rw [if_pos hsave,save,if_pos hsave,resume,if_neg hr]
      dsimp only
      rw [if_neg (fun h => by omega)]
      obtain ⟨hfs,hfp,-⟩ := fillFrom_frame cfg 0 cfg.hashMultiplier
        {w with m_sequence := sequence,paused := w.state,state := {w.state with job := job.job}}
      exact ⟨by rw [hfs],by rw [hfp]; exact hs⟩
    · rw [if_neg hsave,save,if_neg hsave,resume]
      by_cases hr : Resumes w job.job
      · have hr' : Resumes {w with m_sequence := sequence} job.job := hr
        rw [if_pos hr',hs,hp]
        dsimp only
        rw [Resumes] at hr
        rw [if_pos hr]
        exact ⟨hp,hp⟩
      · have hr' : ¬Resumes {w with m_sequence := sequence} job.job := hr
        rw [if_neg hr',hs,hp]
        dsimp only
        rw [Resumes] at hr
        rw [if_neg hr]
        obtain ⟨hfs,hfp,-⟩ := fillFrom_frame cfg 0 cfg.hashMultiplier
          {w with m_sequence := sequence,state := {w.state with job := job.job}}
        exact ⟨by rw [hfs],by rw [hfp]; exact hp⟩

/-- Every share a hash call submits is a share of the job held. -/
theorem share_of_hashOnce (cfg : Setup) {h : HeldJobs} {w : Worker} (hw : Holds h w)
    {r : JobResult} (hr : r∈(hashOnce cfg w).results) :
    ∃ nonce hash, r=(h.state.share nonce hash).result := by
  obtain ⟨lane,-,hs⟩ := List.mem_filterMap.mp hr
  rw [shareOf] at hs
  split at hs
  · rw [(advanceFrom_frame 0 cfg.hashMultiplier w).1,←hw.state] at hs
    exact ⟨_,_,(Option.some.inj hs).symm⟩
  · cases hs

end XmrigCC.MiningNetwork
