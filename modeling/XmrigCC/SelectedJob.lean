import XmrigCC.MiningNetwork
import XmrigCC.PoolStrategies
import XmrigCC.TransitionRuns

/-!
# The job of the selected source

`Network` between the donation pool, the pools and the workers. While donation
is active its pool is the source of the workers' job, and otherwise the active
pool is. The two strategies tell the network of their jobs and pauses without
regard to each other.
-/

namespace XmrigCC.SelectedJob

open MiningJob TransitionRuns FailoverPools PoolStrategies
open MiningNetwork (Workers DonateStrategy HeldJob Network)

/-- The main loop's side of the miner. -/
structure Miner where
  /-- `Options::i()->retries()`. -/
  retries : ℤ
  /-- `m_strategy`. -/
  strategy : PoolStrategy
  /-- The jobs the pool clients hold. -/
  clientJob : ℤ → Job
  /-- `m_donate`. -/
  donate : DonateStrategy
  /-- The job the client of `m_donate` holds. -/
  donateJob : Job
  /-- `Workers`. -/
  workers : Workers

/-- The miner after start: no job has been received, and jobs keep what their memory held. -/
def Miner.start (pools : ℕ) (retries : ℤ) (garbage : CellMemory.Cells UInt8) : Miner where
  retries := retries
  strategy := PoolStrategy.new pools
  clientJob _ := Job.new garbage (-2) false
  donate := ⟨false⟩
  donateJob := Job.new garbage (-2) false
  workers := ⟨⟨Job.new garbage (-2) false,-1⟩,false,true,1,1,[]⟩

/-- `Network::setJob`. -/
def Miner.setJob (s : Miner) (job : Job) : Miner :=
  {s with workers := s.workers.setJob ⟨job,s.strategy.active⟩}

/-- `Network::onJob`: while donating, jobs of the pools are not handed on. -/
def Miner.onJob (s : Miner) (id : ℤ) (job : Job) : Miner :=
  if s.donate.m_active=true ∧ id ≠ -1 then s else s.setJob job

/-- `Network::onPause` from the pool strategy. -/
def Miner.onPause (s : Miner) : Miner :=
  if s.strategy.isActive=false then {s with workers := s.workers.pause} else s

/-- A call on the listener; calls on clients are the environment's. -/
def Miner.perform (s : Miner) : Call → Miner
  | .onPause => s.onPause
  | .onJob id job => s.onJob id job
  | .connect _ | .disconnect _ | .tick _ | .onActive _ => s

/-- An operation of the strategy and its calls. -/
def Miner.effect (s : Miner) (e : PoolStrategy×List Call) : Miner :=
  e.2.foldl Miner.perform {s with strategy := e.1}

/-- `Network::onPause` from the donation strategy: the pools resume first. -/
def Miner.onDonatePause (s : Miner) : Miner :=
  (s.effect (s.strategy.resume s.clientJob)).onPause

/-- Events of the clients and the donation timer. A client that logs in keeps the job that
comes with the login, calls `onLoginSuccess` and then `onJobReceived`. -/
inductive Event where
  /-- A pool's login is answered. -/
  | login (id : ℕ) (job : Job)
  /-- A pool sends a job. -/
  | job (id : ℕ) (job : Job)
  /-- A pool's client reports a close, with its failures. -/
  | close (id : ℕ) (failures : ℤ)
  /-- The donation pool's login is answered. -/
  | donateLogin (job : Job)
  /-- The donation pool sends a job. -/
  | donateJob (job : Job)
  /-- The donation pool's client reports a close. -/
  | donateClose (failures : ℤ)
  /-- `DonateStrategy::onTimer`. -/
  | donateTimer

/-- A pool's client keeps a job, which it marks as its own. -/
def Miner.keepJob (s : Miner) (id : ℕ) (job : Job) : Miner :=
  {s with clientJob := Function.update s.clientJob id {job with m_poolId := id}}

/-- The donation pool's client keeps a job. -/
def Miner.keepDonateJob (s : Miner) (job : Job) : Miner :=
  {s with donateJob := {job with m_poolId := -1}}

/-- `onJobReceived` of the pool strategy. -/
def Miner.onJobReceived (s : Miner) (id : ℕ) (job : Job) : Miner :=
  s.effect (s.strategy.onJobReceived id {job with m_poolId := id})

/-- `DonateStrategy::onJobReceived`. -/
def Miner.onDonateJob (s : Miner) (job : Job) : Miner := s.onJob (-1) {job with m_poolId := -1}

/-- The miner after an event. Events of clients that do not exist change nothing. -/
def step (s : Miner) : Event → Miner
  | .login id job =>
    if id<s.strategy.size then
      let s := s.keepJob id job
      (s.effect (s.strategy.onLoginSuccess id)).onJobReceived id job
    else s
  | .job id job => if id<s.strategy.size then (s.keepJob id job).onJobReceived id job else s
  | .close id failures =>
    if id<s.strategy.size then s.effect (s.strategy.onClose s.retries id failures) else s
  | .donateLogin job => Miner.onDonateJob {s.keepDonateJob job with donate := ⟨true⟩} job
  | .donateJob job => (s.keepDonateJob job).onDonateJob job
  | .donateClose _ => s
  | .donateTimer =>
    if s.donate.m_active then Miner.onDonatePause {s with donate := ⟨false⟩} else s

/-- The workers are unpaused and have this job. -/
def Runs (w : Workers) (job : Job) : Prop := w.m_paused=0 ∧ w.m_job.job=job

/-- The workers run the job of the selected source. -/
structure Selected (s : Miner) : Prop where
  /-- The donation pool comes first. -/
  donation : s.donate.m_active=true → Runs s.workers s.donateJob
  /-- Then the active pool. -/
  pool : s.donate.m_active=false → s.strategy.isActive=true →
    Runs s.workers (s.clientJob s.strategy.active)
  /-- Without a source the workers are paused. -/
  none : s.donate.m_active=false → s.strategy.isActive=false → s.workers.m_paused=1

/-- The event leaves the selection right: a pool that comes to an end does so outside
donation, and jobs come from clients that have logged in. -/
def Selects (s : Miner) : Event → Prop
  | .login _ _ => True
  | .job id _ =>
    id<s.strategy.size → PoolStrategy.HandsOn id s.strategy →
      s.donate.m_active=true ∨ s.strategy.isActive=true
  | .close id failures =>
    id<s.strategy.size → PoolStrategy.EndsService id failures s.strategy → s.donate.m_active=false
  | .donateLogin _ => True
  | .donateJob _ => s.donate.m_active=true
  | .donateClose _ => True
  | .donateTimer => True

section Steps

variable {s : Miner}

/-- The workers are enabled, and no job of a pool is marked as one of the donation pool. -/
structure Ready (s : Miner) : Prop where
  /-- `m_enabled`. -/
  enabled : s.workers.m_enabled=true
  /-- Only the donation pool's client has the identifier -1. -/
  pools : ∀ i, (s.clientJob i).m_poolId ≠ -1

/-- A job set is run. -/
theorem runs_setJob (h : s.workers.m_enabled=true) (job : Job) :
    Runs (s.setJob job).workers job := by
  have hon : ¬s.workers.m_enabled=false := fun hoff => Bool.noConfusion (h.symm.trans hoff)
  rw [Miner.setJob,Workers.setJob]
  dsimp only
  rw [if_neg hon]
  exact ⟨rfl,rfl⟩

/-- Calls that do not concern the workers leave the miner alone. -/
theorem perform_idle {calls : List Call} (h : ∀ call∈calls, PoolStrategy.Idle call) :
    calls.foldl Miner.perform s=s := by
  induction calls with
  | nil => rfl
  | cons call calls ih =>
    have hhead : s.perform call=s := by
      cases call with
      | onPause => exact (h .onPause List.mem_cons_self).elim
      | onJob id job => exact (h (.onJob id job) List.mem_cons_self).elim
      | _ => rfl
    rw [List.foldl_cons,hhead]
    exact ih fun call' hcall' => h call' (List.mem_cons_of_mem _ hcall')

/-- A job that is received is handed on or not. -/
theorem onJobReceived_eq {id : ℕ} (job : Job) (hid : id<s.strategy.size) :
    s.onJobReceived id job=
      if PoolStrategy.HandsOn id s.strategy then s.onJob id {job with m_poolId := id} else s := by
  rw [Miner.onJobReceived,PoolStrategy.onJobReceived_eq _ hid,Miner.effect]
  split <;> rfl

/-- While donating a pool's job is dropped. -/
theorem onJob_dropped (hd : s.donate.m_active=true) (id : ℕ) (job : Job) : s.onJob id job=s := by
  have hid : (id : ℤ) ≠ -1 := by omega
  rw [Miner.onJob,if_pos ⟨hd,hid⟩]

/-- Otherwise it is set. -/
theorem onJob_set (hd : s.donate.m_active=false) (id : ℤ) (job : Job) :
    s.onJob id job=s.setJob job := by
  rw [Miner.onJob,if_neg fun h => Bool.noConfusion (hd.symm.trans h.1)]

/-- The donation pool's job is always set. -/
theorem onDonateJob_eq (job : Job) : s.onDonateJob job=s.setJob {job with m_poolId := -1} := by
  rw [Miner.onDonateJob,Miner.onJob,if_neg fun h => h.2 rfl]

/-- A login changes the active pool only. -/
theorem effect_login (id : ℕ) :
    s.effect (s.strategy.onLoginSuccess id)={s with strategy := (s.strategy.onLoginSuccess id).1} :=
  perform_idle (PoolStrategy.onLoginSuccess_calls id s.strategy)

/-- A close pauses the workers if it leaves no pool active. -/
theorem effect_close (id : ℕ) (failures : ℤ) :
    s.effect (s.strategy.onClose s.retries id failures)=
      if PoolStrategy.EndsService id failures s.strategy then
        {s with
          strategy := (s.strategy.onClose s.retries id failures).1
          workers := s.workers.pause}
      else {s with strategy := (s.strategy.onClose s.retries id failures).1} := by
  obtain ⟨calls,hcalls,hidle⟩ := PoolStrategy.onClose_calls s.retries id failures s.strategy
  have hactive := PoolStrategy.onClose_active s.retries id failures s.strategy
  rw [Miner.effect,hcalls,List.foldl_append]
  by_cases hends : PoolStrategy.EndsService id failures s.strategy
  · rw [if_pos hends] at hactive ⊢
    rw [if_pos hends,perform_idle hidle,List.foldl_cons,List.foldl_nil,Miner.perform,Miner.onPause,
      if_pos hactive]
  · rw [if_neg hends,if_neg hends,perform_idle hidle]
    rfl

/-- Handing on a job touches neither the switch of the workers nor what the clients hold. -/
theorem onJob_frame (id : ℤ) (job : Job) :
    (s.onJob id job).workers.m_enabled=s.workers.m_enabled ∧
    (s.onJob id job).clientJob=s.clientJob := by
  rw [Miner.onJob]
  split
  · exact ⟨rfl,rfl⟩
  · rw [Miner.setJob,Workers.setJob]
    dsimp only
    split <;> exact ⟨rfl,rfl⟩

theorem onPause_frame : s.onPause.workers.m_enabled=s.workers.m_enabled ∧
    s.onPause.clientJob=s.clientJob := by
  rw [Miner.onPause]
  split <;> exact ⟨rfl,rfl⟩

/-- Neither does an operation of the strategy. -/
theorem effect_frame (e : PoolStrategy×List Call) :
    (s.effect e).workers.m_enabled=s.workers.m_enabled ∧ (s.effect e).clientJob=s.clientJob := by
  have hfold : ∀ (calls : List Call) (t : Miner),
      (calls.foldl Miner.perform t).workers.m_enabled=t.workers.m_enabled ∧
      (calls.foldl Miner.perform t).clientJob=t.clientJob := by
    intro calls
    induction calls with
    | nil => exact fun _ => ⟨rfl,rfl⟩
    | cons call calls ih =>
      intro t
      have hcall : (t.perform call).workers.m_enabled=t.workers.m_enabled ∧
          (t.perform call).clientJob=t.clientJob := by
        cases call with
        | onPause => exact onPause_frame
        | onJob id job => exact onJob_frame id job
        | _ => exact ⟨rfl,rfl⟩
      exact ⟨(ih _).1.trans hcall.1,(ih _).2.trans hcall.2⟩
  exact hfold e.2 _

/-- What an event leaves of `Ready`. -/
theorem Ready.of_frame {t : Miner} (h : Ready s) (ht : t.workers.m_enabled=s.workers.m_enabled ∧
    t.clientJob=s.clientJob) : Ready t :=
  ⟨ht.1.trans h.enabled,fun i => by
    rw [ht.2]
    exact h.pools i⟩

theorem Ready.keepJob (h : Ready s) (id : ℕ) (job : Job) : Ready (s.keepJob id job) := by
  refine ⟨h.enabled,fun i => ?_⟩
  rw [Miner.keepJob]
  dsimp only
  by_cases hi : i=id
  · rw [hi,Function.update_self]
    dsimp only
    omega
  · rw [Function.update_of_ne hi]
    exact h.pools i

/-- Every event keeps the miner ready. -/
theorem ready_step (h : Ready s) (e : Event) : Ready (step s e) := by
  cases e with
  | login id job =>
    rw [step]
    split
    · exact ((h.keepJob id job).of_frame (effect_frame _)).of_frame (effect_frame _)
    · exact h
  | job id job =>
    rw [step]
    split
    · exact (h.keepJob id job).of_frame (effect_frame _)
    · exact h
  | close id failures =>
    rw [step]
    split
    · exact h.of_frame (effect_frame _)
    · exact h
  | donateLogin job => exact h.of_frame (onJob_frame _ _)
  | donateJob job => exact h.of_frame (onJob_frame _ _)
  | donateClose failures => exact h
  | donateTimer =>
    rw [step]
    split
    · have hresumed : Ready (Miner.effect {s with donate := ⟨false⟩}
          (s.strategy.resume s.clientJob)) := h.of_frame (effect_frame _)
      exact hresumed.of_frame onPause_frame
    · exact h

/-- While donating only the donation pool's job matters. -/
theorem Selected.of_donation {t : Miner} (h : Selected s) (hd : s.donate.m_active=true)
    (hdonate : t.donate=s.donate) (hjob : t.donateJob=s.donateJob)
    (hworkers : t.workers=s.workers) : Selected t := by
  have hactive : t.donate.m_active=true := (congrArg DonateStrategy.m_active hdonate).trans hd
  refine ⟨fun _ => ?_,fun hf => ?_,fun hf => ?_⟩
  · rw [hworkers,hjob]
    exact h.donation hd
  · exact Bool.noConfusion (hactive.symm.trans hf)
  · exact Bool.noConfusion (hactive.symm.trans hf)

/-- The job of the active pool has been set. -/
theorem selected_setJob {t : Miner} (h : Ready t) (hd : t.donate.m_active=false) {job : Job}
    (hactive : t.strategy.isActive=true) (hjob : t.clientJob t.strategy.active=job) :
    Selected (t.setJob job) := by
  refine ⟨fun ht => ?_,fun _ _ => ?_,fun _ hn => ?_⟩
  · exact Bool.noConfusion (hd.symm.trans ht)
  · have hruns := runs_setJob h.enabled job
    rw [←hjob] at hruns ⊢
    exact hruns
  · exact Bool.noConfusion (hactive.symm.trans hn)

/-- A client that has logged in, before its job is handed on. -/
def loggedIn (s : Miner) (id : ℕ) (job : Job) : Miner :=
  {s.keepJob id job with strategy := (s.strategy.onLoginSuccess id).1}

theorem step_login {id : ℕ} (job : Job) (hid : id<s.strategy.size) :
    step s (.login id job)=
      if PoolStrategy.HandsOn id (loggedIn s id job).strategy then
        (loggedIn s id job).onJob id {job with m_poolId := id}
      else loggedIn s id job := by
  have hsize := (PoolStrategy.onLoginSuccess_active s.strategy hid).2.1
  have hlogged : (s.keepJob id job).effect ((s.keepJob id job).strategy.onLoginSuccess id)=
      loggedIn s id job := effect_login id
  rw [step,if_pos hid]
  dsimp only
  rw [hlogged]
  exact onJobReceived_eq job (hsize.symm ▸ hid)

/-- After a login the workers run the job of the selected source. -/
theorem selected_login (h : Ready s) (hq : Selected s) {id : ℕ} (job : Job)
    (hid : id<s.strategy.size) : Selected (step s (.login id job)) := by
  obtain ⟨hactive,-,hlogin⟩ := PoolStrategy.onLoginSuccess_active s.strategy hid
  have hready : Ready (loggedIn s id job) := (h.keepJob id job).of_frame ⟨rfl,rfl⟩
  rw [step_login job hid]
  by_cases hd : s.donate.m_active=true
  · have hdropped := onJob_dropped (s:=loggedIn s id job) hd id {job with m_poolId := id}
    rw [hdropped,ite_self]
    exact hq.of_donation hd rfl rfl rfl
  · rw [Bool.not_eq_true] at hd
    by_cases hands : PoolStrategy.HandsOn id (loggedIn s id job).strategy
    · have hset := onJob_set (s:=loggedIn s id job) hd id {job with m_poolId := id}
      have hsame : (loggedIn s id job).strategy.active=id := by
        have hlogged : PoolStrategy.HandsOn id (s.strategy.onLoginSuccess id).1 := hands
        rw [if_pos hlogged] at hlogin
        exact hlogin
      rw [if_pos hands,hset]
      refine selected_setJob hready hd hactive ?_
      rw [hsame]
      exact Function.update_self _ _ _
    · have hother : ¬PoolStrategy.HandsOn id (s.strategy.onLoginSuccess id).1 := hands
      rw [if_neg hother] at hlogin
      obtain ⟨hbefore,hsame,hne⟩ := hlogin
      have hheld : (loggedIn s id job).clientJob (loggedIn s id job).strategy.active=
          s.clientJob s.strategy.active := by
        rw [loggedIn,Miner.keepJob]
        dsimp only
        rw [hsame,Function.update_of_ne hne]
      rw [if_neg hands]
      refine ⟨fun ht => ?_,fun _ _ => ?_,fun _ hn => ?_⟩
      · exact Bool.noConfusion (hd.symm.trans ht)
      · rw [hheld]
        exact hq.pool hd hbefore
      · exact Bool.noConfusion (hactive.symm.trans hn)

/-- After a job of a pool they do, unless neither the pools nor donation are active. -/
theorem selected_job (h : Ready s) (hq : Selected s) {id : ℕ} (job : Job)
    (hid : id<s.strategy.size) :
    Selected (step s (.job id job)) ↔
      (PoolStrategy.HandsOn id s.strategy →
        s.donate.m_active=true ∨ s.strategy.isActive=true) := by
  have hready := h.keepJob id job
  have hrun : step s (.job id job)=
      if PoolStrategy.HandsOn id s.strategy then
        (s.keepJob id job).onJob id {job with m_poolId := id}
      else s.keepJob id job := by
    rw [step,if_pos hid]
    exact onJobReceived_eq job hid
  rw [hrun]
  by_cases hd : s.donate.m_active=true
  · have hdropped := onJob_dropped (s:=s.keepJob id job) hd id {job with m_poolId := id}
    rw [hdropped,ite_self]
    exact iff_of_true (hq.of_donation hd rfl rfl rfl) fun _ => Or.inl hd
  · rw [Bool.not_eq_true] at hd
    by_cases hands : PoolStrategy.HandsOn id s.strategy
    · have hset := onJob_set (s:=s.keepJob id job) hd id {job with m_poolId := id}
      rw [if_pos hands,hset]
      by_cases hactive : s.strategy.isActive=true
      · refine iff_of_true ?_ fun _ => Or.inr hactive
        refine selected_setJob hready hd hactive ?_
        have hsame : (s.keepJob id job).strategy.active=id := hands.active hid hactive
        rw [hsame]
        exact Function.update_self _ _ _
      · refine iff_of_false ?_ ?_
        · intro hselected
          have hpaused := hselected.none hd ((Bool.not_eq_true _).mp hactive)
          have hruns := (runs_setJob hready.enabled {job with m_poolId := (id : ℤ)}).1
          omega
        · intro himp
          rcases himp hands with ht|ht
          · exact Bool.noConfusion (hd.symm.trans ht)
          · exact hactive ht
    · rw [if_neg hands]
      refine iff_of_true ⟨fun ht => ?_,fun _ hactive => ?_,fun _ hn => ?_⟩ fun hyes =>
        absurd hyes hands
      · exact Bool.noConfusion (hd.symm.trans ht)
      · have hheld : (s.keepJob id job).clientJob s.strategy.active=s.clientJob s.strategy.active :=
          Function.update_of_ne (PoolStrategy.active_ne hands) _ _
        have hruns := hq.pool hd hactive
        rw [←hheld] at hruns
        exact hruns
      · exact hq.none hd hn

/-- After a close of a pool they do, unless it leaves no pool active while donating. -/
theorem selected_close (hq : Selected s) {id : ℕ} (failures : ℤ) (hid : id<s.strategy.size) :
    Selected (step s (.close id failures)) ↔
      (PoolStrategy.EndsService id failures s.strategy → s.donate.m_active=false) := by
  have hclosed := PoolStrategy.onClose_active s.retries id failures s.strategy
  rw [step,if_pos hid,effect_close]
  by_cases hends : PoolStrategy.EndsService id failures s.strategy
  · rw [if_pos hends] at hclosed ⊢
    constructor
    · intro hselected _
      by_contra hd
      rw [Bool.not_eq_false] at hd
      exact nomatch (hselected.donation hd).1
    · intro hd
      refine ⟨fun ht => ?_,fun _ hactive => ?_,fun _ _ => rfl⟩
      · exact Bool.noConfusion ((hd hends).symm.trans ht)
      · exact Bool.noConfusion (hclosed.symm.trans hactive)
  · rw [if_neg hends] at hclosed ⊢
    refine iff_of_true ⟨hq.donation,fun hd hactive => ?_,fun hd hn => ?_⟩ fun h => absurd h hends
    · have hruns := hq.pool hd (hclosed.1.symm.trans hactive)
      rw [←hclosed.2] at hruns
      exact hruns
    · exact hq.none hd (hclosed.1.symm.trans hn)

/-- After a job of the donation pool they do, if donation is active. -/
theorem selected_donateJob (h : Ready s) (job : Job) :
    Selected (step s (.donateJob job)) ↔ s.donate.m_active=true := by
  have hruns := runs_setJob (s:=s.keepDonateJob job) h.enabled {job with m_poolId := -1}
  have hset := onDonateJob_eq (s:=s.keepDonateJob job) job
  rw [step,hset]
  constructor
  · intro hselected
    by_contra hd
    rw [Bool.not_eq_true] at hd
    by_cases hactive : s.strategy.isActive=true
    · have hjob := (hselected.pool hd hactive).2
      rw [hruns.2] at hjob
      exact h.pools s.strategy.active (congrArg Job.m_poolId hjob.symm)
    · have hpaused := hselected.none hd ((Bool.not_eq_true _).mp hactive)
      have hrunning := hruns.1
      omega
  · intro hd
    refine ⟨fun _ => hruns,fun hf => ?_,fun hf => ?_⟩
    · exact Bool.noConfusion (hd.symm.trans hf)
    · exact Bool.noConfusion (hd.symm.trans hf)

/-- After a login of the donation pool they do. -/
theorem selected_donateLogin (h : Ready s) (job : Job) :
    Selected (step s (.donateLogin job)) := by
  have hset := onDonateJob_eq (s:={s.keepDonateJob job with donate := ⟨true⟩}) job
  have hruns := runs_setJob (s:={s.keepDonateJob job with donate := ⟨true⟩}) h.enabled
    {job with m_poolId := -1}
  rw [step,hset]
  exact ⟨fun _ => hruns,fun hf => (nomatch hf),fun hf => (nomatch hf)⟩

/-- Resuming sets the job of the active pool. -/
theorem effect_resume (hd : s.donate.m_active=false) :
    s.effect (s.strategy.resume s.clientJob)=
      if s.strategy.isActive=true then s.setJob (s.clientJob s.strategy.active) else s := by
  rw [PoolStrategy.resume_eq,Miner.effect]
  split
  · exact onJob_set hd _ _
  · rfl

/-- At the end of donation the workers get the job of the active pool back, or are paused. -/
theorem selected_donateTimer (h : Ready s) (hq : Selected s) : Selected (step s .donateTimer) := by
  rw [step]
  split
  · have hready : Ready {s with donate := ⟨false⟩} := h.of_frame ⟨rfl,rfl⟩
    have hresume := effect_resume (s:={s with donate := ⟨false⟩}) rfl
    rw [Miner.onDonatePause,hresume]
    by_cases hactive : s.strategy.isActive=true
    · have hset : Selected (Miner.setJob {s with donate := ⟨false⟩}
          (s.clientJob s.strategy.active)) := selected_setJob hready rfl hactive rfl
      have hkept :
          (Miner.setJob {s with donate := ⟨false⟩} (s.clientJob s.strategy.active)).onPause=
          Miner.setJob {s with donate := ⟨false⟩} (s.clientJob s.strategy.active) :=
        if_neg fun hn => Bool.noConfusion (hactive.symm.trans hn)
      rw [if_pos hactive,hkept]
      exact hset
    · have hinactive : s.strategy.isActive=false := (Bool.not_eq_true _).mp hactive
      have hpaused : Miner.onPause {s with donate := ⟨false⟩}=
          {s with donate := ⟨false⟩,workers := s.workers.pause} := if_pos hinactive
      rw [if_neg hactive,hpaused]
      exact ⟨fun hf => (nomatch hf),fun _ ht => Bool.noConfusion (hinactive.symm.trans ht),
        fun _ _ => rfl⟩
  · exact hq

/-- Where the workers run the job of the selected source, they still do after an event
exactly when the event leaves the selection right. -/
theorem selected_step (h : Ready s) (hq : Selected s) (e : Event) :
    Selected (step s e) ↔ Selects s e := by
  have hstay : ∀ {id : ℕ}, ¬id<s.strategy.size → ∀ {t : Miner},
      Selected (if id<s.strategy.size then t else s) := by
    intro id hid t
    rw [if_neg hid]
    exact hq
  cases e with
  | login id job =>
    refine iff_of_true ?_ trivial
    by_cases hid : id<s.strategy.size
    · exact selected_login h hq job hid
    · exact hstay hid
  | job id job =>
    by_cases hid : id<s.strategy.size
    · have hjob := selected_job h hq job hid
      exact ⟨fun hs _ => hjob.mp hs,fun hs => hjob.mpr (hs hid)⟩
    · exact iff_of_true (hstay hid) fun hlt => absurd hlt hid
  | close id failures =>
    by_cases hid : id<s.strategy.size
    · have hclose := selected_close hq failures hid
      exact ⟨fun hs _ => hclose.mp hs,fun hs => hclose.mpr (hs hid)⟩
    · exact iff_of_true (hstay hid) fun hlt => absurd hlt hid
  | donateLogin job => exact iff_of_true (selected_donateLogin h job) trivial
  | donateJob job => exact selected_donateJob h job
  | donateClose failures => exact iff_of_true hq trivial
  | donateTimer => exact iff_of_true (selected_donateTimer h hq) trivial

end Steps

/-- A miner that has just started has no source, and paused workers. -/
theorem selected_start (pools : ℕ) (retries : ℤ) (garbage : CellMemory.Cells UInt8) :
    Ready (Miner.start pools retries garbage) ∧ Selected (Miner.start pools retries garbage) := by
  have hinactive : (Miner.start pools retries garbage).strategy.isActive=false := by
    change (PoolStrategy.new pools).isActive=false
    rw [PoolStrategy.new]
    split <;> rfl
  refine ⟨⟨rfl,fun _ => ?_⟩,fun hf => (nomatch hf),fun _ ht => ?_,fun _ _ => rfl⟩
  · change (-2 : ℤ) ≠ -1
    decide
  · exact Bool.noConfusion (hinactive.symm.trans ht)

/-- For any number of pools and every order of events the workers run the job of the selected
source after each of them exactly when each of them leaves the selection right. -/
theorem selected_iff (pools : ℕ) (retries : ℤ) (garbage : CellMemory.Cells UInt8)
    (events : List Event) :
    AlongStates step Selected (Miner.start pools retries garbage) events ↔
      AlongSteps step Selects (Miner.start pools retries garbage) events :=
  alongStates_iff_alongSteps (I:=Ready) (P:=fun _ _ => True)
    (fun _ e h _ _ _ => ready_step h e) (fun _ e h hq _ => selected_step h hq e)
    (selected_start pools retries garbage).1 (selected_start pools retries garbage).2
    (alongSteps_true _ _ _)

/-- A job of nothing. -/
def someJob : Job := Job.new (fun _ => 0) 0 false

/-- The only pool logs in, donation starts, and the connection to the pool is lost. -/
def poolLost : List Event := [.login 0 someJob,.donateTimer,.donateLogin someJob,.close 0 1]

/-- Losing the pool pauses the workers although the donation pool has work for them. -/
theorem donation_paused :
    (runFrom step (Miner.start 1 5 fun _ => 0) poolLost).donate.m_active=true ∧
    (runFrom step (Miner.start 1 5 fun _ => 0) poolLost).workers.m_paused=1 ∧
    ¬AlongStates step Selected (Miner.start 1 5 fun _ => 0) poolLost := by
  refine ⟨rfl,rfl,fun h => ?_⟩
  have hruns := (h.last.donation rfl).1
  exact nomatch hruns

section Network

variable {ι : Type}

/-- The miner of a network with a donation pool: what its main loop knows. -/
structure Agrees (s : Miner) (n : Network ι) : Prop where
  /-- `retries`. -/
  retries : s.retries=n.retries
  /-- `m_strategy`. -/
  strategy : s.strategy=.failover n.strategy
  /-- The jobs of the clients. -/
  clientJob : s.clientJob=n.clientJob
  /-- `m_donate`. -/
  donate : n.donate=some s.donate
  /-- `Workers`. -/
  workers : s.workers=n.workers

/-- The events of the network that an event of the miner stands for. -/
def networkEvents : Event → List (MiningNetwork.Event ι)
  | .login id job => [.login id,.job id job]
  | .job id job => [.job id job]
  | .close id failures => [.close id failures]
  | .donateLogin job => [.donateLogin,.donateJob job]
  | .donateJob job => [.donateJob job]
  | .donateClose _ => []
  | .donateTimer => [.donateTimer]

section Agreement

variable {s : Miner} {n : Network ι}

theorem Agrees.donating (h : Agrees s n) : n.donating=s.donate.m_active := by
  rw [Network.donating,h.donate]
  exact Option.any_some

theorem Agrees.onJob (h : Agrees s n) (id : ℤ) (job : Job) :
    Agrees (s.onJob id job) (n.onJob id job) := by
  rw [Miner.onJob,Network.onJob,h.donating]
  split
  · exact h
  · refine ⟨h.retries,h.strategy,h.clientJob,h.donate,?_⟩
    rw [Miner.setJob,Network.setJob,h.workers,h.strategy]
    rfl

theorem Agrees.isActive (h : Agrees s n) : s.strategy.isActive=n.strategy.isActive := by
  rw [h.strategy]
  rfl

theorem Agrees.onPause (h : Agrees s n) : Agrees s.onPause n.onPause := by
  rw [Miner.onPause,Network.onPause,h.isActive]
  split
  · exact ⟨h.retries,h.strategy,h.clientJob,h.donate,by rw [h.workers]⟩
  · exact h

/-- An operation of the failover strategy does the same to both. -/
theorem Agrees.effect (h : Agrees s n) (e : Effect) :
    Agrees (s.effect (.failover e.strategy,e.calls)) (n.effect e) := by
  have hfold : ∀ (calls : List Call) {s : Miner} {n : Network ι}, Agrees s n →
      Agrees (calls.foldl Miner.perform s) (calls.foldl Network.perform n) := by
    intro calls
    induction calls with
    | nil => exact fun h => h
    | cons call calls ih =>
      intro s n h
      cases call with
      | onPause => exact ih h.onPause
      | onJob id job => exact ih (h.onJob id job)
      | connect i => exact ih h
      | disconnect i => exact ih h
      | tick i => exact ih h
      | onActive id => exact ih h
  exact hfold e.calls ⟨h.retries,rfl,h.clientJob,h.donate,h.workers⟩

theorem Agrees.size (h : Agrees s n) : s.strategy.size=n.strategy.pools := by
  rw [h.strategy]
  rfl

theorem Agrees.job [DecidableEq ι] (h : Agrees s n) (id : ℕ) (job : Job) :
    Agrees (step s (.job id job)) (MiningNetwork.step n (.job id job)) := by
  rw [step,MiningNetwork.step,h.size]
  split
  · have hkept : Agrees (s.keepJob id job)
        {n with clientJob := Function.update n.clientJob id {job with m_poolId := id}} :=
      ⟨h.retries,h.strategy,by rw [Miner.keepJob,h.clientJob],h.donate,h.workers⟩
    have heffect := hkept.effect (n.strategy.onJobReceived id {job with m_poolId := id})
    rw [Miner.onJobReceived]
    change Agrees ((s.keepJob id job).effect (s.strategy.onJobReceived id _)) _
    rw [h.strategy]
    exact heffect
  · exact h

/-- The job of a login comes after it. -/
theorem step_login_job {id : ℕ} (hid : id<s.strategy.size) (job : Job) :
    step s (.login id job)=step (s.effect (s.strategy.onLoginSuccess id)) (.job id job) := by
  have hlogged : (s.strategy.onLoginSuccess id).1.size=s.strategy.size :=
    (PoolStrategy.onLoginSuccess_active s.strategy hid).2.1
  have hlater : id<(s.effect (s.strategy.onLoginSuccess id)).strategy.size := by
    rw [effect_login,hlogged]
    exact hid
  have hjobs : step (s.effect (s.strategy.onLoginSuccess id)) (.job id job)=
      ((s.effect (s.strategy.onLoginSuccess id)).keepJob id job).onJobReceived id job :=
    if_pos hlater
  have hlogins : step s (.login id job)=((s.keepJob id job).effect
      ((s.keepJob id job).strategy.onLoginSuccess id)).onJobReceived id job := if_pos hid
  rw [hjobs,hlogins,effect_login,effect_login]
  rfl

theorem Agrees.login [DecidableEq ι] (h : Agrees s n) (id : ℕ) (job : Job) :
    Agrees (step s (.login id job))
      (MiningNetwork.step (MiningNetwork.step n (.login id)) (.job id job)) := by
  by_cases hid : id<s.strategy.size
  · have hlogin := h.effect (n.strategy.onLoginSuccess id)
    have hsame : (PoolStrategy.failover (n.strategy.onLoginSuccess id).strategy,
        (n.strategy.onLoginSuccess id).calls)=s.strategy.onLoginSuccess id := by
      rw [h.strategy]
      rfl
    rw [hsame] at hlogin
    have hjob := hlogin.job id job
    rw [←step_login_job hid] at hjob
    have hnetwork : MiningNetwork.step n (.login id)=n.effect (n.strategy.onLoginSuccess id) :=
      if_pos (h.size ▸ hid)
    rw [hnetwork]
    exact hjob
  · have hnone : ¬id<n.strategy.pools := h.size ▸ hid
    rw [step,if_neg hid,MiningNetwork.step,if_neg hnone,MiningNetwork.step,if_neg hnone]
    exact h

end Agreement

/-- With a failover strategy a step of the miner is those steps of the network. -/
theorem step_agrees [DecidableEq ι] {s : Miner} {n : Network ι} (h : Agrees s n) (e : Event) :
    Agrees (step s e) (runFrom MiningNetwork.step n (networkEvents e)) := by
  cases e with
  | login id job => exact h.login id job
  | job id job => exact h.job id job
  | close id failures =>
    rw [networkEvents,runFrom_cons,runFrom_nil,step,MiningNetwork.step,h.size]
    split
    · have hclose :=
        h.effect (FailoverPools.FailoverStrategy.onClose n.retries n.strategy id failures)
      rw [h.retries,h.strategy]
      exact hclose
    · exact h
  | donateLogin job =>
    have hlogged : Agrees {s.keepDonateJob job with donate := ⟨true⟩}
        {n with donate := n.donate.map fun _ => ⟨true⟩} :=
      ⟨h.retries,h.strategy,h.clientJob,by rw [h.donate]; rfl,h.workers⟩
    have hsome : (n.donate.map fun _ => (⟨true⟩ : DonateStrategy)).isSome=true := by
      rw [h.donate]
      rfl
    rw [networkEvents,runFrom_cons,runFrom_cons,runFrom_nil,MiningNetwork.step,MiningNetwork.step,
      if_pos hsome]
    exact hlogged.onJob (-1) {job with m_poolId := -1}
  | donateJob job =>
    have hkept : Agrees (s.keepDonateJob job) n :=
      ⟨h.retries,h.strategy,h.clientJob,h.donate,h.workers⟩
    have hsome : n.donate.isSome=true := by
      rw [h.donate]
      rfl
    rw [networkEvents,runFrom_cons,runFrom_nil,MiningNetwork.step,if_pos hsome]
    exact hkept.onJob (-1) {job with m_poolId := -1}
  | donateClose failures => exact h
  | donateTimer =>
    rw [networkEvents,runFrom_cons,runFrom_nil,step,MiningNetwork.step,h.donating]
    split
    · have hoff : Agrees {s with donate := ⟨false⟩} {n with donate := some ⟨false⟩} :=
        ⟨h.retries,h.strategy,h.clientJob,rfl,h.workers⟩
      have hresume := (hoff.effect (n.strategy.resume n.clientJob)).onPause
      have hsame : (PoolStrategy.failover (n.strategy.resume n.clientJob).strategy,
          (n.strategy.resume n.clientJob).calls)=s.strategy.resume s.clientJob := by
        rw [h.strategy,h.clientJob]
        rfl
      rw [hsame] at hresume
      exact hresume
    · exact h

/-- So is a run, from the start on. -/
theorem run_agrees [DecidableEq ι] {pools : ℕ} (hpools : 1<pools) (retries : ℤ)
    (garbage : CellMemory.Cells UInt8) (events : List Event) :
    Agrees (runFrom step (Miner.start pools retries garbage) events)
      (runFrom MiningNetwork.step (Network.start (ι:=ι) pools retries true garbage)
        (events.flatMap networkEvents)) := by
  have hrun : ∀ (events : List Event) {s : Miner} {n : Network ι}, Agrees s n →
      Agrees (runFrom step s events)
        (runFrom MiningNetwork.step n (events.flatMap networkEvents)) := by
    intro events
    induction events with
    | nil => exact fun h => h
    | cons e events ih =>
      intro s n h
      rw [List.flatMap_cons,runFrom_append]
      exact ih (step_agrees h e)
  refine hrun events ⟨rfl,?_,rfl,rfl,rfl⟩
  exact if_pos hpools

end Network

end XmrigCC.SelectedJob
