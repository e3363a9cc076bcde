import XmrigCC.MiningJob

/-!
# The failover strategy

`FailoverStrategy` over a list of pool clients, whose identifiers are their
indices. Each operation returns the state it leaves and the calls it makes on
clients and on its listener, in order. The listener reads the strategy only
through `isActive`, which no operation changes after its first call.
-/

namespace XmrigCC.FailoverPools

open MiningJob

/-- `FailoverStrategy`. -/
structure FailoverStrategy where
  /-- `m_pools.size()`. -/
  pools : ℕ
  /-- Index of the active pool, -1 for none. -/
  m_active : ℤ
  /-- Index of the pool last connected to. -/
  m_index : ℤ
  deriving DecidableEq

/-- A call made by an operation. -/
inductive Call where
  /-- `m_pools[i]->connect()`. -/
  | connect (i : ℤ)
  /-- `m_pools[i]->disconnect()`. -/
  | disconnect (i : ℤ)
  /-- `m_pools[i]->tick(now)`. -/
  | tick (i : ℤ)
  /-- `m_listener->onPause(this)`. -/
  | onPause
  /-- `m_listener->onActive(client)`. -/
  | onActive (id : ℤ)
  /-- `m_listener->onJob(client, job)`. -/
  | onJob (id : ℤ) (job : Job)

/-- State left and calls made. -/
structure Effect where
  /-- The strategy afterwards. -/
  strategy : FailoverStrategy
  /-- The calls, in order. -/
  calls : List Call

namespace FailoverStrategy

/-- The constructor. -/
def new (pools : ℕ) : FailoverStrategy := ⟨pools,-1,0⟩

/-- `isActive`. -/
def isActive (s : FailoverStrategy) : Bool := decide (0 ≤ s.m_active)

/-- Identifiers of the clients in `m_pools`, in order. -/
def ids (s : FailoverStrategy) : List ℤ := (List.range s.pools).map Int.ofNat

/-- `m_pools[i]->id()`, when there is such a client. -/
def client (s : FailoverStrategy) (i : ℤ) : Option ℤ :=
  if 0 ≤ i ∧ i<s.pools then some i else none

/-- The index at which `submit` takes the client it hands the result to. -/
def submit (s : FailoverStrategy) : ℤ := s.m_active

/-- `connect`. -/
def connect (s : FailoverStrategy) : Effect := ⟨s,[.connect s.m_index]⟩

/-- `resume`, with the jobs the clients hold. -/
def resume (s : FailoverStrategy) (job : ℤ → Job) : Effect :=
  if s.isActive=false then ⟨s,[]⟩ else ⟨s,[.onJob s.m_active (job s.m_active)]⟩

/-- `stop`. -/
def stop (s : FailoverStrategy) : Effect :=
  ⟨{s with m_index := 0,m_active := -1},s.ids.map .disconnect++[.onPause]⟩

/-- `tick`. -/
def tick (s : FailoverStrategy) : Effect := ⟨s,s.ids.map .tick⟩

/-- `onClose` from a client, with its failures so far. The size left behind `m_index` is
computed in 64 bits without sign. -/
def onClose (retries : ℤ) (s : FailoverStrategy) (id failures : ℤ) : Effect :=
  if failures=-1 then ⟨s,[]⟩
  else
    let e : Effect := if s.m_active=id then ⟨{s with m_active := -1},[.onPause]⟩ else ⟨s,[]⟩
    let s := e.strategy
    if s.m_index=0 ∧ failures<retries then e
    else if s.m_index=id ∧ 1<((s.pools : ℤ)-s.m_index)%2^64 then
      ⟨{s with m_index := s.m_index+1},e.calls++[.connect (s.m_index+1)]⟩
    else e

/-- `onJobReceived` from a client. -/
def onJobReceived (s : FailoverStrategy) (id : ℤ) (job : Job) : Effect :=
  if s.m_active=id then ⟨s,[.onJob id job]⟩ else ⟨s,[]⟩

/-- `onLoginSuccess` from a client: the others but the first are disconnected. -/
def onLoginSuccess (s : FailoverStrategy) (id : ℤ) : Effect :=
  let active := if id=0 ∨ s.isActive=false then id else s.m_active
  let calls := (s.ids.filter fun i => 1 ≤ i ∧ active ≠ i).map Call.disconnect
  if 0 ≤ active ∧ active ≠ s.m_active then
    ⟨{s with m_index := active,m_active := active},calls++[.onActive id]⟩
  else ⟨s,calls⟩

/-- The active pool, if any, is one of the pools. -/
structure InRange (s : FailoverStrategy) : Prop where
  /-- -1 stands for no active pool. -/
  ge : -1 ≤ s.m_active
  /-- The active pool exists. -/
  lt : s.m_active<s.pools

theorem inRange_new (pools : ℕ) : InRange (new pools) :=
  ⟨le_refl _,by simp only [new]; omega⟩

theorem inRange_stop {s : FailoverStrategy} : InRange s.stop.strategy :=
  ⟨le_refl _,by simp only [stop]; omega⟩

/-- A close from this client makes the strategy go on to the next pool. -/
def GoesOn (retries : ℤ) (s : FailoverStrategy) (id failures : ℤ) : Prop :=
  failures ≠ -1 ∧ ¬(s.m_index=0 ∧ failures<retries) ∧ s.m_index=id ∧
    1<((s.pools : ℤ)-s.m_index)%2^64

instance (retries : ℤ) (s : FailoverStrategy) (id failures : ℤ) :
    Decidable (GoesOn retries s id failures) := inferInstanceAs (Decidable (_ ∧ _))

/-- A close from this client leaves no pool active. -/
def EndsService (s : FailoverStrategy) (id failures : ℤ) : Prop := failures ≠ -1 ∧ s.m_active=id

instance (s : FailoverStrategy) (id failures : ℤ) : Decidable (EndsService s id failures) :=
  inferInstanceAs (Decidable (_ ∧ _))

/-- Everything a close can do. -/
theorem onClose_eq (retries : ℤ) (s : FailoverStrategy) (id failures : ℤ) :
    onClose retries s id failures=
      ⟨{s with m_active := if EndsService s id failures then -1 else s.m_active,
               m_index := if GoesOn retries s id failures then s.m_index+1 else s.m_index},
        (if EndsService s id failures then [.onPause] else [])++
          if GoesOn retries s id failures then [.connect (s.m_index+1)] else []⟩ := by
  rw [onClose]
  by_cases hf : failures=-1
  · have hends : ¬EndsService s id failures := fun h => h.1 hf
    have hgoes : ¬GoesOn retries s id failures := fun h => h.1 hf
    simp only [if_pos hf,if_neg hends,if_neg hgoes,List.append_nil]
  · rw [if_neg hf]
    have hgoes : GoesOn retries s id failures ↔ ¬(s.m_index=0 ∧ failures<retries) ∧
        s.m_index=id ∧ 1<((s.pools : ℤ)-s.m_index)%2^64 := ⟨fun h => h.2,fun h => ⟨hf,h⟩⟩
    by_cases hid : s.m_active=id
    · have hends : EndsService s id failures := ⟨hf,hid⟩
      simp only [if_pos hid,if_pos hends,hgoes]
      split
      · rename_i hr
        rw [if_neg fun h => h.1 hr,if_neg fun h => h.1 hr,List.append_nil]
      · rename_i hr
        simp only [hr,not_false_eq_true,true_and]
        split <;> simp only [List.append_nil]
    · have hends : ¬EndsService s id failures := fun h => hid h.2
      simp only [if_neg hid,if_neg hends,hgoes]
      split
      · rename_i hr
        rw [if_neg fun h => h.1 hr,if_neg fun h => h.1 hr,List.append_nil]
      · rename_i hr
        simp only [hr,not_false_eq_true,true_and]
        split <;> simp only [List.append_nil]

theorem onClose_m_active (retries : ℤ) (s : FailoverStrategy) (id failures : ℤ) :
    (onClose retries s id failures).strategy.m_active=
      if EndsService s id failures then -1 else s.m_active := by
  rw [onClose_eq]

theorem onClose_pools (retries : ℤ) (s : FailoverStrategy) (id failures : ℤ) :
    (onClose retries s id failures).strategy.pools=s.pools := by
  rw [onClose_eq]

theorem inRange_onClose {s : FailoverStrategy} (h : InRange s) (retries id failures : ℤ) :
    InRange (onClose retries s id failures).strategy := by
  have hge := h.ge
  have hlt := h.lt
  constructor
  · rw [onClose_m_active]
    split
    · exact le_refl _
    · exact hge
  · rw [onClose_m_active,onClose_pools]
    split
    · omega
    · exact hlt

/-- The pool active after a login of this client. -/
def activeAfterLogin (s : FailoverStrategy) (id : ℤ) : ℤ :=
  if id=0 ∨ s.isActive=false then id else s.m_active

/-- What a login leaves: only a new active pool is one last connected to. -/
theorem onLoginSuccess_strategy (s : FailoverStrategy) {id : ℤ} (hid : 0 ≤ id) :
    (onLoginSuccess s id).strategy=
      {s with m_active := s.activeAfterLogin id,
              m_index := if s.activeAfterLogin id=s.m_active then s.m_index
                else s.activeAfterLogin id} := by
  have hunfold : (onLoginSuccess s id).strategy=
      if 0 ≤ s.activeAfterLogin id ∧ s.activeAfterLogin id ≠ s.m_active then
        {s with m_index := s.activeAfterLogin id,m_active := s.activeAfterLogin id}
      else s := by
    rw [onLoginSuccess,activeAfterLogin]
    exact apply_ite Effect.strategy _ _ _
  rw [hunfold]
  by_cases hsame : s.activeAfterLogin id=s.m_active
  · rw [if_neg fun h => h.2 hsame,if_pos hsame,hsame]
  · have hge : 0 ≤ s.activeAfterLogin id := by
      rw [activeAfterLogin] at hsame ⊢
      split
      · exact hid
      · rename_i hnew
        rw [if_neg hnew] at hsame
        exact absurd rfl hsame
    rw [if_pos ⟨hge,hsame⟩,if_neg hsame]

theorem onLoginSuccess_pools (s : FailoverStrategy) {id : ℤ} (hid : 0 ≤ id) :
    (onLoginSuccess s id).strategy.pools=s.pools := by
  rw [onLoginSuccess_strategy s hid]

/-- A login makes its pool active if it is the first one or none is active. -/
theorem onLoginSuccess_m_active (s : FailoverStrategy) {id : ℤ} (hid : 0 ≤ id) :
    (onLoginSuccess s id).strategy.m_active=
      if id=0 ∨ s.isActive=false then id else s.m_active := by
  rw [onLoginSuccess_strategy s hid,activeAfterLogin]

theorem inRange_onLoginSuccess {s : FailoverStrategy} (h : InRange s) {id : ℤ}
    (hid : 0 ≤ id ∧ id<s.pools) : InRange (onLoginSuccess s id).strategy := by
  have hge := h.ge
  have hlt := h.lt
  constructor
  · rw [onLoginSuccess_m_active s hid.1]
    split <;> omega
  · rw [onLoginSuccess_m_active s hid.1,onLoginSuccess_pools s hid.1]
    split <;> omega

/-- A close hands on no job. -/
theorem onClose_calls {retries : ℤ} {s : FailoverStrategy} {id failures : ℤ} {call : Call}
    (h : call∈(onClose retries s id failures).calls) : ∀ k job, call ≠ .onJob k job := by
  rintro k job rfl
  rw [onClose_eq] at h
  rcases List.mem_append.mp h with h|h
  · split at h
    · exact nomatch List.mem_singleton.mp h
    · cases h
  · split at h
    · exact nomatch List.mem_singleton.mp h
    · cases h

/-- A login disconnects other pools and may notify the listener. -/
theorem onLoginSuccess_call {s : FailoverStrategy} {id : ℤ} {call : Call}
    (h : call∈(onLoginSuccess s id).calls) :
    (∃ i∈s.ids, 1 ≤ i ∧ s.activeAfterLogin id ≠ i ∧ call=.disconnect i) ∨ call=.onActive id := by
  have hdisconnect : ∀ {active : ℤ},
      call∈(s.ids.filter fun i => 1 ≤ i ∧ active ≠ i).map Call.disconnect →
      ∃ i∈s.ids, 1 ≤ i ∧ active ≠ i ∧ call=.disconnect i := by
    intro active hm
    obtain ⟨i,hi,rfl⟩ := List.mem_map.mp hm
    obtain ⟨hmem,hcond⟩ := List.mem_filter.mp hi
    obtain ⟨hge,hne⟩ := of_decide_eq_true hcond
    exact ⟨i,hmem,hge,hne,rfl⟩
  have hcalls : (onLoginSuccess s id).calls=
      if 0 ≤ s.activeAfterLogin id ∧ s.activeAfterLogin id ≠ s.m_active then
        (s.ids.filter fun i => 1 ≤ i ∧ s.activeAfterLogin id ≠ i).map Call.disconnect++
          [.onActive id]
      else (s.ids.filter fun i => 1 ≤ i ∧ s.activeAfterLogin id ≠ i).map Call.disconnect := by
    rw [onLoginSuccess,activeAfterLogin]
    exact apply_ite Effect.calls _ _ _
  rw [hcalls] at h
  split at h
  · rcases List.mem_append.mp h with h|h
    · exact Or.inl (hdisconnect h)
    · exact Or.inr (List.mem_singleton.mp h)
  · exact Or.inl (hdisconnect h)

/-- A login hands on no job. -/
theorem onLoginSuccess_calls {s : FailoverStrategy} {id : ℤ} {call : Call}
    (h : call∈(onLoginSuccess s id).calls) : ∀ k job, call ≠ .onJob k job := by
  rintro k job rfl
  rcases onLoginSuccess_call h with ⟨i,-,-,-,hi⟩|hactive
  · cases hi
  · cases hactive

theorem onJobReceived_strategy (s : FailoverStrategy) (id : ℤ) (job : Job) :
    (onJobReceived s id job).strategy=s := by
  rw [onJobReceived]
  split <;> rfl

theorem resume_strategy (s : FailoverStrategy) (job : ℤ → Job) : (s.resume job).strategy=s := by
  rw [resume]
  split <;> rfl

/-- Resuming hands on the job of the active client. -/
theorem resume_calls {s : FailoverStrategy} {job : ℤ → Job} {call : Call}
    (h : call∈(s.resume job).calls) :
    call=.onJob s.m_active (job s.m_active) ∧ s.isActive=true := by
  rw [resume] at h
  split at h
  · cases h
  · rename_i ha
    exact ⟨List.mem_singleton.mp h,(Bool.not_eq_false _).mp ha⟩

/-- A job reaches the listener only from the active client. -/
theorem onJobReceived_calls {s : FailoverStrategy} {id : ℤ} {job : Job} {call : Call}
    (h : call∈(onJobReceived s id job).calls) : call=.onJob id job ∧ s.m_active=id := by
  rw [onJobReceived] at h
  split at h
  · rename_i hid
    exact ⟨List.mem_singleton.mp h,hid⟩
  · cases h

end FailoverStrategy

end XmrigCC.FailoverPools
