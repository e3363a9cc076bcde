import XmrigCC.ClientHandles
import XmrigCC.FailoverPools
import XmrigCC.LoginResponses

/-!
# Lookups and sockets under failover

The clients of a failover strategy with the strategy that connects and
disconnects them. The strategy looks at no client, and upsets a client when it
goes on to a pool that is still busy.
-/

namespace XmrigCC.PoolHandles

open ByteText CellMemory TransitionRuns PoolMessages ReceiveBuffer ClientLines ClientHandles
open ClientSessions hiding step Permitted Defined
open PoolClient hiding step Permitted Event
open FailoverPools (FailoverStrategy Effect)
open FailoverPools.FailoverStrategy (GoesOn)

/-- The strategy and its clients, each at its index. -/
structure Pools where
  /-- The strategy. -/
  strategy : FailoverStrategy
  /-- The clients. -/
  clients : List Session

/-- Something that happens to the pools, with the results of `uv_getaddrinfo` by client. -/
inductive Event where
  /-- A callback, a call from outside or a line of this client. -/
  | client (i : ℕ) (a : Action) (r : ℕ → ℤ)
  /-- `tick` of the strategy. -/
  | tick (now : UInt64) (r : ℕ → ℤ)
  /-- `stop` of the strategy. -/
  | stop

/-- What the strategy does when a client calls it. -/
def hear (retries : ℤ) (s : FailoverStrategy) (id : ℤ) : PoolClient.Call → Effect
  | .onClose failures => s.onClose retries id failures
  | .onJobReceived job => s.onJobReceived id job
  | .onLoginSuccess => s.onLoginSuccess id
  | .onResultAccepted .. => ⟨s,[]⟩

/-- The calls of a client, one after the other. -/
def hearAll (retries : ℤ) (s : FailoverStrategy) (id : ℤ) : List PoolClient.Call → Effect
  | [] => ⟨s,[]⟩
  | call::calls =>
    let e := hear retries s id call
    let rest := hearAll retries e.strategy id calls
    ⟨rest.strategy,e.calls++rest.calls⟩

/-- A call of the strategy on one of its clients. Its other calls go to its listener, which
touches no client. -/
def order (now : UInt64) (r : ℕ → ℤ) : FailoverPools.Call → Option (ℕ×Action)
  | .connect i => some (i.toNat,.connect (r i.toNat))
  | .disconnect i => some (i.toNat,.disconnect)
  | .tick i => some (i.toNat,.event (.tick now (r i.toNat)))
  | _ => none

section Machine

variable (lib : RapidJson) (recvLib : RecvLibrary) (retries : ℤ)

/-- An action of one of the clients. -/
def act (clients : List Session) (x : ℕ×Action) : List Session :=
  clients.modify x.1 fun s => ClientSessions.step lib recvLib s x.2

/-- What the strategy does in an event. -/
def effect (p : Pools) : Event → Effect
  | .client i a _ =>
    match p.clients[i]? with
    | none => ⟨p.strategy,[]⟩
    | some s =>
      hearAll retries p.strategy i
        (newCalls s.client (ClientSessions.step lib recvLib s a).client)
  | .tick .. => p.strategy.tick
  | .stop => p.strategy.stop

/-- What the clients do in an event, in order. -/
def actions (p : Pools) (e : Event) : List (ℕ×Action) :=
  match e with
  | .client i a r => (i,a)::(effect lib recvLib retries p e).calls.filterMap (order 0 r)
  | .tick now r => (effect lib recvLib retries p e).calls.filterMap (order now r)
  | .stop => (effect lib recvLib retries p e).calls.filterMap (order 0 fun _ => 0)

/-- One event. -/
def step (p : Pools) (e : Event) : Pools :=
  ⟨(effect lib recvLib retries p e).strategy,
    runFrom (act lib recvLib) p.clients (actions lib recvLib retries p e)⟩

/-- Only the strategy connects, disconnects and ticks its clients. -/
def FromLoop : Action → Prop
  | .connect _ => False
  | .disconnect => False
  | .event (.tick _ _) => False
  | _ => True

/-- What can happen next: the clients are intact, a read is finished before anything else
happens, and callbacks come as the loop owes them. -/
def Permitted (p : Pools) (e : Event) : Prop :=
  (∀ s∈p.clients, s.client.corrupted=false) ∧
    match e with
    | .client i a _ =>
      FromLoop a ∧ (a ≠ .line → ∀ s∈p.clients, s.rest=[]) ∧
        ∃ s∈p.clients[i]?, ClientSessions.Permitted s a
    | _ => ∀ s∈p.clients, s.rest=[]

/-- A client starts no second lookup, and deletes no socket that the loop still holds. -/
def Safe (clients : List Session) (x : ℕ×Action) : Prop :=
  ∀ s∈clients[x.1]?, StartsAlone lib recvLib s x.2 ∧ DeletesNothing s x.2

/-- Everything the clients do in this event is safe. -/
def SafeStep (p : Pools) (e : Event) : Prop :=
  AlongSteps (act lib recvLib) (Safe lib recvLib) p.clients (actions lib recvLib retries p e)

/-- When the strategy goes on to the next pool, the client of that pool is idle. -/
def GoesOnIdle (p : Pools) : Event → Prop
  | .client i a r =>
    ∀ s∈p.clients[i]?, ∀ failures,
      .onClose failures∈newCalls s.client (ClientSessions.step lib recvLib s a).client →
      GoesOn retries p.strategy i failures →
      ∀ next∈p.clients[i+1]?, Idle next.client (r (i+1))
  | _ => True

end Machine

/-- A strategy with new clients, as `add` makes them. -/
def newPools (agent : Bytes) (urls : List Url) (retryPause : ℤ) (buf blob : ℕ → Cells UInt8) :
    Pools :=
  ⟨.new urls.length,urls.mapIdx fun i url =>
    ⟨{Client.new i agent url (buf i) (blob i) with m_retryPause := retryPause},[]⟩⟩

/-- The pools after `connect` of the strategy. -/
def started (lib : RapidJson) (recvLib : RecvLibrary) (p : Pools) (r : ℕ → ℤ) : Pools :=
  ⟨p.strategy.connect.strategy,
    runFrom (act lib recvLib) p.clients (p.strategy.connect.calls.filterMap (order 0 r))⟩

section Runs

variable {lib : RapidJson} {recvLib : RecvLibrary} {retries : ℤ} {p : Pools} {e : Event}

/-- A client after an action of one of them. -/
theorem act_getElem? (clients : List Session) (x : ℕ×Action) (j : ℕ) :
    (act lib recvLib clients x)[j]?=
      if x.1=j then clients[j]?.map fun s => ClientSessions.step lib recvLib s x.2
      else clients[j]? := by
  rw [act,List.getElem?_modify]
  by_cases hj : x.1=j
  · simp only [if_pos hj]
    rfl
  · simp only [if_neg hj]
    exact Option.map_id'

/-- An action that is allowed is safe, and leaves all clients settled. -/
theorem settled_act {clients : List Session} (h : ∀ s∈clients, Settled s.client) {x : ℕ×Action}
    (ha : ∀ s∈clients[x.1]?, Allowed s x.2) :
    (∀ s∈act lib recvLib clients x, Settled s.client) ∧ Safe lib recvLib clients x := by
  have hat : ∀ s∈clients[x.1]?, Settled (ClientSessions.step lib recvLib s x.2).client ∧
      StartsAlone lib recvLib s x.2 ∧ DeletesNothing s x.2 := fun s hs =>
    settled_step (h s (List.mem_of_getElem? hs)) (ha s hs)
  refine ⟨fun s hs => ?_,fun s hs => (hat s hs).2⟩
  obtain ⟨j,hj⟩ := List.mem_iff_getElem?.mp hs
  rw [act_getElem?] at hj
  split at hj
  · rename_i hx
    obtain ⟨s',hs',rfl⟩ := Option.map_eq_some_iff.mp hj
    rw [←hx] at hs'
    exact (hat s' hs').1
  · exact h s (List.mem_of_getElem? hj)

/-- Neither a disconnect nor a tick asks anything of the client. -/
def Free (x : ℕ×Action) : Prop := x.2=.disconnect ∨ ∃ now r, x.2=.event (.tick now r)

theorem Free.allowed {x : ℕ×Action} (h : Free x) (s : Session) : Allowed s x.2 := by
  rcases h with h|⟨now,r,h⟩
  · rw [h]
    exact trivial
  · rw [h]
    exact trivial

/-- Whatever a client reports besides a close makes the strategy only disconnect clients. -/
theorem hearAll_free {s : FailoverStrategy} {id : ℤ} {calls : List PoolClient.Call}
    (h : ∀ failures, .onClose failures∉calls) {now : UInt64} {r : ℕ → ℤ} :
    ∀ x∈(hearAll retries s id calls).calls.filterMap (order now r), Free x := by
  induction calls generalizing s with
  | nil => exact fun x hx => (nomatch hx)
  | cons call calls ih =>
    have hhead : ∀ x∈(hear retries s id call).calls.filterMap (order now r), Free x := by
      intro x hx
      obtain ⟨made,hmade,horder⟩ := List.mem_filterMap.mp hx
      cases call with
      | onClose failures => exact absurd List.mem_cons_self (h failures)
      | onJobReceived job =>
        rw [(FailoverStrategy.onJobReceived_calls hmade).1] at horder
        cases horder
      | onLoginSuccess =>
        rcases FailoverStrategy.onLoginSuccess_call hmade with ⟨i,-,-,-,rfl⟩|rfl
        · rw [←Option.some.inj horder]
          exact Or.inl rfl
        · cases horder
      | onResultAccepted noted error => cases hmade
    intro x hx
    rw [hearAll,List.filterMap_append] at hx
    rcases List.mem_append.mp hx with hx|hx
    · exact hhead x hx
    · exact ih (fun failures hm => h failures (List.mem_cons_of_mem _ hm)) x hx

/-- A close makes the strategy connect to the next pool, if it goes on. -/
theorem hearAll_close (s : FailoverStrategy) (id failures : ℤ) (now : UInt64) (r : ℕ → ℤ) :
    (hearAll retries s id [.onClose failures]).calls.filterMap (order now r)=
      if GoesOn retries s id failures then
        [((s.m_index+1).toNat,.connect (r (s.m_index+1).toNat))]
      else [] := by
  have hcalls : (hearAll retries s id [.onClose failures]).calls=
      (s.onClose retries id failures).calls := List.append_nil _
  rw [hcalls,FailoverStrategy.onClose_eq,List.filterMap_append]
  split
  · split <;> rfl
  · split <;> rfl

/-- The lines of a read report no close. -/
theorem parse_onClose {c : Client} {stale : Stale} {line : Bytes} (failures : ℤ) :
    .onClose failures∉newCalls c (c.parse lib stale line) := by
  cases parse_reports lib stale c line with
  | nothing hcalls =>
    rw [newCalls_same hcalls]
    exact List.not_mem_nil
  | job job hcalls =>
    rw [newCalls_append hcalls]
    exact fun hm => nomatch List.mem_singleton.mp hm
  | login job _ hcalls =>
    rw [newCalls_append hcalls,List.mem_pair]
    rintro (hm|hm) <;> cases hm
  | answer k noted error _ _ hcalls =>
    rw [newCalls_append hcalls]
    exact fun hm => nomatch List.mem_singleton.mp hm

/-- The actions of an event are allowed to their clients, one after the other. -/
def AllowedStep (lib : RapidJson) (recvLib : RecvLibrary) (retries : ℤ) (p : Pools) (e : Event) :
    Prop :=
  AlongSteps (act lib recvLib) (fun clients x => ∀ s∈clients[x.1]?, Allowed s x.2) p.clients
    (actions lib recvLib retries p e)

/-- What comes from the loop is allowed. -/
theorem allowed_of_permitted {s : Session} {a : Action} (hloop : FromLoop a)
    (h : ClientSessions.Permitted s a) : Allowed s a := by
  cases a with
  | connect r => exact hloop.elim
  | disconnect => exact trivial
  | line => exact h
  | event e =>
    cases e with
    | tick now r => exact trivial
    | resolved | connected | read | closed | submit | keepAlive | othersSent => exact h

/-- An action of a client and what the strategy makes of it are allowed, if the strategy goes
on to idle clients only. -/
theorem allowed_client {i : ℕ} {a : Action} {r : ℕ → ℤ}
    (hp : Permitted p (.client i a r)) (hidle : GoesOnIdle lib recvLib retries p (.client i a r)) :
    AllowedStep lib recvLib retries p (.client i a r) := by
  obtain ⟨-,hloop,-,s,hs,hpermitted⟩ := hp
  have hheard : effect lib recvLib retries p (.client i a r)=
      hearAll retries p.strategy i
        (newCalls s.client (ClientSessions.step lib recvLib s a).client) := by
    rw [effect,hs]
  rw [AllowedStep,actions,hheard]
  refine ⟨?_,?_⟩
  · intro s' hs'
    rw [Option.some.inj (hs'.symm.trans hs)]
    exact allowed_of_permitted hloop hpermitted
  · have hfree : (∀ failures, .onClose failures∉
          newCalls s.client (ClientSessions.step lib recvLib s a).client) →
        AlongSteps (act lib recvLib) (fun clients x => ∀ s∈clients[x.1]?, Allowed s x.2)
          (act lib recvLib p.clients (i,a))
          ((hearAll retries p.strategy i
            (newCalls s.client (ClientSessions.step lib recvLib s a).client)).calls.filterMap
              (order 0 r)) := fun hno =>
      alongSteps_of_forall (fun x hx _ s' _ => (hearAll_free hno x hx).allowed s') _
    by_cases hline : a=.line
    · subst hline
      refine hfree fun failures => ?_
      obtain ⟨c,rest⟩ := s
      cases rest with
      | nil => exact absurd rfl hpermitted.2
      | cons line rest => exact parse_onClose failures
    · rcases @step_calls lib recvLib s a hline with hcalls|⟨failures,hcalls⟩
      · refine hfree fun failures => ?_
        rw [newCalls_same hcalls]
        exact List.not_mem_nil
      · rw [newCalls_append hcalls,hearAll_close]
        split
        · rename_i hgoes
          have hnext : (p.strategy.m_index+1).toNat=i+1 := by
            rw [hgoes.2.2.1]
            rfl
          rw [hnext]
          refine ⟨?_,trivial⟩
          intro next hnext
          rw [act_getElem?,if_neg (Nat.ne_of_lt (Nat.lt_succ_self i))] at hnext
          have hclosed : .onClose failures∈
              newCalls s.client (ClientSessions.step lib recvLib s a).client := by
            rw [newCalls_append hcalls]
            exact List.mem_singleton_self _
          exact hidle s hs failures hclosed hgoes next hnext
        · exact trivial

/-- In every event the actions are allowed, if the strategy goes on to idle clients only. -/
theorem allowed_step (hp : Permitted p e) (hidle : GoesOnIdle lib recvLib retries p e) :
    AllowedStep lib recvLib retries p e := by
  cases e with
  | client i a r => exact allowed_client hp hidle
  | tick now r =>
    refine alongSteps_of_forall (fun x hx _ s _ => Free.allowed ?_ s) _
    obtain ⟨call,hcall,horder⟩ := List.mem_filterMap.mp hx
    obtain ⟨j,-,rfl⟩ := List.mem_map.mp hcall
    rw [←Option.some.inj horder]
    exact Or.inr ⟨now,r j.toNat,rfl⟩
  | stop =>
    refine alongSteps_of_forall (fun x hx _ s _ => Free.allowed ?_ s) _
    obtain ⟨call,hcall,horder⟩ := List.mem_filterMap.mp hx
    rcases List.mem_append.mp hcall with hcall|hcall
    · obtain ⟨j,-,rfl⟩ := List.mem_map.mp hcall
      rw [←Option.some.inj horder]
      exact Or.inl rfl
    · rw [List.mem_singleton.mp hcall] at horder
      cases horder

/-- An event whose actions are allowed is safe and leaves all clients settled. -/
theorem settled_pools (h : ∀ s∈p.clients, Settled s.client)
    (ha : AllowedStep lib recvLib retries p e) :
    (∀ s∈(step lib recvLib retries p e).clients, Settled s.client) ∧
      SafeStep lib recvLib retries p e :=
  ⟨(invariant_alongStates (I:=fun clients => ∀ s∈clients, Settled s.client)
      (fun _ _ hs hx => (settled_act hs hx).1) h ha).last,
    alongSteps_of_invariant (I:=fun clients => ∀ s∈clients, Settled s.client)
      (fun _ _ hs hx => (settled_act hs hx).1) (fun _ _ hs hx => (settled_act hs hx).2) h ha⟩

/-- New clients are settled. -/
theorem settled_new (id : ℤ) (agent : Bytes) (url : Url) (retryPause : ℤ) (buf blob : Cells UInt8) :
    Settled {Client.new id agent url buf blob with m_retryPause := retryPause} :=
  ⟨(wired_new id agent url buf blob).of_connection rfl rfl,fun hlt => absurd hlt (lt_irrefl 0),
    fun hs => (nomatch hs)⟩

/-- They still are once the strategy has connected to the first of them. -/
theorem settled_started (agent : Bytes) (urls : List Url) (retryPause : ℤ)
    (buf blob : ℕ → Cells UInt8) (r : ℕ → ℤ) :
    ∀ s∈(started lib recvLib (newPools agent urls retryPause buf blob) r).clients,
      Settled s.client := by
  have hnew : ∀ s∈(newPools agent urls retryPause buf blob).clients,
      Settled s.client ∧ Idle s.client (r 0) := by
    intro s hs
    obtain ⟨i,hi,rfl⟩ := List.mem_mapIdx.mp hs
    exact ⟨settled_new _ _ _ _ _ _,rfl,fun _ => rfl⟩
  have hallowed : AlongSteps (act lib recvLib) (fun clients x => ∀ s∈clients[x.1]?, Allowed s x.2)
      (newPools agent urls retryPause buf blob).clients [(0,.connect (r 0))] :=
    ⟨fun s hs => (hnew s (List.mem_of_getElem? hs)).2,trivial⟩
  exact (invariant_alongStates (I:=fun clients => ∀ s∈clients, Settled s.client)
    (fun _ _ hs hx => (settled_act hs hx).1) (fun s hs => (hnew s hs).1) hallowed).last

/-- In every run in which the strategy goes on to idle clients only, no client starts a second
lookup or deletes a socket that the loop still holds. -/
theorem handles_safe (lib : RapidJson) (recvLib : RecvLibrary) (retries : ℤ) (agent : Bytes)
    (urls : List Url) (retryPause : ℤ) (buf blob : ℕ → Cells UInt8) (r : ℕ → ℤ)
    {events : List Event}
    (hpermitted : AlongSteps (step lib recvLib retries) Permitted
      (started lib recvLib (newPools agent urls retryPause buf blob) r) events)
    (hidle : AlongSteps (step lib recvLib retries) (GoesOnIdle lib recvLib retries)
      (started lib recvLib (newPools agent urls retryPause buf blob) r) events) :
    AlongSteps (step lib recvLib retries) (SafeStep lib recvLib retries)
      (started lib recvLib (newPools agent urls retryPause buf blob) r) events := by
  have hboth : AlongSteps (step lib recvLib retries)
      (fun p e => Permitted p e ∧ GoesOnIdle lib recvLib retries p e)
      (started lib recvLib (newPools agent urls retryPause buf blob) r) events :=
    alongSteps_and hpermitted hidle
  exact alongSteps_of_invariant (I:=fun p : Pools => ∀ s∈p.clients, Settled s.client)
    (fun p e hs h => (settled_pools hs (allowed_step h.1 h.2)).1)
    (fun p e hs h => (settled_pools hs (allowed_step h.1 h.2)).2)
    (settled_started agent urls retryPause buf blob r) hboth

/-- Going on to a client whose lookup is pending starts another one. -/
theorem not_safe_of_pending {s next : Session} {i : ℕ} {a : Action} {r : ℕ → ℤ} {failures : ℤ}
    (hs : p.clients[i]?=some s)
    (hclose : newCalls s.client (ClientSessions.step lib recvLib s a).client=[.onClose failures])
    (hgoes : GoesOn retries p.strategy i failures) (hnext : p.clients[i+1]?=some next)
    (hr : r (i+1)=0) (hpending : 0<next.client.lookups) :
    ¬SafeStep lib recvLib retries p (.client i a r) := by
  have hindex : (p.strategy.m_index+1).toNat=i+1 := by
    rw [hgoes.2.2.1]
    rfl
  have hheard : effect lib recvLib retries p (.client i a r)=
      hearAll retries p.strategy i [.onClose failures] := by
    rw [effect,hs]
    dsimp only
    rw [hclose]
  rw [SafeStep,actions,hheard,hearAll_close,if_pos hgoes,hindex]
  rintro ⟨-,hsafe,-⟩
  have hat : (act lib recvLib p.clients (i,a))[i+1]?=some next := by
    rw [act_getElem?,if_neg (Nat.ne_of_lt (Nat.lt_succ_self i)),hnext]
  have hlookups : (ClientSessions.step lib recvLib next (.connect (r (i+1)))).client.lookups=
      next.client.lookups+1 := if_pos hr
  have hzero := (hsafe next hat).1 (by rw [hlookups]; exact Nat.lt_succ_self _)
  omega

/-- An event of one client, from what its action leaves. -/
theorem step_client {i : ℕ} {a : Action} (r : ℕ → ℤ) {s s' : Session} (hs : p.clients[i]?=some s)
    (hstep : ClientSessions.step lib recvLib s a=s') :
    step lib recvLib retries p (.client i a r)=
      ⟨(hearAll retries p.strategy i (newCalls s.client s'.client)).strategy,
        runFrom (act lib recvLib) (p.clients.set i s')
          ((hearAll retries p.strategy i (newCalls s.client s'.client)).calls.filterMap
            (order 0 r))⟩ := by
  have hheard : effect lib recvLib retries p (.client i a r)=
      hearAll retries p.strategy i (newCalls s.client s'.client) := by
    rw [effect,hs]
    dsimp only
    rw [hstep]
  have hset : act lib recvLib p.clients (i,a)=p.clients.set i s' := by
    refine List.ext_getElem? fun j => ?_
    rw [act_getElem?,List.getElem?_set]
    by_cases hj : i=j
    · subst hj
      have hlt : i<p.clients.length := (List.getElem?_eq_some_iff.mp hs).1
      rw [if_pos rfl,if_pos rfl,if_pos hlt,hs,Option.map_some,hstep]
    · rw [if_neg hj,if_neg hj]
  rw [step,actions,hheard,runFrom_cons,hset]

end Runs

section Examples

open LoginResponses (responseReader responseText zeroed parse_accepted parse_responseText
  responseDoc_response response_job rig_without_job)
open PoolClientLiveness (rig)
open ReceiveBufferRuns (plainLibrary)
open MiningJob (Job)

/-- Two pools, connected to the first. -/
def twoPools : Pools :=
  started responseReader plainLibrary
    (newPools (text "rig") (List.replicate 2 ⟨false,false,none,none⟩) 5000 (fun _ _ => 0)
      fun _ _ => 0) fun _ => 0

/-- The second client. -/
def rig' : Client := Client.new 1 (text "rig") ⟨false,false,none,none⟩ (fun _ => 0) fun _ => 0

theorem twoPools_eq : twoPools=⟨⟨2,-1,0⟩,[⟨rig.connect 0,[]⟩,⟨rig',[]⟩]⟩ := rfl

theorem forall_pair {P : Session → Prop} {s t : Session} (hs : P s) (ht : P t) :
    ∀ u∈[s,t], P u := List.forall_mem_cons.mpr ⟨hs,List.forall_mem_singleton.mpr ht⟩

/-- An event of the first client of two is permitted when its action is. -/
theorem permitted_first {strategy : FailoverStrategy} {s t : Session} {a : Action} {r : ℕ → ℤ}
    (hloop : FromLoop a) (hrest : a ≠ .line → s.rest=[]) (hp : ClientSessions.Permitted s a)
    (hs : s.client.corrupted=false) (ht : t.client.corrupted=false ∧ t.rest=[]) :
    Permitted ⟨strategy,[s,t]⟩ (.client 0 a r) :=
  ⟨forall_pair hs ht.1,hloop,fun hline => forall_pair (hrest hline) ht.2,s,rfl,hp⟩

/-- The lookup of the first pool fails. -/
def lookupFails : Event := .client 0 (.event (.resolved (-3008) [] 0 1000)) fun _ => 0

theorem lookupFails_permitted : Permitted twoPools lookupFails := by
  rw [twoPools_eq]
  exact permitted_first trivial (fun _ => rfl) ⟨rfl,rfl,Nat.one_pos,trivial⟩ rfl ⟨rfl,rfl⟩

/-- Going on to a pool that is idle is safe. -/
theorem handles_safe_lookupFails :
    AlongSteps (step responseReader plainLibrary 1) (SafeStep responseReader plainLibrary 1)
      twoPools [lookupFails] := by
  refine handles_safe responseReader plainLibrary 1 (text "rig")
    (List.replicate 2 ⟨false,false,none,none⟩) 5000 (fun _ _ => 0) (fun _ _ => 0) (fun _ => 0)
    ⟨lookupFails_permitted,trivial⟩ ⟨?_,trivial⟩
  intro s hs failures hclose hgoes next hnext
  rw [←Option.some.inj hnext]
  exact ⟨rfl,fun _ => rfl⟩

/-- The first client, connected at its second attempt. -/
def reopened : Client :=
  {rig with
    recv := ⟨fun _ => 0,0⟩,m_state := .connected,m_failures := 1,m_sequence := 2
    m_expire := 6101+kResponseTimeout
    m_socket := some ⟨false,true,false,[rig.loginText responseReader++[newline]]⟩
    calls := [.onClose 1]}

/-- The second client, waiting for its lookup. -/
def waiting : Client := {rig'.connect 0 with m_sequence := 2}

/-- The lookup of the first pool fails, the strategy goes on to the second one, and the
first one is connected after a pause. -/
def reopening : List Event :=
  [lookupFails,.tick 6000 fun _ => 0,.client 0 (.event (.resolved 0 [2] 0 6100)) fun _ => 0,
    .client 0 (.event (.connected 0 ⟨true,90⟩ 6101)) fun _ => 0,
    .client 1 (.event (.othersSent 1)) fun _ => 0]

/-- The first client when its lookup has failed. -/
def failed : Client :=
  {rig with
    recv := ⟨fun _ => 0,0⟩,m_state := .connecting,m_failures := 1,m_expire := 6000
    calls := [.onClose 1]}

theorem reopening_run :
    AlongSteps (step responseReader plainLibrary 1) Permitted twoPools reopening ∧
    runFrom (step responseReader plainLibrary 1) twoPools reopening=
      ⟨⟨2,-1,1⟩,[⟨reopened,[]⟩,⟨waiting,[]⟩]⟩ := by
  have hfailed : step responseReader plainLibrary 1 twoPools lookupFails=
      ⟨⟨2,-1,1⟩,[⟨failed,[]⟩,⟨rig'.connect 0,[]⟩]⟩ := rfl
  have htick : step responseReader plainLibrary 1
      ⟨⟨2,-1,1⟩,[⟨failed,[]⟩,⟨rig'.connect 0,[]⟩]⟩ (.tick 6000 fun _ => 0)=
      ⟨⟨2,-1,1⟩,[⟨failed.connect 0,[]⟩,⟨rig'.connect 0,[]⟩]⟩ := rfl
  have hresolved : step responseReader plainLibrary 1
      ⟨⟨2,-1,1⟩,[⟨failed.connect 0,[]⟩,⟨rig'.connect 0,[]⟩]⟩
      (.client 0 (.event (.resolved 0 [2] 0 6100)) fun _ => 0)=
      ⟨⟨2,-1,1⟩,[⟨(failed.connect 0).onResolved 0 [2] 0 6100,[]⟩,⟨rig'.connect 0,[]⟩]⟩ := rfl
  have hconnected : step responseReader plainLibrary 1
      ⟨⟨2,-1,1⟩,[⟨(failed.connect 0).onResolved 0 [2] 0 6100,[]⟩,⟨rig'.connect 0,[]⟩]⟩
      (.client 0 (.event (.connected 0 ⟨true,90⟩ 6101)) fun _ => 0)=
      ⟨⟨2,-1,1⟩,[⟨reopened,[]⟩,⟨rig'.connect 0,[]⟩]⟩ := rfl
  have hsent : step responseReader plainLibrary 1
      ⟨⟨2,-1,1⟩,[⟨reopened,[]⟩,⟨rig'.connect 0,[]⟩]⟩
      (.client 1 (.event (.othersSent 1)) fun _ => 0)=
      ⟨⟨2,-1,1⟩,[⟨reopened,[]⟩,⟨waiting,[]⟩]⟩ := rfl
  simp only [reopening,alongSteps_cons,alongSteps_nil,runFrom_cons,runFrom_nil,hfailed,htick,
    hresolved,hconnected,hsent]
  refine ⟨⟨lookupFails_permitted,⟨forall_pair rfl rfl,forall_pair rfl rfl⟩,
    permitted_first trivial (fun _ => rfl) ⟨rfl,rfl,Nat.one_pos,trivial⟩ rfl ⟨rfl,rfl⟩,
    permitted_first trivial (fun _ => rfl) ⟨rfl,rfl,⟨_,rfl,rfl⟩,?_⟩ rfl ⟨rfl,rfl⟩,
    ⟨forall_pair rfl rfl,trivial,fun _ => forall_pair rfl rfl,_,rfl,rfl,rfl,trivial,trivial⟩,
    trivial⟩,trivial⟩
  rintro ⟨k,⟨⟩,hclosing⟩
  cases hclosing

/-- The response to the login arrives, and the connection is lost. -/
def losing : List Event :=
  [.client 0 (.event (.read (fun _ => 0) (.data (responseText++[newline])) fun _ => zeroed))
      fun _ => 0,
    .client 0 .line fun _ => 0,
    .client 0 (.event (.read (fun _ => 0) (.failed 4094) fun _ => zeroed)) fun _ => 0]

/-- The first client with a response to parse. -/
def found (buf : Cells UInt8) : Client := {reopened with recv := ⟨buf,0⟩}

/-- The first client, logged in. -/
def loggedIn (buf : Cells UInt8) (name : Bytes) (job : Job) : Client :=
  {(found buf).startTimeout with
    m_rpcId := name,m_job := job,m_failures := 0
    calls := [.onClose 1,.onLoginSuccess,.onJobReceived job]}

/-- The first client, logged in and losing its connection. -/
def lost (buf : Cells UInt8) (name : Bytes) (job : Job) : Client :=
  {loggedIn buf name job with
    recv := (loggedIn buf name job).buffer fun _ => 0,m_state := .closing
    m_socket := some ⟨false,false,true,[rig.loginText responseReader++[newline]]⟩}

theorem losing_run {job : Job}
    (hjob : jobOf responseReader zeroed 0 false LoginResponses.responseParams=some job) :
    AlongSteps (step responseReader plainLibrary 1) Permitted
      ⟨⟨2,-1,1⟩,[⟨reopened,[]⟩,⟨waiting,[]⟩]⟩ losing ∧
    ∃ buf name, runFrom (step responseReader plainLibrary 1)
      ⟨⟨2,-1,1⟩,[⟨reopened,[]⟩,⟨waiting,[]⟩]⟩ losing=
        ⟨⟨2,0,0⟩,[⟨lost buf name job,[]⟩,⟨waiting.disconnect,[]⟩]⟩ := by
  have hline : newline∉responseText := by decide +kernel
  have hlength : responseText.length+9 ≤ bufSize := by decide +kernel
  have hroom : reopened.recv.m_recvBufPos+(responseText++[newline]).length ≤ bufSize := by
    have hempty : reopened.recv.m_recvBufPos=0 := rfl
    rw [List.length_append,hempty,List.length_singleton]
    omega
  obtain ⟨buf,hread⟩ := beginRead_line plainLibrary (c:=reopened) rfl hline hlength
    (fun _ => 0) fun _ => zeroed
  obtain ⟨name,hparse⟩ := parse_accepted (c:={reopened with recv := ⟨buf,0⟩}) parse_responseText
    (responseDoc_response hjob rfl rfl) (rig_without_job hjob)
  have hbegun : ClientSessions.step responseReader plainLibrary ⟨reopened,[]⟩
      (.event (.read (fun _ => 0) (.data (responseText++[newline])) fun _ => zeroed))=
      ⟨found buf,[(responseText++[newline],zeroed)]⟩ := hread
  have hfound : step responseReader plainLibrary 1 ⟨⟨2,-1,1⟩,[⟨reopened,[]⟩,⟨waiting,[]⟩]⟩
      (.client 0 (.event (.read (fun _ => 0) (.data (responseText++[newline])) fun _ => zeroed))
        fun _ => 0)=
      ⟨⟨2,-1,1⟩,[⟨found buf,[(responseText++[newline],zeroed)]⟩,⟨waiting,[]⟩]⟩ :=
    step_client (fun _ => 0) (s:=⟨reopened,[]⟩) rfl hbegun
  have hparsed : ClientSessions.step responseReader plainLibrary
      ⟨found buf,[(responseText++[newline],zeroed)]⟩ .line=⟨loggedIn buf name job,[]⟩ := by
    change (⟨_,[]⟩ : Session)=_
    rw [found,hparse]
    rfl
  have hlogin : step responseReader plainLibrary 1
      ⟨⟨2,-1,1⟩,[⟨found buf,[(responseText++[newline],zeroed)]⟩,⟨waiting,[]⟩]⟩
      (.client 0 .line fun _ => 0)=
      ⟨⟨2,0,0⟩,[⟨loggedIn buf name job,[]⟩,⟨waiting.disconnect,[]⟩]⟩ :=
    step_client (fun _ => 0) (s:=⟨found buf,[(responseText++[newline],zeroed)]⟩) rfl hparsed
  have hlost : step responseReader plainLibrary 1
      ⟨⟨2,0,0⟩,[⟨loggedIn buf name job,[]⟩,⟨waiting.disconnect,[]⟩]⟩
      (.client 0 (.event (.read (fun _ => 0) (.failed 4094) fun _ => zeroed)) fun _ => 0)=
      ⟨⟨2,0,0⟩,[⟨lost buf name job,[]⟩,⟨waiting.disconnect,[]⟩]⟩ := rfl
  simp only [losing,alongSteps_cons,alongSteps_nil,runFrom_cons,runFrom_nil,hfound,hlogin,hlost]
  refine ⟨⟨permitted_first trivial (fun _ => rfl) ⟨rfl,rfl,⟨⟨_,rfl,rfl⟩,hroom⟩,trivial⟩ rfl
      ⟨rfl,rfl⟩,
    permitted_first trivial (fun hne => absurd rfl hne) ⟨rfl,List.cons_ne_nil _ _⟩ rfl ⟨rfl,rfl⟩,
    permitted_first trivial (fun _ => rfl) ⟨rfl,rfl,⟨_,rfl,rfl⟩,trivial⟩ rfl ⟨rfl,rfl⟩,trivial⟩,
    buf,name,rfl⟩

/-- The strategy goes on to the second pool while the lookup of that pool is still pending,
and starts another. -/
theorem two_lookups_pending :
    ∃ events, AlongSteps (step responseReader plainLibrary 1) Permitted twoPools events ∧
      ¬AlongSteps (step responseReader plainLibrary 1) (SafeStep responseReader plainLibrary 1)
        twoPools events := by
  obtain ⟨job,hjob⟩ := response_job
  obtain ⟨hlosing,buf,name,hlost⟩ := losing_run hjob
  refine ⟨reopening++(losing++[.client 0 (.event (.closed 9000)) fun _ => 0]),?_,?_⟩
  · rw [alongSteps_append,reopening_run.2,alongSteps_append,hlost]
    exact ⟨reopening_run.1,hlosing,
      permitted_first trivial (fun _ => rfl) ⟨rfl,rfl,⟨_,rfl,rfl,rfl⟩,trivial⟩ rfl ⟨rfl,rfl⟩,
      trivial⟩
  · rw [alongSteps_append,reopening_run.2,alongSteps_append,hlost]
    rintro ⟨-,-,hsafe,-⟩
    have hgoes : GoesOn 1 ⟨2,0,0⟩ 0 1 := by decide
    exact not_safe_of_pending (s:=⟨lost buf name job,[]⟩) (i:=0) rfl rfl hgoes rfl rfl Nat.one_pos
      hsafe

end Examples

end XmrigCC.PoolHandles
