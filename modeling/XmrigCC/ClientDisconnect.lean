import XmrigCC.LoginResponses

/-!
# After a disconnect

`disconnect` acts on the socket only. A lookup that is still pending connects
and logs in when its callback comes, and a login that the read in progress still
holds is accepted. Without either, a disconnected client stays out until it is
connected again.
-/

namespace XmrigCC.ClientDisconnect

open ByteText TransitionRuns MiningJob PoolMessages ReceiveBuffer ClientLines ClientSessions
open PoolClientPhases (parse_handled parseLines_handled send_refused send_taken login_too_long
  login_filled Unresolved onResolved_eq)
open PoolClient hiding step Permitted
open LoginResponses (responseReader opened opening opening_run)
open PoolClientLiveness (loginWriter rig)
open ReceiveBufferRuns (plainLibrary)

/-- In this step the client does not become connected, sends no login and reports none. -/
structure StaysOut (lib : RapidJson) (recvLib : RecvLibrary) (s : Session) (a : Action) : Prop where
  /-- The state. -/
  state : (step lib recvLib s a).client.m_state ≠ .connected
  /-- The login request. -/
  login : s.client.loginText lib++[newline]∉newlyWritten s.client (step lib recvLib s a).client
  /-- The listener. -/
  success : .onLoginSuccess∉newCalls s.client (step lib recvLib s a).client

/-- A callback, a tick or a share: nothing that connects or disconnects the client from
outside. -/
def Unprompted : Action → Prop
  | .connect _ => False
  | .disconnect => False
  | _ => True

/-- None of these lines, parsed one after the other, is a login that the client accepts. -/
def NoLogin (lib : RapidJson) : Client → List (Bytes×Stale) → Prop
  | _,[] => True
  | c,(line,stale)::rest =>
    ¬LogsIn lib stale c line ∧ NoLogin lib (c.parse lib stale line) rest

section Silent

/-- The step from one client to the other sends nothing and reports no login. -/
structure Silent (c d : Client) : Prop where
  /-- The socket has taken no message. -/
  written : ∀ k∈d.m_socket, ∃ k'∈c.m_socket, k.written=k'.written
  /-- The listener has heard of no login. -/
  calls : ∃ calls, d.calls=c.calls++calls ∧ .onLoginSuccess∉calls

variable {c d : Client}

theorem Silent.newlyWritten (h : Silent c d) : newlyWritten c d=[] := by
  rw [ClientSessions.newlyWritten]
  split
  · rfl
  · rename_i k hk
    obtain ⟨k',hk',hsame⟩ := h.written k hk
    rw [hk',hsame]
    exact List.drop_length

theorem Silent.newCalls (h : Silent c d) : .onLoginSuccess∉newCalls c d := by
  obtain ⟨calls,heq,hnot⟩ := h.calls
  rw [newCalls_append heq]
  exact hnot

/-- Nothing happens to the socket or the listener. -/
theorem Silent.of_eq (hk : d.m_socket=c.m_socket) (hcalls : d.calls=c.calls) : Silent c d := by
  refine ⟨?_,[],?_,List.not_mem_nil⟩
  · rw [hk]
    exact fun k hk => ⟨k,hk,rfl⟩
  · rw [hcalls,List.append_nil]

theorem silent_close (c : Client) : Silent c c.close := by
  rcases close_cases c with hsame|⟨k,hk,hclose⟩
  · rw [hsame]
    exact Silent.of_eq rfl rfl
  · rw [hclose]
    refine ⟨?_,[],(List.append_nil _).symm,List.not_mem_nil⟩
    intro k' hk'
    rw [←Option.some.inj hk']
    exact ⟨k,hk,rfl⟩

/-- A line sends nothing, and reports no login unless it is one. -/
theorem silent_parse {lib : RapidJson} {stale : Stale} {line : Bytes}
    (h : ¬LogsIn lib stale c line) : Silent c (c.parse lib stale line) := by
  refine ⟨?_,?_⟩
  · rcases (parse_handled lib stale c line).connection with ⟨-,hk⟩|⟨-,hk⟩
    · rw [hk]
      exact fun k hk => ⟨k,hk,rfl⟩
    · rw [hk]
      exact (silent_close c).written
  · cases parse_reports lib stale c line with
    | nothing hcalls => exact ⟨[],by rw [hcalls,List.append_nil],List.not_mem_nil⟩
    | job job hcalls =>
      exact ⟨[.onJobReceived job],hcalls,fun hm => nomatch List.mem_singleton.mp hm⟩
    | login job hlogin => exact absurd hlogin h
    | answer k noted error _ _ hcalls =>
      exact ⟨[.onResultAccepted noted error],hcalls,fun hm => nomatch List.mem_singleton.mp hm⟩

end Silent

section Dormant

variable {lib : RapidJson} {c d : Client}

/-- Closing again changes neither what matters of the state nor the socket. -/
theorem close_gone (hstate : c.m_state ≠ .connected)
    (hsocket : ∀ k∈c.m_socket, k.closing=true ∧ k.reading=false) :
    c.close.m_state ≠ .connected ∧ ∀ k∈c.close.m_socket, k.closing=true ∧ k.reading=false := by
  rcases close_cases c with hsame|⟨k,-,hclose⟩
  · rw [hsame]
    exact ⟨hstate,hsocket⟩
  · rw [hclose]
    refine ⟨fun hs => (nomatch hs),?_⟩
    intro k' hk'
    rw [←Option.some.inj hk']
    exact ⟨rfl,rfl⟩

/-- A client that has been disconnected, or never connected, and that only a pending lookup
or a line could bring back. -/
structure Dormant (c : Client) : Prop where
  /-- `tick` does nothing. -/
  expire : c.m_expire=0
  /-- The client is not connected. -/
  state : c.m_state ≠ .connected
  /-- Its socket is being closed. -/
  socket : ∀ k∈c.m_socket, k.closing=true ∧ k.reading=false
  /-- `disconnect` was called last, or nothing was. -/
  out : c.m_failures=-1 ∨ c.lookups=0 ∧ c.m_socket=none

/-- The step from one client to the other leaves it dormant and is silent. -/
structure Stays (c d : Client) : Prop where
  /-- The client is dormant. -/
  dormant : Dormant d
  /-- It has sent nothing and reported no login. -/
  silent : Silent c d
  /-- A disconnected client stays disconnected. -/
  failures : c.m_failures=-1 → d.m_failures=-1
  /-- No lookup is started. -/
  lookups : d.lookups ≤ c.lookups

/-- Nothing happens to the connection. -/
theorem Stays.of_frame (h : Dormant c) (hexpire : d.m_expire=c.m_expire)
    (hstate : d.m_state=c.m_state) (hsocket : d.m_socket=c.m_socket)
    (hfailures : d.m_failures=c.m_failures) (hlookups : d.lookups=c.lookups)
    (hcalls : d.calls=c.calls) : Stays c d where
  dormant := by
    refine ⟨?_,?_,?_,?_⟩
    · rw [hexpire]
      exact h.expire
    · rw [hstate]
      exact h.state
    · rw [hsocket]
      exact h.socket
    · rw [hfailures,hlookups,hsocket]
      exact h.out
  silent := Silent.of_eq hsocket hcalls
  failures := hfailures.trans
  lookups := hlookups.le

/-- With a socket or a lookup, `disconnect` was called last. -/
theorem Dormant.disconnected (h : Dormant c) (hpending : c.m_socket ≠ none ∨ 0<c.lookups) :
    c.m_failures=-1 := by
  rcases h.out with hfailures|⟨hlookups,hsocket⟩
  · exact hfailures
  · rcases hpending with hsome|hpositive
    · exact absurd hsocket hsome
    · exact absurd hlookups (Nat.ne_of_gt hpositive)

/-- After a disconnect, going on to the next attempt only reports the close. -/
theorem reconnect_disconnected (hfailures : c.m_failures=-1) (now : UInt64) :
    c.reconnect now={c with
      m_state := .connecting
      m_keepAliveTimer := c.m_keepAliveTimer && !c.m_url.m_keepAlive
      calls := c.calls++[.onClose (-1)]} := by
  unfold Client.reconnect
  dsimp only
  rw [if_pos hfailures]

theorem onClose_silent (c : Client) (failures : ℤ) :
    ∃ calls, c.calls++[.onClose failures]=c.calls++calls ∧ .onLoginSuccess∉calls :=
  ⟨[.onClose failures],rfl,fun hm => nomatch List.mem_singleton.mp hm⟩

/-- The callback of a connect that is cancelled closes the socket again. -/
theorem Dormant.cancelled (h : Dormant c) (hsome : c.m_socket ≠ none) {status : ℤ}
    (hneg : status<0) (w : WriteResult) (now : UInt64) :
    Stays c (c.onConnect lib status w now) := by
  have hfailures := h.disconnected (Or.inl hsome)
  have hsocket : ∀ k∈(calledBack c).m_socket, k.closing=true ∧ k.reading=false := by
    intro k hk
    obtain ⟨k',hk',rfl⟩ := Option.mem_map.mp hk
    exact h.socket k' hk'
  have hclosed := close_gone (c:=calledBack c) h.state hsocket
  have hsilent := silent_close (calledBack c)
  have hout : (calledBack c).close.m_failures=-1 := (close_m_failures _).trans hfailures
  rw [onConnect_eq,if_pos hneg]
  refine ⟨⟨?_,hclosed.1,hclosed.2,Or.inl hout⟩,⟨?_,hsilent.calls⟩,fun _ => hout,
    (close_lookups _).le⟩
  · rw [close_m_expire]
    exact h.expire
  · intro k hk
    obtain ⟨k',hk',hwritten⟩ := hsilent.written k hk
    obtain ⟨k'',hk'',rfl⟩ := Option.mem_map.mp hk'
    exact ⟨k'',hk'',hwritten⟩

/-- The callback of the close leaves the client without a socket. -/
theorem Dormant.closed (h : Dormant c) (hsome : c.m_socket ≠ none) (now : UInt64) :
    Stays c (c.onClose now) := by
  have hfailures := h.disconnected (Or.inl hsome)
  rw [Client.onClose,reconnect_disconnected (by exact hfailures)]
  refine ⟨⟨h.expire,?_,?_,Or.inl hfailures⟩,⟨?_,onClose_silent c (-1)⟩,fun _ => hfailures,le_rfl⟩
  · intro hs
    cases hs
  · intro k hk
    cases hk
  · intro k hk
    cases hk

/-- A lookup that fails reports the close. -/
theorem Dormant.unresolved (h : Dormant c) (hpending : 0<c.lookups) {status : ℤ}
    {families : List ℤ} (hfails : Unresolved status families) (r : ℤ) (now : UInt64) :
    Stays c (c.onResolved status families r now) := by
  have hfailures := h.disconnected (Or.inr hpending)
  rw [onResolved_eq,if_pos hfails,reconnect_disconnected (by exact hfailures)]
  refine ⟨⟨h.expire,?_,h.socket,Or.inl hfailures⟩,⟨?_,onClose_silent c (-1)⟩,fun _ => hfailures,
    Nat.sub_le _ _⟩
  · intro hs
    cases hs
  · exact fun k hk => ⟨k,hk,rfl⟩

/-- A message is not sent. -/
theorem Dormant.refused (h : Dormant c) (message : Bytes) (w : WriteResult) (now : UInt64) :
    (c.send message w now).2=c := by
  rw [send_refused (Or.inl h.state)]

/-- No permitted event but a lookup that succeeds brings the client back or makes it report a
login. -/
theorem dormant_event (lib : RapidJson) (recvLib : RecvLibrary) (h : Dormant c) {e : Event}
    (hp : Permitted ⟨c,[]⟩ (.event e))
    (hlate : ∀ status families r now, e=.resolved status families r now →
      Unresolved status families) :
    (step lib recvLib ⟨c,[]⟩ (.event e)).rest=[] ∧
      Stays c (step lib recvLib ⟨c,[]⟩ (.event e)).client := by
  obtain ⟨-,-,hdue,hcancelled⟩ := hp
  cases e with
  | resolved status families r now =>
    exact ⟨rfl,h.unresolved hdue (hlate status families r now rfl) r now⟩
  | connected status w now =>
    obtain ⟨k,hk,-⟩ := hdue
    have hsome : c.m_socket ≠ none := fun hnone => nomatch hnone.symm.trans hk
    exact ⟨rfl,h.cancelled hsome (hcancelled ⟨k,hk,(h.socket k hk).1⟩) w now⟩
  | read members delivery stale =>
    have hreading : ∃ k∈c.m_socket, k.reading=true := by
      cases delivery with
      | data bytes => exact hdue.1
      | failed code => exact hdue
    obtain ⟨k,hk,hreads⟩ := hreading
    exact Bool.noConfusion (hreads.symm.trans (h.socket k hk).2)
  | closed now =>
    obtain ⟨k,hk,-⟩ := hdue
    exact ⟨rfl,h.closed (fun hnone => nomatch hnone.symm.trans hk) now⟩
  | tick now r =>
    have htick : c.tick now r=c := if_pos (Or.inl h.expire)
    change []=[] ∧ Stays c (c.tick now r)
    rw [htick]
    exact ⟨rfl,Stays.of_frame h rfl rfl rfl rfl rfl rfl⟩
  | submit result w now =>
    have hnoted : Stays c (noteShare c result) := Stays.of_frame h rfl rfl rfl rfl rfl rfl
    change []=[] ∧ Stays c (c.submit result w now).2
    rw [submit_eq,hnoted.dormant.refused]
    exact ⟨rfl,hnoted⟩
  | keepAlive w now =>
    have hstopped : Stays c {c with m_keepAliveTimer := false} :=
      Stays.of_frame h rfl rfl rfl rfl rfl rfl
    change []=[] ∧ Stays c (Client.ping {c with m_keepAliveTimer := false} w now)
    rw [Client.ping,hstopped.dormant.refused]
    exact ⟨rfl,hstopped⟩
  | othersSent n => exact ⟨rfl,Stays.of_frame h rfl rfl rfl rfl rfl rfl⟩

end Dormant

section Gone

variable {lib : RapidJson}

/-- A disconnected client that nothing can bring back. -/
structure Gone (lib : RapidJson) (s : Session) : Prop where
  /-- No lookup is pending. -/
  lookups : s.client.lookups=0
  /-- `disconnect` was called last. -/
  failures : s.client.m_failures=-1
  /-- `tick` does nothing. -/
  expire : s.client.m_expire=0
  /-- The client is not connected. -/
  state : s.client.m_state ≠ .connected
  /-- Its socket is being closed. -/
  socket : ∀ k∈s.client.m_socket, k.closing=true ∧ k.reading=false
  /-- The read in progress holds no login. -/
  rest : NoLogin lib s.client s.rest

theorem Gone.dormant {s : Session} (h : Gone lib s) : Dormant s.client :=
  ⟨h.expire,h.state,h.socket,Or.inl h.failures⟩

/-- Every permitted action that nobody prompts leaves the client gone, and silent. -/
theorem gone_step (recvLib : RecvLibrary) {s : Session} (h : Gone lib s) {a : Action}
    (hp : Permitted s a) (ha : Unprompted a) :
    Gone lib (step lib recvLib s a) ∧ Silent s.client (step lib recvLib s a).client := by
  obtain ⟨c,rest⟩ := s
  cases a with
  | connect r => exact ha.elim
  | disconnect => exact ha.elim
  | line =>
    obtain ⟨-,hne⟩ := hp
    cases rest with
    | nil => exact absurd rfl hne
    | cons l rest =>
      obtain ⟨line,stale⟩ := l
      obtain ⟨hno,hrest⟩ := h.rest
      have hhandled := parse_handled lib stale c line
      have hconnection : (c.parse lib stale line).m_state ≠ .connected ∧
          ∀ k∈(c.parse lib stale line).m_socket, k.closing=true ∧ k.reading=false := by
        rcases hhandled.connection with ⟨hs,hk⟩|⟨hs,hk⟩
        · rw [hs,hk]
          exact ⟨h.state,h.socket⟩
        · rw [hs,hk]
          exact close_gone h.state h.socket
      have hfailures : (c.parse lib stale line).m_failures=-1 := by
        cases parse_reports lib stale c line with
        | nothing _ _ hf => exact hf.trans h.failures
        | job _ _ _ hf => exact hf.trans h.failures
        | login _ hlogin => exact absurd hlogin hno
        | answer _ _ _ _ _ _ _ hf => exact hf.trans h.failures
      exact ⟨⟨hhandled.lookups.trans h.lookups,hfailures,(parse_frame lib stale c line).2,
        hconnection.1,hconnection.2,hrest⟩,silent_parse hno⟩
  | event e =>
    obtain rfl : rest=[] := hp.2.1
    have hlate : ∀ status families r now, e=.resolved status families r now →
        Unresolved status families := by
      rintro status families r now rfl
      have hpending : 0<c.lookups := hp.2.2.1
      exact absurd h.lookups (Nat.ne_of_gt hpending)
    obtain ⟨hrest,hstays⟩ := dormant_event lib recvLib h.dormant hp hlate
    have hlookups : c.lookups=0 := h.lookups
    refine ⟨⟨?_,hstays.failures h.failures,hstays.dormant.expire,hstays.dormant.state,
      hstays.dormant.socket,?_⟩,hstays.silent⟩
    · exact Nat.le_zero.mp (hstays.lookups.trans hlookups.le)
    · rw [hrest]
      trivial

/-- A client that is gone stays out in every later run. -/
theorem staysOut_of_gone (recvLib : RecvLibrary) {s : Session} (h : Gone lib s)
    {later : List Action}
    (hlater : AlongSteps (step lib recvLib) (fun s a => Permitted s a ∧ Unprompted a) s later) :
    AlongSteps (step lib recvLib) (StaysOut lib recvLib) s later := by
  refine alongSteps_of_invariant (I:=Gone lib)
    (fun s a hs ha => (gone_step recvLib hs ha.1 ha.2).1) ?_ h hlater
  intro s a hs ha
  obtain ⟨hgone,hsilent⟩ := gone_step recvLib hs ha.1 ha.2
  refine ⟨hgone.state,?_,hsilent.newCalls⟩
  rw [hsilent.newlyWritten]
  exact List.not_mem_nil

end Gone

section Returns

variable {lib : RapidJson}

/-- A permitted action with defined behaviour that nobody prompts. -/
def Later (s : Session) (a : Action) : Prop := Defined s a ∧ Unprompted a

/-- The lines of a read, parsed to the end. -/
def lines (rest : List (Bytes×Stale)) : List Action := rest.map fun _ => .line

/-- An intact client can parse the lines of its read, one after the other. -/
theorem lines_run (lib : RapidJson) (recvLib : RecvLibrary) {c : Client}
    (hintact : c.corrupted=false) (rest : List (Bytes×Stale)) :
    AlongSteps (step lib recvLib) Later ⟨c,rest⟩ (lines rest) ∧
    runFrom (step lib recvLib) ⟨c,rest⟩ (lines rest)=⟨c.parseLines lib rest,[]⟩ := by
  induction rest generalizing c with
  | nil => exact ⟨trivial,rfl⟩
  | cons l rest ih =>
    have hnext := ih (c:=c.parse lib l.2 l.1)
      ((parse_handled lib l.2 c l.1).corrupted.trans hintact)
    exact ⟨⟨⟨⟨⟨hintact,List.cons_ne_nil l rest⟩,trivial⟩,trivial⟩,hnext.1⟩,hnext.2⟩

/-- Lines that report no login are none. -/
theorem noLogin_of_staysOut {recvLib : RecvLibrary} {c : Client} {rest : List (Bytes×Stale)}
    (h : AlongSteps (step lib recvLib) (StaysOut lib recvLib) ⟨c,rest⟩ (lines rest)) :
    NoLogin lib c rest := by
  induction rest generalizing c with
  | nil => trivial
  | cons l rest ih =>
    obtain ⟨hfirst,hnext⟩ := h
    refine ⟨?_,ih hnext⟩
    intro hlogin
    obtain ⟨job,hcalls⟩ := parse_logsIn lib l.2 hlogin
    apply hfirst.success
    change .onLoginSuccess∈(c.parse lib l.2 l.1).calls.drop c.calls.length
    rw [hcalls,List.drop_left]
    exact List.mem_cons_self

/-- A run that stays out does not end connected. -/
theorem state_of_staysOut {recvLib : RecvLibrary} {s : Session} {a : Action} {later : List Action}
    (h : AlongSteps (step lib recvLib) (StaysOut lib recvLib) s (a::later)) :
    (runFrom (step lib recvLib) s (a::later)).client.m_state ≠ .connected := by
  induction later generalizing s a with
  | nil => exact h.1.state
  | cons b later ih => exact ih h.2

/-- Events that nobody prompts lead the client to a connection. -/
def Connects (lib : RapidJson) (recvLib : RecvLibrary) (c : Client) : Prop :=
  ∃ e later, AlongSteps (step lib recvLib) Later ⟨c,[]⟩ (e::later) ∧
    (runFrom (step lib recvLib) ⟨c,[]⟩ (e::later)).client.m_state=.connected

/-- One event more. -/
theorem Connects.before {recvLib : RecvLibrary} {c d : Client} (h : Connects lib recvLib d)
    {a : Action} (ha : Later ⟨c,[]⟩ a) (hstep : step lib recvLib ⟨c,[]⟩ a=⟨d,[]⟩) :
    Connects lib recvLib c := by
  obtain ⟨e,later,hlater,hend⟩ := h
  refine ⟨a,e::later,⟨ha,?_⟩,?_⟩
  · rw [hstep]
    exact hlater
  · rw [runFrom_cons,hstep]
    exact hend

/-- A login that the socket takes leaves the client connected. -/
theorem login_state {c : Client} (hstate : c.m_state=.connected) (now : UInt64) :
    (c.login lib ⟨true,0⟩ now).m_state=.connected := by
  by_cases hlong : bufSize-2<(c.loginText lib).length
  · rw [login_too_long hlong]
    exact hstate
  · have htaken : (Client.fillSendBuf {c with m_results := []} (c.loginText lib).length).send
        (c.loginText lib++[newline]) ⟨true,0⟩ now=_ := send_taken hstate rfl (lt_irrefl 0)
    rw [login_filled hlong,htaken]
    exact hstate

/-- A pending lookup of a client without a socket leads to a connection. -/
theorem connects_of_none (recvLib : RecvLibrary) {c : Client} (hintact : c.corrupted=false)
    (hpending : 0<c.lookups) (hnone : c.m_socket=none) : Connects lib recvLib c := by
  refine ⟨.event (.resolved 0 [Client.AF_INET] 0 0),[.event (.connected 0 ⟨true,0⟩ 0)],
    ⟨⟨⟨⟨hintact,rfl,hpending,trivial⟩,fun _ => hnone⟩,trivial⟩,
      ⟨⟨⟨hintact,rfl,⟨_,rfl,rfl⟩,?_⟩,trivial⟩,trivial⟩,trivial⟩,login_state rfl 0⟩
  rintro ⟨k,⟨⟩,hclosing⟩
  cases hclosing

/-- The callback of the close comes first when there is a socket. -/
theorem connects_of_closing (recvLib : RecvLibrary) {c : Client} (hintact : c.corrupted=false)
    (hpending : 0<c.lookups) {k : Socket} (hk : c.m_socket=some k) (hclosing : k.closing=true)
    (hconnecting : k.connecting=false) : Connects lib recvLib c := by
  have hframe : (c.onClose 0).corrupted=c.corrupted ∧ (c.onClose 0).lookups=c.lookups ∧
      (c.onClose 0).m_socket=none := by
    rw [Client.onClose,Client.reconnect]
    dsimp only
    split <;> exact ⟨rfl,rfl,rfl⟩
  have hnext : Connects lib recvLib (c.onClose 0) :=
    connects_of_none recvLib (hframe.1.trans hintact) (by rw [hframe.2.1]; exact hpending)
      hframe.2.2
  exact hnext.before (a:=.event (.closed 0))
    ⟨⟨⟨hintact,rfl,⟨k,hk,hclosing,hconnecting⟩,trivial⟩,trivial⟩,trivial⟩ rfl

/-- A pending lookup leads to a connection, whatever is left of the socket. -/
theorem connects_of_pending (recvLib : RecvLibrary) {c : Client} (hintact : c.corrupted=false)
    (hpending : 0<c.lookups) (hsocket : ∀ k∈c.m_socket, k.closing=true) :
    Connects lib recvLib c := by
  cases hk : c.m_socket with
  | none => exact connects_of_none recvLib hintact hpending hk
  | some k =>
    have hclosing := hsocket k hk
    by_cases hconnecting : k.connecting=true
    · have hcancelled : (c.onConnect lib (-1) ⟨true,0⟩ 0)=
          Client.close {c with m_socket := some {k with connecting := false}} := by
        rw [onConnect_eq,calledBack,hk]
        rfl
      have hframe : ∃ k', (c.onConnect lib (-1) ⟨true,0⟩ 0).m_socket=some k' ∧
          k'.closing=true ∧ k'.connecting=false := by
        rw [hcancelled]
        rcases close_cases {c with m_socket := some {k with connecting := false}} with
          hsame|⟨k',hk',hclose⟩
        · rw [hsame]
          exact ⟨_,rfl,hclosing,rfl⟩
        · rw [hclose]
          refine ⟨_,rfl,rfl,?_⟩
          rw [←Option.some.inj hk']
      obtain ⟨k',hk',hclosing',hconnecting'⟩ := hframe
      have hnext : Connects lib recvLib (c.onConnect lib (-1) ⟨true,0⟩ 0) :=
        connects_of_closing recvLib (by rw [hcancelled,close_corrupted]; exact hintact)
          (by rw [hcancelled,close_lookups]; exact hpending) hk' hclosing' hconnecting'
      exact hnext.before (a:=.event (.connected (-1) ⟨true,0⟩ 0))
        ⟨⟨⟨hintact,rfl,⟨k,hk,hconnecting⟩,fun _ => by decide⟩,trivial⟩,trivial⟩ rfl
    · exact connects_of_closing recvLib hintact hpending hk hclosing
        ((Bool.not_eq_true _).mp hconnecting)

end Returns

/-- A disconnect is final, for every later run of callbacks, ticks and shares, exactly when
it finds no lookup pending and no login among the lines still to be parsed. -/
theorem disconnect_final_iff (lib : RapidJson) (recvLib : RecvLibrary) {s : Session}
    (hs : Reached lib recvLib s) (hintact : s.client.corrupted=false) :
    (∀ later, AlongSteps (step lib recvLib) Later (step lib recvLib s .disconnect) later →
      AlongSteps (step lib recvLib) (StaysOut lib recvLib) (step lib recvLib s .disconnect)
        later) ↔
      s.client.lookups=0 ∧ NoLogin lib s.client.disconnect s.rest := by
  have hwired := hs.wired
  have hwired' : Wired {s.client with m_keepAliveTimer := false,m_expire := 0,m_failures := -1} :=
    hwired.of_connection rfl rfl
  have hlookups : s.client.disconnect.lookups=s.client.lookups := close_lookups _
  have hintact' : s.client.disconnect.corrupted=false := (close_corrupted _).trans hintact
  constructor
  · intro h
    obtain ⟨hlines,hend⟩ := lines_run lib recvLib hintact' s.rest
    have hnologin := noLogin_of_staysOut (h (lines s.rest) hlines)
    refine ⟨?_,hnologin⟩
    by_contra hne
    have hparsed := parseLines_handled lib s.client.disconnect s.rest
    have hsocket : ∀ k∈(s.client.disconnect.parseLines lib s.rest).m_socket, k.closing=true := by
      rcases hparsed.connection with ⟨-,hk⟩|⟨-,hk⟩
      · rw [hk]
        exact fun k hk => (hwired'.close_socket k hk).1
      · rw [hk]
        exact fun k hk => (hwired.disconnect.close_socket k hk).1
    have hpending : 0<(s.client.disconnect.parseLines lib s.rest).lookups := by
      rw [hparsed.lookups,hlookups]
      exact Nat.pos_of_ne_zero hne
    obtain ⟨e,later,hlater,hconnected⟩ : Connects lib recvLib _ :=
      connects_of_pending recvLib (hparsed.corrupted.trans hintact') hpending hsocket
    have hall := h (lines s.rest++e::later) (by
      rw [alongSteps_append]
      exact ⟨hlines,by rw [step,hend]; exact hlater⟩)
    rw [alongSteps_append] at hall
    have hout := hall.2
    rw [step,hend] at hout
    exact state_of_staysOut hout hconnected
  · rintro ⟨hnone,hrest⟩ later hlater
    have hgone : Gone lib (step lib recvLib s .disconnect) :=
      ⟨hlookups.trans hnone,close_m_failures _,close_m_expire _,hwired'.close_state,
        hwired'.close_socket,hrest⟩
    refine staysOut_of_gone recvLib hgone ?_
    exact alongSteps_of_invariant (I:=fun _ => True) (fun _ _ _ _ => trivial)
      (fun _ _ _ ha => ⟨ha.1.1,ha.2⟩) trivial hlater

/-- A client that is disconnected while it is connected is gone for good. -/
theorem disconnect_final_opened :
    (∀ later, AlongSteps (step responseReader plainLibrary) Later
        (step responseReader plainLibrary ⟨opened,[]⟩ .disconnect) later →
      AlongSteps (step responseReader plainLibrary) (StaysOut responseReader plainLibrary)
        (step responseReader plainLibrary ⟨opened,[]⟩ .disconnect) later) ↔
      opened.lookups=0 ∧ NoLogin responseReader opened.disconnect [] :=
  disconnect_final_iff responseReader plainLibrary
    ⟨0,text "rig",rig.m_url,fun _ => 0,fun _ => 0,opening,opening_run⟩ rfl

/-- A client is disconnected while its lookup is pending, and the lookup succeeds. -/
theorem pending_lookup_connects :
    Reached loginWriter plainLibrary ⟨rig.connect 0,[]⟩ ∧
    AlongSteps (step loginWriter plainLibrary) Later ⟨(rig.connect 0).disconnect,[]⟩
      [.event (.resolved 0 [2] 0 1000),.event (.connected 0 ⟨true,90⟩ 1001)] ∧
    ¬AlongSteps (step loginWriter plainLibrary) (StaysOut loginWriter plainLibrary)
      ⟨(rig.connect 0).disconnect,[]⟩
      [.event (.resolved 0 [2] 0 1000),.event (.connected 0 ⟨true,90⟩ 1001)] := by
  refine ⟨⟨0,text "rig",rig.m_url,fun _ => 0,fun _ => 0,[.connect 0],⟨⟨rfl,trivial⟩,trivial⟩,rfl⟩,
    ⟨⟨⟨⟨rfl,rfl,Nat.one_pos,trivial⟩,fun _ => rfl⟩,trivial⟩,
      ⟨⟨⟨rfl,rfl,⟨_,rfl,rfl⟩,?_⟩,trivial⟩,trivial⟩,trivial⟩,?_⟩
  · rintro ⟨k,⟨⟩,hclosing⟩
    cases hclosing
  · intro h
    exact state_of_staysOut h rfl

end XmrigCC.ClientDisconnect
