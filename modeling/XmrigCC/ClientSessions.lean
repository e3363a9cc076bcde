import XmrigCC.ClientLines
import XmrigCC.PoolClientLiveness

/-!
# A pool client between its owner and the event loop

`Client` with everything that can happen to it: its owner connects it,
disconnects it and submits shares, the loop delivers callbacks, and the lines of
a read are parsed one by one, so that the owner can act between two of them, as
a listener does from inside a line. A run ends where the behaviour of the
program is no longer defined: after a write past a buffer, and where a handle
that the loop still holds would be freed.
-/

namespace XmrigCC.ClientSessions

open ByteText CellMemory DelimitedStream MiningJob PoolMessages ReceiveBuffer ReceiveBufferRuns
open TransitionRuns PoolClientPhases PoolClientLiveness ClientLines
open PoolClient hiding step Permitted
open MultiWorker (JobResult)

/-- A client and the lines of the read in progress still to be parsed, each with the memory
its parsing finds. -/
structure Session where
  /-- The client. -/
  client : Client
  /-- The lines. -/
  rest : List (Bytes×Stale)

/-- Something that happens to a client. -/
inductive Action where
  /-- `connect()` is called; `r` is the result of `uv_getaddrinfo`. -/
  | connect (r : ℤ)
  /-- `disconnect()` is called. -/
  | disconnect
  /-- A callback, a tick or a call. A read only gets its bytes and finds its lines. -/
  | event (e : Event)
  /-- The next line of the read is parsed. -/
  | line

/-- `Client::onRead` up to the first line. Without a line it is all of it. -/
def beginRead (recvLib : RecvLibrary) (c : Client) (members : Cells UInt8) (delivery : Delivery)
    (stale : ℕ → Stale) : Session :=
  let report := deliver recvLib (c.buffer members) delivery
  ⟨if report.closed then (c.received report).close else c.received report,
    report.lines.zipIdx.map fun p => (p.1,stale p.2)⟩

/-- One event, with the lines of a read left to be parsed. -/
def stepEvent (lib : RapidJson) (recvLib : RecvLibrary) (s : Session) : Event → Session
  | .read members delivery stale => beginRead recvLib s.client members delivery stale
  | e => {s with client := PoolClient.step lib recvLib s.client e}

/-- One action. -/
def step (lib : RapidJson) (recvLib : RecvLibrary) (s : Session) : Action → Session
  | .connect r => {s with client := s.client.connect r}
  | .disconnect => {s with client := s.client.disconnect}
  | .event e => stepEvent lib recvLib s e
  | .line =>
    match s.rest with
    | [] => s
    | (line,stale)::rest => ⟨s.client.parse lib stale line,rest⟩

/-- What libuv promises besides: a connect whose socket is being closed does not succeed. -/
def Cancelled (c : Client) : Event → Prop
  | .connected status _ _ => (∃ k∈c.m_socket, k.closing=true) → status<0
  | _ => True

/-- What can happen next: the client is intact, a read is finished before the next callback,
and callbacks come as the loop owes them. -/
def Permitted (s : Session) : Action → Prop
  | .connect _ => s.client.corrupted=false
  | .disconnect => s.client.corrupted=false
  | .event e =>
    s.client.corrupted=false ∧ s.rest=[] ∧ PoolClient.Permitted s.client e ∧ Cancelled s.client e
  | .line => s.client.corrupted=false ∧ s.rest ≠ []

/-- `delete m_socket` in `connect(sockaddr*)` meets a null pointer: any other socket is still
the loop's, as the close callback deletes it and clears the member. -/
def DeletesNothing (s : Session) : Action → Prop
  | .event (.resolved status families _ _) =>
    ¬Unresolved status families → s.client.m_socket=none
  | _ => True

/-- A permitted action with defined behaviour. -/
def Defined (s : Session) (a : Action) : Prop := Permitted s a ∧ DeletesNothing s a

/-- Messages that the socket takes in a step. -/
def newlyWritten (c d : Client) : List Bytes :=
  match d.m_socket with
  | none => []
  | some k => k.written.drop ((c.m_socket.map fun k => k.written.length).getD 0)

/-- Calls on the listener in a step. -/
def newCalls (c d : Client) : List Call := d.calls.drop c.calls.length

theorem newCalls_append {c d : Client} {calls : List Call} (h : d.calls=c.calls++calls) :
    newCalls c d=calls := by
  rw [newCalls,h,List.drop_left]

theorem newCalls_same {c d : Client} (h : d.calls=c.calls) : newCalls c d=[] :=
  newCalls_append (by rw [h,List.append_nil])

/-- A read that closes the connection has no lines. -/
theorem deliver_closed_lines (lib : RecvLibrary) (s : RecvState) (d : Delivery)
    (h : (deliver lib s d).closed=true) : (deliver lib s d).lines=[] := by
  cases d with
  | failed code => rw [deliver_failed]
  | data bytes =>
    by_cases hfit : Fits s bytes
    · have hopen : (deliver lib s (.data bytes)).closed=false := by
        rw [deliver_data lib hfit,compact]
        split
        · rfl
        · split <;> rfl
      rw [hopen] at h
      cases h
    · rw [deliver_data_of_not_fits lib hfit]

/-- Parsing all lines of a read one by one is the read. -/
theorem parseLines_beginRead (lib : RapidJson) (recvLib : RecvLibrary) (c : Client)
    (members : Cells UInt8) (delivery : Delivery) (stale : ℕ → Stale) :
    Client.parseLines lib (beginRead recvLib c members delivery stale).client
        (beginRead recvLib c members delivery stale).rest=
      c.onRead lib recvLib members delivery stale := by
  rw [beginRead,Client.onRead]
  dsimp only
  by_cases hclosed : (deliver recvLib (c.buffer members) delivery).closed=true
  · rw [if_pos hclosed,if_pos hclosed,deliver_closed_lines recvLib _ _ hclosed]
    rfl
  · rw [if_neg hclosed,if_neg hclosed]

/-- A read of one whole line, when nothing is retained, leaves the buffer empty and that
line to be parsed. -/
theorem beginRead_line (recvLib : RecvLibrary) {c : Client} (hpos : c.recv.m_recvBufPos=0)
    {line : Bytes} (hline : newline∉line) (hlength : line.length+9 ≤ bufSize)
    (members : Cells UInt8) (stale : ℕ → Stale) :
    ∃ m, beginRead recvLib c members (.data (line++[newline])) stale=
      ⟨{c with recv := ⟨m,0⟩},[(line++[newline],stale 0)]⟩ := by
  have hroom : (c.buffer members).m_recvBufPos=0 := hpos
  have hlen : (line++[newline]).length=line.length+1 := List.length_append
  have hfit : Fits (c.buffer members) (line++[newline]) :=
    (fits_iff (by rw [hroom]; decide) _).mpr (by rw [hroom]; omega)
  have hrecords : records newline (line++[newline])=[line++[newline]] :=
    (records_append_cons hline []).trans rfl
  have hremainder : remainder newline (line++[newline])=[] :=
    (remainder_append_cons hline []).trans rfl
  have hlines : (deliver recvLib (c.buffer members) (.data (line++[newline]))).lines=
      [line++[newline]] := by
    rw [deliver_lines recvLib hfit,window_of_empty hroom,hrecords]
  have hleft := (deliver_of_empty recvLib hfit hroom).1
  rw [hremainder] at hleft
  have hwithin : Client.overruns (deliver recvLib (c.buffer members) (.data (line++[newline])))=
      false := by
    rw [overruns_iff recvLib hfit (by rw [hroom]; omega),WithinBuffer,window_of_empty hroom,
      hremainder,hroom]
    exact Or.inr ⟨by rw [List.length_nil]; omega,by decide⟩
  have hopen : (deliver recvLib (c.buffer members) (.data (line++[newline]))).closed=false := by
    by_contra hclosed
    have hnil := deliver_closed_lines recvLib _ _ ((Bool.not_eq_false _).mp hclosed)
    rw [hlines] at hnil
    cases hnil
  refine ⟨(deliver recvLib (c.buffer members) (.data (line++[newline]))).state.m_buf,?_⟩
  rw [beginRead,hopen,hlines,Client.received,hwithin,Bool.or_false]
  have hstate : (deliver recvLib (c.buffer members) (.data (line++[newline]))).state=
      ⟨(deliver recvLib (c.buffer members) (.data (line++[newline]))).state.m_buf,0⟩ := by
    rw [←List.length_nil (α:=UInt8),←hleft]
  rw [hstate]
  rfl

/-- What `submit` notes of a share. -/
def notedShare (c : Client) (result : JobResult) : SubmitResult :=
  ⟨c.m_sequence,result.diff,actualDiff result⟩

/-- `m_results` with the share noted. -/
def noteShare (c : Client) (result : JobResult) : Client :=
  {c with m_results :=
    (c.m_sequence,notedShare c result)::c.m_results.filter fun p => p.1 ≠ c.m_sequence}

/-- `submit` notes the share and sends its request. -/
theorem submit_eq (c : Client) (result : JobResult) (w : WriteResult) (now : UInt64) :
    c.submit result w now=
      (noteShare c result).send (submitRequest c.m_sequence c.m_rpcId result) w now := rfl

section Wiring

variable {lib : RapidJson} {c : Client} {w : WriteResult} {now : UInt64}

/-- State and socket of a client fit together. -/
structure Wired (c : Client) : Prop where
  /-- A closing client waits for its socket. -/
  closing : c.m_state=.closing → ∃ k∈c.m_socket, k.closing=true
  /-- An unconnected client has none. -/
  unconnected : c.m_state=.unconnected → c.m_socket=none
  /-- A connected client reads from its socket. -/
  connected : c.m_state=.connected → ∃ k∈c.m_socket, k.closing=false ∧ k.reading=true
  /-- A socket being closed is not read any more. -/
  unread : ∀ k∈c.m_socket, k.closing=true → k.reading=false

/-- Only the state and the socket matter. -/
theorem Wired.of_connection {d : Client} (h : Wired c) (hs : d.m_state=c.m_state)
    (hk : d.m_socket=c.m_socket) : Wired d := by
  refine ⟨?_,?_,?_,?_⟩
  · rw [hs,hk]
    exact h.closing
  · rw [hs,hk]
    exact h.unconnected
  · rw [hs,hk]
    exact h.connected
  · rw [hk]
    exact h.unread

/-- A client that looks a host up or is connecting may have any socket. -/
theorem Wired.of_waiting (hs : c.m_state=.hostLookup ∨ c.m_state=.connecting)
    (hk : ∀ k∈c.m_socket, k.closing=true → k.reading=false) : Wired c := by
  refine ⟨?_,?_,?_,hk⟩ <;> intro he <;> rw [he] at hs <;> rcases hs with h|h <;> cases h

/-- `close` finds nothing left to close, or starts to close the socket. -/
theorem Wired.close_cases (h : Wired c) :
    (c.close=c ∧ c.m_state ≠ .connected ∧ ∀ k∈c.m_socket, k.closing=true ∧ k.reading=false) ∨
    ∃ k : Socket, c.close={c with
      m_state := .closing,m_socket := some {k with reading := false,closing := true}} := by
  cases hk : c.m_socket with
  | none =>
    have hsame : c.close=c := by rw [Client.close,hk]
    refine Or.inl ⟨hsame,fun hs => ?_,fun k hmem => absurd hmem (Option.not_mem_none k)⟩
    obtain ⟨k,hmem,-⟩ := h.connected hs
    exact nomatch hk.symm.trans hmem
  | some k =>
    by_cases hclosing : c.m_state=.closing
    · refine Or.inl ⟨close_of_closing hclosing,fun hs => (nomatch hclosing.symm.trans hs),?_⟩
      intro k' hk'
      obtain ⟨k'',hk'',hclosed⟩ := h.closing hclosing
      have heq : k''=k' := Option.some.inj (hk''.symm.trans (hk.trans hk'))
      rw [←heq]
      exact ⟨hclosed,h.unread k'' hk'' hclosed⟩
    · have hopen : c.m_state ≠ .unconnected := fun hs => nomatch hk.symm.trans (h.unconnected hs)
      exact Or.inr ⟨k,close_of_socket hk ⟨hopen,hclosing⟩⟩

/-- After `close` the socket, if there is one, is being closed and not read. -/
theorem Wired.close_socket (h : Wired c) :
    ∀ k∈c.close.m_socket, k.closing=true ∧ k.reading=false := by
  rcases h.close_cases with ⟨hsame,-,hk⟩|⟨k,hclose⟩
  · rw [hsame]
    exact hk
  · rw [hclose]
    intro k' hk'
    rw [←Option.some.inj hk']
    exact ⟨rfl,rfl⟩

/-- After `close` the client is not connected. -/
theorem Wired.close_state (h : Wired c) : c.close.m_state ≠ .connected := by
  rcases h.close_cases with ⟨hsame,hs,-⟩|⟨k,hclose⟩
  · rw [hsame]
    exact hs
  · rw [hclose]
    exact fun hs => nomatch hs

theorem Wired.close (h : Wired c) : Wired c.close := by
  have hunread : ∀ k∈c.close.m_socket, k.closing=true → k.reading=false :=
    fun k hk _ => (h.close_socket k hk).2
  rcases h.close_cases with ⟨hsame,-,-⟩|⟨k,hclose⟩
  · rw [hsame]
    exact h
  · rw [hclose] at hunread ⊢
    exact ⟨fun _ => ⟨_,rfl,rfl⟩,fun hs => (nomatch hs),fun hs => (nomatch hs),hunread⟩

/-- Sending leaves the client as it is, closes it, or has the socket take a message. -/
theorem Wired.send (h : Wired c) (message : Bytes) : Wired (c.send message w now).2 := by
  unfold Client.send
  split
  · exact h
  · split
    · exact h.close
    · refine ⟨?_,?_,?_,?_⟩
      · intro hs
        obtain ⟨k,hk,hclosing⟩ := h.closing hs
        exact ⟨{k with written := k.written++[message]},Option.mem_map_of_mem _ hk,hclosing⟩
      · intro hs
        dsimp only
        rw [h.unconnected hs]
        rfl
      · intro hs
        obtain ⟨k,hk,hopen⟩ := h.connected hs
        exact ⟨{k with written := k.written++[message]},Option.mem_map_of_mem _ hk,hopen⟩
      · intro k hk hclosing
        obtain ⟨k',hk',rfl⟩ := Option.mem_map.mp hk
        exact h.unread k' hk' hclosing

theorem Wired.login (h : Wired c) : Wired (c.login lib w now) := by
  have hcleared : Wired {c with m_results := []} := h.of_connection rfl rfl
  have hfilled : Wired (Client.fillSendBuf {c with m_results := []} (c.loginText lib).length) :=
    h.of_connection rfl rfl
  by_cases hlong : bufSize-2<(c.loginText lib).length
  · rw [login_too_long hlong]
    exact hcleared
  · rw [login_filled hlong]
    exact hfilled.send _

theorem Wired.reconnect (hk : ∀ k∈c.m_socket, k.closing=true → k.reading=false) :
    Wired (c.reconnect now) := by
  unfold Client.reconnect
  dsimp only
  split <;> exact Wired.of_waiting (Or.inr rfl) hk

theorem Wired.resolve (h : Wired c) (r : ℤ) : Wired (c.resolve r) :=
  Wired.of_waiting (Or.inl rfl) h.unread

theorem Wired.disconnect (h : Wired c) : Wired c.disconnect :=
  Wired.close (h.of_connection rfl rfl)

theorem Wired.onResolved (h : Wired c) (status : ℤ) (families : List ℤ) (r : ℤ) :
    Wired (c.onResolved status families r now) := by
  rw [onResolved_eq]
  split
  · exact Wired.reconnect h.unread
  · refine Wired.of_waiting (Or.inr rfl) ?_
    intro k hk hclosing
    rw [←Option.some.inj hk] at hclosing
    cases hclosing

/-- `tick` closes the connection or starts a lookup, or does nothing. -/
theorem Wired.tick (h : Wired c) (r : ℤ) : Wired (c.tick now r) := by
  rw [Client.tick]
  split
  · exact h
  · dsimp only
    split
    · split
      · exact h.close.resolve r
      · exact h.close
    · split
      · exact h.resolve r
      · exact h

/-- A client whose connect has been called back. -/
def calledBack (c : Client) : Client :=
  {c with m_socket := c.m_socket.map fun k => {k with connecting := false}}

/-- A client whose connection stands, before its login. -/
def connected (c : Client) : Client :=
  {c with
    m_state := .connected
    m_socket := c.m_socket.map fun k => {k with connecting := false,reading := true}}

/-- The callback of a connect closes the socket or sends the login. -/
theorem onConnect_eq (c : Client) (status : ℤ) :
    c.onConnect lib status w now=
      if status<0 then (calledBack c).close else (connected c).login lib w now := by
  have hconnected : ({calledBack c with
      m_state := .connected
      m_socket := (calledBack c).m_socket.map fun k => {k with reading := true}} : Client)=
      connected c := by
    rw [connected,calledBack,Option.map_map]
    rfl
  rw [←hconnected]
  rfl

theorem Wired.calledBack (h : Wired c) : Wired (calledBack c) := by
  refine ⟨?_,?_,?_,?_⟩
  · intro hs
    obtain ⟨k,hk,hclosing⟩ := h.closing hs
    exact ⟨{k with connecting := false},Option.mem_map_of_mem _ hk,hclosing⟩
  · intro hs
    rw [ClientSessions.calledBack,h.unconnected hs]
    rfl
  · intro hs
    obtain ⟨k,hk,hopen⟩ := h.connected hs
    exact ⟨{k with connecting := false},Option.mem_map_of_mem _ hk,hopen⟩
  · intro k hk hclosing
    obtain ⟨k',hk',rfl⟩ := Option.mem_map.mp hk
    exact h.unread k' hk' hclosing

/-- The socket of a connect that succeeds is not being closed. -/
theorem wired_connected (hsome : ∃ k∈c.m_socket, k.connecting=true)
    (hopen : ∀ k∈c.m_socket, k.closing=false) : Wired (connected c) := by
  obtain ⟨k,hk,-⟩ := hsome
  refine ⟨fun hs => (nomatch hs),fun hs => (nomatch hs),fun _ => ?_,?_⟩
  · exact ⟨{k with connecting := false,reading := true},Option.mem_map_of_mem _ hk,hopen k hk,rfl⟩
  · intro k' hk' hclosing
    obtain ⟨k'',hk'',rfl⟩ := Option.mem_map.mp hk'
    exact Bool.noConfusion ((hopen k'' hk'').symm.trans hclosing)

/-- libuv cancels the connect of a socket that is being closed. -/
theorem Cancelled.open {status : ℤ} (h : Cancelled c (.connected status w now))
    (hstatus : ¬status<0) : ∀ k∈c.m_socket, k.closing=false := by
  intro k hk
  by_contra hclosing
  exact hstatus (h ⟨k,hk,(Bool.not_eq_false _).mp hclosing⟩)

/-- A connect opens the socket for reading, unless it is being closed. -/
theorem Wired.onConnect (h : Wired c) {status : ℤ} (hsome : ∃ k∈c.m_socket, k.connecting=true)
    (hcancelled : Cancelled c (.connected status w now)) :
    Wired (c.onConnect lib status w now) := by
  rw [onConnect_eq]
  split
  · exact h.calledBack.close
  · rename_i hstatus
    exact (wired_connected hsome (hcancelled.open hstatus)).login

/-- What a line leaves fits together as what it found did. -/
theorem Wired.handled {d : Client} (h : Wired c) (hd : Handled c d) : Wired d := by
  rcases hd.connection with ⟨hs,hk⟩|⟨hs,hk⟩
  · exact h.of_connection hs hk
  · exact h.close.of_connection hs hk

/-- Every permitted action keeps state and socket together. -/
theorem wired_step (recvLib : RecvLibrary) {s : Session} (h : Wired s.client) {a : Action}
    (ha : Permitted s a) : Wired (step lib recvLib s a).client := by
  cases a with
  | connect r => exact h.resolve r
  | disconnect => exact h.disconnect
  | line =>
    rw [step]
    split
    · exact h
    · exact h.handled (parse_handled lib _ _ _)
  | event e =>
    obtain ⟨-,-,hp,hcancelled⟩ := ha
    cases e with
    | resolved status families r now => exact h.onResolved status families r
    | connected status w now => exact h.onConnect hp hcancelled
    | read members delivery stale =>
      rw [step,stepEvent,beginRead]
      dsimp only
      split
      · exact Wired.close (h.of_connection rfl rfl)
      · exact h.of_connection rfl rfl
    | closed now =>
      refine Wired.reconnect ?_
      intro k hk
      cases hk
    | tick now r => exact h.tick r
    | submit result w now =>
      change Wired (s.client.submit result w now).2
      have hnoted : Wired (noteShare s.client result) := h.of_connection rfl rfl
      rw [submit_eq]
      exact hnoted.send _
    | keepAlive w now =>
      exact Wired.send (c:={s.client with m_keepAliveTimer := false}) (h.of_connection rfl rfl) _
    | othersSent n => exact h.of_connection rfl rfl

/-- Sending calls nobody and starts no lookup. -/
theorem send_frame (c : Client) (message : Bytes) (w : WriteResult) (now : UInt64) :
    (c.send message w now).2.calls=c.calls ∧ (c.send message w now).2.lookups=c.lookups := by
  unfold Client.send
  split
  · exact ⟨rfl,rfl⟩
  · split
    · exact ⟨close_calls c,close_lookups c⟩
    · exact ⟨rfl,rfl⟩

/-- Neither does a login. -/
theorem login_frame (c : Client) :
    (c.login lib w now).calls=c.calls ∧ (c.login lib w now).lookups=c.lookups := by
  by_cases hlong : bufSize-2<(c.loginText lib).length
  · rw [login_too_long hlong]
    exact ⟨rfl,rfl⟩
  · rw [login_filled hlong]
    exact send_frame _ _ w now

/-- Neither does the callback of a connect. -/
theorem onConnect_frame (c : Client) (status : ℤ) :
    (c.onConnect lib status w now).calls=c.calls ∧
    (c.onConnect lib status w now).lookups=c.lookups := by
  rw [onConnect_eq]
  split
  · exact ⟨close_calls _,close_lookups _⟩
  · exact login_frame _

/-- A client that goes on to its next attempt reports that it closed, and keeps its socket,
its shares, the numbering of its requests and its lookups. -/
theorem reconnect_frame (c : Client) (now : UInt64) :
    (c.reconnect now).m_socket=c.m_socket ∧ (c.reconnect now).m_results=c.m_results ∧
    (∃ failures, (c.reconnect now).calls=c.calls++[.onClose failures]) ∧
    (c.reconnect now).m_sequence=c.m_sequence ∧ (c.reconnect now).lookups=c.lookups := by
  unfold Client.reconnect
  dsimp only
  split
  · exact ⟨rfl,rfl,⟨_,rfl⟩,rfl,rfl⟩
  · exact ⟨rfl,rfl,⟨_,rfl⟩,rfl,rfl⟩

/-- Except by a line, the listener is called for a close only. -/
theorem step_calls (recvLib : RecvLibrary) (s : Session) {a : Action} (ha : a ≠ .line) :
    (step lib recvLib s a).client.calls=s.client.calls ∨
    ∃ failures, (step lib recvLib s a).client.calls=s.client.calls++[.onClose failures] := by
  cases a with
  | connect r => exact Or.inl rfl
  | disconnect => exact Or.inl (close_calls _)
  | line => exact absurd rfl ha
  | event e =>
    cases e with
    | resolved status families r now =>
      change (s.client.onResolved status families r now).calls=_ ∨
        ∃ failures, (s.client.onResolved status families r now).calls=_
      rw [onResolved_eq]
      split
      · exact Or.inr (reconnect_frame _ now).2.2.1
      · exact Or.inl rfl
    | connected status w now => exact Or.inl (onConnect_frame s.client status).1
    | read members delivery stale =>
      rw [step,stepEvent,beginRead]
      dsimp only
      split
      · exact Or.inl (close_calls _)
      · exact Or.inl rfl
    | closed now => exact Or.inr (reconnect_frame _ now).2.2.1
    | tick now r =>
      change (s.client.tick now r).calls=_ ∨ ∃ failures, (s.client.tick now r).calls=_
      rw [Client.tick]
      split
      · exact Or.inl rfl
      · dsimp only
        split
        · split
          · exact Or.inl (close_calls _)
          · exact Or.inl (close_calls _)
        · split <;> exact Or.inl rfl
    | submit result w now =>
      change (s.client.submit result w now).2.calls=_ ∨ ∃ failures,
        (s.client.submit result w now).2.calls=_
      rw [submit_eq]
      exact Or.inl (send_frame _ _ w now).1
    | keepAlive w now => exact Or.inl (send_frame _ _ w now).1
    | othersSent n => exact Or.inl rfl

/-- A session that actions with defined behaviour reach from a new client. -/
def Reached (lib : RapidJson) (recvLib : RecvLibrary) (s : Session) : Prop :=
  ∃ id agent url buf blob actions,
    AlongSteps (step lib recvLib) Defined ⟨Client.new id agent url buf blob,[]⟩ actions ∧
      runFrom (step lib recvLib) ⟨Client.new id agent url buf blob,[]⟩ actions=s

theorem wired_new (id : ℤ) (agent : Bytes) (url : Url) (buf blob : Cells UInt8) :
    Wired (Client.new id agent url buf blob) :=
  ⟨fun hs => (nomatch hs),fun _ => rfl,fun hs => (nomatch hs),fun _ hk => (nomatch hk)⟩

/-- State and socket of a client that has been reached fit together. -/
theorem Reached.wired {recvLib : RecvLibrary} {s : Session} (h : Reached lib recvLib s) :
    Wired s.client := by
  obtain ⟨id,agent,url,buf,blob,actions,hdefined,rfl⟩ := h
  have hall : AlongStates (step lib recvLib) (fun s => Wired s.client)
      ⟨Client.new id agent url buf blob,[]⟩ actions :=
    invariant_alongStates (fun _ _ hw ha => wired_step recvLib hw ha.1)
      (wired_new id agent url buf blob) hdefined
  exact hall.last

end Wiring

end XmrigCC.ClientSessions
