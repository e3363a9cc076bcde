import XmrigCC.PoolClient

/-!
# The life cycle of a pool client

What a client waits for is one of five phases: an answer to its lookup, to its
connect, the pool, the close of its socket, or the time of its next attempt.
The operations of the client move between them along a fixed diagram, as long
as the calls they rest on succeed; each way they can fail is singled out here.
-/

namespace XmrigCC.PoolClientPhases

open CellMemory DelimitedStream PoolMessages ReceiveBuffer PoolClient

/-- What a client waits for. -/
inductive Phase where
  /-- The callback of a lookup. -/
  | lookup
  /-- The callback of a connect. -/
  | connecting
  /-- The pool, which has been sent a login. -/
  | loggedIn
  /-- The callback of a close. -/
  | closing
  /-- The time of the next attempt. -/
  | retry
  deriving DecidableEq

/-- The life cycle. -/
inductive Phase.Next : Phase → Phase → Prop where
  /-- Nothing changes. -/
  | stay (p : Phase) : Next p p
  /-- An address was found. -/
  | found : Next .lookup .connecting
  /-- No address was found. -/
  | unknown : Next .lookup .retry
  /-- The connection stands and the login is sent. -/
  | opened : Next .connecting .loggedIn
  /-- The connection failed, or the login could not be written. -/
  | refused : Next .connecting .closing
  /-- The connection is given up. -/
  | dropped : Next .loggedIn .closing
  /-- The socket is closed. -/
  | released : Next .closing .retry
  /-- The pause is over. -/
  | again : Next .retry .lookup

/-- What a client in a phase looks like. -/
def InPhase (lib : RapidJson) (c : Client) : Phase → Prop
  | .lookup => c.m_state=.hostLookup ∧ c.lookups=1 ∧ c.m_socket=none ∧ c.m_expire=0
  | .connecting =>
    c.m_state=.connecting ∧ c.lookups=0 ∧ c.m_socket=some ⟨true,false,false,[]⟩ ∧ c.m_expire=0
  | .loggedIn =>
    c.m_state=.connected ∧ c.lookups=0 ∧
      ∃ written, c.m_socket=some ⟨false,true,false,written⟩ ∧ c.loginText lib++[newline]∈written
  | .closing =>
    c.m_state=.closing ∧ c.lookups=0 ∧ ∃ written, c.m_socket=some ⟨false,false,true,written⟩
  | .retry => c.m_state=.connecting ∧ c.lookups=0 ∧ c.m_socket=none ∧ c.m_expire ≠ 0

/-- A client in a phase whose members are intact. -/
structure Runs (lib : RapidJson) (c : Client) (p : Phase) : Prop where
  /-- No buffer was overrun. -/
  intact : c.corrupted=false
  /-- `disconnect` was not called. -/
  failures : 0 ≤ c.m_failures
  /-- What the client waits for. -/
  phase : InPhase lib c p

/-- Something will happen to the client: a callback is due, the pool has a login to
answer, or `tick` will connect again. -/
def Alive (lib : RapidJson) (c : Client) : Prop :=
  c.corrupted=false ∧
    (0<c.lookups ∨
      (∃ s∈c.m_socket, s.connecting=true) ∨
      (∃ s∈c.m_socket, s.reading=true ∧ s.closing=false ∧ s.connecting=false ∧
        c.loginText lib++[newline]∈s.written) ∨
      (∃ s∈c.m_socket, s.closing=true) ∨
      (c.m_state=.connecting ∧ c.m_expire ≠ 0))

/-- A client in a phase is alive. -/
theorem Runs.alive {lib : RapidJson} {c : Client} {p : Phase} (h : Runs lib c p) :
    Alive lib c := by
  refine ⟨h.intact,?_⟩
  have hp := h.phase
  cases p with
  | lookup => exact Or.inl (by rw [hp.2.1]; decide)
  | connecting => exact Or.inr (Or.inl ⟨_,hp.2.2.1,rfl⟩)
  | loggedIn =>
    obtain ⟨-,-,written,hs,hw⟩ := hp
    exact Or.inr (Or.inr (Or.inl ⟨_,hs,rfl,rfl,rfl,hw⟩))
  | closing =>
    obtain ⟨-,-,written,hs⟩ := hp
    exact Or.inr (Or.inr (Or.inr (Or.inl ⟨_,hs,rfl⟩)))
  | retry => exact Or.inr (Or.inr (Or.inr (Or.inr ⟨hp.1,hp.2.2.2⟩)))

/-- Only a client that waits for its lookup has one. -/
theorem Runs.of_lookup {lib : RapidJson} {c : Client} {p : Phase} (h : Runs lib c p)
    (hl : 0<c.lookups) : p=.lookup := by
  have hphase := h.phase
  cases p with
  | lookup => rfl
  | connecting | loggedIn | closing | retry =>
    have hz := hphase.2.1
    omega

/-- Each flag of a socket belongs to one phase. -/
theorem Runs.of_socket {lib : RapidJson} {c : Client} {p : Phase} (h : Runs lib c p)
    {s : Socket} (hs : s∈c.m_socket) :
    (s.connecting=true → p=.connecting) ∧ (s.reading=true → p=.loggedIn) ∧
      (s.closing=true → p=.closing) := by
  have hphase := h.phase
  rw [Option.mem_def] at hs
  cases p with
  | lookup | retry =>
    rw [hphase.2.2.1] at hs
    cases hs
  | connecting =>
    rw [hphase.2.2.1] at hs
    cases hs
    exact ⟨fun _ => rfl,fun hf => (nomatch hf),fun hf => (nomatch hf)⟩
  | loggedIn =>
    obtain ⟨-,-,written,hk,-⟩ := hphase
    rw [hk] at hs
    cases hs
    exact ⟨fun hf => (nomatch hf),fun _ => rfl,fun hf => (nomatch hf)⟩
  | closing =>
    obtain ⟨-,-,written,hk⟩ := hphase
    rw [hk] at hs
    cases hs
    exact ⟨fun hf => (nomatch hf),fun hf => (nomatch hf),fun _ => rfl⟩

/-- Without a lookup, a socket or an attempt to come a client is not alive. -/
theorem not_alive_of_idle {lib : RapidJson} {c : Client} (hl : c.lookups=0)
    (hs : c.m_socket=none) (he : c.m_state=.connecting → c.m_expire=0) : ¬Alive lib c := by
  rintro ⟨-,h|⟨s,h,-⟩|⟨s,h,-⟩|⟨s,h,-⟩|⟨h,hn⟩⟩
  · omega
  · rw [hs] at h; cases h
  · rw [hs] at h; cases h
  · rw [hs] at h; cases h
  · exact hn (he h)

/-- A socket on which nothing is due, and no login sent, does not keep a client alive. -/
theorem not_alive_of_unused {lib : RapidJson} {c : Client} {s : Socket} (hl : c.lookups=0)
    (hs : c.m_socket=some s) (hc : s.connecting=false) (hx : s.closing=false)
    (hw : s.reading=true → c.loginText lib++[newline]∉s.written)
    (he : c.m_state=.connecting → c.m_expire=0) : ¬Alive lib c := by
  rintro ⟨-,h|⟨t,h,ht⟩|⟨t,h,hr,-,-,ht⟩|⟨t,h,ht⟩|⟨h,hn⟩⟩
  · omega
  · rw [hs] at h
    cases h
    rw [hc] at ht
    cases ht
  · rw [hs] at h
    cases h
    exact hw hr ht
  · rw [hs] at h
    cases h
    rw [hx] at ht
    cases ht
  · exact hn (he h)

section Connecting

variable {lib : RapidJson} {c : Client}

/-- A lookup that starts leaves the client waiting for it. -/
theorem resolve_runs (hi : c.corrupted=false) (hf : -1 ≤ c.m_failures) (hl : c.lookups=0)
    (hs : c.m_socket=none) : Runs lib (c.resolve 0) .lookup where
  intact := hi
  failures := by
    dsimp only [Client.resolve]
    split <;> omega
  phase := ⟨rfl,by simp only [Client.resolve,if_true,hl],hs,rfl⟩

/-- A lookup that does not start leaves the client waiting for nothing. -/
theorem resolve_dead {r : ℤ} (hr : r ≠ 0) (hl : c.lookups=0) (hs : c.m_socket=none) :
    ¬Alive lib (c.resolve r) :=
  not_alive_of_idle (by simp only [Client.resolve,if_neg hr,hl]) hs fun h => nomatch h

/-- The time of the next attempt is set unless the clock reaches 0 with the pause. -/
theorem reconnect_runs {now : UInt64} (hi : c.corrupted=false) (hf : 0 ≤ c.m_failures)
    (hl : c.lookups=0) (hs : c.m_socket=none) (hn : now+UInt64.ofInt c.m_retryPause ≠ 0) :
    Runs lib (c.reconnect now) .retry := by
  have hne : ¬c.m_failures=-1 := by omega
  unfold Client.reconnect
  dsimp only
  rw [if_neg hne]
  exact ⟨hi,by dsimp only; omega,rfl,hl,hs,hn⟩

/-- An attempt set for time 0 is never made. -/
theorem reconnect_dead {now : UInt64} (hf : 0 ≤ c.m_failures) (hl : c.lookups=0)
    (hs : c.m_socket=none) (hn : now+UInt64.ofInt c.m_retryPause=0) :
    ¬Alive lib (c.reconnect now) := by
  have hne : ¬c.m_failures=-1 := by omega
  unfold Client.reconnect
  dsimp only
  rw [if_neg hne]
  exact not_alive_of_idle hl hs fun _ => hn

/-- The lookup gave no address that the client can use. -/
def Unresolved (status : ℤ) (families : List ℤ) : Prop := status<0 ∨ Client.AF_INET∉families

instance (status : ℤ) (families : List ℤ) : Decidable (Unresolved status families) :=
  inferInstanceAs (Decidable (_ ∨ _))

/-- The callback of a lookup starts a pause or a connect. -/
theorem onResolved_eq (c : Client) (status : ℤ) (families : List ℤ) (r : ℤ) (now : UInt64) :
    c.onResolved status families r now=
      if Unresolved status families then Client.reconnect {c with lookups := c.lookups-1} now
      else Client.connectSockaddr {c with lookups := c.lookups-1} r := by
  have hfilter : families.filter (· = Client.AF_INET)=[] ↔ Client.AF_INET∉families := by
    rw [List.filter_eq_nil_iff]
    constructor
    · intro h hm
      exact h _ hm (decide_eq_true rfl)
    · intro h a ha he
      exact h (of_decide_eq_true he ▸ ha)
  unfold Client.onResolved Unresolved
  simp only [hfilter]
  by_cases hs : status<0
  · simp only [hs,if_true,true_or]
  · simp only [hs,if_false,false_or]

/-- The answer to a lookup leads to a connect or to a pause. -/
theorem onResolved_next {status : ℤ} {families : List ℤ} {r : ℤ} {now : UInt64}
    (h : Runs lib c .lookup)
    (hn : Unresolved status families → now+UInt64.ofInt c.m_retryPause ≠ 0)
    (hr : ¬Unresolved status families → r=0) :
    ∃ q, Phase.Next .lookup q ∧ Runs lib (c.onResolved status families r now) q := by
  obtain ⟨hst,hl,hs,he⟩ := h.phase
  have hl' : c.lookups-1=0 := by omega
  rw [onResolved_eq]
  by_cases hu : Unresolved status families
  · rw [if_pos hu]
    exact ⟨.retry,.unknown,reconnect_runs h.intact h.failures hl' hs (hn hu)⟩
  · rw [if_neg hu,hr hu]
    exact ⟨.connecting,.found,h.intact,h.failures,rfl,hl',rfl,he⟩

/-- The answer to a lookup leads nowhere when its pause or its connect is not started. -/
theorem onResolved_dead {status : ℤ} {families : List ℤ} {r : ℤ} {now : UInt64}
    (h : Runs lib c .lookup)
    (hbad : if Unresolved status families then now+UInt64.ofInt c.m_retryPause=0 else r ≠ 0) :
    ¬Alive lib (c.onResolved status families r now) := by
  obtain ⟨hst,hl,hs,he⟩ := h.phase
  have hl' : c.lookups-1=0 := by omega
  rw [onResolved_eq]
  by_cases hu : Unresolved status families
  · rw [if_pos hu] at hbad ⊢
    exact reconnect_dead h.failures hl' hs hbad
  · rw [if_neg hu] at hbad ⊢
    exact not_alive_of_unused hl' rfl (decide_eq_false hbad) rfl (fun hr => nomatch hr)
      fun _ => he

end Connecting

section Writing

variable {lib : RapidJson} {c : Client} {message : List UInt8} {w : WriteResult} {now : UInt64}

/-- A connection that is open is closed. -/
theorem close_of_socket {s : Socket} (hs : c.m_socket=some s)
    (hst : c.m_state ≠ .unconnected ∧ c.m_state ≠ .closing) :
    c.close={c with
      m_state := .closing,m_socket := some {s with reading := false,closing := true}} := by
  have hne : ¬(c.m_state=.unconnected ∨ c.m_state=.closing) := not_or.mpr hst
  unfold Client.close
  rw [hs]
  exact if_neg hne

/-- A connection that is being closed is left alone. -/
theorem close_of_closing (hst : c.m_state=.closing) : c.close=c := by
  unfold Client.close
  cases c.m_socket with
  | none => rfl
  | some s => exact if_pos (Or.inr hst)

/-- Without a writable connection nothing is sent. -/
theorem send_refused (h : c.m_state ≠ .connected ∨ w.writable=false) :
    c.send message w now=(-1,c) := if_pos h

/-- A failed write closes the connection. -/
theorem send_failed (hs : c.m_state=.connected) (hw : w.writable=true) (ht : w.tryWrite<0) :
    c.send message w now=(-1,c.close) := by
  have hopen : ¬(c.m_state ≠ .connected ∨ w.writable=false) := by
    rw [hs,hw]
    decide
  exact (if_neg hopen).trans (if_pos ht)

/-- Any other write hands the message to the socket. -/
theorem send_taken (hs : c.m_state=.connected) (hw : w.writable=true) (ht : ¬w.tryWrite<0) :
    c.send message w now=
      (c.m_sequence,{c with
        m_socket := c.m_socket.map fun s => {s with written := s.written++[message]}
        m_expire := now+kResponseTimeout
        m_sequence := c.m_sequence+1}) := by
  have hopen : ¬(c.m_state ≠ .connected ∨ w.writable=false) := by
    rw [hs,hw]
    decide
  exact (if_neg hopen).trans (if_neg ht)

/-- Closing a logged in client leaves it waiting for its socket. -/
theorem close_runs (h : Runs lib c .loggedIn) : Runs lib c.close .closing := by
  obtain ⟨hst,hl,written,hs,-⟩ := h.phase
  rw [close_of_socket hs (by rw [hst]; decide)]
  exact ⟨h.intact,h.failures,rfl,hl,written,rfl⟩

/-- Sending keeps a client in its phase, or gives the connection up. -/
theorem send_next {p : Phase} (h : Runs lib c p) :
    ∃ q, p.Next q ∧ Runs lib (c.send message w now).2 q := by
  by_cases hopen : c.m_state ≠ .connected ∨ w.writable=false
  · rw [send_refused hopen]
    exact ⟨p,.stay p,h⟩
  · rw [not_or,not_not,Bool.not_eq_false] at hopen
    have hp : p=.loggedIn := by
      have hphase := h.phase
      cases p with
      | loggedIn => rfl
      | lookup | connecting | closing | retry =>
        have hst := hphase.1
        rw [hopen.1] at hst
        cases hst
    subst hp
    by_cases ht : w.tryWrite<0
    · rw [send_failed hopen.1 hopen.2 ht]
      exact ⟨.closing,.dropped,close_runs h⟩
    · rw [send_taken hopen.1 hopen.2 ht]
      obtain ⟨hst,hl,written,hs,hw⟩ := h.phase
      refine ⟨.loggedIn,.stay _,h.intact,h.failures,hst,hl,written++[message],?_,?_⟩
      · dsimp only
        rw [hs]
        rfl
      · exact List.mem_append_left _ hw

end Writing

section LoggingIn

variable {lib : RapidJson} {c : Client} {w : WriteResult} {now : UInt64}

/-- A client that is about to log in: connected, reading, and nothing written. -/
structure Opened (c : Client) : Prop where
  /-- No buffer was overrun. -/
  intact : c.corrupted=false
  /-- `disconnect` was not called. -/
  failures : 0 ≤ c.m_failures
  /-- The connection stands. -/
  state : c.m_state=.connected
  /-- No lookup is due. -/
  lookups : c.lookups=0
  /-- The new socket. -/
  socket : c.m_socket=some ⟨false,true,false,[]⟩

/-- A login that can be written is sent, or the failure of its write closes the connection. -/
theorem Opened.send_next (h : Opened c) (hw : w.writable=true) :
    Runs lib (c.send (c.loginText lib++[newline]) w now).2 .loggedIn ∨
      Runs lib (c.send (c.loginText lib++[newline]) w now).2 .closing := by
  by_cases ht : w.tryWrite<0
  · rw [send_failed h.state hw ht,close_of_socket h.socket (by rw [h.state]; decide)]
    exact Or.inr ⟨h.intact,h.failures,rfl,h.lookups,[],rfl⟩
  · rw [send_taken h.state hw ht]
    refine Or.inl ⟨h.intact,h.failures,h.state,h.lookups,[c.loginText lib++[newline]],?_,?_⟩
    · dsimp only
      rw [h.socket]
      rfl
    · exact List.mem_singleton_self _

/-- A client that has not sent its login, and has no way left to send it, is silent. -/
theorem Opened.dead (h : Opened c) : ¬Alive lib c :=
  not_alive_of_unused h.lookups h.socket rfl rfl (fun _ hm => (nomatch hm)) fun he => by
    rw [h.state] at he
    cases he

/-- Sending overruns nothing and repairs nothing. -/
theorem send_corrupted (c : Client) (message : List UInt8) (w : WriteResult) (now : UInt64) :
    (c.send message w now).2.corrupted=c.corrupted := by
  unfold Client.send
  split
  · rfl
  · split
    · unfold Client.close
      split
      · rfl
      · split <;> rfl
    · rfl

/-- A login text that is too long for the receive buffer is not sent. -/
theorem login_too_long (h : bufSize-2<(c.loginText lib).length) :
    c.login lib w now={c with m_results := []} := if_pos h

/-- Any other login text is written to the send buffer and sent. -/
theorem login_filled (h : ¬bufSize-2<(c.loginText lib).length) :
    c.login lib w now=
      (Client.send (Client.fillSendBuf {c with m_results := []} (c.loginText lib).length)
        (c.loginText lib++[newline]) w now).2 := if_neg h

/-- The login is sent, or its failure closes the connection, when the text fits its
buffer and the connection is writable. -/
theorem login_next (h : Opened c) (hsize : (c.loginText lib).length+2 ≤ sendBufSize)
    (hw : w.writable=true) :
    Runs lib (c.login lib w now) .loggedIn ∨ Runs lib (c.login lib w now) .closing := by
  have hlong : ¬bufSize-2<(c.loginText lib).length := by
    unfold bufSize
    unfold sendBufSize at hsize
    omega
  have hfit : (c.corrupted || decide (sendBufSize<(c.loginText lib).length+2))=false := by
    rw [h.intact,decide_eq_false (by omega),Bool.or_false]
  have hopened : Opened (Client.fillSendBuf {c with m_results := []} (c.loginText lib).length) :=
    ⟨hfit,h.failures,h.state,h.lookups,h.socket⟩
  rw [login_filled hlong]
  exact hopened.send_next hw

/-- Otherwise the client falls silent, or its members are overwritten. -/
theorem login_dead (h : Opened c)
    (hbad : ¬((c.loginText lib).length+2 ≤ sendBufSize ∧ w.writable=true)) :
    ¬Alive lib (c.login lib w now) := by
  by_cases hlong : bufSize-2<(c.loginText lib).length
  · rw [login_too_long hlong]
    exact Opened.dead ⟨h.intact,h.failures,h.state,h.lookups,h.socket⟩
  · rw [login_filled hlong]
    by_cases hsize : (c.loginText lib).length+2 ≤ sendBufSize
    · have hw : w.writable=false := Bool.eq_false_iff.mpr fun hw => hbad ⟨hsize,hw⟩
      rw [send_refused (Or.inr hw)]
      exact not_alive_of_unused h.lookups h.socket rfl rfl (fun _ hm => (nomatch hm))
        fun he => nomatch h.state.symm.trans he
    · rintro ⟨hintact,-⟩
      rw [send_corrupted] at hintact
      have hover := (Bool.or_eq_false_iff.mp hintact).2
      exact of_decide_eq_false hover (by omega)

/-- A failed connect closes its socket. -/
theorem onConnect_failed {status : ℤ} (h : Runs lib c .connecting) (hneg : status<0) :
    Runs lib (c.onConnect lib status w now) .closing := by
  obtain ⟨hst,hl,hs,-⟩ := h.phase
  unfold Client.onConnect
  simp only [hs,if_pos hneg,Option.map_some]
  rw [close_of_socket rfl (by dsimp only; rw [hst]; decide)]
  exact ⟨h.intact,h.failures,rfl,hl,[],rfl⟩

/-- A connect that succeeds is followed by the login. -/
theorem onConnect_opened {status : ℤ} (h : Runs lib c .connecting) (hneg : ¬status<0) :
    ∃ d, Opened d ∧ d.loginText lib=c.loginText lib ∧
      c.onConnect lib status w now=d.login lib w now := by
  obtain ⟨hst,hl,hs,-⟩ := h.phase
  refine ⟨{c with m_state := .connected,m_socket := some ⟨false,true,false,[]⟩},
    ⟨h.intact,h.failures,rfl,hl,rfl⟩,rfl,?_⟩
  unfold Client.onConnect
  simp only [hs,if_neg hneg,Option.map_some]

/-- The callback of a connect leads to a login, or to a close. -/
theorem onConnect_next {status : ℤ} (h : Runs lib c .connecting)
    (hg : status<0 ∨ (c.loginText lib).length+2 ≤ sendBufSize ∧ w.writable=true) :
    ∃ q, Phase.Next .connecting q ∧ Runs lib (c.onConnect lib status w now) q := by
  by_cases hneg : status<0
  · exact ⟨.closing,.refused,onConnect_failed h hneg⟩
  · obtain ⟨d,hd,htext,he⟩ := onConnect_opened h hneg
    have hok := hg.resolve_left hneg
    rw [he]
    rcases login_next hd (htext.symm ▸ hok.1) hok.2 with hin|hout
    · exact ⟨.loggedIn,.opened,hin⟩
    · exact ⟨.closing,.refused,hout⟩

/-- The callback of a connect leads nowhere when the login is not sent. -/
theorem onConnect_dead {status : ℤ} (h : Runs lib c .connecting)
    (hbad : ¬(status<0 ∨ (c.loginText lib).length+2 ≤ sendBufSize ∧ w.writable=true)) :
    ¬Alive lib (c.onConnect lib status w now) := by
  rw [not_or] at hbad
  obtain ⟨d,hd,htext,he⟩ := onConnect_opened h hbad.1
  rw [he]
  apply login_dead hd
  rw [htext]
  exact hbad.2

end LoggingIn

section Handling

/-- What handling a line can do to a client: its connection is left alone or closed. -/
structure Handled (c d : Client) : Prop where
  /-- No lookup starts or ends. -/
  lookups : d.lookups=c.lookups
  /-- The account stays. -/
  account : d.m_url=c.m_url ∧ d.m_agent=c.m_agent
  /-- The buffers are not measured again. -/
  corrupted : d.corrupted=c.corrupted
  /-- Failures are forgotten at a login. -/
  failures : d.m_failures=c.m_failures ∨ d.m_failures=0
  /-- State and socket. -/
  connection : (d.m_state=c.m_state ∧ d.m_socket=c.m_socket) ∨
    (d.m_state=c.close.m_state ∧ d.m_socket=c.close.m_socket)

/-- `close` depends on the connection and changes only it. -/
theorem close_connection {c d : Client} (hs : d.m_state=c.m_state) (hk : d.m_socket=c.m_socket) :
    d.close.m_state=c.close.m_state ∧ d.close.m_socket=c.close.m_socket := by
  unfold Client.close
  rw [hk,hs]
  cases c.m_socket with
  | none => exact ⟨hs,hk⟩
  | some s =>
    dsimp only
    split
    · exact ⟨hs,hk⟩
    · exact ⟨rfl,rfl⟩

/-- Closing twice is closing once. -/
theorem close_close (c : Client) : c.close.close=c.close := by
  by_cases hs : c.m_socket=none
  · have he : c.close=c := by
      unfold Client.close
      rw [hs]
    rw [he,he]
  · by_cases hst : c.m_state=.unconnected
    · have he : c.close=c := by
        unfold Client.close
        split
        · rfl
        · exact if_pos (Or.inl hst)
      rw [he,he]
    · apply close_of_closing
      obtain ⟨s,hsome⟩ := Option.ne_none_iff_exists'.mp hs
      by_cases hcl : c.m_state=.closing
      · rw [close_of_closing hcl,hcl]
      · rw [close_of_socket hsome ⟨hst,hcl⟩]

/-- Closing is one way to handle a line. -/
theorem handled_close (c : Client) : Handled c c.close := by
  have hframe : c.close.lookups=c.lookups ∧ (c.close.m_url=c.m_url ∧ c.close.m_agent=c.m_agent) ∧
      c.close.corrupted=c.corrupted ∧ c.close.m_failures=c.m_failures := by
    unfold Client.close
    split
    · exact ⟨rfl,⟨rfl,rfl⟩,rfl,rfl⟩
    · split
      · exact ⟨rfl,⟨rfl,rfl⟩,rfl,rfl⟩
      · exact ⟨rfl,⟨rfl,rfl⟩,rfl,rfl⟩
  exact ⟨hframe.1,hframe.2.1,hframe.2.2.1,Or.inl hframe.2.2.2,Or.inr ⟨rfl,rfl⟩⟩

theorem Handled.refl (c : Client) : Handled c c :=
  ⟨rfl,⟨rfl,rfl⟩,rfl,Or.inl rfl,Or.inl ⟨rfl,rfl⟩⟩

theorem Handled.trans {c d e : Client} (h : Handled c d) (k : Handled d e) : Handled c e where
  lookups := k.lookups.trans h.lookups
  account := ⟨k.account.1.trans h.account.1,k.account.2.trans h.account.2⟩
  corrupted := k.corrupted.trans h.corrupted
  failures := by
    rcases k.failures with hk|hk
    · rw [hk]
      exact h.failures
    · exact Or.inr hk
  connection := by
    rcases h.connection with ⟨hs,hk⟩|⟨hs,hk⟩
    · obtain ⟨hs',hk'⟩ := close_connection hs hk
      rw [←hs,←hk,←hs',←hk']
      exact k.connection
    · obtain ⟨hs',hk'⟩ := close_connection hs hk
      rw [close_close] at hs' hk'
      rcases k.connection with ⟨hs2,hk2⟩|⟨hs2,hk2⟩
      · exact Or.inr ⟨hs2.trans hs,hk2.trans hk⟩
      · exact Or.inr ⟨hs2.trans hs',hk2.trans hk'⟩

/-- A job is stored, refused, or closes the connection. -/
theorem parseJob_handled (lib : RapidJson) (stale : Stale) (c : Client) (params : Json) :
    Handled c (c.parseJob lib stale params).2 := by
  unfold Client.parseJob
  dsimp only
  split
  · exact Handled.refl c
  · split
    · exact Handled.refl c
    · split
      · exact Handled.refl c
      · split
        · exact Handled.refl c
        · split
          · exact handled_close c
          · exact ⟨rfl,⟨rfl,rfl⟩,rfl,Or.inl rfl,Or.inl ⟨rfl,rfl⟩⟩

/-- The answer to a login is a job and an identifier of the client. -/
theorem parseLogin_handled (lib : RapidJson) (stale : Stale) (c : Client) (result : Json) :
    Handled c (c.parseLogin lib stale result).2 := by
  unfold Client.parseLogin
  split
  · exact Handled.refl c
  · split
    · exact Handled.refl c
    · refine Handled.trans ?_ (parseJob_handled lib stale _ _)
      exact ⟨rfl,⟨rfl,rfl⟩,rfl,Or.inl rfl,Or.inl ⟨rfl,rfl⟩⟩

/-- A response to a share is reported, if the share is known. -/
theorem answered_handled (c : Client) (id : ℤ) (error : Option (List UInt8)) :
    Handled c (match c.m_results.lookup id with
      | some noted => c.answered id noted error
      | none => c) := by
  split
  · exact ⟨rfl,⟨rfl,rfl⟩,rfl,Or.inl rfl,Or.inl ⟨rfl,rfl⟩⟩
  · exact Handled.refl c

/-- A response answers a request, or closes the connection. -/
theorem parseResponse_handled (lib : RapidJson) (stale : Stale) (c : Client) (id : ℤ)
    (result error : Json) :
    Handled c (c.parseResponse lib stale id result error) := by
  unfold Client.parseResponse
  dsimp only
  split
  · have hc := answered_handled c id (lib.getString (error.get (ByteText.text "message")))
    split
    · exact hc.trans (handled_close _)
    · exact hc
  · split
    · exact Handled.refl c
    · split
      · have hp := parseLogin_handled lib stale c result
        split
        · exact hp.trans (handled_close _)
        · exact hp.trans ⟨rfl,⟨rfl,rfl⟩,rfl,Or.inr rfl,Or.inl ⟨rfl,rfl⟩⟩
      · exact answered_handled c id none

/-- A notification brings a job, or closes the connection. -/
theorem parseNotification_handled (lib : RapidJson) (stale : Stale) (c : Client)
    (method : Option (List UInt8)) (params error : Json) :
    Handled c (c.parseNotification lib stale method params error) := by
  unfold Client.parseNotification
  dsimp only
  split
  · exact Handled.refl c
  · split
    · have hp := parseJob_handled lib stale c params
      split
      · exact hp.trans ⟨rfl,⟨rfl,rfl⟩,rfl,Or.inl rfl,Or.inl ⟨rfl,rfl⟩⟩
      · exact hp
    · exact Handled.refl c

/-- A line is a response or a notification. -/
theorem parse_handled (lib : RapidJson) (stale : Stale) (c : Client) (line : List UInt8) :
    Handled c (c.parse lib stale line) := by
  have hstart : Handled c c.startTimeout := ⟨rfl,⟨rfl,rfl⟩,rfl,Or.inl rfl,Or.inl ⟨rfl,rfl⟩⟩
  unfold Client.parse
  dsimp only
  split
  · exact hstart
  · split
    · exact hstart
    · split
      · exact hstart.trans (parseResponse_handled lib stale _ _ _ _)
      · exact hstart.trans (parseNotification_handled lib stale _ _ _ _)

/-- The lines of a read are handled one after the other. -/
theorem parseLines_handled (lib : RapidJson) (c : Client) (lines : List (List UInt8×Stale)) :
    Handled c (c.parseLines lib lines) := by
  induction lines generalizing c with
  | nil => exact Handled.refl c
  | cons l rest ih => exact (parse_handled lib l.2 c l.1).trans (ih _)

/-- A client that was logged in is still, or waits for its socket to close. -/
theorem Handled.next {lib : RapidJson} {c d : Client} (h : Handled c d)
    (hc : Runs lib c .loggedIn) :
    ∃ q, Phase.Next .loggedIn q ∧ Runs lib d q := by
  have hintact : d.corrupted=false := h.corrupted.trans hc.intact
  have hfailures : 0 ≤ d.m_failures := by
    rcases h.failures with hf|hf
    · rw [hf]
      exact hc.failures
    · rw [hf]
  rcases h.connection with ⟨hs,hk⟩|⟨hs,hk⟩
  · obtain ⟨hst,hl,written,hsock,hw⟩ := hc.phase
    refine ⟨.loggedIn,.stay _,hintact,hfailures,hs.trans hst,h.lookups.trans hl,written,
      hk.trans hsock,?_⟩
    unfold Client.loginText at hw ⊢
    rw [h.account.1,h.account.2]
    exact hw
  · obtain ⟨hst,hl,written,hsock⟩ := (close_runs hc).phase
    exact ⟨.closing,.dropped,hintact,hfailures,hs.trans hst,
      h.lookups.trans hc.phase.2.1,written,hk.trans hsock⟩

end Handling

end XmrigCC.PoolClientPhases
