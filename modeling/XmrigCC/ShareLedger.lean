import XmrigCC.ClientSessions

/-!
# The requests of a connection

Shares waiting for an answer are kept in `m_results` under the number of their
request. A ledger follows the requests that the present connection has taken;
the entries of `m_results` are its submits as long as every share noted is also
sent.
-/

namespace XmrigCC.ShareLedger

open ByteText CellMemory TransitionRuns MiningJob PoolMessages ReceiveBuffer ClientLines
open ClientSessions
open PoolClientPhases (parse_handled send_refused send_failed send_taken login_too_long
  login_filled Unresolved onResolved_eq)
open PoolClient hiding step Permitted
open MultiWorker (JobResult)

/-- A request of a client. -/
inductive Request where
  /-- The login, whose number is always 1. -/
  | login (message : Bytes)
  /-- A share. -/
  | submit (sequence : ℤ) (rpcId : Bytes) (result : JobResult)
  /-- A ping. -/
  | keepAlive (sequence : ℤ) (rpcId : Bytes)

/-- The number of a request. -/
def Request.id : Request → ℤ
  | .login _ => 1
  | .submit sequence .. => sequence
  | .keepAlive sequence _ => sequence

/-- The text of a request. -/
def Request.message : Request → Bytes
  | .login message => message
  | .submit sequence rpcId result => submitRequest sequence rpcId result
  | .keepAlive sequence rpcId => pingRequest sequence rpcId

/-- The request that an action makes. -/
def requestOf (lib : RapidJson) (c : Client) : Action → Option Request
  | .event (.connected ..) => some (.login (c.loginText lib++[newline]))
  | .event (.submit result ..) => some (.submit c.m_sequence c.m_rpcId result)
  | .event (.keepAlive ..) => some (.keepAlive c.m_sequence c.m_rpcId)
  | _ => none

/-- A session with the requests that its socket has taken. -/
structure Ledger where
  /-- The client and the lines of its read. -/
  session : Session
  /-- The requests, in order. -/
  requests : List Request

/-- The requests after an action: none without a socket, and the one of the action besides
if the socket has taken it. -/
def requestsAfter (lib : RapidJson) (l : Ledger) (a : Action) (d : Client) : List Request :=
  if d.m_socket.isNone then []
  else if newlyWritten l.session.client d=[] then l.requests
  else l.requests++(requestOf lib l.session.client a).toList

/-- One action. -/
def step (lib : RapidJson) (recvLib : RecvLibrary) (l : Ledger) (a : Action) : Ledger :=
  ⟨ClientSessions.step lib recvLib l.session a,
    requestsAfter lib l a (ClientSessions.step lib recvLib l.session a).client⟩

/-- An action with defined behaviour. -/
def Defined (l : Ledger) (a : Action) : Prop := ClientSessions.Defined l.session a

/-- Numbers of the shares reported by these calls. -/
def reportedIds (calls : List Call) : List ℤ :=
  calls.filterMap fun
    | .onResultAccepted noted _ => some noted.seq
    | _ => none

/-- What a client notes of a share under a number. -/
def shareOf (sequence : ℤ) (result : JobResult) : SubmitResult :=
  ⟨sequence,result.diff,actualDiff result⟩

/-- A share is submitted only when it can be sent: the client is connected, the socket is
writable, and the write does not fail. -/
def Sends (l : Ledger) : Action → Prop
  | .event (.submit _ w _) =>
    l.session.client.m_state=.connected ∧ w.writable=true ∧ ¬w.tryWrite<0
  | _ => True

section Invariant

/-- Lines of the connection can still be parsed. -/
def Listening (s : Session) : Prop := s.rest ≠ [] ∨ ∃ k∈s.client.m_socket, k.reading=true

/-- The shares noted and the shares reported agree with the requests of the connection. -/
structure Consistent (l : Ledger) : Prop where
  /-- State and socket fit together. -/
  wired : Wired l.session.client
  /-- Lines come from a socket. -/
  source : Listening l.session → l.session.client.m_socket ≠ none
  /-- Numbers start at 1. -/
  first : 1 ≤ l.session.client.m_sequence
  /-- Requests have got earlier numbers. -/
  numbered : ∀ r∈l.requests, r.id<l.session.client.m_sequence
  /-- Requests of the connection have different numbers. -/
  distinct : (l.requests.map Request.id).Nodup
  /-- Nothing is sent before the connection stands. -/
  connecting : ∀ k∈l.session.client.m_socket, k.connecting=true → l.requests=[] ∧ k.reading=false
  /-- The socket has taken the requests. -/
  written : ∀ k∈l.session.client.m_socket, k.written=l.requests.map Request.message
  /-- Without a socket there are none. -/
  detached : l.session.client.m_socket=none → l.requests=[]
  /-- Shares noted have earlier numbers, and have not been reported. -/
  noted : ∀ p∈l.session.client.m_results,
    p.1<l.session.client.m_sequence ∧ p.1∉reportedIds l.session.client.calls
  /-- Shares reported have earlier numbers. -/
  reported : ∀ id∈reportedIds l.session.client.calls, id<l.session.client.m_sequence
  /-- None has been reported twice. -/
  once : (reportedIds l.session.client.calls).Nodup
  /-- While lines can come, the shares noted are submits of this connection. -/
  pending : Listening l.session → ∀ p∈l.session.client.m_results,
    ∃ rpcId result, p.2=shareOf p.1 result ∧ .submit p.1 rpcId result∈l.requests

/-- The step sends nothing, opens nothing and changes nothing in the accounts. -/
structure Kept (s t : Session) : Prop where
  /-- There is a socket exactly when there was one. -/
  present : t.client.m_socket=none ↔ s.client.m_socket=none
  /-- It is the old one, with fewer callbacks due perhaps. -/
  socket : ∀ k∈t.client.m_socket, ∃ k'∈s.client.m_socket, k.written=k'.written ∧
    (k.connecting=true → k'.connecting=true) ∧ (k.reading=true → k'.reading=true)
  /-- No lines are found without a reading socket. -/
  listening : Listening t → Listening s
  /-- The shares noted are the same. -/
  results : t.client.m_results=s.client.m_results
  /-- None is reported. -/
  reported : reportedIds t.client.calls=reportedIds s.client.calls
  /-- Numbers grow. -/
  sequence : s.client.m_sequence ≤ t.client.m_sequence

/-- The socket has taken what the old one had. -/
theorem newlyWritten_nil {c d : Client}
    (h : ∀ k∈d.m_socket, ∃ k'∈c.m_socket, k.written=k'.written) : newlyWritten c d=[] := by
  rw [newlyWritten]
  split
  · rfl
  · rename_i k hk
    obtain ⟨k',hk',hsame⟩ := h k hk
    rw [hk',hsame]
    exact List.drop_length

/-- The socket has taken one message more. -/
theorem newlyWritten_singleton {c d : Client} {k k' : Socket} {message : Bytes}
    (hk' : c.m_socket=some k') (hk : d.m_socket=some k) (h : k.written=k'.written++[message]) :
    newlyWritten c d=[message] := by
  rw [newlyWritten,hk,hk']
  dsimp only [Option.map_some,Option.getD_some]
  rw [h,List.drop_left]

/-- Without a new message the requests stay. -/
theorem requestsAfter_nil {lib : RapidJson} {l : Ledger} {a : Action} {d : Client}
    (h : newlyWritten l.session.client d=[]) (hd : d.m_socket=none → l.requests=[]) :
    requestsAfter lib l a d=l.requests := by
  rw [requestsAfter,if_pos h]
  split
  · rename_i hnone
    exact (hd (Option.isNone_iff_eq_none.mp hnone)).symm
  · rfl

/-- A step that keeps the accounts adds no request. -/
theorem Kept.requestsAfter {lib : RapidJson} {l : Ledger} {t : Session}
    (h : Kept l.session t) (hl : Consistent l) (a : Action) :
    requestsAfter lib l a t.client=l.requests := by
  refine requestsAfter_nil (newlyWritten_nil fun k hk => ?_) fun hnone =>
    hl.detached (h.present.mp hnone)
  obtain ⟨k',hk',hsame,-⟩ := h.socket k hk
  exact ⟨k',hk',hsame⟩

/-- Such a step leaves everything consistent. -/
theorem Consistent.kept {l : Ledger} (h : Consistent l) {t : Session} (hk : Kept l.session t)
    (hw : Wired t.client) : Consistent ⟨t,l.requests⟩ where
  wired := hw
  source := fun ht hnone => h.source (hk.listening ht) (hk.present.mp hnone)
  first := h.first.trans hk.sequence
  numbered := fun r hr => (h.numbered r hr).trans_le hk.sequence
  distinct := h.distinct
  connecting := by
    intro k hmem hconnecting
    obtain ⟨k',hk',-,hc,hr⟩ := hk.socket k hmem
    obtain ⟨hempty,hread⟩ := h.connecting k' hk' (hc hconnecting)
    refine ⟨hempty,Bool.eq_false_iff.mpr fun hreading => ?_⟩
    exact Bool.noConfusion (hread.symm.trans (hr hreading))
  written := by
    intro k hmem
    obtain ⟨k',hk',hsame,-⟩ := hk.socket k hmem
    exact hsame.trans (h.written k' hk')
  detached := fun hnone => h.detached (hk.present.mp hnone)
  noted := by
    intro p hp
    dsimp only at hp
    rw [hk.results] at hp
    obtain ⟨hless,hnot⟩ := h.noted p hp
    dsimp only
    rw [hk.reported]
    exact ⟨hless.trans_le hk.sequence,hnot⟩
  reported := by
    intro id hid
    dsimp only at hid
    rw [hk.reported] at hid
    exact (h.reported id hid).trans_le hk.sequence
  once := by
    dsimp only
    rw [hk.reported]
    exact h.once
  pending := by
    intro ht p hp
    dsimp only at hp
    rw [hk.results] at hp
    exact h.pending (hk.listening ht) p hp

end Invariant

section Keeping

variable {s : Session} {d : Client} {rest : List (Bytes×Stale)}

/-- Nothing happens to the socket or the accounts. -/
theorem Kept.of_frame (hsocket : d.m_socket=s.client.m_socket)
    (hrest : rest ≠ [] → Listening s) (hresults : d.m_results=s.client.m_results)
    (hreported : reportedIds d.calls=reportedIds s.client.calls)
    (hsequence : s.client.m_sequence ≤ d.m_sequence) : Kept s ⟨d,rest⟩ where
  present := by rw [hsocket]
  socket := by
    intro k hk
    dsimp only at hk
    rw [hsocket] at hk
    exact ⟨k,hk,rfl,id,id⟩
  listening := by
    rintro (h|⟨k,hk,hreading⟩)
    · exact hrest h
    · dsimp only at hk
      rw [hsocket] at hk
      exact Or.inr ⟨k,hk,hreading⟩
  results := hresults
  reported := hreported
  sequence := hsequence

/-- Closing the connection keeps the accounts. -/
theorem Kept.close (h : Kept s ⟨d,rest⟩) : Kept s ⟨d.close,rest⟩ := by
  rcases close_cases d with hsame|⟨k,hk,hclose⟩
  · rw [hsame]
    exact h
  · obtain ⟨k',hk',hwritten,hconnecting,-⟩ := h.socket k hk
    have hpresent : s.client.m_socket ≠ none := fun hnone => nomatch hnone.symm.trans hk'
    rw [hclose]
    refine ⟨⟨fun hnone => (nomatch hnone),fun hnone => absurd hnone hpresent⟩,?_,?_,h.results,
      h.reported,h.sequence⟩
    · intro k'' hk''
      rw [←Option.some.inj hk'']
      exact ⟨k',hk',hwritten,hconnecting,fun hreading => (nomatch hreading)⟩
    · rintro (hrest|⟨k'',hk'',hreading⟩)
      · exact h.listening (Or.inl hrest)
      · rw [←Option.some.inj hk''] at hreading
        cases hreading

/-- Only the socket and the accounts matter. -/
theorem Kept.of_socket {e : Client} (h : Kept s ⟨d,rest⟩) (hsocket : e.m_socket=d.m_socket)
    (hresults : e.m_results=s.client.m_results)
    (hreported : reportedIds e.calls=reportedIds s.client.calls)
    (hsequence : s.client.m_sequence ≤ e.m_sequence) : Kept s ⟨e,rest⟩ where
  present := by
    dsimp only
    rw [hsocket]
    exact h.present
  socket := by
    dsimp only
    rw [hsocket]
    exact h.socket
  listening := by
    rw [Listening]
    dsimp only
    rw [hsocket]
    exact h.listening
  results := hresults
  reported := hreported
  sequence := hsequence

/-- Looking a host up keeps the accounts. -/
theorem Kept.resolve (h : Kept s ⟨d,rest⟩) (r : ℤ) : Kept s ⟨d.resolve r,rest⟩ :=
  ⟨h.present,h.socket,h.listening,h.results,h.reported,h.sequence⟩

theorem reportedIds_append (calls more : List Call) :
    reportedIds (calls++more)=reportedIds calls++reportedIds more := List.filterMap_append

end Keeping

section Sending

variable {lib : RapidJson} {l : Ledger} {a : Action} {c : Client} {w : WriteResult} {now : UInt64}

/-- The client once the socket has taken a message. -/
def withRequest (c : Client) (message : Bytes) (now : UInt64) : Client :=
  {c with
    m_socket := c.m_socket.map fun k => {k with written := k.written++[message]}
    m_expire := now+kResponseTimeout
    m_sequence := c.m_sequence+1}

/-- A request that the socket takes, with a number of its own, joins the requests. -/
theorem Consistent.taken {rest : List (Bytes×Stale)} {requests : List Request}
    (h : Consistent ⟨⟨c,rest⟩,requests⟩) (hs : c.m_state=.connected) {r : Request}
    (hid : r.id<c.m_sequence+1) (hnew : ∀ r'∈requests, r'.id ≠ r.id) :
    Consistent ⟨⟨withRequest c r.message now,rest⟩,requests++[r]⟩ := by
  obtain ⟨k,hk,hopen,hreading⟩ := h.wired.connected hs
  have hidle : k.connecting=false := by
    by_contra hconnecting
    have hread := (h.connecting k hk ((Bool.not_eq_false _).mp hconnecting)).2
    exact Bool.noConfusion (hread.symm.trans hreading)
  have hsocket : (withRequest c r.message now).m_socket=
      some {k with written := k.written++[r.message]} := by
    rw [withRequest,hk]
    rfl
  have hlistening : Listening ⟨c,rest⟩ := Or.inr ⟨k,hk,hreading⟩
  refine ⟨?_,?_,?_,?_,?_,?_,?_,?_,?_,?_,h.once,?_⟩
  · have hsent : Wired (c.send r.message ⟨true,0⟩ now).2 := h.wired.send r.message
    rw [send_taken hs rfl (by decide)] at hsent
    exact hsent
  · intro _ hnone
    exact nomatch hnone.symm.trans hsocket
  · have hfirst := h.first
    change 1 ≤ c.m_sequence+1
    dsimp only at hfirst
    omega
  · intro r' hr'
    change r'.id<c.m_sequence+1
    rcases List.mem_append.mp hr' with hold|hlast
    · exact (h.numbered r' hold).trans (Int.lt_succ _)
    · rw [List.mem_singleton.mp hlast]
      exact hid
  · rw [List.map_append,List.map_singleton]
    refine List.nodup_append.mpr ⟨h.distinct,List.nodup_singleton _,?_⟩
    intro x hx y hy
    obtain ⟨r',hr',rfl⟩ := List.mem_map.mp hx
    rw [List.mem_singleton.mp hy]
    exact hnew r' hr'
  · intro k' hk' hconnecting
    dsimp only at hk'
    rw [hsocket] at hk'
    rw [←Option.some.inj hk'] at hconnecting
    exact Bool.noConfusion (hidle.symm.trans hconnecting)
  · intro k' hk'
    dsimp only at hk'
    rw [hsocket] at hk'
    rw [←Option.some.inj hk',List.map_append,List.map_singleton,h.written k hk]
  · intro hnone
    exact nomatch hnone.symm.trans hsocket
  · intro p hp
    obtain ⟨hless,hnot⟩ := h.noted p hp
    exact ⟨hless.trans (Int.lt_succ _),hnot⟩
  · intro id hmem
    exact (h.reported id hmem).trans (Int.lt_succ _)
  · intro _ p hp
    obtain ⟨rpcId,result,hshare,hmem⟩ := h.pending hlistening p hp
    exact ⟨rpcId,result,hshare,List.mem_append_left _ hmem⟩

/-- The request of an action that the socket takes. -/
theorem requestsAfter_taken {k : Socket} {r : Request}
    (hr : requestOf lib l.session.client a=some r)
    (hk : l.session.client.m_socket=some k) {d : Client} {k' : Socket} (hk' : d.m_socket=some k')
    (hwritten : k'.written=k.written++[r.message]) :
    requestsAfter lib l a d=l.requests++[r] := by
  have hmessage := newlyWritten_singleton hk hk' hwritten
  rw [requestsAfter,if_neg (by rw [hk']; exact Bool.noConfusion),
    if_neg (by rw [hmessage]; exact List.cons_ne_nil _ _),hr]
  rfl

/-- Sending a request of the action's own number keeps everything consistent, whether the
socket takes it or not. -/
theorem Consistent.send (h : Consistent ⟨⟨c,[]⟩,l.requests⟩)
    (hsocket : ∀ k∈c.m_socket, ∃ k'∈l.session.client.m_socket, k.written=k'.written)
    {r : Request} (hr : requestOf lib l.session.client a=some r) (hid : r.id<c.m_sequence+1)
    (hnew : ∀ r'∈l.requests, r'.id ≠ r.id) :
    Consistent ⟨⟨(c.send r.message w now).2,[]⟩,
      requestsAfter lib l a (c.send r.message w now).2⟩ := by
  have hkept : Kept ⟨c,[]⟩ ⟨c.close,[]⟩ :=
    (Kept.of_frame (s:=⟨c,[]⟩) (d:=c) rfl (fun hrest => absurd rfl hrest) rfl rfl le_rfl).close
  by_cases hopen : c.m_state ≠ .connected ∨ w.writable=false
  · rw [send_refused hopen,requestsAfter_nil (newlyWritten_nil hsocket) h.detached]
    exact h
  · rw [not_or,not_not,Bool.not_eq_false] at hopen
    by_cases hfails : w.tryWrite<0
    · have hclosed : ∀ k∈c.close.m_socket, ∃ k'∈l.session.client.m_socket,
          k.written=k'.written := by
        intro k hk
        obtain ⟨k',hk',hsame,-⟩ := hkept.socket k hk
        obtain ⟨k'',hk'',hsame'⟩ := hsocket k' hk'
        exact ⟨k'',hk'',hsame.trans hsame'⟩
      rw [send_failed hopen.1 hopen.2 hfails,requestsAfter_nil (newlyWritten_nil hclosed)
        fun hnone => h.detached (hkept.present.mp hnone)]
      exact h.kept hkept h.wired.close
    · obtain ⟨k,hk,-⟩ := h.wired.connected hopen.1
      obtain ⟨k',hk',hsame⟩ := hsocket k hk
      have htaken : (withRequest c r.message now).m_socket=
          some {k with written := k.written++[r.message]} := by
        rw [withRequest,hk]
        rfl
      rw [send_taken hopen.1 hopen.2 hfails]
      change Consistent ⟨⟨withRequest c r.message now,[]⟩,
        requestsAfter lib l a (withRequest c r.message now)⟩
      rw [requestsAfter_taken hr hk' htaken (by rw [hsame])]
      exact h.taken hopen.1 hid hnew

/-- A connection that has just been opened has sent nothing, and its shares are forgotten. -/
theorem Consistent.opened {c : Client} (h : Consistent ⟨⟨c,[]⟩,l.requests⟩)
    (hconnecting : ∃ k∈c.m_socket, k.connecting=true) {d : Client} (hw : Wired d)
    (hsocket : d.m_socket=c.m_socket.map fun k => {k with connecting := false,reading := true})
    (hresults : d.m_results=[]) (hcalls : d.calls=c.calls)
    (hsequence : d.m_sequence=c.m_sequence) : Consistent ⟨⟨d,[]⟩,l.requests⟩ := by
  obtain ⟨k,hk,hconnect⟩ := hconnecting
  have hempty : l.requests=[] := (h.connecting k hk hconnect).1
  rw [hk,Option.map_some] at hsocket
  refine ⟨hw,?_,?_,?_,h.distinct,?_,?_,fun _ => hempty,?_,?_,?_,?_⟩
  · intro _ hnone
    exact nomatch hnone.symm.trans hsocket
  · exact hsequence ▸ h.first
  · exact fun r hr => hsequence ▸ h.numbered r hr
  · intro k' hk' hconnecting
    rw [←Option.some.inj (hsocket.symm.trans hk')] at hconnecting
    cases hconnecting
  · intro k' hk'
    rw [←Option.some.inj (hsocket.symm.trans hk')]
    exact h.written k hk
  · intro p hp
    dsimp only at hp
    rw [hresults] at hp
    cases hp
  · dsimp only
    rw [hcalls,hsequence]
    exact h.reported
  · dsimp only
    rw [hcalls]
    exact h.once
  · intro _ p hp
    dsimp only at hp
    rw [hresults] at hp
    cases hp

/-- The numbers of later requests are new. -/
theorem Consistent.fresh (h : Consistent l) :
    ∀ r∈l.requests, r.id ≠ l.session.client.m_sequence :=
  fun r hr => (h.numbered r hr).ne

end Sending

section Events

variable {lib : RapidJson} {recvLib : RecvLibrary} {l : Ledger} {w : WriteResult} {now : UInt64}

/-- A client that is connected sends its login. -/
theorem Consistent.login {a : Action} {c : Client}
    (h : Consistent ⟨⟨{c with m_results := []},[]⟩,l.requests⟩)
    (hempty : l.requests=[])
    (hsocket : ∀ k∈c.m_socket, ∃ k'∈l.session.client.m_socket, k.written=k'.written)
    (hr : requestOf lib l.session.client a=some (.login (c.loginText lib++[newline]))) :
    Consistent ⟨⟨c.login lib w now,[]⟩,requestsAfter lib l a (c.login lib w now)⟩ := by
  have hnew : ∀ r'∈l.requests, r'.id ≠ (Request.login (c.loginText lib++[newline])).id := by
    intro r' hr'
    rw [hempty] at hr'
    cases hr'
  by_cases hlong : bufSize-2<(c.loginText lib).length
  · have hnil : newlyWritten l.session.client {c with m_results := []}=[] :=
      newlyWritten_nil hsocket
    rw [login_too_long hlong,requestsAfter_nil hnil fun _ => hempty]
    exact h
  · have hfilled : Consistent ⟨⟨Client.fillSendBuf {c with m_results := []}
        (c.loginText lib).length,[]⟩,l.requests⟩ :=
      h.kept (Kept.of_frame rfl (fun hrest => absurd rfl hrest) rfl rfl le_rfl)
        (h.wired.of_connection rfl rfl)
    have hfirst : (1 : ℤ)<c.m_sequence+1 := Int.lt_add_one_iff.mpr h.first
    rw [login_filled hlong]
    exact hfilled.send hsocket hr hfirst hnew

/-- The callback of a connect leaves everything consistent. -/
theorem Consistent.onConnect (h : Consistent l) (hrest : l.session.rest=[]) {status : ℤ}
    (hsome : ∃ k∈l.session.client.m_socket, k.connecting=true)
    (hcancelled : Cancelled l.session.client (.connected status w now)) :
    Consistent ⟨⟨l.session.client.onConnect lib status w now,[]⟩,
      requestsAfter lib l (.event (.connected status w now))
        (l.session.client.onConnect lib status w now)⟩ := by
  obtain ⟨⟨c,rest⟩,requests⟩ := l
  dsimp only at hrest hsome hcancelled ⊢
  subst hrest
  have hwritten : ∀ f : Socket → Socket, (∀ k, (f k).written=k.written) →
      ∀ k∈c.m_socket.map f, ∃ k'∈c.m_socket, k.written=k'.written := by
    intro f hf k hk
    obtain ⟨k',hk',rfl⟩ := Option.mem_map.mp hk
    exact ⟨k',hk',hf k'⟩
  rw [onConnect_eq]
  by_cases hstatus : status<0
  · have hcalled : Kept ⟨c,[]⟩ ⟨calledBack c,[]⟩ := by
      refine ⟨Option.map_eq_none_iff,?_,?_,rfl,rfl,le_rfl⟩
      · intro k hk
        obtain ⟨k',hk',rfl⟩ := Option.mem_map.mp hk
        exact ⟨k',hk',rfl,fun hc => (nomatch hc),id⟩
      · rintro (hrest|⟨k,hk,hreading⟩)
        · exact absurd rfl hrest
        · obtain ⟨k',hk',rfl⟩ := Option.mem_map.mp hk
          exact Or.inr ⟨k',hk',hreading⟩
    rw [if_pos hstatus,hcalled.close.requestsAfter h]
    exact h.kept hcalled.close h.wired.calledBack.close
  · have hw := wired_connected hsome (hcancelled.open hstatus)
    have hopened : Consistent ⟨⟨{connected c with m_results := []},[]⟩,requests⟩ :=
      Consistent.opened (l:=⟨⟨c,[]⟩,requests⟩) h hsome (hw.of_connection rfl rfl) rfl rfl rfl rfl
    obtain ⟨k,hk,hconnecting⟩ := hsome
    rw [if_neg hstatus]
    exact hopened.login (l:=⟨⟨c,[]⟩,requests⟩) (h.connecting k hk hconnecting).1
      (hwritten _ fun _ => rfl) rfl

/-- A share that is sent is noted under the number of its request. -/
theorem Consistent.submit (h : Consistent l) {result : JobResult}
    (hs : l.session.client.m_state=.connected) (hw : w.writable=true) (ht : ¬w.tryWrite<0) :
    Consistent ⟨⟨(l.session.client.submit result w now).2,l.session.rest⟩,
      requestsAfter lib l (.event (.submit result w now))
        (l.session.client.submit result w now).2⟩ := by
  obtain ⟨⟨c,rest⟩,requests⟩ := l
  dsimp only at hs ⊢
  obtain ⟨k,hk,-⟩ := h.wired.connected hs
  have hnoted : (noteShare c result).m_state=.connected := hs
  have htaken : Consistent ⟨⟨withRequest c (submitRequest c.m_sequence c.m_rpcId result) now,rest⟩,
      requests++[.submit c.m_sequence c.m_rpcId result]⟩ :=
    h.taken hs (r:=.submit c.m_sequence c.m_rpcId result) (Int.lt_succ _) h.fresh
  have hmember : Request.submit c.m_sequence c.m_rpcId result∈
      requests++[.submit c.m_sequence c.m_rpcId result] :=
    List.mem_append_right _ (List.mem_singleton_self _)
  have hunreported : c.m_sequence∉reportedIds c.calls := fun hm => (h.reported _ hm).false
  have hsocket : (withRequest (noteShare c result) (submitRequest c.m_sequence c.m_rpcId result)
      now).m_socket=
      some {k with written := k.written++[submitRequest c.m_sequence c.m_rpcId result]} := by
    change c.m_socket.map _=_
    rw [hk]
    rfl
  rw [submit_eq,send_taken hnoted hw ht]
  change Consistent ⟨⟨withRequest (noteShare c result)
      (submitRequest c.m_sequence c.m_rpcId result) now,rest⟩,
    requestsAfter lib ⟨⟨c,rest⟩,requests⟩ (.event (.submit result w now))
      (withRequest (noteShare c result) (submitRequest c.m_sequence c.m_rpcId result) now)⟩
  rw [requestsAfter_taken (r:=.submit c.m_sequence c.m_rpcId result) rfl hk hsocket rfl]
  refine ⟨htaken.wired.of_connection rfl rfl,htaken.source,htaken.first,htaken.numbered,
    htaken.distinct,htaken.connecting,htaken.written,htaken.detached,?_,htaken.reported,
    htaken.once,?_⟩
  · intro p hp
    rcases List.mem_cons.mp hp with hnew|hold
    · rw [hnew]
      exact ⟨Int.lt_succ _,hunreported⟩
    · exact htaken.noted p (List.mem_of_mem_filter hold)
  · intro hlistening p hp
    rcases List.mem_cons.mp hp with hnew|hold
    · rw [hnew]
      exact ⟨c.m_rpcId,result,rfl,hmember⟩
    · exact htaken.pending hlistening p (List.mem_of_mem_filter hold)

/-- The share found under the number of a response is reported and erased. -/
theorem Consistent.answered {c : Client} {rest : List (Bytes×Stale)} {requests : List Request}
    (h : Consistent ⟨⟨c,rest⟩,requests⟩) {k : ℤ} {noted : SubmitResult}
    (error : Option Bytes) (hseq : noted.seq=k) (hmem : (k,noted)∈c.m_results) {d : Client}
    (hd : d={c with
      calls := c.calls++[.onResultAccepted noted error]
      m_results := c.m_results.filter fun p => p.1 ≠ k}) :
    Consistent ⟨⟨d,rest⟩,requests⟩ := by
  obtain ⟨hless,hnot⟩ := h.noted _ hmem
  have hreported : reportedIds d.calls=reportedIds c.calls++[k] := by
    rw [hd]
    dsimp only
    rw [reportedIds_append,←hseq]
    rfl
  have hsub : ∀ p∈d.m_results, p∈c.m_results ∧ p.1 ≠ k := by
    intro p hp
    rw [hd] at hp
    obtain ⟨hin,hne⟩ := List.mem_filter.mp hp
    exact ⟨hin,of_decide_eq_true hne⟩
  have hsocket : d.m_socket=c.m_socket := by rw [hd]
  have hsequence : d.m_sequence=c.m_sequence := by rw [hd]
  have hlistening : Listening ⟨d,rest⟩ → Listening ⟨c,rest⟩ := by
    rw [Listening,Listening,hsocket]
    exact id
  refine ⟨h.wired.of_connection (by rw [hd]) hsocket,?_,?_,?_,h.distinct,?_,?_,?_,?_,?_,?_,?_⟩
  · intro hl
    dsimp only
    rw [hsocket]
    exact h.source (hlistening hl)
  · exact hsequence ▸ h.first
  · exact fun r hr => hsequence ▸ h.numbered r hr
  · dsimp only
    rw [hsocket]
    exact h.connecting
  · dsimp only
    rw [hsocket]
    exact h.written
  · dsimp only
    rw [hsocket]
    exact h.detached
  · intro p hp
    obtain ⟨hin,hne⟩ := hsub p hp
    obtain ⟨hless',hnot'⟩ := h.noted p hin
    dsimp only
    rw [hsequence,hreported,List.mem_append,List.mem_singleton]
    exact ⟨hless',not_or.mpr ⟨hnot',hne⟩⟩
  · intro id hid
    dsimp only at hid ⊢
    rw [hreported,List.mem_append,List.mem_singleton] at hid
    rw [hsequence]
    rcases hid with hold|hlast
    · exact h.reported id hold
    · rw [hlast]
      exact hless
  · dsimp only
    rw [hreported]
    refine List.nodup_append.mpr ⟨h.once,List.nodup_singleton _,?_⟩
    intro x hx y hy hxy
    rw [List.mem_singleton.mp hy] at hxy
    exact hnot (hxy ▸ hx)
  · intro hl p hp
    exact h.pending (hlistening hl) p (hsub p hp).1

/-- What a line does besides reporting the answer to a share keeps the accounts. -/
theorem kept_line {c d : Client} {line : Bytes} {stale : Stale} {rest : List (Bytes×Stale)}
    (h : PoolClientPhases.Handled c d) (hresults : d.m_results=c.m_results)
    (hreported : reportedIds d.calls=reportedIds c.calls) (hsequence : d.m_sequence=c.m_sequence) :
    Kept ⟨c,(line,stale)::rest⟩ ⟨d,rest⟩ := by
  have hfound : Listening ⟨c,(line,stale)::rest⟩ := Or.inl (List.cons_ne_nil _ _)
  have hsame : Kept ⟨c,(line,stale)::rest⟩ ⟨c,rest⟩ :=
    Kept.of_frame rfl (fun _ => hfound) rfl rfl le_rfl
  rcases h.connection with ⟨-,hk⟩|⟨-,hk⟩
  · exact hsame.of_socket hk hresults hreported hsequence.ge
  · exact hsame.close.of_socket hk hresults hreported hsequence.ge

/-- A line leaves everything consistent. -/
theorem Consistent.parse {c : Client} {line : Bytes} {stale : Stale} {rest : List (Bytes×Stale)}
    {requests : List Request} (h : Consistent ⟨⟨c,(line,stale)::rest⟩,requests⟩) :
    Consistent ⟨⟨c.parse lib stale line,rest⟩,
      requestsAfter lib ⟨⟨c,(line,stale)::rest⟩,requests⟩ .line (c.parse lib stale line)⟩ := by
  have hhandled := parse_handled lib stale c line
  have hsequence := (parse_frame lib stale c line).1
  have hw := h.wired.handled hhandled
  have hquiet : (c.parse lib stale line).m_results=c.m_results →
      reportedIds (c.parse lib stale line).calls=reportedIds c.calls →
      Consistent ⟨⟨c.parse lib stale line,rest⟩,
        requestsAfter lib ⟨⟨c,(line,stale)::rest⟩,requests⟩ .line (c.parse lib stale line)⟩ := by
    intro hresults hreported
    have hkept : Kept ⟨c,(line,stale)::rest⟩ ⟨c.parse lib stale line,rest⟩ :=
      kept_line hhandled hresults hreported hsequence
    rw [hkept.requestsAfter h]
    exact h.kept hkept hw
  cases parse_reports lib stale c line with
  | nothing hcalls hresults => exact hquiet hresults (by rw [hcalls])
  | job job hcalls hresults =>
    exact hquiet hresults (by rw [hcalls,reportedIds_append]; exact List.append_nil _)
  | login job _ hcalls hresults =>
    exact hquiet hresults (by rw [hcalls,reportedIds_append]; exact List.append_nil _)
  | answer k noted error _ hknown hcalls hresults =>
    obtain ⟨before,after,hsplit,-⟩ := List.lookup_eq_some_iff.mp hknown
    have hmem : (k,noted)∈c.m_results := by
      rw [hsplit]
      exact List.mem_append_right _ List.mem_cons_self
    obtain ⟨_,result,hshare,-⟩ := h.pending (Or.inl (List.cons_ne_nil _ _)) _ hmem
    have hseq : noted.seq=k := congrArg SubmitResult.seq hshare
    have hkept : Kept ⟨c,(line,stale)::rest⟩
        ⟨{c.parse lib stale line with m_results := c.m_results,calls := c.calls},rest⟩ :=
      kept_line ⟨hhandled.lookups,hhandled.account,hhandled.corrupted,hhandled.failures,
        hhandled.connection⟩ rfl rfl hsequence
    have hbefore := h.kept hkept (hw.of_connection rfl rfl)
    have hrequests : requestsAfter lib ⟨⟨c,(line,stale)::rest⟩,requests⟩ .line
        (c.parse lib stale line)=requests := hkept.requestsAfter h .line
    rw [hrequests]
    refine hbefore.answered error hseq hmem ?_
    dsimp only
    rw [←hcalls,←hresults]

/-- Every callback of a lookup leaves everything consistent. -/
theorem Consistent.onResolved (h : Consistent l) {status : ℤ} {families : List ℤ}
    {r : ℤ} (hdeletes : ¬Unresolved status families → l.session.client.m_socket=none) :
    Consistent ⟨⟨l.session.client.onResolved status families r now,[]⟩,
      requestsAfter lib l (.event (.resolved status families r now))
        (l.session.client.onResolved status families r now)⟩ := by
  have hw : Wired (l.session.client.onResolved status families r now) :=
    h.wired.onResolved status families r
  rw [onResolved_eq] at hw ⊢
  by_cases hu : Unresolved status families
  · rw [if_pos hu] at hw ⊢
    obtain ⟨hsocket,hresults,⟨failures,hcalls⟩,hsequence,-⟩ :=
      reconnect_frame {l.session.client with lookups := l.session.client.lookups-1} now
    have hkept : Kept l.session ⟨Client.reconnect
        {l.session.client with lookups := l.session.client.lookups-1} now,[]⟩ := by
      refine Kept.of_frame hsocket (fun hne => absurd rfl hne) hresults ?_ hsequence.ge
      rw [hcalls,reportedIds_append]
      exact List.append_nil _
    rw [hkept.requestsAfter h]
    exact h.kept hkept hw
  · rw [if_neg hu] at hw ⊢
    have hempty := h.detached (hdeletes hu)
    have hnil : newlyWritten l.session.client
        (Client.connectSockaddr {l.session.client with lookups := l.session.client.lookups-1} r)=
        [] := by
      rw [newlyWritten,hdeletes hu]
      rfl
    rw [requestsAfter_nil hnil fun _ => hempty]
    refine ⟨hw,fun _ hnone => (nomatch hnone),h.first,h.numbered,h.distinct,?_,?_,
      fun _ => hempty,h.noted,h.reported,h.once,?_⟩
    · intro k hk _
      rw [←Option.some.inj hk]
      exact ⟨hempty,rfl⟩
    · intro k hk
      dsimp only
      rw [←Option.some.inj hk,hempty]
      rfl
    · rintro (hne|⟨k,hk,hreading⟩)
      · exact absurd rfl hne
      · rw [←Option.some.inj hk] at hreading
        cases hreading

/-- The close callback leaves no socket and no requests. -/
theorem Consistent.onClose (h : Consistent l) :
    Consistent ⟨⟨l.session.client.onClose now,[]⟩,
      requestsAfter lib l (.event (.closed now)) (l.session.client.onClose now)⟩ := by
  obtain ⟨hsocket,hresults,⟨failures,hcalls⟩,hsequence,-⟩ :=
    reconnect_frame {l.session.client with m_socket := none,m_state := .unconnected} now
  have hw : Wired (l.session.client.onClose now) :=
    Wired.reconnect (c:={l.session.client with m_socket := none,m_state := .unconnected})
      fun _ hk => (nomatch hk)
  change (l.session.client.onClose now).m_socket=none at hsocket
  change (l.session.client.onClose now).m_results=l.session.client.m_results at hresults
  change (l.session.client.onClose now).calls=l.session.client.calls++[.onClose failures] at hcalls
  change (l.session.client.onClose now).m_sequence=l.session.client.m_sequence at hsequence
  have hreported : reportedIds (l.session.client.onClose now).calls=
      reportedIds l.session.client.calls := by
    rw [hcalls,reportedIds_append]
    exact List.append_nil _
  have hsilent : ¬Listening ⟨l.session.client.onClose now,[]⟩ := by
    rintro (hne|⟨k,hk,-⟩)
    · exact hne rfl
    · dsimp only at hk
      rw [hsocket] at hk
      cases hk
  have hnone : requestsAfter lib l (.event (.closed now)) (l.session.client.onClose now)=[] :=
    if_pos (Option.isNone_iff_eq_none.mpr hsocket)
  rw [hnone]
  refine ⟨hw,fun hl => absurd hl hsilent,hsequence ▸ h.first,fun _ hr => (nomatch hr),
    List.nodup_nil,?_,?_,fun _ => rfl,?_,?_,?_,fun hl => absurd hl hsilent⟩
  · dsimp only
    rw [hsocket]
    exact fun _ hk => (nomatch hk)
  · dsimp only
    rw [hsocket]
    exact fun _ hk => (nomatch hk)
  · dsimp only
    rw [hresults,hreported,hsequence]
    exact h.noted
  · dsimp only
    rw [hreported,hsequence]
    exact h.reported
  · dsimp only
    rw [hreported]
    exact h.once

/-- `tick` may close the connection and look the host up. -/
theorem kept_tick (s : Session) (r : ℤ) : Kept s ⟨s.client.tick now r,s.rest⟩ := by
  have hsame : Kept s ⟨s.client,s.rest⟩ := Kept.of_frame rfl Or.inl rfl rfl le_rfl
  rw [Client.tick]
  split
  · exact hsame
  · dsimp only
    split
    · split
      · exact hsame.close.resolve r
      · exact hsame.close
    · split
      · exact hsame.resolve r
      · exact hsame

/-- A read finds its lines, or closes the connection. -/
theorem kept_read {s : Session} {members : Cells UInt8} {delivery : Delivery} (stale : ℕ → Stale)
    (hreading : ∃ k∈s.client.m_socket, k.reading=true) :
    Kept s (beginRead recvLib s.client members delivery stale) := by
  have hreceived : Kept s ⟨s.client.received (deliver recvLib (s.client.buffer members) delivery),
      (deliver recvLib (s.client.buffer members) delivery).lines.zipIdx.map
        fun p => (p.1,stale p.2)⟩ :=
    Kept.of_frame rfl (fun _ => Or.inr hreading) rfl rfl le_rfl
  rw [beginRead]
  split
  · exact hreceived.close
  · exact hreceived

/-- A step with defined behaviour in which every share is sent leaves everything consistent. -/
theorem consistent_step {a : Action} (h : Consistent l) (hd : Defined l a) (hs : Sends l a) :
    Consistent (step lib recvLib l a) := by
  obtain ⟨hp,hdeletes⟩ := hd
  have hw : Wired (ClientSessions.step lib recvLib l.session a).client :=
    wired_step recvLib h.wired hp
  have hkept : Kept l.session (ClientSessions.step lib recvLib l.session a) →
      Consistent (step lib recvLib l a) := by
    intro hkept
    rw [step,hkept.requestsAfter h]
    exact h.kept hkept hw
  have hsame : Kept l.session ⟨l.session.client,l.session.rest⟩ :=
    Kept.of_frame rfl Or.inl rfl rfl le_rfl
  cases a with
  | connect r => exact hkept (hsame.resolve r)
  | disconnect =>
    have hcleared : Kept l.session ⟨{l.session.client with
        m_keepAliveTimer := false,m_expire := 0,m_failures := -1},l.session.rest⟩ :=
      Kept.of_frame rfl Or.inl rfl rfl le_rfl
    exact hkept hcleared.close
  | line =>
    obtain ⟨⟨c,rest⟩,requests⟩ := l
    cases rest with
    | nil => exact absurd rfl hp.2
    | cons line rest => exact h.parse
  | event e =>
    obtain ⟨⟨c,rest⟩,requests⟩ := l
    obtain ⟨-,hrest,hpermitted,hcancelled⟩ := hp
    change rest=[] at hrest
    subst hrest
    cases e with
    | resolved status families r now => exact h.onResolved hdeletes
    | connected status w now => exact h.onConnect rfl hpermitted hcancelled
    | read members delivery stale =>
      have hreading : ∃ k∈c.m_socket, k.reading=true := by
        cases delivery with
        | data bytes => exact hpermitted.1
        | failed code => exact hpermitted
      exact hkept (kept_read stale hreading)
    | closed now => exact h.onClose
    | tick now r => exact hkept (kept_tick _ r)
    | submit result w now => exact h.submit hs.1 hs.2.1 hs.2.2
    | keepAlive w now =>
      have hstopped : Consistent ⟨⟨{c with m_keepAliveTimer := false},[]⟩,requests⟩ := by
        have hstop : Kept ⟨c,[]⟩ ⟨{c with m_keepAliveTimer := false},[]⟩ :=
          Kept.of_frame rfl (fun hne => absurd rfl hne) rfl rfl le_rfl
        exact h.kept hstop (h.wired.of_connection rfl rfl)
      exact Consistent.send (l:=⟨⟨c,[]⟩,requests⟩) (a:=.event (.keepAlive w now)) hstopped
        (r:=.keepAlive c.m_sequence c.m_rpcId) (fun k hk => ⟨k,hk,rfl⟩) rfl (Int.lt_succ _) h.fresh
    | othersSent n =>
      exact hkept (Kept.of_frame rfl Or.inl rfl rfl (Int.le_add_of_nonneg_right n.cast_nonneg))

end Events

end XmrigCC.ShareLedger
