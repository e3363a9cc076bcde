import XmrigCC.ShareAccounting

/-!
# Deadlines for responses

`Client` has one time at which `tick` gives a connection up. Every request that is sent sets
it anew, and every line that comes clears it. It is compared with the time at which the
oldest request without a line after it was sent.
-/

namespace XmrigCC.ResponseDeadlines

open ByteText CellMemory MiningJob PoolMessages ReceiveBuffer ReceiveBufferRuns TransitionRuns
open ClientLines ClientSessions
open PoolClient hiding step Permitted
open PoolClientPhases (parse_handled send_refused send_failed send_taken login_too_long
  login_filled onResolved_eq)
open ShareLedger (newlyWritten_nil newlyWritten_singleton)
open PoolClientLiveness (loginWriter)
open ShareAccounting (someShare)

/-- A session, with the clock and the time at which the oldest request of its connection was
sent that no line has come after. -/
structure Watch where
  /-- The client and the lines of its read. -/
  session : Session
  /-- The last reading of the clock. -/
  now : UInt64
  /-- When the oldest request without a line after it was sent. -/
  since : Option UInt64

/-- The reading of the clock in an action. -/
def reading : Action → Option UInt64
  | .event (.resolved _ _ _ now) => some now
  | .event (.connected _ _ now) => some now
  | .event (.closed now) => some now
  | .event (.tick now _) => some now
  | .event (.submit _ _ now) => some now
  | .event (.keepAlive _ now) => some now
  | _ => none

/-- The oldest request that is left by a line and by a new connection: none. -/
def waiting (since : Option UInt64) : Action → Option UInt64
  | .line => none
  | .event (.connected ..) => none
  | _ => since

/-- The oldest request after an action that leaves a client: one that was waiting, or one
that the action has sent. -/
def sinceAfter (w : Watch) (a : Action) (d : Client) : Option UInt64 :=
  if d.m_state ≠ .connected then none
  else if newlyWritten w.session.client d=[] then waiting w.since a
  else some ((waiting w.since a).getD ((reading a).getD w.now))

/-- One action. -/
def step (lib : RapidJson) (recvLib : RecvLibrary) (w : Watch) (a : Action) : Watch :=
  let s := ClientSessions.step lib recvLib w.session a
  ⟨s,(reading a).getD w.now,sinceAfter w a s.client⟩

/-- The actions are defined. `uv_now` does not go back, and is a number of nanoseconds in 64
bits divided by a million. -/
def Permitted (w : Watch) (a : Action) : Prop :=
  ClientSessions.Defined w.session a ∧
    ∀ now∈reading a, w.now.toNat ≤ now.toNat ∧ now.toNat ≤ 2^64/1000000

/-- A client that has just been constructed, with its pause between attempts. -/
def start (id : ℤ) (agent : Bytes) (url : Url) (retryPause : ℤ) (buf blob : Cells UInt8)
    (now : UInt64) : Watch :=
  ⟨⟨{Client.new id agent url buf blob with m_retryPause := retryPause},[]⟩,now,none⟩

/-- Milliseconds that a response is waited for. -/
def timeout : ℕ := kResponseTimeout.toNat

/-- A silence that began with a request is noticed in time: the deadline is set and not later
than the timeout after that request, and the first tick from then on gives up the
connection. -/
structure NoticedFrom (c : Client) (t : UInt64) : Prop where
  /-- There is a deadline. -/
  expires : c.m_expire ≠ 0
  /-- It is not later. -/
  bounded : c.m_expire.toNat ≤ t.toNat+timeout
  /-- A tick at the time closes the connection. -/
  closes : ∀ now r, t.toNat+timeout ≤ now.toNat → (c.tick now r).m_state=.closing

/-- While a request waits, its silence is noticed in time. -/
def Noticed (w : Watch) : Prop := ∀ t∈w.since, NoticedFrom w.session.client t

/-- The client can send and the write does not fail. -/
def Writes (c : Client) (w : WriteResult) : Prop :=
  c.m_state=.connected ∧ w.writable=true ∧ ¬w.tryWrite<0

/-- A share or a ping is sent. -/
def Sends (c : Client) : Action → Prop
  | .event (.submit _ w _) => Writes c w
  | .event (.keepAlive w _) => Writes c w
  | _ => False

/-- While a request waits, no other one is sent at a later time. -/
def NotPostponed (w : Watch) (a : Action) : Prop :=
  ∀ t∈w.since, Sends w.session.client a → reading a=some t

section Effects

variable {lib : RapidJson} {recvLib : RecvLibrary} {c : Client} {w : WriteResult} {now : UInt64}

/-- What sending does to a client whose socket has taken as much as that of another one. -/
theorem send_effect (h : Wired c) {d : Client}
    (hsocket : ∀ k∈c.m_socket, ∃ k'∈d.m_socket, k.written=k'.written) (message : Bytes)
    (w : WriteResult) (now : UInt64) :
    (Writes c w ∧ newlyWritten d (c.send message w now).2 ≠ [] ∧
      (c.send message w now).2.m_expire=now+kResponseTimeout) ∨
    (¬Writes c w ∧ ((c.send message w now).2.m_state ≠ .connected ∨
      (c.send message w now).2=c)) := by
  by_cases hopen : c.m_state ≠ .connected ∨ w.writable=false
  · right
    rw [send_refused hopen]
    refine ⟨fun hw => ?_,.inr rfl⟩
    rcases hopen with hs | hwritable
    · exact hs hw.1
    · exact Bool.noConfusion (hwritable.symm.trans hw.2.1)
  · rw [not_or,not_not,Bool.not_eq_false] at hopen
    by_cases hfails : w.tryWrite<0
    · right
      rw [send_failed hopen.1 hopen.2 hfails]
      exact ⟨fun hw => hw.2.2 hfails,.inl h.close_state⟩
    · left
      obtain ⟨k,hk,-⟩ := h.connected hopen.1
      obtain ⟨k',hk',hsame⟩ := hsocket k hk
      have hmessage : newlyWritten d (c.send message w now).2=[message] := by
        rw [send_taken hopen.1 hopen.2 hfails]
        refine newlyWritten_singleton (k := {k with written := k.written++[message]}) hk' ?_ ?_
        · dsimp only
          rw [hk]
          rfl
        · dsimp only
          rw [hsame]
      refine ⟨⟨hopen.1,hopen.2,hfails⟩,?_,?_⟩
      · rw [hmessage]
        exact List.cons_ne_nil _ _
      · rw [send_taken hopen.1 hopen.2 hfails]

/-- What an action does to a connection that stands after it. -/
inductive Effect (c d : Client) (a : Action) : Prop where
  /-- A request is sent, which sets the deadline. -/
  | sent (now : UInt64) (hnow : reading a=some now)
      (hsends : Sends c a ∨ ∀ since, waiting since a=none) (hwritten : newlyWritten c d ≠ [])
      (hexpire : d.m_expire=now+kResponseTimeout)
  /-- A line came or the connection is new, and nothing is sent. -/
  | cleared (hsends : ¬Sends c a) (hwritten : newlyWritten c d=[])
      (hwaiting : ∀ since, waiting since a=none)
  /-- Nothing is sent, and the connection and the deadline stay. -/
  | kept (hsends : ¬Sends c a) (hwritten : newlyWritten c d=[])
      (hwaiting : ∀ since, waiting since a=since) (hexpire : d.m_expire=c.m_expire)

/-- Nothing has been written. -/
theorem newlyWritten_same {c d : Client} (h : d.m_socket=c.m_socket) : newlyWritten c d=[] :=
  newlyWritten_nil fun k hk => ⟨k,h ▸ hk,rfl⟩

/-- A client that is sending and stays connected. -/
theorem effect_of_send (h : Wired c) {d : Client} (hstate : d.m_state=c.m_state)
    (hsocket : d.m_socket=c.m_socket) (hexpire : d.m_expire=c.m_expire) (message : Bytes)
    {a : Action} (hnow : reading a=some now) (hsends : Sends c a ↔ Writes c w)
    (hwaiting : ∀ since, waiting since a=since)
    (hconnected : (d.send message w now).2.m_state=.connected) :
    Effect c (d.send message w now).2 a := by
  have hd : Wired d := h.of_connection hstate hsocket
  have hwrites : Writes d w ↔ Writes c w := by rw [Writes,Writes,hstate]
  have hsame : ∀ k∈d.m_socket, ∃ k'∈c.m_socket, k.written=k'.written :=
    fun k hk => ⟨k,hsocket ▸ hk,rfl⟩
  rcases send_effect hd hsame message w now with ⟨hw,hwritten,hset⟩ | ⟨hw,hnot | hsame⟩
  · exact .sent now hnow (.inl (hsends.mpr (hwrites.mp hw))) hwritten hset
  · exact absurd hconnected hnot
  · have hno : ¬Sends c a := fun hs => hw (hwrites.mpr (hsends.mp hs))
    rw [hsame]
    exact .kept hno (newlyWritten_same hsocket) hwaiting hexpire

/-- A connect that succeeds sends the login, or nothing. -/
theorem effect_onConnect (h : Wired c) {status : ℤ} (hsome : ∃ k∈c.m_socket, k.connecting=true)
    (hcancelled : Cancelled c (.connected status w now))
    (hconnected : (c.onConnect lib status w now).m_state=.connected) :
    Effect c (c.onConnect lib status w now) (.event (.connected status w now)) := by
  have hno : ¬Sends c (.event (.connected status w now)) := id
  rw [onConnect_eq] at hconnected ⊢
  split at hconnected
  · exact absurd hconnected h.calledBack.close_state
  · rename_i hstatus
    rw [if_neg hstatus]
    have hwired : Wired (connected c) := wired_connected hsome (hcancelled.open hstatus)
    have hsocket : ∀ k∈(connected c).m_socket, ∃ k'∈c.m_socket, k.written=k'.written := by
      intro k hk
      obtain ⟨k',hk',rfl⟩ := Option.mem_map.mp hk
      exact ⟨k',hk',rfl⟩
    by_cases hlong : bufSize-2<((connected c).loginText lib).length
    · rw [login_too_long hlong]
      exact .cleared hno (newlyWritten_nil hsocket) fun _ => rfl
    · rw [login_filled hlong]
      have hfilled : Wired (Client.fillSendBuf {connected c with m_results := []}
          ((connected c).loginText lib).length) := hwired.of_connection rfl rfl
      rcases send_effect hfilled hsocket ((connected c).loginText lib++[newline]) w now with
        ⟨-,hwritten,hset⟩ | ⟨-,hnot | hsame⟩
      · exact .sent now rfl (.inr fun _ => rfl) hwritten hset
      · rw [login_filled hlong] at hconnected
        exact absurd hconnected hnot
      · rw [hsame]
        exact .cleared hno (newlyWritten_nil hsocket) fun _ => rfl

/-- A client on its way to the next attempt is not connected. -/
theorem reconnect_open (c : Client) (now : UInt64) :
    (c.reconnect now).m_state ≠ .connected := by
  intro hs
  unfold Client.reconnect at hs
  dsimp only at hs
  split at hs
  · cases hs
  · cases hs

/-- A tick leaves a client that is connected afterwards as it was. -/
theorem tick_connected (h : Wired c) {r : ℤ}
    (hconnected : (c.tick now r).m_state=.connected) : c.tick now r=c := by
  rw [Client.tick] at hconnected ⊢
  by_cases hdue : c.m_expire=0 ∨ now<c.m_expire
  · exact if_pos hdue
  · rw [if_neg hdue] at hconnected ⊢
    dsimp only at hconnected ⊢
    by_cases hopen : c.m_state=.connected
    · rw [if_pos hopen] at hconnected
      split at hconnected
      · cases hconnected
      · exact absurd hconnected h.close_state
    · rw [if_neg hopen] at hconnected ⊢
      split at hconnected
      · cases hconnected
      · exact absurd hconnected hopen

/-- Whatever happens to a client that is connected afterwards is one of these. -/
theorem effect_step {s : Session} (h : Wired s.client) {a : Action}
    (ha : ClientSessions.Permitted s a)
    (hconnected : (ClientSessions.step lib recvLib s a).client.m_state=.connected) :
    Effect s.client (ClientSessions.step lib recvLib s a).client a := by
  cases a with
  | connect r => cases hconnected
  | disconnect =>
    exact absurd hconnected (Wired.close_state (h.of_connection rfl rfl))
  | line =>
    refine .cleared id ?_ fun _ => rfl
    rw [ClientSessions.step]
    split
    · exact newlyWritten_same rfl
    · rename_i line stale rest hrest
      rw [ClientSessions.step,hrest] at hconnected
      rcases (parse_handled lib stale s.client line).connection with ⟨-,hk⟩ | ⟨hs,-⟩
      · exact newlyWritten_same hk
      · exact absurd (hs.symm.trans hconnected) h.close_state
  | event e =>
    obtain ⟨-,-,hp,hcancelled⟩ := ha
    cases e with
    | resolved status families r now =>
      change (s.client.onResolved status families r now).m_state=_ at hconnected
      rw [onResolved_eq] at hconnected
      split at hconnected
      · exact absurd hconnected (reconnect_open _ now)
      · cases hconnected
    | connected status w now => exact effect_onConnect h hp hcancelled hconnected
    | read members delivery stale =>
      rw [ClientSessions.step,stepEvent,beginRead] at hconnected ⊢
      dsimp only at hconnected ⊢
      split at hconnected
      · exact absurd hconnected (Wired.close_state (h.of_connection rfl rfl))
      · rename_i hopen
        rw [if_neg hopen]
        exact .kept id (newlyWritten_same rfl) (fun _ => rfl) rfl
    | closed now => exact absurd hconnected (reconnect_open _ now)
    | tick now r =>
      have hsame : (ClientSessions.step lib recvLib s (.event (.tick now r))).client=s.client :=
        tick_connected h hconnected
      rw [hsame]
      exact .kept id (newlyWritten_same rfl) (fun _ => rfl) rfl
    | submit result w now =>
      exact effect_of_send (d := noteShare s.client result) h rfl rfl rfl _ rfl Iff.rfl
        (fun _ => rfl) hconnected
    | keepAlive w now =>
      exact effect_of_send (d := {s.client with m_keepAliveTimer := false}) h rfl rfl rfl _ rfl
        Iff.rfl (fun _ => rfl) hconnected
    | othersSent n => exact .kept id (newlyWritten_same rfl) (fun _ => rfl) rfl

/-- What is sent leaves the connection standing. -/
theorem Sends.connected {s : Session} {a : Action} (h : Sends s.client a) :
    (ClientSessions.step lib recvLib s a).client.m_state=.connected := by
  cases a with
  | event e =>
    cases e with
    | submit result w now =>
      obtain ⟨hs,hw,ht⟩ := h
      change (s.client.submit result w now).2.m_state=.connected
      rw [submit_eq,send_taken (show (noteShare s.client result).m_state=.connected from hs) hw ht]
      exact hs
    | keepAlive w now =>
      obtain ⟨hs,hw,ht⟩ := h
      change (Client.ping {s.client with m_keepAliveTimer := false} w now).m_state=.connected
      rw [Client.ping,send_taken (by exact hs) hw ht]
      exact hs
    | _ => exact h.elim
  | _ => exact h.elim

/-- It clears nothing. -/
theorem Sends.waiting {c : Client} {a : Action} (h : Sends c a) (since : Option UInt64) :
    ResponseDeadlines.waiting since a=since := by
  cases a with
  | event e =>
    cases e with
    | submit result w now => rfl
    | keepAlive w now => rfl
    | _ => exact h.elim
  | _ => exact h.elim

end Effects

section Deadlines

variable {lib : RapidJson} {recvLib : RecvLibrary}

/-- A tick that is due closes a connection. -/
theorem tick_closes {c : Client} (h : Wired c) (hs : c.m_state=.connected) {now : UInt64}
    (hset : c.m_expire ≠ 0) (hdue : c.m_expire.toNat ≤ now.toNat) (r : ℤ) :
    (c.tick now r).m_state=.closing := by
  have hnot : ¬(c.m_expire=0 ∨ now<c.m_expire) := by
    rw [not_or,UInt64.not_lt,UInt64.le_iff_toNat_le]
    exact ⟨hset,hdue⟩
  rcases h.close_cases with ⟨-,hopen,-⟩ | ⟨k,hclose⟩
  · exact absurd hs hopen
  · rw [Client.tick,if_neg hnot]
    dsimp only
    rw [if_pos hs,hclose]
    split
    · rename_i he
      cases he
    · rfl

/-- The deadline decides when a silence is noticed. -/
theorem noticedFrom_iff {c : Client} (h : Wired c) (hs : c.m_state=.connected) (t : UInt64) :
    NoticedFrom c t ↔ c.m_expire ≠ 0 ∧ c.m_expire.toNat ≤ t.toNat+timeout := by
  constructor
  · intro hn
    exact ⟨hn.expires,hn.bounded⟩
  · rintro ⟨hset,hbound⟩
    exact ⟨hset,hbound,fun now r hnow => tick_closes h hs hset (hbound.trans hnow) r⟩

/-- Adding the timeout to a reading of the clock does not wrap. -/
theorem toNat_deadline {now : UInt64} (h : now.toNat ≤ 2^64/1000000) :
    (now+kResponseTimeout).toNat=now.toNat+timeout := by
  have htimeout : kResponseTimeout.toNat=20000 := rfl
  rw [timeout,UInt64.toNat_add,htimeout,Nat.mod_eq_of_lt (by omega)]

/-- A deadline set at a time is in time for that time and for no earlier one. -/
theorem noticedFrom_sent {c : Client} (h : Wired c) (hs : c.m_state=.connected)
    {now t : UInt64} (hnow : now.toNat ≤ 2^64/1000000) (hexpire : c.m_expire=now+kResponseTimeout)
    (ht : t.toNat ≤ now.toNat) : NoticedFrom c t ↔ now=t := by
  have hdeadline := toNat_deadline hnow
  have htimeout : timeout=20000 := rfl
  rw [noticedFrom_iff h hs,hexpire,hdeadline,← UInt64.toNat_inj]
  constructor
  · rintro ⟨-,hbound⟩
    omega
  · intro heq
    refine ⟨?_,by omega⟩
    intro hzero
    rw [hzero,htimeout,UInt64.toNat_zero] at hdeadline
    omega

/-- What can be said of the watch in every run. -/
structure Watched (w : Watch) : Prop where
  /-- State and socket fit together. -/
  wired : Wired w.session.client
  /-- Only a connected client waits. -/
  standing : ∀ t∈w.since, w.session.client.m_state=.connected
  /-- Requests were sent in the past. -/
  past : ∀ t∈w.since, t.toNat ≤ w.now.toNat

theorem watched_start (id : ℤ) (agent : Bytes) (url : Url) (retryPause : ℤ)
    (buf blob : Cells UInt8) (now : UInt64) :
    Watched (start id agent url retryPause buf blob now) :=
  ⟨(wired_new id agent url buf blob).of_connection rfl rfl,fun _ ht => (nomatch ht),
    fun _ ht => (nomatch ht)⟩

/-- Time goes on with every action. -/
theorem now_le {w : Watch} {a : Action} (ha : Permitted w a) :
    w.now.toNat ≤ (step lib recvLib w a).now.toNat := by
  cases hnow : reading a with
  | none =>
    have hsame : (step lib recvLib w a).now=w.now := by
      show (reading a).getD w.now=w.now
      rw [hnow]
      rfl
    rw [hsame]
  | some now =>
    have hread : (step lib recvLib w a).now=now := by
      show (reading a).getD w.now=now
      rw [hnow]
      rfl
    rw [hread]
    exact (ha.2 now hnow).1

theorem waiting_mem {since : Option UInt64} {a : Action} {t : UInt64}
    (ht : t∈waiting since a) : t∈since := by
  cases a with
  | line => cases ht
  | event e =>
    cases e with
    | connected status w now => cases ht
    | _ => exact ht
  | _ => exact ht

/-- A request that waits after an action waited before, or has just been sent. -/
theorem sinceAfter_cases {w : Watch} {a : Action} {d : Client} {t : UInt64}
    (ht : t∈sinceAfter w a d) :
    d.m_state=.connected ∧ (t∈w.since ∨ t=(reading a).getD w.now) := by
  unfold sinceAfter at ht
  split at ht
  · cases ht
  · rename_i hs
    refine ⟨not_not.mp hs,?_⟩
    split at ht
    · exact .inl (waiting_mem ht)
    · cases hwait : waiting w.since a with
      | none =>
        rw [hwait] at ht
        exact .inr (Option.some.inj ht).symm
      | some t' =>
        rw [hwait] at ht
        obtain rfl : t'=t := Option.some.inj ht
        exact .inl (waiting_mem hwait)

theorem watched_step {w : Watch} (h : Watched w) {a : Action} (ha : Permitted w a) :
    Watched (step lib recvLib w a) := by
  refine ⟨wired_step recvLib h.wired ha.1.1,fun t ht => (sinceAfter_cases ht).1,?_⟩
  intro t ht
  rcases (sinceAfter_cases ht).2 with hold | rfl
  · exact (h.past t hold).trans (now_le ha)
  · exact le_rfl

/-- An action leaves every silence noticed in time exactly when it postpones none. -/
theorem noticed_step_iff {w : Watch} (h : Watched w) (hn : Noticed w) {a : Action}
    (ha : Permitted w a) : Noticed (step lib recvLib w a) ↔ NotPostponed w a := by
  have hwired : Wired (ClientSessions.step lib recvLib w.session a).client :=
    wired_step recvLib h.wired ha.1.1
  by_cases hs : (ClientSessions.step lib recvLib w.session a).client.m_state=.connected
  · have hafter : ∀ d : Client, d.m_state=.connected → sinceAfter w a d=
        if newlyWritten w.session.client d=[] then waiting w.since a
        else some ((waiting w.since a).getD ((reading a).getD w.now)) :=
      fun d hd => if_neg (not_not.mpr hd)
    have hsince : (step lib recvLib w a).since=_ := hafter _ hs
    have heffect : Effect w.session.client
        (ClientSessions.step lib recvLib w.session a).client a := effect_step h.wired ha.1.1 hs
    rcases heffect with
      ⟨now,hnow,hsends,hwritten,hexpire⟩ | ⟨hno,hwritten,hwaiting⟩ |
      ⟨hno,hwritten,hwaiting,hexpire⟩
    · have htime := (ha.2 now hnow).2
      rw [if_neg hwritten,hnow,Option.getD_some] at hsince
      cases hwait : waiting w.since a with
      | none =>
        -- the first request since the last line
        rw [hwait] at hsince
        constructor
        · intro _ t ht hsend
          rw [hsend.waiting] at hwait
          rw [hwait] at ht
          cases ht
        · intro _ t ht
          obtain rfl : now=t := Option.some.inj (hsince.symm.trans ht)
          exact (noticedFrom_sent hwired hs htime hexpire le_rfl).mpr rfl
      | some oldest =>
        rw [hwait] at hsince
        have hmem : oldest∈w.since := waiting_mem hwait
        have hle : oldest.toNat ≤ now.toNat := (h.past oldest hmem).trans (ha.2 now hnow).1
        have hiff := noticedFrom_sent hwired hs htime hexpire hle
        constructor
        · intro hnoticed t ht _
          have heq : now=oldest := hiff.mp (hnoticed oldest hsince)
          obtain rfl : oldest=t := Option.some.inj (hmem.symm.trans ht)
          rw [hnow,heq]
        · intro hnot t ht
          obtain rfl : oldest=t := Option.some.inj (hsince.symm.trans ht)
          refine hiff.mpr ?_
          rcases hsends with hsend | hnone
          · exact Option.some.inj (hnow.symm.trans (hnot oldest hmem hsend))
          · exact nomatch (hnone _).symm.trans hwait
    · refine iff_of_true ?_ fun t _ hsends => absurd hsends hno
      intro t ht
      rw [hsince,if_pos hwritten,hwaiting] at ht
      cases ht
    · refine iff_of_true ?_ fun t _ hsends => absurd hsends hno
      intro t ht
      rw [hsince,if_pos hwritten,hwaiting] at ht
      have hbefore := (noticedFrom_iff h.wired (h.standing t ht) t).mp (hn t ht)
      refine (noticedFrom_iff hwired hs t).mpr ?_
      rwa [hexpire]
  · refine iff_of_true ?_ fun t _ hsends => absurd hsends.connected hs
    intro t ht
    exact absurd (sinceAfter_cases ht).1 hs

end Deadlines

/-- In a run of a new client, with its clock, every silence after a request is noticed in time
just when no request is sent at a later time while another one waits. -/
theorem silence_noticed_iff (lib : RapidJson) (recvLib : RecvLibrary) (id : ℤ) (agent : Bytes)
    (url : Url) (retryPause : ℤ) (buf blob : Cells UInt8) (now : UInt64)
    (actions : List Action)
    (h : AlongSteps (step lib recvLib) Permitted (start id agent url retryPause buf blob now)
      actions) :
    AlongStates (step lib recvLib) Noticed (start id agent url retryPause buf blob now) actions ↔
      AlongSteps (step lib recvLib) NotPostponed
        (start id agent url retryPause buf blob now) actions :=
  alongStates_iff_alongSteps (fun _ _ hw _ ha _ => watched_step hw ha)
    (fun _ _ hw hn ha => noticed_step_iff hw hn ha)
    (watched_start id agent url retryPause buf blob now) (fun _ ht => (nomatch ht)) h

/-- A client that logs in, and sends a share before a line has come. -/
def busy : List Action :=
  [.connect 0,.event (.resolved 0 [2] 0 1000),.event (.connected 0 ⟨true,90⟩ 1001),
    .event (.submit someShare ⟨true,169⟩ 15000)]

/-- A client that logs in, and is given up. -/
def silent : List Action :=
  [.connect 0,.event (.resolved 0 [2] 0 1000),.event (.connected 0 ⟨true,90⟩ 1001),
    .event (.tick 21001 0)]

/-- The client before it connects. -/
def rigStart : Watch :=
  start 0 (text "rig") ⟨false,false,none,none⟩ 5000 (fun _ => 0) (fun _ => 0) 0

theorem opening_permitted (actions : List Action)
    (h : AlongSteps (step loginWriter plainLibrary) Permitted
      (runFrom (step loginWriter plainLibrary) rigStart (busy.take 3)) actions) :
    AlongSteps (step loginWriter plainLibrary) Permitted rigStart (busy.take 3++actions) := by
  refine (alongSteps_append _ _ _ _ _).mpr ⟨⟨⟨⟨rfl,trivial⟩,?_⟩,?_,?_,trivial⟩,h⟩
  · intro now hnow
    cases hnow
  · refine ⟨⟨⟨rfl,rfl,Nat.one_pos,trivial⟩,fun _ => rfl⟩,?_⟩
    intro now hnow
    obtain rfl := Option.some.inj hnow
    decide
  · refine ⟨⟨⟨rfl,rfl,⟨_,rfl,rfl⟩,?_⟩,trivial⟩,?_⟩
    · rintro ⟨k,⟨⟩,hclosing⟩
      cases hclosing
    · intro now hnow
      obtain rfl := Option.some.inj hnow
      decide

/-- Twenty seconds after a login that has not been answered a tick leaves the connection, as a
share was sent in between. -/
theorem busy_not_noticed :
    AlongSteps (step loginWriter plainLibrary) Permitted rigStart
      (busy++[.event (.tick 21001 0)]) ∧
    (runFrom (step loginWriter plainLibrary) rigStart busy).since=some 1001 ∧
    (runFrom (step loginWriter plainLibrary) rigStart busy).session.client.m_expire=35000 ∧
    (runFrom (step loginWriter plainLibrary) rigStart
      (busy++[.event (.tick 21001 0)])).session.client.m_state=.connected ∧
    ¬AlongStates (step loginWriter plainLibrary) Noticed rigStart busy := by
  have hsince : (runFrom (step loginWriter plainLibrary) rigStart busy).since=some 1001 := rfl
  have hexpire : (runFrom (step loginWriter plainLibrary) rigStart
      busy).session.client.m_expire=35000 := rfl
  refine ⟨?_,hsince,hexpire,rfl,?_⟩
  · refine opening_permitted [.event (.submit someShare ⟨true,169⟩ 15000),
      .event (.tick 21001 0)] ⟨⟨⟨⟨rfl,rfl,trivial,trivial⟩,trivial⟩,?_⟩,
      ⟨⟨⟨rfl,rfl,trivial,trivial⟩,trivial⟩,?_⟩,trivial⟩
    · intro now hnow
      obtain rfl := Option.some.inj hnow
      decide
    · intro now hnow
      obtain rfl := Option.some.inj hnow
      decide
  · intro h
    have hbound := (h.last 1001 hsince).bounded
    rw [hexpire] at hbound
    exact absurd hbound (by decide)

/-- Twenty seconds after a login that nothing was sent after a tick gives the connection up. -/
theorem silent_noticed :
    AlongStates (step loginWriter plainLibrary) Noticed rigStart silent ∧
    (runFrom (step loginWriter plainLibrary) rigStart silent).session.client.m_state=.closing := by
  have hpermitted : AlongSteps (step loginWriter plainLibrary) Permitted rigStart silent := by
    refine opening_permitted [.event (.tick 21001 0)]
      ⟨⟨⟨⟨rfl,rfl,trivial,trivial⟩,trivial⟩,?_⟩,trivial⟩
    intro now hnow
    obtain rfl := Option.some.inj hnow
    decide
  refine ⟨(silence_noticed_iff loginWriter plainLibrary 0 (text "rig") ⟨false,false,none,none⟩
    5000 (fun _ => 0) (fun _ => 0) 0 silent hpermitted).mpr ?_,rfl⟩
  exact ⟨fun _ _ h => h.elim,fun _ _ h => h.elim,fun _ _ h => h.elim,fun _ _ h => h.elim,trivial⟩

end XmrigCC.ResponseDeadlines
