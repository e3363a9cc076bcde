import XmrigCC.SendBuffer
import XmrigCC.LoginResponses

/-!
# What a connection carries

`Client::send` is the one place where bytes leave a client. A wire follows the bytes
that the present connection has taken and the texts formatted in `m_sendBuf` since it
was opened. `send` looks at the sign of what `uv_try_write` returns, so a write that is
cut short counts as sent.
-/

namespace XmrigCC.WireMessages

open ByteText CellMemory TransitionRuns PoolMessages ReceiveBuffer ClientLines ClientSessions
open PoolClientPhases (parse_handled send_refused send_failed send_taken login_too_long
  login_filled Unresolved onResolved_eq)
open PoolClient hiding step Permitted
open PoolClientLiveness (rig)
open LoginResponses (responseReader)

/-- A call of `Client::send`. -/
structure Sending where
  /-- The client that calls it. -/
  caller : Client
  /-- The text in `m_sendBuf`, of the size it is called with. -/
  message : Bytes
  /-- What libuv reports in it. -/
  w : WriteResult
  /-- The time. -/
  now : UInt64

/-- What `send` returns. -/
def Sending.returned (x : Sending) : ℤ := (x.caller.send x.message x.w x.now).1

/-- The client after the call. -/
def Sending.after (x : Sending) : Client := (x.caller.send x.message x.w x.now).2

/-- `uv_try_write` is reached. -/
def Sending.Attempted (x : Sending) : Prop := x.caller.m_state=.connected ∧ x.w.writable=true

instance (x : Sending) : Decidable x.Attempted :=
  inferInstanceAs (Decidable (_ ∧ _))

/-- The bytes that the socket takes. -/
def Sending.taken (x : Sending) : Bytes :=
  if x.Attempted then x.message.take x.w.tryWrite.toNat else []

/-- The call of `send` in `Client::login`, if the text is not too long. -/
def loginSending (lib : RapidJson) (c : Client) (w : WriteResult) (now : UInt64) :
    Option Sending :=
  if bufSize-2<(c.loginText lib).length then none
  else some ⟨Client.fillSendBuf {c with m_results := []} (c.loginText lib).length,
    c.loginText lib++[newline],w,now⟩

/-- The call of `send` in an action. -/
def sendingOf (lib : RapidJson) (c : Client) : Action → Option Sending
  | .event (.connected status w now) =>
    if status<0 then none else loginSending lib (connected c) w now
  | .event (.submit result w now) =>
    some ⟨noteShare c result,submitRequest c.m_sequence c.m_rpcId result,w,now⟩
  | .event (.keepAlive w now) =>
    some ⟨{c with m_keepAliveTimer := false},pingRequest c.m_sequence c.m_rpcId,w,now⟩
  | _ => none

/-- The action opens a new socket, or leaves the client without one. -/
def ChangesSocket : Action → Prop
  | .event (.resolved status families _ _) => ¬Unresolved status families
  | .event (.closed _) => True
  | _ => False

instance : DecidablePred ChangesSocket
  | .event (.resolved _ _ _ _) => inferInstanceAs (Decidable (¬(_ ∨ _)))
  | .event (.closed _) => inferInstanceAs (Decidable True)
  | .event (.connected _ _ _) => inferInstanceAs (Decidable False)
  | .event (.read _ _ _) => inferInstanceAs (Decidable False)
  | .event (.tick _ _) => inferInstanceAs (Decidable False)
  | .event (.submit _ _ _) => inferInstanceAs (Decidable False)
  | .event (.keepAlive _ _) => inferInstanceAs (Decidable False)
  | .event (.othersSent _) => inferInstanceAs (Decidable False)
  | .connect _ => inferInstanceAs (Decidable False)
  | .disconnect => inferInstanceAs (Decidable False)
  | .line => inferInstanceAs (Decidable False)

/-- A client with what its present connection carries. -/
structure Wire where
  /-- The client and the lines of its read. -/
  session : Session
  /-- Bytes written on the connection. -/
  bytes : Bytes
  /-- Texts formatted in `m_sendBuf` since it was opened. -/
  formatted : List Bytes

/-- One action. -/
def step (lib : RapidJson) (recvLib : RecvLibrary) (v : Wire) (a : Action) : Wire :=
  match sendingOf lib v.session.client a with
  | some x =>
    ⟨ClientSessions.step lib recvLib v.session a,v.bytes++x.taken,v.formatted++[x.message]⟩
  | none =>
    if ChangesSocket a then ⟨ClientSessions.step lib recvLib v.session a,[],[]⟩
    else ⟨ClientSessions.step lib recvLib v.session a,v.bytes,v.formatted⟩

/-- A new client. -/
def newWire (id : ℤ) (agent : Bytes) (url : Url) (buf blob : Cells UInt8) : Wire :=
  ⟨⟨Client.new id agent url buf blob,[]⟩,[],[]⟩

/-- An action with defined behaviour. -/
def Defined (v : Wire) (a : Action) : Prop := ClientSessions.Defined v.session a

/-- What libuv documents of `uv_try_write`: an error, or the number of bytes written, which
is not zero and not more than the size given. -/
def Documented (lib : RapidJson) (v : Wire) (a : Action) : Prop :=
  ∀ x∈sendingOf lib v.session.client a, x.Attempted →
    x.w.tryWrite<0 ∨ 1 ≤ x.w.tryWrite ∧ x.w.tryWrite ≤ x.message.length

/-- No write is cut short. -/
def WritesWhole (lib : RapidJson) (v : Wire) (a : Action) : Prop :=
  ∀ x∈sendingOf lib v.session.client a, x.Attempted →
    x.w.tryWrite<0 ∨ x.w.tryWrite=x.message.length

/-- The bytes are whole messages one after another, each a text formatted in `m_sendBuf` with
its '\n', unless the connection is being closed. -/
def Complete (v : Wire) : Prop :=
  v.session.client.m_state=.closing ∨
    ∃ messages : List Bytes, messages.Sublist v.formatted ∧
      (∀ m∈messages, ∃ body, m=body++[newline]) ∧ v.bytes=messages.flatten

/-- `send` returns a number only for a message written whole. -/
def NumbersWhole (lib : RapidJson) (v : Wire) (a : Action) : Prop :=
  ∀ x∈sendingOf lib v.session.client a, x.returned ≠ -1 → x.taken=x.message

section Sending

variable {lib : RapidJson} {c : Client}

/-- Everything sent in a step is sent by one call of `send`, which is the last thing done. -/
theorem step_of_sending (recvLib : RecvLibrary) {s : Session} {a : Action} {x : Sending}
    (h : sendingOf lib s.client a=some x) :
    ClientSessions.step lib recvLib s a=⟨x.after,s.rest⟩ := by
  unfold sendingOf at h
  split at h
  · rename_i status w now
    split at h
    · cases h
    · rename_i hstatus
      rw [loginSending] at h
      split at h
      · cases h
      · rename_i hlong
        have hlogin : (connected s.client).login lib w now=_ := login_filled hlong
        change (⟨s.client.onConnect lib status w now,s.rest⟩ : Session)=_
        rw [onConnect_eq,if_neg hstatus,hlogin,←Option.some.inj h]
        rfl
  · rw [←Option.some.inj h]
    rfl
  · rw [←Option.some.inj h]
    rfl
  · cases h

/-- Every message formatted ends with '\n'. -/
theorem message_terminated {a : Action} {x : Sending} (h : sendingOf lib c a=some x) :
    ∃ body, x.message=body++[newline] := by
  unfold sendingOf at h
  split at h
  · split at h
    · cases h
    · rw [loginSending] at h
      split at h
      · cases h
      · rw [←Option.some.inj h]
        exact ⟨_,rfl⟩
  · have hend : text "\"\x7d\x7d\n"=text "\"\x7d\x7d"++[newline] := rfl
    rw [←Option.some.inj h,submitRequest,hend,←List.append_assoc]
    exact ⟨_,rfl⟩
  · have hend : text "\"\x7d\x7d\n"=text "\"\x7d\x7d"++[newline] := rfl
    rw [←Option.some.inj h,pingRequest,hend,←List.append_assoc]
    exact ⟨_,rfl⟩
  · cases h

/-- `send` returns no number for a message it does not try to write. -/
theorem returned_of_refused {x : Sending} (h : ¬x.Attempted) : x.returned=-1 := by
  rw [Sending.Attempted,not_and_or,Bool.not_eq_true] at h
  rw [Sending.returned,send_refused h]

/-- Nor for one that is not taken. -/
theorem returned_of_failed {x : Sending} (h : x.Attempted) (hw : x.w.tryWrite<0) :
    x.returned=-1 := by
  rw [Sending.returned,send_failed h.1 h.2 hw]

/-- Any other message gets the next number. -/
theorem returned_of_taken {x : Sending} (h : x.Attempted) (hw : ¬x.w.tryWrite<0) :
    x.returned=x.caller.m_sequence := by
  rw [Sending.returned,send_taken h.1 h.2 hw]

/-- A failed write takes no byte. -/
theorem taken_of_failed {x : Sending} (hw : x.w.tryWrite<0) : x.taken=[] := by
  rw [Sending.taken,Int.toNat_of_nonpos hw.le,List.take_zero,ite_self]

/-- The whole message is taken exactly when its size is returned. -/
theorem taken_eq_message_iff {x : Sending} (h : x.Attempted) (hlow : 0 ≤ x.w.tryWrite)
    (hhigh : x.w.tryWrite ≤ x.message.length) :
    x.taken=x.message ↔ x.w.tryWrite=x.message.length := by
  rw [Sending.taken,if_pos h,List.take_eq_self_iff]
  omega

/-- Without a short write, a message is written whole or not at all. -/
theorem taken_cases {x : Sending} (h : x.Attempted → x.w.tryWrite<0 ∨
    x.w.tryWrite=x.message.length) : x.taken=[] ∨ x.taken=x.message := by
  by_cases hattempted : x.Attempted
  · rcases h hattempted with hfails|hwhole
    · exact Or.inl (taken_of_failed hfails)
    · have htaken := taken_eq_message_iff hattempted (by omega) hwhole.le
      exact Or.inr (htaken.mpr hwhole)
  · exact Or.inl (if_neg hattempted)

/-- A short write gets a number all the same: under a number that is not -1, returning numbers
only for whole messages is writing no message short. -/
theorem numbersWhole_iff {x : Sending} (hsequence : x.caller.m_sequence ≠ -1)
    (hlibuv : x.Attempted → x.w.tryWrite<0 ∨ 1 ≤ x.w.tryWrite ∧
      x.w.tryWrite ≤ x.message.length) :
    (x.returned ≠ -1 → x.taken=x.message) ↔
      (x.Attempted → x.w.tryWrite<0 ∨ x.w.tryWrite=x.message.length) := by
  by_cases hattempted : x.Attempted
  · rw [forall_prop_of_true hattempted]
    rcases hlibuv hattempted with hfails|⟨hlow,hhigh⟩
    · have hreturned := returned_of_failed hattempted hfails
      exact iff_of_true (fun hne => absurd hreturned hne) (Or.inl hfails)
    · have hnumber : x.returned ≠ -1 := by
        rw [returned_of_taken hattempted (by omega)]
        exact hsequence
      have htaken := taken_eq_message_iff hattempted (by omega) hhigh
      rw [forall_prop_of_true hnumber,htaken,or_iff_right (by omega)]
  · have hreturned := returned_of_refused hattempted
    exact iff_of_true (fun hne => absurd hreturned hne) fun h => absurd h hattempted

end Sending

section Invariant

variable {lib : RapidJson} {recvLib : RecvLibrary} {c : Client} {bytes : Bytes}

/-- The messages recorded on the socket, if there is one, are these bytes. -/
def Carries (c : Client) (bytes : Bytes) : Prop := ∀ k∈c.m_socket, bytes=k.written.flatten

/-- From one client to the other the socket records nothing, and numbers do not fall. -/
structure Quiet (c d : Client) : Prop where
  /-- The messages recorded. -/
  written : ∀ k∈d.m_socket, ∃ k'∈c.m_socket, k.written=k'.written
  /-- The number of the next message. -/
  sequence : c.m_sequence ≤ d.m_sequence

theorem Carries.quiet {d : Client} (h : Carries c bytes) (hq : Quiet c d) : Carries d bytes := by
  intro k hk
  obtain ⟨k',hk',hsame⟩ := hq.written k hk
  rw [hsame]
  exact h k' hk'

theorem Quiet.of_eq {d : Client} (hk : d.m_socket=c.m_socket)
    (hsequence : d.m_sequence=c.m_sequence) : Quiet c d := by
  refine ⟨?_,hsequence.ge⟩
  rw [hk]
  exact fun k hk => ⟨k,hk,rfl⟩

theorem Quiet.trans {d e : Client} (h : Quiet c d) (h' : Quiet d e) : Quiet c e := by
  refine ⟨?_,h.sequence.trans h'.sequence⟩
  intro k hk
  obtain ⟨k',hk',hsame⟩ := h'.written k hk
  obtain ⟨k'',hk'',hsame'⟩ := h.written k' hk'
  exact ⟨k'',hk'',hsame.trans hsame'⟩

/-- Only the messages recorded matter. -/
theorem Quiet.of_map {d : Client} (f : Socket → Socket) (hk : d.m_socket=c.m_socket.map f)
    (hf : ∀ k, (f k).written=k.written) (hsequence : d.m_sequence=c.m_sequence) : Quiet c d := by
  refine ⟨?_,hsequence.ge⟩
  intro k hmem
  rw [hk] at hmem
  obtain ⟨k',hk',rfl⟩ := Option.mem_map.mp hmem
  exact ⟨k',hk',hf k'⟩

theorem quiet_close (c : Client) : Quiet c c.close := by
  refine ⟨?_,(close_m_sequence c).ge⟩
  rcases close_cases c with hsame|⟨k,hk,hclose⟩
  · rw [hsame]
    exact fun k hk => ⟨k,hk,rfl⟩
  · rw [hclose]
    intro k' hk'
    rw [←Option.some.inj hk']
    exact ⟨k,hk,rfl⟩

theorem quiet_tick (c : Client) (now : UInt64) (r : ℤ) : Quiet c (c.tick now r) := by
  have hconnect : ∀ d : Client, Quiet d (d.connect r) := fun d => Quiet.of_eq rfl rfl
  rw [Client.tick]
  split
  · exact Quiet.of_eq rfl rfl
  · dsimp only
    split
    · split
      · exact (quiet_close c).trans (hconnect _)
      · exact quiet_close c
    · split
      · exact hconnect _
      · exact Quiet.of_eq rfl rfl

/-- Nothing is recorded before `send` is called, and the number is that of the client at
hand. -/
theorem caller_quiet {a : Action} {x : Sending} (hx : sendingOf lib c a=some x) :
    Quiet c x.caller ∧ x.caller.m_sequence=c.m_sequence := by
  unfold sendingOf at hx
  split at hx
  · split at hx
    · cases hx
    · rw [loginSending] at hx
      split at hx
      · cases hx
      · rw [←Option.some.inj hx]
        exact ⟨Quiet.of_map _ rfl (fun _ => rfl) rfl,rfl⟩
  · rw [←Option.some.inj hx]
    exact ⟨Quiet.of_eq rfl rfl,rfl⟩
  · rw [←Option.some.inj hx]
    exact ⟨Quiet.of_eq rfl rfl,rfl⟩
  · cases hx

/-- A call of `send` that writes the message whole or not at all has it recorded on the socket
exactly when it is written. -/
theorem Carries.after {x : Sending} (h : Carries x.caller bytes)
    (hwhole : x.Attempted → x.w.tryWrite<0 ∨ x.w.tryWrite=x.message.length) :
    Carries x.after (bytes++x.taken) := by
  by_cases hattempted : x.Attempted
  · by_cases hfails : x.w.tryWrite<0
    · rw [Sending.after,send_failed hattempted.1 hattempted.2 hfails,taken_of_failed hfails,
        List.append_nil]
      exact h.quiet (quiet_close _)
    · have hsize := (hwhole hattempted).resolve_left hfails
      have htaken := (taken_eq_message_iff hattempted (by omega) hsize.le).mpr hsize
      rw [Sending.after,send_taken hattempted.1 hattempted.2 hfails,htaken]
      intro k hk
      obtain ⟨k',hk',rfl⟩ := Option.mem_map.mp hk
      rw [List.flatten_append,List.flatten_singleton,h k' hk']
  · have htaken : x.taken=[] := if_neg hattempted
    rw [Sending.Attempted,not_and_or,Bool.not_eq_true] at hattempted
    rw [Sending.after,send_refused hattempted,htaken,List.append_nil]
    exact h

/-- An action that sends nothing and keeps the socket is quiet. -/
theorem quiet_step {s : Session} {a : Action} (hx : sendingOf lib s.client a=none)
    (ha : ¬ChangesSocket a) : Quiet s.client (ClientSessions.step lib recvLib s a).client := by
  cases a with
  | connect r => exact Quiet.of_eq rfl rfl
  | disconnect =>
    have hcleared : Quiet s.client {s.client with
      m_keepAliveTimer := false,m_expire := 0,m_failures := -1} := Quiet.of_eq rfl rfl
    exact hcleared.trans (quiet_close _)
  | line =>
    rw [ClientSessions.step]
    split
    · exact Quiet.of_eq rfl rfl
    · rename_i line stale rest _
      have hsequence := (parse_frame lib stale s.client line).1
      rcases (parse_handled lib stale s.client line).connection with ⟨-,hk⟩|⟨-,hk⟩
      · exact Quiet.of_eq hk hsequence
      · exact (quiet_close _).trans (Quiet.of_eq hk (hsequence.trans (close_m_sequence _).symm))
  | event e =>
    cases e with
    | resolved status families r now =>
      have hfails : Unresolved status families := not_not.mp ha
      have hframe := reconnect_frame {s.client with lookups := s.client.lookups-1} now
      change Quiet s.client (s.client.onResolved status families r now)
      rw [onResolved_eq,if_pos hfails]
      exact Quiet.of_eq hframe.1 hframe.2.2.2.1
    | connected status w now =>
      have hcalled : Quiet s.client (calledBack s.client) :=
        Quiet.of_map _ rfl (fun _ => rfl) rfl
      have hconnected : Quiet s.client (connected s.client) :=
        Quiet.of_map _ rfl (fun _ => rfl) rfl
      change Quiet s.client (s.client.onConnect lib status w now)
      rw [onConnect_eq]
      rw [sendingOf,loginSending] at hx
      split at hx
      · rename_i hstatus
        rw [if_pos hstatus]
        exact hcalled.trans (quiet_close _)
      · rename_i hstatus
        split at hx
        · rename_i hlong
          rw [if_neg hstatus,login_too_long hlong]
          exact hconnected.trans (Quiet.of_eq rfl rfl)
        · cases hx
    | read members delivery stale =>
      have hreceived : Quiet s.client (s.client.received
          (deliver recvLib (s.client.buffer members) delivery)) := Quiet.of_eq rfl rfl
      rw [ClientSessions.step,stepEvent,beginRead]
      dsimp only
      split
      · exact hreceived.trans (quiet_close _)
      · exact hreceived
    | closed now => exact absurd trivial ha
    | tick now r => exact quiet_tick s.client now r
    | submit result w now => cases hx
    | keepAlive w now => cases hx
    | othersSent n =>
      exact ⟨fun k hk => ⟨k,hk,rfl⟩,Int.le_add_of_nonneg_right (Int.natCast_nonneg n)⟩

/-- A new socket has carried nothing. -/
theorem carries_changed {s : Session} {a : Action} (ha : ChangesSocket a) :
    Carries (ClientSessions.step lib recvLib s a).client [] := by
  unfold ChangesSocket at ha
  split at ha
  · rename_i status families r now
    change Carries (s.client.onResolved status families r now) []
    rw [onResolved_eq,if_neg ha]
    intro k hk
    rw [←Option.some.inj hk]
    rfl
  · rename_i now
    change Carries (s.client.onClose now) []
    rw [Client.onClose,Carries,(reconnect_frame _ now).1]
    intro k hk
    cases hk
  · exact ha.elim

/-- `send` moves to the next number or keeps the present one. -/
theorem Sending.after_sequence (x : Sending) : x.caller.m_sequence ≤ x.after.m_sequence := by
  rw [Sending.after,Client.send]
  split
  · exact le_rfl
  · split
    · exact (close_m_sequence x.caller).ge
    · exact (Int.lt_succ _).le

/-- A new socket does not change the number of the next message. -/
theorem changed_sequence {s : Session} {a : Action} (ha : ChangesSocket a) :
    (ClientSessions.step lib recvLib s a).client.m_sequence=s.client.m_sequence := by
  unfold ChangesSocket at ha
  split at ha
  · rename_i status families r now
    change (s.client.onResolved status families r now).m_sequence=s.client.m_sequence
    rw [onResolved_eq,if_neg ha]
    rfl
  · rename_i now
    exact (reconnect_frame _ now).2.2.2.1
  · exact ha.elim

/-- Numbers grow. -/
theorem step_sequence (s : Session) (a : Action) :
    s.client.m_sequence ≤ (ClientSessions.step lib recvLib s a).client.m_sequence := by
  cases hx : sendingOf lib s.client a with
  | some x =>
    rw [step_of_sending recvLib hx,←(caller_quiet hx).2]
    exact x.after_sequence
  | none =>
    by_cases ha : ChangesSocket a
    · exact (changed_sequence ha).ge
    · exact (quiet_step hx ha).sequence

end Invariant

section Runs

variable {lib : RapidJson} {recvLib : RecvLibrary}

/-- What holds of a wire as long as no write is cut short. -/
structure Intact (v : Wire) : Prop where
  /-- The bytes are whole messages. -/
  whole : ∃ messages : List Bytes, messages.Sublist v.formatted ∧
    (∀ m∈messages, ∃ body, m=body++[newline]) ∧ v.bytes=messages.flatten
  /-- They are the messages recorded on the socket. -/
  carried : Carries v.session.client v.bytes

/-- A step without a short write keeps the wire intact. -/
theorem intact_step {v : Wire} (h : Intact v) {a : Action} (hw : WritesWhole lib v a) :
    Intact (step lib recvLib v a) := by
  obtain ⟨messages,hsub,hend,hbytes⟩ := h.whole
  rw [step]
  split
  · rename_i x hx
    have hmessage := hw x hx
    have hcaller : Carries x.caller v.bytes := h.carried.quiet (caller_quiet hx).1
    refine ⟨?_,?_⟩
    · rcases taken_cases hmessage with hnone|hwhole
      · refine ⟨messages,hsub.trans (List.sublist_append_left _ _),hend,?_⟩
        rw [hnone,List.append_nil]
        exact hbytes
      · refine ⟨messages++[x.message],hsub.append (List.Sublist.refl _),?_,?_⟩
        · intro m hm
          rcases List.mem_append.mp hm with hold|hlast
          · exact hend m hold
          · rw [List.mem_singleton.mp hlast]
            exact message_terminated hx
        · rw [hwhole,List.flatten_append,List.flatten_singleton,←hbytes]
    · rw [step_of_sending recvLib hx]
      exact hcaller.after hmessage
  · rename_i hx
    split
    · rename_i ha
      exact ⟨⟨[],List.nil_sublist _,fun m hm => absurd hm List.not_mem_nil,rfl⟩,
        carries_changed ha⟩
    · rename_i ha
      exact ⟨⟨messages,hsub,hend,hbytes⟩,h.carried.quiet (quiet_step hx ha)⟩

/-- In a run that starts with number 1 and keeps to what libuv documents, numbers are returned
only for whole messages exactly when no write is cut short. -/
theorem numbersWhole_step_iff {v : Wire} {a : Action} (hfirst : 1 ≤ v.session.client.m_sequence)
    (hlibuv : Documented lib v a) : NumbersWhole lib v a ↔ WritesWhole lib v a := by
  refine forall₂_congr fun x hx => numbersWhole_iff ?_ (hlibuv x hx)
  rw [(caller_quiet hx).2]
  omega

/-- The wire stays intact in every run without a short write. -/
theorem intact_alongStates {v : Wire} {actions : List Action} (h : Intact v)
    (hwhole : AlongSteps (step lib recvLib) (WritesWhole lib) v actions) :
    AlongStates (step lib recvLib) Intact v actions :=
  invariant_alongStates (fun _ _ hv hw => intact_step hv hw) h hwhole

/-- Every message is complete on the wire then. -/
theorem complete_of_whole {v : Wire} {actions : List Action} (h : Intact v)
    (hwhole : AlongSteps (step lib recvLib) (WritesWhole lib) v actions) :
    AlongStates (step lib recvLib) Complete v actions :=
  (intact_alongStates h hwhole).imp fun _ hv => Or.inr hv.whole

/-- And the messages recorded on the socket are what it has carried. -/
theorem carries_of_whole {v : Wire} {actions : List Action} (h : Intact v)
    (hwhole : AlongSteps (step lib recvLib) (WritesWhole lib) v actions) :
    AlongStates (step lib recvLib) (fun v => Carries v.session.client v.bytes) v actions :=
  (intact_alongStates h hwhole).imp fun _ hv => hv.carried

theorem step_session (v : Wire) (a : Action) :
    (step lib recvLib v a).session=ClientSessions.step lib recvLib v.session a := by
  rw [step]
  split
  · rfl
  · split <;> rfl

/-- A new client has sent nothing. -/
theorem intact_new (id : ℤ) (agent : Bytes) (url : Url) (buf blob : Cells UInt8) :
    Intact (newWire id agent url buf blob) :=
  ⟨⟨[],List.nil_sublist _,fun _ hm => absurd hm List.not_mem_nil,rfl⟩,fun _ hk => nomatch hk⟩

/-- Complete messages. In every run of a client, the bytes of a connection are at all times
whole messages unless it is being closed, and `send` returns numbers only for messages
written whole, exactly when each `uv_try_write` fails or takes all it is given. -/
theorem complete_iff {lib : RapidJson} {recvLib : RecvLibrary} {id : ℤ} {agent : Bytes}
    {url : Url} {buf blob : Cells UInt8} {actions : List Action}
    (hlibuv : AlongSteps (step lib recvLib) (Documented lib) (newWire id agent url buf blob)
      actions) :
    (AlongStates (step lib recvLib) Complete (newWire id agent url buf blob) actions ∧
      AlongSteps (step lib recvLib) (NumbersWhole lib) (newWire id agent url buf blob)
        actions) ↔
    AlongSteps (step lib recvLib) (WritesWhole lib) (newWire id agent url buf blob)
      actions := by
  have hfirst : 1 ≤ (newWire id agent url buf blob).session.client.m_sequence := by
    change (1:ℤ) ≤ 1
    exact le_rfl
  have hnumbers : AlongSteps (step lib recvLib) (NumbersWhole lib)
        (newWire id agent url buf blob) actions ↔
      AlongSteps (step lib recvLib) (WritesWhole lib) (newWire id agent url buf blob)
        actions := by
    refine alongSteps_congr_of_invariant (I:=fun v => 1 ≤ v.session.client.m_sequence) ?_
      (fun v a hv hd => numbersWhole_step_iff hv hd) hfirst hlibuv
    intro v a hv _
    rw [step_session]
    exact hv.trans (step_sequence v.session a)
  constructor
  · intro h
    exact hnumbers.mp h.2
  · intro h
    exact ⟨complete_of_whole (intact_new id agent url buf blob) h,hnumbers.mpr h⟩

/-- A client whose login is written with this result. -/
def loginRun (tryWrite : ℤ) : List Action :=
  [.connect 0,.event (.resolved 0 [2] 0 1000),.event (.connected 0 ⟨true,tryWrite⟩ 1001)]

/-- A new client. -/
def rigWire : Wire := newWire 0 (text "rig") ⟨false,false,none,none⟩ (fun _ => 0) fun _ => 0

/-- The client when the callback of its connect is due. -/
def dialling : Client := (rig.connect 0).onResolved 0 [2] 0 1000

/-- The login that is sent then. -/
def loginSent (tryWrite : ℤ) : Sending :=
  ⟨Client.fillSendBuf {connected dialling with m_results := []}
      (rig.loginText responseReader).length,
    rig.loginText responseReader++[newline],⟨true,tryWrite⟩,1001⟩

theorem loginSent_size (tryWrite : ℤ) : (loginSent tryWrite).message.length=90 := rfl

theorem sendingOf_login (tryWrite : ℤ) :
    sendingOf responseReader dialling (.event (.connected 0 ⟨true,tryWrite⟩ 1001))=
      some (loginSent tryWrite) := by
  have hfits : ¬bufSize-2<((connected dialling).loginText responseReader).length := by
    decide +kernel
  rw [sendingOf,if_neg (by decide),loginSending,if_neg hfits]
  rfl

/-- An action that sends one message meets a condition when the message does. -/
theorem sending_only {P : Sending → Prop} {c : Client} {a : Action} {x : Sending}
    (hx : sendingOf lib c a=some x) (h : P x) : ∀ y∈sendingOf lib c a, P y := by
  intro y hy
  rw [←Option.some.inj (hx.symm.trans hy)]
  exact h

theorem loginRun_steps (P : Sending → Prop) (tryWrite : ℤ) (h : P (loginSent tryWrite)) :
    AlongSteps (step responseReader ReceiveBufferRuns.plainLibrary)
      (fun v a => ∀ x∈sendingOf responseReader v.session.client a, P x) rigWire
      (loginRun tryWrite) :=
  ⟨fun _ hx => (nomatch hx),fun _ hx => (nomatch hx),
    sending_only (sendingOf_login tryWrite) h,trivial⟩

/-- A login of 90 bytes that is taken whole. -/
theorem whole_login_complete :
    AlongStates (step responseReader ReceiveBufferRuns.plainLibrary) Complete rigWire
        (loginRun 90) ∧
      AlongSteps (step responseReader ReceiveBufferRuns.plainLibrary)
        (NumbersWhole responseReader) rigWire (loginRun 90) :=
  (complete_iff (loginRun_steps _ 90 fun _ => Or.inr ⟨by decide,by
    rw [loginSent_size]
    exact le_rfl⟩)).mpr
    (loginRun_steps _ 90 fun _ => Or.inr (by rw [loginSent_size]; rfl))

/-- Of a login of 90 bytes 10 are taken: the connection stays, and the next message would
follow them. -/
theorem short_login_not_complete :
    AlongSteps (step responseReader ReceiveBufferRuns.plainLibrary) Defined rigWire
      (loginRun 10) ∧
    AlongSteps (step responseReader ReceiveBufferRuns.plainLibrary) (Documented responseReader)
      rigWire (loginRun 10) ∧
    ¬AlongStates (step responseReader ReceiveBufferRuns.plainLibrary) Complete rigWire
      (loginRun 10) ∧
    ¬AlongSteps (step responseReader ReceiveBufferRuns.plainLibrary)
      (NumbersWhole responseReader) rigWire (loginRun 10) := by
  have hopened : runFrom (step responseReader ReceiveBufferRuns.plainLibrary) rigWire
      (loginRun 10)=
      ⟨⟨(loginSent 10).after,[]⟩,(loginSent 10).taken,[(loginSent 10).message]⟩ := rfl
  have hsize : (loginSent 10).taken.length=10 := rfl
  have hdocumented : Documented responseReader ⟨⟨dialling,[]⟩,[],[]⟩
      (.event (.connected 0 ⟨true,10⟩ 1001)) :=
    sending_only (sendingOf_login 10) fun _ => Or.inr ⟨by decide,by
      rw [loginSent_size]
      decide⟩
  refine ⟨⟨⟨rfl,trivial⟩,⟨⟨rfl,rfl,Nat.one_pos,trivial⟩,fun _ => rfl⟩,
    ⟨⟨rfl,rfl,⟨_,rfl,rfl⟩,?_⟩,trivial⟩,trivial⟩,
    loginRun_steps _ 10 (hdocumented _ (sendingOf_login 10)),?_,?_⟩
  · rintro ⟨k,hk,hclosing⟩
    rw [←Option.some.inj hk] at hclosing
    cases hclosing
  · intro h
    have hlast := h.last
    rw [hopened] at hlast
    rcases hlast with hclosing|⟨messages,hsub,-,hbytes⟩
    · cases hclosing
    · have hlength := congrArg List.length hbytes
      dsimp only at hlength
      rw [hsize] at hlength
      rcases List.sublist_singleton.mp hsub with rfl|rfl
      · cases hlength
      · rw [List.flatten_singleton,loginSent_size] at hlength
        omega
  · rintro ⟨-,-,hnumbers,-⟩
    have hnumber : (loginSent 10).returned ≠ -1 := by
      rw [returned_of_taken ⟨rfl,rfl⟩ (by decide)]
      decide
    have hwhole := congrArg List.length (hnumbers _ (sendingOf_login 10) hnumber)
    rw [hsize,loginSent_size] at hwhole
    omega

end Runs

end XmrigCC.WireMessages
