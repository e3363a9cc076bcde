import XmrigCC.ClientSessions

/-!
# Lookups and sockets of a client

Left to itself a client never starts a lookup while one is pending, and never
meets the old socket when it connects. Its owner keeps it so by connecting it
only when it is idle.
-/

namespace XmrigCC.ClientHandles

open ByteText CellMemory PoolMessages ReceiveBuffer ClientLines
open ClientSessions hiding step Permitted Defined
open PoolClientPhases (parse_handled send_refused send_failed send_taken login_too_long
  login_filled Unresolved onResolved_eq close_of_socket)
open PoolClient hiding step Permitted Event

section Settled

variable {lib : RapidJson} {c d : Client} {w : WriteResult} {now : UInt64}

/-- The lookup, the socket and the time of the next attempt of a client exclude each other. -/
structure Settled (c : Client) : Prop where
  /-- State and socket fit together. -/
  wired : Wired c
  /-- A pending lookup is the only one, and nothing else is under way. -/
  lookup : 0<c.lookups → c.lookups=1 ∧ c.m_socket=none ∧ c.m_expire=0
  /-- `tick` does not act on a client that is connecting. -/
  waiting : c.m_state=.connecting → c.m_socket ≠ none → c.m_expire=0

/-- A client with a socket has no lookup pending. -/
theorem Settled.no_lookup (h : Settled c) (hk : c.m_socket ≠ none) : c.lookups=0 := by
  by_contra hne
  exact hk (h.lookup (Nat.pos_of_ne_zero hne)).2.1

/-- Other members do not matter. -/
theorem Settled.of_frame (h : Settled c) (hs : d.m_state=c.m_state) (hk : d.m_socket=c.m_socket)
    (hl : d.lookups=c.lookups) (he : d.m_expire=c.m_expire ∨ d.m_expire=0) : Settled d := by
  refine ⟨h.wired.of_connection hs hk,?_,?_⟩
  · rw [hl,hk]
    intro hlookups
    obtain ⟨hone,hnone,hexpire⟩ := h.lookup hlookups
    rcases he with he|he
    · exact ⟨hone,hnone,he.trans hexpire⟩
    · exact ⟨hone,hnone,he⟩
  · rw [hs,hk]
    intro hstate hsocket
    rcases he with he|he
    · exact he.trans (h.waiting hstate hsocket)
    · exact he

theorem Settled.close (h : Settled c) : Settled c.close := by
  rcases close_cases c with hsame|⟨k,hk,hclose⟩
  · rw [hsame]
    exact h
  · have hnone : c.lookups=0 := h.no_lookup fun hn => nomatch hn.symm.trans hk
    refine ⟨h.wired.close,?_,?_⟩
    · rw [close_lookups,hnone]
      exact fun hlt => absurd hlt (lt_irrefl 0)
    · rw [hclose]
      exact fun hs => nomatch hs

theorem Settled.send (h : Settled c) (message : Bytes) : Settled (c.send message w now).2 := by
  have hw : Wired (c.send message w now).2 := h.wired.send message
  by_cases hopen : c.m_state ≠ .connected ∨ w.writable=false
  · rw [send_refused hopen]
    exact h
  · rw [not_or,not_not,Bool.not_eq_false] at hopen
    by_cases hfails : w.tryWrite<0
    · rw [send_failed hopen.1 hopen.2 hfails]
      exact h.close
    · obtain ⟨k,hk,-⟩ := h.wired.connected hopen.1
      have hnone : c.lookups=0 := h.no_lookup fun hn => nomatch hn.symm.trans hk
      rw [send_taken hopen.1 hopen.2 hfails] at hw ⊢
      refine ⟨hw,fun hlt => ?_,fun hs => ?_⟩
      · exact absurd (hnone ▸ hlt) (lt_irrefl 0)
      · exact nomatch hopen.1.symm.trans hs

theorem Settled.login (h : Settled c) : Settled (c.login lib w now) := by
  by_cases hlong : bufSize-2<(c.loginText lib).length
  · rw [login_too_long hlong]
    exact h.of_frame rfl rfl rfl (Or.inl rfl)
  · have hfilled : Settled (Client.fillSendBuf {c with m_results := []} (c.loginText lib).length) :=
      h.of_frame rfl rfl rfl (Or.inl rfl)
    rw [login_filled hlong]
    exact hfilled.send _

/-- A lookup that starts where none is pending and no socket is left. -/
theorem Settled.resolve (h : Settled c) {r : ℤ} (hk : c.m_socket=none)
    (hr : r=0 → c.lookups=0) : Settled (c.resolve r) := by
  refine ⟨h.wired.resolve r,fun hlt => ⟨?_,hk,rfl⟩,fun hs => (nomatch hs)⟩
  by_cases hzero : r=0
  · simp only [Client.resolve,if_pos hzero,hr hzero]
  · simp only [Client.resolve,if_neg hzero] at hlt ⊢
    exact (h.lookup hlt).1

/-- A connection of a client without a lookup that is to be tried again. -/
theorem settled_reconnect (hw : Wired (c.reconnect now)) (hl : c.lookups=0)
    (hk : c.m_socket=none) : Settled (c.reconnect now) := by
  obtain ⟨hsocket,-,-,-,hlookups⟩ := reconnect_frame c now
  refine ⟨hw,?_,?_⟩
  · rw [hlookups,hl]
    exact fun hlt => absurd hlt (lt_irrefl 0)
  · rw [hsocket,hk]
    exact fun _ hne => absurd rfl hne

end Settled

section Clients

variable {lib : RapidJson} {recvLib : RecvLibrary} {s : Session} {a : Action}

/-- A lookup that is started finds none pending. -/
def StartsAlone (lib : RapidJson) (recvLib : RecvLibrary) (s : Session) (a : Action) : Prop :=
  s.client.lookups<(ClientSessions.step lib recvLib s a).client.lookups → s.client.lookups=0

/-- A client that can be connected: it has no socket, and no lookup is pending unless none
is started. -/
def Idle (c : Client) (r : ℤ) : Prop := c.m_socket=none ∧ (r=0 → c.lookups=0)

/-- The actions that keep a client settled. -/
def Allowed (s : Session) : Action → Prop
  | .connect r => Idle s.client r
  | .disconnect => True
  | .event (.tick _ _) => True
  | a => ClientSessions.Permitted s a

/-- `tick` looks the host up only after a pause, when nothing is under way. -/
theorem settled_tick {c : Client} (h : Settled c) (now : UInt64) (r : ℤ) :
    Settled (c.tick now r) ∧ (c.lookups<(c.tick now r).lookups → c.lookups=0) := by
  rw [Client.tick]
  split
  · exact ⟨h,fun hlt => absurd hlt (lt_irrefl _)⟩
  · rename_i hdue
    rw [not_or] at hdue
    have hnone : c.lookups=0 := by
      by_contra hne
      exact hdue.1 (h.lookup (Nat.pos_of_ne_zero hne)).2.2
    refine ⟨?_,fun _ => hnone⟩
    dsimp only
    split
    · rename_i hconnected
      obtain ⟨k,hk,-⟩ := h.wired.connected hconnected
      have hstate : c.close.m_state=.closing := by
        rw [close_of_socket hk (by rw [hconnected]; decide)]
      rw [if_neg (by rw [hstate]; decide)]
      exact h.close
    · split
      · rename_i hconnecting
        refine h.resolve ?_ fun _ => hnone
        by_contra hsocket
        exact hdue.1 (h.waiting hconnecting hsocket)
      · exact h

/-- The callback of a connect leaves the client settled. -/
theorem settled_onConnect {c : Client} (h : Settled c) {status : ℤ} {w : WriteResult} {now : UInt64}
    (hsome : ∃ k∈c.m_socket, k.connecting=true)
    (hcancelled : Cancelled c (.connected status w now)) :
    Settled (c.onConnect lib status w now) := by
  have hsocket : c.m_socket ≠ none := by
    obtain ⟨k,hk,-⟩ := hsome
    exact fun hn => nomatch hn.symm.trans hk
  have hnone : ¬0<c.lookups := by
    rw [h.no_lookup hsocket]
    exact lt_irrefl 0
  rw [onConnect_eq]
  split
  · have hcalled : Settled (calledBack c) :=
      ⟨h.wired.calledBack,fun hlt => absurd hlt hnone,fun hs _ => h.waiting hs hsocket⟩
    exact hcalled.close
  · rename_i hstatus
    have hopened : Settled (connected c) :=
      ⟨wired_connected hsome (hcancelled.open hstatus),fun hlt => absurd hlt hnone,
        fun hs => (nomatch hs)⟩
    exact hopened.login

/-- A line leaves the client settled. -/
theorem settled_parse {c : Client} (h : Settled c) (stale : Stale) (line : Bytes) :
    Settled (c.parse lib stale line) := by
  have hhandled := parse_handled lib stale c line
  have hexpire := (parse_frame lib stale c line).2
  rcases hhandled.connection with ⟨hs,hk⟩|⟨hs,hk⟩
  · exact h.of_frame hs hk hhandled.lookups (Or.inr hexpire)
  · exact h.close.of_frame hs hk (hhandled.lookups.trans (close_lookups c).symm) (Or.inr hexpire)

/-- The callback of a lookup meets no socket, and leaves the client settled. -/
theorem settled_onResolved {c : Client} (h : Settled c) (hl : 0<c.lookups) (status : ℤ)
    (families : List ℤ) (r : ℤ) (now : UInt64) :
    Settled (c.onResolved status families r now) ∧ c.m_socket=none ∧
    (c.onResolved status families r now).lookups=0 := by
  obtain ⟨hone,hnone,hexpire⟩ := h.lookup hl
  have hover : c.lookups-1=0 := by omega
  have hw : Wired (c.onResolved status families r now) := h.wired.onResolved status families r
  rw [onResolved_eq] at hw ⊢
  split at hw
  · rename_i hu
    rw [if_pos hu]
    have hframe := (reconnect_frame {c with lookups := c.lookups-1} now).2.2.2.2
    exact ⟨settled_reconnect hw hover hnone,hnone,hframe.trans hover⟩
  · rename_i hu
    rw [if_neg hu]
    refine ⟨⟨hw,?_,fun _ _ => hexpire⟩,hnone,hover⟩
    exact fun hlt => absurd (hover ▸ hlt) (lt_irrefl 0)

/-- A read, up to the lines it receives, leaves the client settled. -/
theorem settled_beginRead {c : Client} (h : Settled c) (members : Cells UInt8) (delivery : Delivery)
    (stale : ℕ → Stale) :
    Settled (beginRead recvLib c members delivery stale).client ∧
    (beginRead recvLib c members delivery stale).client.lookups=c.lookups := by
  have hreceived : Settled (c.received (deliver recvLib (c.buffer members) delivery)) :=
    h.of_frame rfl rfl rfl (Or.inl rfl)
  rw [beginRead]
  dsimp only
  split
  · exact ⟨hreceived.close,close_lookups _⟩
  · exact ⟨hreceived,rfl⟩

/-- The callback of a close leaves the client settled. -/
theorem settled_onClose {c : Client} (h : Settled c) (hsome : c.m_socket ≠ none) (now : UInt64) :
    Settled (c.onClose now) ∧ (c.onClose now).lookups=c.lookups := by
  have hw : Wired (c.onClose now) :=
    Wired.reconnect (c:={c with m_socket := none,m_state := .unconnected})
      fun _ hmem => absurd hmem (Option.not_mem_none _)
  exact ⟨settled_reconnect hw (h.no_lookup hsome) rfl,
    (reconnect_frame {c with m_socket := none,m_state := .unconnected} now).2.2.2.2⟩

/-- A share that is submitted leaves the client settled. -/
theorem settled_submit {c : Client} (h : Settled c) (result : MultiWorker.JobResult)
    (w : WriteResult) (now : UInt64) :
    Settled (c.submit result w now).2 ∧ (c.submit result w now).2.lookups=c.lookups := by
  have hnoted : Settled (noteShare c result) := h.of_frame rfl rfl rfl (Or.inl rfl)
  rw [submit_eq]
  exact ⟨hnoted.send _,(send_frame _ _ w now).2⟩

/-- An action that is allowed starts no second lookup, meets no old socket, and leaves the
client settled. -/
theorem settled_step (h : Settled s.client) (ha : Allowed s a) :
    Settled (ClientSessions.step lib recvLib s a).client ∧
    StartsAlone lib recvLib s a ∧ DeletesNothing s a := by
  have hquiet : (ClientSessions.step lib recvLib s a).client.lookups ≤ s.client.lookups →
      StartsAlone lib recvLib s a := fun hle hlt => absurd hlt (not_lt_of_ge hle)
  cases a with
  | connect r =>
    refine ⟨h.resolve ha.1 ha.2,fun hlt => ?_,trivial⟩
    by_cases hzero : r=0
    · exact ha.2 hzero
    · change s.client.lookups<(s.client.resolve r).lookups at hlt
      simp only [Client.resolve,if_neg hzero,lt_self_iff_false] at hlt
  | disconnect =>
    have hcleared : Settled {s.client with
        m_keepAliveTimer := false,m_expire := 0,m_failures := -1} :=
      h.of_frame rfl rfl rfl (Or.inr rfl)
    exact ⟨hcleared.close,hquiet (close_lookups _).le,trivial⟩
  | line =>
    obtain ⟨c,rest⟩ := s
    cases rest with
    | nil => exact absurd rfl ha.2
    | cons line rest =>
      exact ⟨settled_parse h line.2 line.1,hquiet (parse_handled lib line.2 c line.1).lookups.le,
        trivial⟩
  | event e =>
    cases e with
    | resolved status families r now =>
      obtain ⟨hsettled,hnone,hover⟩ := settled_onResolved h ha.2.2.1 status families r now
      exact ⟨hsettled,hquiet (hover.trans_le (Nat.zero_le _)),fun _ => hnone⟩
    | connected status w now =>
      exact ⟨settled_onConnect h ha.2.2.1 ha.2.2.2,
        hquiet (onConnect_frame s.client status).2.le,trivial⟩
    | read members delivery stale =>
      obtain ⟨hsettled,hsame⟩ := @settled_beginRead recvLib _ h members delivery stale
      exact ⟨hsettled,hquiet hsame.le,trivial⟩
    | closed now =>
      obtain ⟨k,hk,-⟩ := ha.2.2.1
      have hsome : s.client.m_socket ≠ none := by
        rw [hk]
        exact Option.some_ne_none k
      obtain ⟨hsettled,hsame⟩ := settled_onClose h hsome now
      exact ⟨hsettled,hquiet hsame.le,trivial⟩
    | tick now r =>
      obtain ⟨hsettled,halone⟩ := settled_tick h now r
      exact ⟨hsettled,halone,trivial⟩
    | submit result w now =>
      obtain ⟨hsettled,hsame⟩ := settled_submit h result w now
      exact ⟨hsettled,hquiet hsame.le,trivial⟩
    | keepAlive w now =>
      have hstopped : Settled {s.client with m_keepAliveTimer := false} :=
        h.of_frame rfl rfl rfl (Or.inl rfl)
      exact ⟨hstopped.send _,hquiet (send_frame _ _ w now).2.le,trivial⟩
    | othersSent n =>
      exact ⟨h.of_frame rfl rfl rfl (Or.inl rfl),hquiet le_rfl,trivial⟩

end Clients

end XmrigCC.ClientHandles
