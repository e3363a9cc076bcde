import XmrigCC.PoolClientPhases
import XmrigCC.ReceiveBufferRuns

/-!
# Does a pool client ever fall silent?

From `connect()` on, as long as nobody disconnects it, a client should always
have something to wait for. It does in every run whose library calls start
what they are called for, whose login is written, and whose reads stay within
the buffer; the first exception ends the client without a trace.
-/

namespace XmrigCC.PoolClientLiveness

open CellMemory DelimitedStream PoolMessages ReceiveBuffer PoolClient PoolClientPhases
open TransitionRuns
open ReceiveBufferRuns (plainLibrary)

section Overruns

/-- A loop over a region ends where it began, without lines, or behind its last line. -/
theorem readLoop_start (lib : RecvLibrary) (m : Cells UInt8) (start remaining : ℕ) :
    ((readLoop lib m start remaining).lines=[] ∧
      (readLoop lib m start remaining).start=start) ∨
    ((readLoop lib m start remaining).lines ≠ [] ∧
      start<(readLoop lib m start remaining).start) := by
  cases hf : memchr m newline start remaining with
  | none =>
    rw [readLoop_none lib hf]
    exact Or.inl ⟨rfl,rfl⟩
  | some found =>
    obtain ⟨h1,h2,-,-⟩ := memchr_eq_some hf
    obtain ⟨-,hr,hs,-⟩ := readLoop_spec lib (parseCells lib m start (found+1-start)) (found+1)
      (remaining-(found+1-start))
    have hle := length_remainder_le newline
      (slice (parseCells lib m start (found+1-start)) (found+1) (remaining-(found+1-start)))
    rw [length_slice] at hle
    rw [readLoop_some lib hf]
    dsimp only
    exact Or.inr ⟨List.cons_ne_nil _ _,by omega⟩

/-- The lines of a loop end before an address when the loop does. -/
theorem readLoop_parsed (lib : RecvLibrary) (m : Cells UInt8) (start remaining bound : ℕ) :
    (∀ w∈(readLoop lib m start remaining).parsed, w.1+w.2 ≤ bound) ↔
      (readLoop lib m start remaining).lines=[] ∨
        (readLoop lib m start remaining).start ≤ bound := by
  induction remaining using Nat.strong_induction_on generalizing m start with
  | h remaining ih =>
    cases hf : memchr m newline start remaining with
    | none =>
      rw [readLoop_none lib hf]
      exact iff_of_true (fun _ hw => nomatch hw) (Or.inl rfl)
    | some found =>
      obtain ⟨h1,h2,-,-⟩ := memchr_eq_some hf
      have hrest := ih (remaining-(found+1-start)) (by omega)
        (parseCells lib m start (found+1-start)) (found+1)
      have hend := readLoop_start lib (parseCells lib m start (found+1-start)) (found+1)
        (remaining-(found+1-start))
      rw [readLoop_some lib hf]
      dsimp only
      rw [List.forall_mem_cons,hrest]
      dsimp only
      constructor
      · rintro ⟨hfirst,hnil|hle⟩
        · rcases hend with ⟨-,he⟩|⟨hne,-⟩
          · exact Or.inr (by omega)
          · exact absurd hnil hne
        · exact Or.inr hle
      · rintro (hnil|hle)
        · cases hnil
        · rcases hend with ⟨hnil,he⟩|⟨-,hlt⟩
          · exact ⟨by omega,Or.inl hnil⟩
          · exact ⟨by omega,Or.inr hle⟩

/-- The lines that a read finds end in `m_buf`, and there is room in it for the bytes
behind them where they are moved to. -/
def WithinBuffer (s : RecvState) (bytes : List UInt8) : Prop :=
  let tail := (remainder newline (window s bytes)).length
  records newline (window s bytes)=[] ∨
    2*s.m_recvBufPos+bytes.length-tail ≤ bufSize ∧ s.m_recvBufPos+tail ≤ bufSize

/-- A report overruns nothing when its lines and its compaction stay in `m_buf`. -/
theorem overruns_eq_false (report : ReadReport) :
    Client.overruns report=false ↔
      (∀ w∈report.parsed, w.1+w.2 ≤ bufSize) ∧
        ∀ call∈report.copied, call.dst+call.count ≤ bufSize := by
  rw [Client.overruns,Bool.or_eq_false_iff,List.any_eq_false]
  apply and_congr
  · simp only [decide_eq_true_eq,Nat.not_lt]
  · cases report.copied with
    | none => exact iff_of_true rfl fun _ h => nomatch h
    | some call =>
      rw [Option.any_some,decide_eq_false_iff_not,Nat.not_lt]
      constructor
      · rintro h _ ⟨⟩
        exact h
      · intro h
        exact h call rfl

/-- The compaction of a loop that found lines stays in `m_buf` when its rest has room. -/
theorem compact_copied (lib : RecvLibrary) {loop : LoopReport} {base received : ℕ}
    (hstart : base<loop.start) (hbase : base ≤ bufSize) :
    (∀ call∈(compact lib loop base received).copied, call.dst+call.count ≤ bufSize) ↔
      base+loop.remaining ≤ bufSize := by
  unfold compact
  split
  · rename_i hzero
    exact iff_of_true (fun _ h => nomatch h) (by omega)
  · rw [if_neg (by omega)]
    constructor
    · intro h
      exact h _ rfl
    · rintro h _ ⟨⟩
      exact h

/-- A read writes behind `m_buf` exactly when its lines end, or its rest is moved, there. -/
theorem overruns_iff (lib : RecvLibrary) {s : RecvState} {bytes : List UInt8}
    (hfit : Fits s bytes) (hroom : s.m_recvBufPos+bytes.length ≤ bufSize) :
    Client.overruns (deliver lib s (.data bytes))=false ↔ WithinBuffer s bytes := by
  obtain ⟨hl,hr,hsum,-⟩ := readOf_spec lib s bytes
  have hparsed : (∀ w∈(readOf lib s bytes).parsed, w.1+w.2 ≤ bufSize) ↔
      (readOf lib s bytes).lines=[] ∨ (readOf lib s bytes).start ≤ bufSize :=
    readLoop_parsed lib _ _ _ _
  rw [overruns_eq_false,deliver_data lib hfit,(compact_reports _ _ _ _).2.2,hparsed]
  unfold WithinBuffer
  dsimp only
  rw [←hl,←hr]
  have hstart : ((readOf lib s bytes).lines=[] ∧ (readOf lib s bytes).start=s.m_recvBufPos) ∨
      ((readOf lib s bytes).lines ≠ [] ∧ s.m_recvBufPos<(readOf lib s bytes).start) :=
    readLoop_start lib _ _ _
  rcases hstart with ⟨hnil,hend⟩|⟨hne,hlt⟩
  · have hcopied : (compact lib (readOf lib s bytes) s.m_recvBufPos
        (s.m_recvBufPos+bytes.length)).copied=none := by
      unfold compact
      rw [if_pos hend]
      split <;> rfl
    rw [hcopied]
    exact iff_of_true ⟨Or.inl hnil,fun _ h => nomatch h⟩ (Or.inl hnil)
  · rw [compact_copied lib hlt (by omega)]
    constructor
    · rintro ⟨hnil|hle,hmoved⟩
      · exact absurd hnil hne
      · exact Or.inr ⟨by omega,hmoved⟩
    · rintro (hnil|⟨hle,hmoved⟩)
      · exact absurd hnil hne
      · exact ⟨Or.inr (by omega),hmoved⟩

end Overruns

section Steps

variable {lib : RapidJson} {recvLib : RecvLibrary} {c : Client}

/-- Once the buffer is filled, a read only handles its lines, or closes the connection. -/
theorem onRead_handled (lib : RapidJson) (recvLib : RecvLibrary) (c : Client)
    (members : Cells UInt8) (delivery : Delivery) (stale : ℕ → Stale) :
    Handled (c.received (deliver recvLib (c.buffer members) delivery))
      (c.onRead lib recvLib members delivery stale) := by
  unfold Client.onRead
  dsimp only
  split
  · exact (parseLines_handled lib _ _).trans (handled_close _)
  · exact parseLines_handled lib _ _

/-- A read that stays in the buffer keeps the connection or closes it. -/
theorem onRead_next {members : Cells UInt8} {delivery : Delivery} {stale : ℕ → Stale}
    (h : Runs lib c .loggedIn)
    (hover : Client.overruns (deliver recvLib (c.buffer members) delivery)=false) :
    ∃ q, Phase.Next .loggedIn q ∧ Runs lib (c.onRead lib recvLib members delivery stale) q := by
  apply (onRead_handled lib recvLib c members delivery stale).next
  have hintact : (c.corrupted ||
      Client.overruns (deliver recvLib (c.buffer members) delivery))=false := by
    rw [h.intact,hover]
    rfl
  exact ⟨hintact,h.failures,h.phase⟩

/-- A read that overruns the buffer leaves nothing to rely on. -/
theorem onRead_dead {members : Cells UInt8} {delivery : Delivery} {stale : ℕ → Stale}
    (hover : Client.overruns (deliver recvLib (c.buffer members) delivery)=true) :
    ¬Alive lib (c.onRead lib recvLib members delivery stale) := by
  rintro ⟨hintact,-⟩
  rw [(onRead_handled lib recvLib c members delivery stale).corrupted] at hintact
  have hfine := (Bool.or_eq_false_iff.mp hintact).2
  rw [hover] at hfine
  cases hfine

/-- `tick` closes a connection that is overdue, or starts the next attempt. -/
theorem tick_next {p : Phase} {now : UInt64} {r : ℤ} (h : Runs lib c p)
    (hr : c.m_expire ≠ 0 → c.m_expire ≤ now → c.m_state=.connecting → r=0) :
    ∃ q, p.Next q ∧ Runs lib (c.tick now r) q := by
  unfold Client.tick
  by_cases hdue : c.m_expire=0 ∨ now<c.m_expire
  · rw [if_pos hdue]
    exact ⟨p,.stay p,h⟩
  · rw [if_neg hdue]
    rw [not_or,UInt64.not_lt] at hdue
    have hphase := h.phase
    cases p with
    | lookup => exact absurd hphase.2.2.2 hdue.1
    | connecting => exact absurd hphase.2.2.2 hdue.1
    | loggedIn =>
      have hclosed := close_runs h
      simp only [hphase.1,if_true,hclosed.phase.1,reduceCtorEq,if_false]
      exact ⟨.closing,.dropped,hclosed⟩
    | closing =>
      simp only [hphase.1,reduceCtorEq,if_false]
      exact ⟨.closing,.stay _,h⟩
    | retry =>
      obtain ⟨hst,hl,hs,he⟩ := hphase
      simp only [hst,reduceCtorEq,if_false,if_true,hr hdue.1 hdue.2 hst]
      exact ⟨.lookup,.again,resolve_runs h.intact (by have := h.failures; omega) hl hs⟩

/-- An attempt whose lookup cannot be started is the last one. -/
theorem tick_dead {p : Phase} {now : UInt64} {r : ℤ} (h : Runs lib c p) (hn : c.m_expire ≠ 0)
    (hle : c.m_expire ≤ now) (hst : c.m_state=.connecting) (hr : r ≠ 0) :
    ¬Alive lib (c.tick now r) := by
  have hdue : ¬(c.m_expire=0 ∨ now<c.m_expire) := not_or.mpr ⟨hn,UInt64.not_lt.mpr hle⟩
  have hphase := h.phase
  unfold Client.tick
  rw [if_neg hdue]
  simp only [hst,reduceCtorEq,if_false,if_true]
  cases p with
  | retry => exact resolve_dead hr hphase.2.1 hphase.2.2.1
  | connecting => exact absurd hphase.2.2.2 hn
  | lookup | loggedIn | closing =>
    have hother := hphase.1
    rw [hst] at hother
    cases hother

end Steps

section Runs

/-- The step goes on: the lookup, the connect and the next attempt it starts are
started, the login is written, and no buffer is overrun. -/
def Proceeds (lib : RapidJson) (c : Client) : Event → Prop
  | .resolved status families r now =>
    if Unresolved status families then now+UInt64.ofInt c.m_retryPause ≠ 0 else r=0
  | .connected status w _ =>
    status<0 ∨ (c.loginText lib).length+2 ≤ sendBufSize ∧ w.writable=true
  | .read members (.data bytes) _ => Fits c.recv bytes → WithinBuffer (c.buffer members) bytes
  | .read _ (.failed _) _ => True
  | .closed now => now+UInt64.ofInt c.m_retryPause ≠ 0
  | .tick now r => c.m_expire ≠ 0 → c.m_expire ≤ now → c.m_state=.connecting → r=0
  | .submit .. => True
  | .keepAlive .. => True
  | .othersSent _ => True

variable {lib : RapidJson} {recvLib : RecvLibrary} {c : Client} {p : Phase}

/-- A failed read, or one that does not fit, overruns nothing. -/
theorem overruns_refused (recvLib : RecvLibrary) {s : RecvState} {delivery : Delivery}
    (h : ∀ bytes, delivery=.data bytes → ¬Fits s bytes) :
    Client.overruns (deliver recvLib s delivery)=false := by
  cases delivery with
  | data bytes =>
    rw [deliver_data_of_not_fits recvLib (h bytes rfl)]
    rfl
  | failed code =>
    rw [deliver_failed]
    rfl

/-- A step that goes on follows the life cycle. -/
theorem step_next (recvLib : RecvLibrary) {e : Event} (h : Runs lib c p) (hp : Permitted c e)
    (hg : Proceeds lib c e) :
    ∃ q, p.Next q ∧ Runs lib (step lib recvLib c e) q := by
  cases e with
  | resolved status families r now =>
    cases h.of_lookup hp
    have hcond : if Unresolved status families then now+UInt64.ofInt c.m_retryPause ≠ 0
        else r=0 := hg
    apply onResolved_next h
    · intro hu
      rwa [if_pos hu] at hcond
    · intro hu
      rwa [if_neg hu] at hcond
  | connected status w now =>
    obtain ⟨s,hs,hc⟩ := hp
    cases (h.of_socket hs).1 hc
    exact onConnect_next h hg
  | read members delivery stale =>
    have hin : p=.loggedIn := by
      cases delivery with
      | data bytes =>
        obtain ⟨⟨s,hs,hr⟩,-⟩ := hp
        exact (h.of_socket hs).2.1 hr
      | failed code =>
        obtain ⟨s,hs,hr⟩ := hp
        exact (h.of_socket hs).2.1 hr
    cases hin
    apply onRead_next h
    cases delivery with
    | data bytes =>
      by_cases hfit : Fits c.recv bytes
      · have hfits : Fits (c.buffer members) bytes := hfit
        exact (overruns_iff recvLib hfits hp.2).mpr (hg hfit)
      · apply overruns_refused
        rintro _ ⟨⟩
        exact hfit
    | failed code => exact overruns_refused recvLib fun _ he => nomatch he
  | closed now =>
    obtain ⟨s,hs,hc,-⟩ := hp
    cases (h.of_socket hs).2.2 hc
    exact ⟨.retry,.released,reconnect_runs h.intact h.failures h.phase.2.1 rfl hg⟩
  | tick now r => exact tick_next h hg
  | submit result w now =>
    have hnoted : Runs lib {c with
        m_results := (c.m_sequence,⟨c.m_sequence,result.diff,actualDiff result⟩)::
          c.m_results.filter fun q => q.1 ≠ c.m_sequence} p := ⟨h.intact,h.failures,by
      have hphase := h.phase
      cases p <;> exact hphase⟩
    exact send_next hnoted
  | keepAlive w now =>
    have hfired : Runs lib {c with m_keepAliveTimer := false} p := ⟨h.intact,h.failures,by
      have hphase := h.phase
      cases p <;> exact hphase⟩
    exact send_next hfired
  | othersSent n =>
    refine ⟨p,.stay p,h.intact,h.failures,?_⟩
    have hphase := h.phase
    cases p <;> exact hphase

/-- A step that does not go on is the last. -/
theorem step_dead {e : Event} (h : Runs lib c p) (hp : Permitted c e) (hg : ¬Proceeds lib c e) :
    ¬Alive lib (step lib recvLib c e) := by
  cases e with
  | resolved status families r now =>
    cases h.of_lookup hp
    apply onResolved_dead h
    unfold Proceeds at hg
    dsimp only at hg
    split
    · rename_i hu
      rw [if_pos hu,not_not] at hg
      exact hg
    · rename_i hu
      rw [if_neg hu] at hg
      exact hg
  | connected status w now =>
    obtain ⟨s,hs,hc⟩ := hp
    cases (h.of_socket hs).1 hc
    exact onConnect_dead h hg
  | read members delivery stale =>
    cases delivery with
    | data bytes =>
      have hbad : ¬(Fits c.recv bytes → WithinBuffer (c.buffer members) bytes) := hg
      rw [Classical.not_imp] at hbad
      have hfits : Fits (c.buffer members) bytes := hbad.1
      apply onRead_dead
      rw [←Bool.not_eq_false,overruns_iff recvLib hfits hp.2]
      exact hbad.2
    | failed code => exact absurd trivial hg
  | closed now =>
    obtain ⟨s,hs,hc,-⟩ := hp
    cases (h.of_socket hs).2.2 hc
    exact reconnect_dead h.failures h.phase.2.1 rfl (not_not.mp hg)
  | tick now r =>
    have hbad : ¬(c.m_expire ≠ 0 → c.m_expire ≤ now → c.m_state=.connecting → r=0) := hg
    simp only [Classical.not_imp] at hbad
    exact tick_dead h hbad.1 hbad.2.1 hbad.2.2.1 hbad.2.2.2
  | submit result w now => exact absurd trivial hg
  | keepAlive w now => exact absurd trivial hg
  | othersSent n => exact absurd trivial hg

/-- A client for which nothing is going on, as before its first `connect`. -/
structure Idle (c : Client) : Prop where
  /-- No buffer was overrun. -/
  intact : c.corrupted=false
  /-- -1 stands for a client that was disconnected. -/
  failures : -1 ≤ c.m_failures
  /-- No lookup is due. -/
  lookups : c.lookups=0
  /-- There is no socket. -/
  socket : c.m_socket=none

/-- A run from `connect()` on keeps the client alive in every state exactly when its
lookup is started and every step goes on. -/
theorem always_alive_iff (lib : RapidJson) (recvLib : RecvLibrary) {c : Client} (hc : Idle c)
    (r : ℤ) (es : List Event)
    (hp : AlongSteps (step lib recvLib) Permitted (c.connect r) es) :
    AlongStates (step lib recvLib) (Alive lib) (c.connect r) es ↔
      r=0 ∧ AlongSteps (step lib recvLib) (Proceeds lib) (c.connect r) es := by
  by_cases hr : r=0
  · subst hr
    have hstart : Runs lib (c.connect 0) .lookup :=
      resolve_runs hc.intact hc.failures hc.lookups hc.socket
    have hrun : AlongStates (step lib recvLib) (Alive lib) (c.connect 0) es ↔
        AlongSteps (step lib recvLib) (Proceeds lib) (c.connect 0) es := by
      refine alongStates_iff_alongSteps (I := fun d => ∃ p, Runs lib d p) ?_ ?_
        ⟨.lookup,hstart⟩ hstart.alive hp
      · rintro d e ⟨p,hd⟩ - hpe hge
        obtain ⟨q,-,hq⟩ := step_next recvLib hd hpe hge
        exact ⟨q,hq⟩
      · rintro d e ⟨p,hd⟩ - hpe
        constructor
        · intro halive
          by_contra hge
          exact step_dead hd hpe hge halive
        · intro hge
          obtain ⟨q,-,hq⟩ := step_next recvLib hd hpe hge
          exact hq.alive
    rw [hrun]
    exact (and_iff_right rfl).symm
  · constructor
    · intro h
      have hdead : ¬Alive lib (c.connect r) := resolve_dead hr hc.lookups hc.socket
      cases es with
      | nil => exact absurd h hdead
      | cons e es => exact absurd h.1 hdead
    · intro h
      exact absurd h.1 hr

/-- A writer that knows the login of the client below. -/
def loginWriter : RapidJson :=
  ⟨fun _ => none,fun _ => ByteText.text
    "\x7b\"id\":1,\"jsonrpc\":\"2.0\",\"method\":\"login\",\"params\":\x7b\"login\":\"x\",\"pass\":\"x\",\"agent\":\"rig\"\x7d\x7d",
    fun _ => none⟩

/-- A new client without a user and a password of its own. -/
def rig : Client :=
  Client.new 0 (ByteText.text "rig") ⟨false,false,none,none⟩ (fun _ => 0) (fun _ => 0)

/-- A connection that is opened, lost to the end of the stream, and attempted again. -/
def lostConnection : List Event :=
  [.resolved 0 [2] 0 1000,.connected 0 ⟨true,90⟩ 1001,.tick 2000 0,
    .read (fun _ => 0) (.failed 4094) fun _ => ⟨fun _ => 0,fun _ => 0⟩,
    .closed 3000,.tick 8000 0]

/-- Through a whole cycle a client is alive. -/
theorem always_alive_lost_connection :
    AlongStates (step loginWriter plainLibrary) (Alive loginWriter) (rig.connect 0)
      lostConnection := by
  have hidle : Idle rig := ⟨rfl,by decide,rfl,rfl⟩
  refine (always_alive_iff loginWriter plainLibrary hidle 0 lostConnection ?_).mpr ⟨rfl,?_⟩
  · exact ⟨Nat.one_pos,⟨_,rfl,rfl⟩,trivial,⟨_,rfl,rfl⟩,⟨_,rfl,rfl,rfl⟩,trivial,trivial⟩
  · refine ⟨?_,?_,?_,trivial,?_,?_,trivial⟩
    · show if Unresolved 0 [2] then (1000 : UInt64)+UInt64.ofInt 5000 ≠ 0 else (0 : ℤ)=0
      decide
    · exact Or.inr (by decide)
    · intro _ _ _
      rfl
    · show (3000 : UInt64)+UInt64.ofInt 5000 ≠ 0
      decide
    · intro _ _ _
      rfl

/-- The lookup fails, and at the next attempt `uv_getaddrinfo` itself does. -/
def failedRetry : List Event := [.resolved (-3008) [] 0 1000,.tick 6000 (-12)]

/-- A client whose second lookup cannot be started waits for nothing any more. -/
theorem failed_retry_is_silent :
    Idle rig ∧ AlongSteps (step loginWriter plainLibrary) Permitted (rig.connect 0) failedRetry ∧
      ¬AlongStates (step loginWriter plainLibrary) (Alive loginWriter) (rig.connect 0)
        failedRetry := by
  refine ⟨⟨rfl,by decide,rfl,rfl⟩,⟨Nat.one_pos,trivial,trivial⟩,?_⟩
  rintro ⟨-,-,hlast⟩
  have hsilent : ¬Alive loginWriter
      (runFrom (step loginWriter plainLibrary) (rig.connect 0) failedRetry) :=
    not_alive_of_idle (by decide) rfl fun h => nomatch h
  exact hsilent hlast

end Runs

end XmrigCC.PoolClientLiveness
