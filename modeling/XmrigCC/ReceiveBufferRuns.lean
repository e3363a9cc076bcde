import XmrigCC.ReceiveBuffer
import XmrigCC.TransitionRuns

/-!
# Reads in sequence: line framing and buffer safety

A connection is a list of reads taken from the state that `Client::resolve`
leaves, `m_recvBufPos=0`. The specification of framing is the stream alone:
its records are the lines, its remainder is what the buffer retains. The
safety statements speak about the regions each read hands to the library.
-/

namespace XmrigCC.ReceiveBufferRuns

open CellMemory DelimitedStream ReceiveBuffer TransitionRuns

/-- Receive buffer and every line passed to `parse` so far. -/
structure FramingState where
  /-- `m_buf` and `m_recvBufPos`. -/
  recv : RecvState
  /-- Lines in the order of the `parse` calls. -/
  lines : List (List UInt8)

/-- One read of some bytes, with its lines appended. -/
def feed (lib : RecvLibrary) (t : FramingState) (bytes : List UInt8) : FramingState :=
  ⟨(deliver lib t.recv (.data bytes)).state,t.lines++(deliver lib t.recv (.data bytes)).lines⟩

/-- A new connection with arbitrary old buffer contents. -/
def opened (buf : Cells UInt8) : FramingState := ⟨⟨buf,0⟩,[]⟩

/-- The lines parsed are the terminated lines of the stream, each once and in
order, and the buffer retains exactly the bytes after the last terminator. -/
structure FramingCorrect (t : FramingState) (stream : List UInt8) : Prop where
  /-- Lines passed to `parse` against lines of the stream. -/
  lines_eq : t.lines=records newline stream
  /-- Length of what is retained. -/
  pos_eq : t.recv.m_recvBufPos=(remainder newline stream).length
  /-- Contents of what is retained. -/
  retained_eq : slice t.recv.m_buf 0 t.recv.m_recvBufPos=remainder newline stream

/-- Nothing is parsed or retained before the first read, whatever the buffer holds. -/
theorem opened_framed (buf : Cells UInt8) : FramingCorrect (opened buf) [] := ⟨rfl,rfl,rfl⟩

/-- A read that the code frames correctly: it starts on an empty buffer, or there is
no terminator in the window searched; and the compaction's `memcpy` delivers. -/
def FramedRead (lib : RecvLibrary) (t : FramingState) (bytes : List UInt8) : Prop :=
  (t.recv.m_recvBufPos=0 ∨ newline∉window t.recv bytes) ∧
    ∀ call∈(deliver lib t.recv (.data bytes)).copied,
      lib.memcpy.Delivers call.cells call.dst call.src call.count

/-- The window holds the new bytes, then as many older cells as were retained. -/
theorem window_eq (s : RecvState) (bytes : List UInt8) :
    window s bytes=bytes++
      slice s.m_buf (s.m_recvBufPos+bytes.length) s.m_recvBufPos := by
  unfold window
  rw [Nat.add_comm s.m_recvBufPos bytes.length,slice_add,slice_store_same,
    slice_store_apart (by omega),Nat.add_comm bytes.length]

/-- On an empty buffer the window is the read itself. -/
theorem window_of_empty {s : RecvState} (h : s.m_recvBufPos=0) (bytes : List UInt8) :
    window s bytes=bytes := by
  rw [window_eq,h,slice_zero,List.append_nil]

/-- A read on an empty buffer leaves the length of its remainder, and the remainder
itself unless a compaction failed to deliver it. -/
theorem deliver_of_empty (lib : RecvLibrary) {s : RecvState} {bytes : List UInt8}
    (hfit : Fits s bytes) (h0 : s.m_recvBufPos=0) :
    (deliver lib s (.data bytes)).state.m_recvBufPos=(remainder newline bytes).length ∧
    (slice (deliver lib s (.data bytes)).state.m_buf 0 (remainder newline bytes).length=
        remainder newline bytes ↔
      ∀ call∈(deliver lib s (.data bytes)).copied,
        lib.memcpy.Delivers call.cells call.dst call.src call.count) := by
  obtain ⟨-,hr,hstart,hc⟩ := readOf_spec lib s bytes
  rw [window_of_empty h0] at hr
  rw [deliver_data lib hfit]
  unfold compact
  by_cases hz : (readOf lib s bytes).remaining=0
  · rw [if_pos hz]
    have hnil : remainder newline bytes=[] := List.eq_nil_of_length_eq_zero (by omega)
    simp [hnil]
  · rw [if_neg hz]
    have htail : slice (readOf lib s bytes).cells (readOf lib s bytes).start
        (remainder newline bytes).length=remainder newline bytes := by
      have hsplit := flatten_records_append_remainder newline bytes
      have hlen := congrArg List.length hsplit
      have hstored := slice_store_same s.m_buf 0 bytes
      rw [List.length_append] at hlen
      have hpos : (readOf lib s bytes).start=(records newline bytes).flatten.length := by omega
      have hbytes : bytes.length=
          (records newline bytes).flatten.length+(remainder newline bytes).length := by omega
      rw [hbytes,slice_add,Nat.zero_add,←hpos] at hstored
      have hpieces := List.append_inj (hstored.trans hsplit.symm)
        (by rw [length_slice,hpos])
      calc
        slice (readOf lib s bytes).cells (readOf lib s bytes).start
            (remainder newline bytes).length=
          slice (store s.m_buf 0 bytes) (readOf lib s bytes).start
            (remainder newline bytes).length := by
          apply slice_congr
          intro i _
          have hcell := hc _ (Or.inr (Nat.le_add_right _ i))
          rwa [h0] at hcell
        _ = remainder newline bytes := hpieces.2
    by_cases hb : (readOf lib s bytes).start=s.m_recvBufPos
    · rw [if_pos hb]
      have hall : (remainder newline bytes).length=bytes.length := by omega
      rw [h0] at hb
      rw [hb] at htail
      refine ⟨by dsimp only; omega,?_⟩
      simp only [htail,Option.not_mem_none,false_implies,implies_true]
    · rw [if_neg hb]
      refine ⟨hr,?_⟩
      simp only [Option.mem_some_iff,forall_eq',BlockCopy.Delivers,h0,hr,htail]

/-- A read whose window has no terminator only extends what is retained. -/
theorem deliver_of_open (lib : RecvLibrary) {s : RecvState} {bytes : List UInt8}
    (hfit : Fits s bytes) (h0 : s.m_recvBufPos≠0) (hw : newline∉window s bytes) :
    deliver lib s (.data bytes)=
      ⟨⟨store s.m_buf s.m_recvBufPos bytes,s.m_recvBufPos+bytes.length⟩,false,[],
        [(s.m_recvBufPos,s.m_recvBufPos+bytes.length)],[],none⟩ := by
  have hn : memchr (store s.m_buf s.m_recvBufPos bytes) newline s.m_recvBufPos
      (s.m_recvBufPos+bytes.length)=none := memchr_eq_none.mpr hw
  rw [deliver_data lib hfit,readOf,readLoop_none lib hn,compact,if_neg (by dsimp only; omega),
    if_pos rfl]

/-- Retaining a read extends the retained slice by its bytes. -/
theorem slice_store_open (s : RecvState) (bytes : List UInt8) :
    slice (store s.m_buf s.m_recvBufPos bytes) 0 (s.m_recvBufPos+bytes.length)=
      slice s.m_buf 0 s.m_recvBufPos++bytes := by
  rw [slice_add,Nat.zero_add,slice_store_same,slice_store_apart (by omega)]

/-- A correctly framed read keeps the framing correct. -/
theorem feed_framed {lib : RecvLibrary} {t : FramingState} {stream bytes : List UInt8}
    (hfit : Fits t.recv bytes) (ht : FramingCorrect t stream) (hr : FramedRead lib t bytes) :
    FramingCorrect (feed lib t bytes) (stream++bytes) := by
  obtain ⟨hw,hcopy⟩ := hr
  by_cases h0 : t.recv.m_recvBufPos=0
  · have hrem : remainder newline stream=[] := by
      apply List.eq_nil_of_length_eq_zero
      rw [←ht.pos_eq,h0]
    obtain ⟨hpos,hkeep⟩ := deliver_of_empty lib hfit h0
    refine ⟨?_,?_,?_⟩
    · rw [feed,records_append,hrem,List.nil_append,←ht.lines_eq,deliver_lines lib hfit,
        window_of_empty h0]
    · rw [remainder_append,hrem,List.nil_append]
      exact hpos
    · rw [remainder_append,hrem,List.nil_append]
      dsimp only [feed]
      rw [hpos]
      exact hkeep.mpr hcopy
  · have hopen := hw.resolve_left h0
    have hb : newline∉bytes := by
      rw [window_eq,List.mem_append] at hopen
      exact fun h => hopen (Or.inl h)
    have hjoin : newline∉remainder newline stream++bytes := by
      rw [List.mem_append]
      exact not_or.mpr ⟨not_mem_remainder newline stream,hb⟩
    rw [feed,deliver_of_open lib hfit h0 hopen]
    refine ⟨?_,?_,?_⟩
    · rw [records_append,records_of_not_mem hjoin,←ht.lines_eq]
    · rw [remainder_append,remainder_of_not_mem hjoin,List.length_append,←ht.pos_eq]
    · dsimp only
      rw [remainder_append,remainder_of_not_mem hjoin,slice_store_open,ht.retained_eq]

/-- Lines once passed to `parse` stay passed. -/
theorem lines_runFrom (lib : RecvLibrary) (t : FramingState) (reads : List (List UInt8)) :
    ∃ more, (runFrom (feed lib) t reads).lines=t.lines++more := by
  induction reads generalizing t with
  | nil => exact ⟨[],(List.append_nil _).symm⟩
  | cons bytes reads ih =>
    obtain ⟨more,hm⟩ := ih (feed lib t bytes)
    refine ⟨(deliver lib t.recv (.data bytes)).lines++more,?_⟩
    rw [runFrom_cons,hm,feed,List.append_assoc]

/-- A terminator found in the window of a read that starts inside a line gives a
wrong line: too short when it is a new byte, never of the stream when it is stale.
No later read repairs the list of lines. -/
theorem lines_wrong_of_window (lib : RecvLibrary) {t : FramingState}
    {stream bytes : List UInt8} (hfit : Fits t.recv bytes)
    (hlines : t.lines=records newline stream)
    (hpos : t.recv.m_recvBufPos=(remainder newline stream).length)
    (h0 : t.recv.m_recvBufPos≠0) (hw : newline∈window t.recv bytes)
    (reads : List (List UInt8)) (future : List UInt8) :
    (runFrom (feed lib) (feed lib t bytes) reads).lines≠
      records newline (stream++(bytes++future)) := by
  intro he
  obtain ⟨more,hm⟩ := lines_runFrom lib (feed lib t bytes) reads
  obtain ⟨ys,zs,hys,hysn⟩ := List.eq_append_cons_of_mem hw
  have hfirst : records newline (window t.recv bytes)=(ys++[newline])::records newline zs := by
    rw [hys,records_append_cons hysn]
  have hlist : records newline (remainder newline stream++(bytes++future))=
      (ys++[newline])::(records newline zs++more) := by
    rw [hm,feed,deliver_lines lib hfit,hfirst,hlines,records_append newline stream,
      List.append_assoc] at he
    exact (List.append_cancel_left he).symm
  obtain ⟨us,vs,hus,hsplit,hrec⟩ := first_record_of_open (not_mem_remainder newline stream) hlist
  have hlen := congrArg List.length hrec
  simp only [List.length_append,List.length_cons,List.length_nil] at hlen
  have hfuture : records newline (bytes++future)=(us++[newline])::records newline vs := by
    rw [hsplit,records_append_cons hus]
  rw [window_eq] at hys hfirst
  by_cases hb : newline∈bytes
  · obtain ⟨as,bs,rfl,has⟩ := List.eq_append_cons_of_mem hb
    rw [List.append_assoc,List.cons_append,records_append_cons has,
      List.cons.injEq] at hfirst hfuture
    have hsame := congrArg List.length (hfirst.1.symm.trans hfuture.1)
    simp only [List.length_append,List.length_cons,List.length_nil] at hsame
    omega
  · obtain ⟨cs,ds,_,_,hcs⟩ := first_record_of_open hb hfuture
    have hlong := congrArg List.length hcs
    have htotal := congrArg List.length hys
    simp only [List.length_append,List.length_cons,List.length_nil,length_slice] at hlong htotal
    omega

/-- A retained part that has gone wrong is never repaired. -/
theorem framing_wrong_of_retained (lib : RecvLibrary) {t : FramingState} {stream : List UInt8}
    (reads : List (List UInt8)) (hfit : AlongSteps (feed lib) (fun u => Fits u.recv) t reads)
    (hlines : t.lines=records newline stream)
    (hpos : t.recv.m_recvBufPos=(remainder newline stream).length)
    (hbad : slice t.recv.m_buf 0 t.recv.m_recvBufPos≠remainder newline stream) :
    ¬FramingCorrect (runFrom (feed lib) t reads) (stream++reads.flatten) := by
  induction reads generalizing t stream with
  | nil =>
    rw [List.flatten_nil,List.append_nil,runFrom_nil]
    exact fun h => hbad h.retained_eq
  | cons bytes reads ih =>
    have h0 : t.recv.m_recvBufPos≠0 := by
      intro h0
      apply hbad
      rw [h0,slice_zero]
      exact (List.eq_nil_of_length_eq_zero (by omega)).symm
    rw [List.flatten_cons,runFrom_cons]
    by_cases hw : newline∈window t.recv bytes
    · exact fun h => lines_wrong_of_window lib hfit.1 hlines hpos h0 hw reads _ h.lines_eq
    · have hb : newline∉bytes := by
        rw [window_eq,List.mem_append] at hw
        exact fun h => hw (Or.inl h)
      have hjoin : newline∉remainder newline stream++bytes := by
        rw [List.mem_append]
        exact not_or.mpr ⟨not_mem_remainder newline stream,hb⟩
      rw [←List.append_assoc]
      have hstep := deliver_of_open lib hfit.1 h0 hw
      apply ih hfit.2
      · rw [feed,hstep,records_append,records_of_not_mem hjoin,hlines]
      · rw [feed,hstep,remainder_append,remainder_of_not_mem hjoin,List.length_append,hpos]
      · rw [feed,hstep,remainder_append,remainder_of_not_mem hjoin]
        dsimp only
        rw [slice_store_open]
        intro h
        exact hbad (List.append_cancel_right h)

/-- From a correctly framed state, the rest of the run is framed correctly exactly
when each of its reads is. -/
theorem framing_iff_from (lib : RecvLibrary) {t : FramingState} {stream : List UInt8}
    (reads : List (List UInt8)) (hfit : AlongSteps (feed lib) (fun u => Fits u.recv) t reads)
    (ht : FramingCorrect t stream) :
    FramingCorrect (runFrom (feed lib) t reads) (stream++reads.flatten) ↔
      AlongSteps (feed lib) (FramedRead lib) t reads := by
  induction reads generalizing t stream with
  | nil =>
    rw [List.flatten_nil,List.append_nil]
    exact ⟨fun _ => trivial,fun _ => ht⟩
  | cons bytes reads ih =>
    rw [List.flatten_cons,runFrom_cons,alongSteps_cons]
    by_cases hr : FramedRead lib t bytes
    · rw [←List.append_assoc,ih hfit.2 (feed_framed hfit.1 ht hr)]
      exact (and_iff_right hr).symm
    · refine iff_of_false ?_ (fun h => hr h.1)
      by_cases h0 : t.recv.m_recvBufPos=0
      · -- the window is the read: only the compaction can have failed
        have hrem : remainder newline stream=[] := by
          apply List.eq_nil_of_length_eq_zero
          rw [←ht.pos_eq,h0]
        obtain ⟨hpos,hkeep⟩ := deliver_of_empty lib hfit.1 h0
        rw [←List.append_assoc]
        apply framing_wrong_of_retained lib reads hfit.2
        · rw [feed,records_append,hrem,List.nil_append,←ht.lines_eq,deliver_lines lib hfit.1,
            window_of_empty h0]
        · rw [remainder_append,hrem,List.nil_append]
          exact hpos
        · rw [remainder_append,hrem,List.nil_append]
          dsimp only [feed]
          rw [hpos]
          intro h
          exact hr ⟨Or.inl h0,hkeep.mp h⟩
      · have hw : newline∈window t.recv bytes := by
          by_contra hw
          refine hr ⟨Or.inr hw,?_⟩
          rw [deliver_of_open lib hfit.1 h0 hw]
          simp
        intro h
        exact lines_wrong_of_window lib hfit.1 ht.lines_eq ht.pos_eq h0 hw reads _ h.lines_eq

/-- Line framing of a connection. For every old content of the buffer, every stream
and every cut into reads that pass the size check, the lines parsed are exactly
those of the stream, and the rest is retained, precisely when each read starts
on an empty buffer or finds no terminator in its window, and each compaction's
`memcpy` delivers its source. -/
theorem framing_iff_framedReads (lib : RecvLibrary) (buf : Cells UInt8)
    (reads : List (List UInt8))
    (hfit : AlongSteps (feed lib) (fun t => Fits t.recv) (opened buf) reads) :
    FramingCorrect (runFrom (feed lib) (opened buf) reads) reads.flatten ↔
      AlongSteps (feed lib) (FramedRead lib) (opened buf) reads :=
  framing_iff_from lib reads hfit (opened_framed buf)

/-- A library whose `memcpy` is correct on overlapping regions too, with a decoder
that leaves the line as it is. -/
def plainLibrary : RecvLibrary where
  memcpy := BlockCopy.buffered
  parseInsitu m _ _ := m
  insitu_frame _ _ _ _ _ := rfl

/-- Two whole lines, one in each read. -/
theorem framing_iff_two_reads :
    FramingCorrect (runFrom (feed plainLibrary) (opened fun _ => 0) [[97,10],[98,10]])
        [97,10,98,10] ↔
      AlongSteps (feed plainLibrary) (FramedRead plainLibrary) (opened fun _ => 0)
        [[97,10],[98,10]] := by
  have h1 : Fits (opened fun _ => 0).recv [97,10] := by decide
  have hp : (feed plainLibrary (opened fun _ => 0) [97,10]).recv.m_recvBufPos=0 :=
    (deliver_of_empty plainLibrary h1 rfl).1
  exact framing_iff_framedReads plainLibrary (fun _ => 0) [[97,10],[98,10]]
    ⟨h1,(fits_iff (by rw [hp]; decide) _).mpr (by rw [hp]; decide),trivial⟩

/-- The line `ab` cut between its two letters, in a cleared buffer, passes the size
checks and is not framed: the second read parses `b` without its beginning. -/
theorem split_line_not_framed :
    AlongSteps (feed plainLibrary) (fun t => Fits t.recv) (opened fun _ => 0) [[97],[98,10]] ∧
      ¬FramingCorrect (runFrom (feed plainLibrary) (opened fun _ => 0) [[97],[98,10]])
        [97,98,10] := by
  have h1 : Fits (opened fun _ => 0).recv [97] := by decide
  have hp : (feed plainLibrary (opened fun _ => 0) [97]).recv.m_recvBufPos=1 :=
    (deliver_of_empty plainLibrary h1 rfl).1
  have hfit : AlongSteps (feed plainLibrary) (fun t => Fits t.recv) (opened fun _ => 0)
      [[97],[98,10]] :=
    ⟨h1,(fits_iff (by rw [hp]; decide) _).mpr (by rw [hp]; decide),trivial⟩
  refine ⟨hfit,fun h => ?_⟩
  have hframed := (framing_iff_from plainLibrary [[97],[98,10]] hfit (opened_framed _)).mp h
  rcases hframed.2.1.1 with h0|hw
  · rw [hp] at h0
    cases h0
  · apply hw
    rw [window_eq]
    exact List.mem_append_left _ (by decide)

/-- Bytes of the buffer that hold received data once a read of this length is in. -/
def receivedEnd (s : RecvState) (bytes : List UInt8) : ℕ := s.m_recvBufPos+bytes.length

/-- One delivery handled inside the buffer. The position stays below the reserved
bytes, the size check subtracts without wrapping, `memchr` and `parse` are given
received bytes only, and the compaction does not overlap. -/
structure ReadSafe (lib : RecvLibrary) (s : RecvState) (d : Delivery) : Prop where
  /-- Position before the call. -/
  pos_le : s.m_recvBufPos+8 ≤ bufSize
  /-- Position after the call. -/
  next_le : (deliver lib s d).state.m_recvBufPos+8 ≤ bufSize
  /-- The unsigned difference is the integer one. -/
  no_wrap : ((sizeSub (sizeSub bufSize 8) s.m_recvBufPos : ℕ) : ℤ)=bufSize-8-s.m_recvBufPos
  /-- Regions of `memchr` and `parse` end where the received bytes end. -/
  inside : ∀ bytes, d=.data bytes →
    ∀ w∈(deliver lib s d).scans++(deliver lib s d).parsed, w.1+w.2 ≤ receivedEnd s bytes
  /-- Source and destination of the compaction. -/
  apart : ∀ call∈(deliver lib s d).copied, Apart call.dst call.src call.count

/-- A delivery that touches no byte, or a read on an empty buffer whose unterminated
tail is empty, everything, or no longer than the lines before it. -/
def SafeDelivery (s : RecvState) : Delivery → Prop
  | .failed _ => True
  | .data bytes =>
    ¬Fits s bytes ∨ s.m_recvBufPos=0 ∧
      (remainder newline bytes=[] ∨ newline∉bytes ∨
        2*(remainder newline bytes).length ≤ bytes.length)

/-- The next receive state. -/
def receive (lib : RecvLibrary) (s : RecvState) (d : Delivery) : RecvState :=
  (deliver lib s d).state

/-- No delivery moves the position into the reserved bytes, whatever it reads. -/
theorem receive_pos_le (lib : RecvLibrary) {s : RecvState} (h : s.m_recvBufPos+8 ≤ bufSize)
    (d : Delivery) : (receive lib s d).m_recvBufPos+8 ≤ bufSize := by
  cases d with
  | failed code =>
    rw [receive,deliver_failed]
    exact h
  | data bytes =>
    by_cases hfit : Fits s bytes
    · obtain ⟨-,-,hs,-⟩ := readOf_spec lib s bytes
      have hwin := length_remainder_le newline (window s bytes)
      have hle := (fits_iff h bytes).mp hfit
      rw [receive,deliver_data lib hfit,compact]
      split
      · exact Nat.zero_add 8 ▸ (by decide : 8 ≤ bufSize)
      · split
        · dsimp only; omega
        · have hr := (readOf_spec lib s bytes).2.1
          rw [window,length_slice] at hwin
          rw [window] at hr
          dsimp only
          omega
    · rw [receive,deliver_data_of_not_fits lib hfit]
      exact h

/-- The compaction is made for a proper remainder behind at least one line. -/
theorem mem_compact_copied (lib : RecvLibrary) (loop : LoopReport) (base received : ℕ)
    (call : CopyCall) :
    call∈(compact lib loop base received).copied ↔
      loop.remaining≠0 ∧ loop.start≠base ∧
        call=⟨loop.cells,base,loop.start,loop.remaining⟩ := by
  unfold compact
  by_cases hz : loop.remaining=0
  · simp [hz]
  · by_cases hb : loop.start=base
    · simp [hz,hb]
    · rw [if_neg hz,if_neg hb]
      simp only [Option.mem_some_iff,ne_eq,hz,hb,not_false_eq_true,true_and]
      exact eq_comm

/-- A read without lines is its own remainder, and conversely. -/
theorem length_remainder_eq_iff (bytes : List UInt8) :
    (remainder newline bytes).length=bytes.length ↔ newline∉bytes := by
  constructor
  · intro h
    have hsplit := flatten_records_append_remainder newline bytes
    have hlen := congrArg List.length hsplit
    rw [List.length_append] at hlen
    have hnil : (records newline bytes).flatten=[] := List.eq_nil_of_length_eq_zero (by omega)
    rw [hnil,List.nil_append] at hsplit
    rw [←hsplit]
    exact not_mem_remainder newline bytes
  · intro h
    rw [remainder_of_not_mem h]

/-- On an empty buffer the compaction is apart exactly when the remainder is empty,
everything, or no longer than the lines before it. -/
theorem compaction_apart_iff (lib : RecvLibrary) {s : RecvState} {bytes : List UInt8}
    (hfit : Fits s bytes) (h0 : s.m_recvBufPos=0) :
    (∀ call∈(deliver lib s (.data bytes)).copied, Apart call.dst call.src call.count) ↔
      remainder newline bytes=[] ∨ newline∉bytes ∨
        2*(remainder newline bytes).length ≤ bytes.length := by
  obtain ⟨-,hr,hs,-⟩ := readOf_spec lib s bytes
  rw [window_of_empty h0] at hr
  have hall := length_remainder_eq_iff bytes
  rw [deliver_data lib hfit,←List.length_eq_zero_iff,←hall,←hr]
  simp only [mem_compact_copied]
  constructor
  · intro h
    by_cases hz : (readOf lib s bytes).remaining=0
    · exact Or.inl hz
    · by_cases hb : (readOf lib s bytes).start=s.m_recvBufPos
      · exact Or.inr (Or.inl (by omega))
      · have ha := h _ ⟨hz,hb,rfl⟩
        dsimp only [Apart] at ha
        exact Or.inr (Or.inr (by omega))
  · rintro h call ⟨hz,hb,rfl⟩
    dsimp only [Apart]
    omega

/-- One delivery is handled safely exactly under the condition on it. -/
theorem readSafe_iff (lib : RecvLibrary) {s : RecvState} (h : s.m_recvBufPos+8 ≤ bufSize)
    (d : Delivery) : ReadSafe lib s d ↔ SafeDelivery s d := by
  have hroom : sizeSub bufSize 8=bufSize-8 := sizeSub_of_le (by decide) (by decide)
  have hwrap : ((sizeSub (sizeSub bufSize 8) s.m_recvBufPos : ℕ) : ℤ)=bufSize-8-s.m_recvBufPos := by
    rw [hroom,sizeSub_of_le (by omega) (by decide)]
    omega
  cases d with
  | failed code =>
    refine iff_of_true ⟨h,receive_pos_le lib h _,hwrap,?_,?_⟩ trivial
    · intro bytes hd
      cases hd
    · rw [deliver_failed]
      simp
  | data bytes =>
    by_cases hfit : Fits s bytes
    · obtain ⟨hfirst,hwithin⟩ := readLoop_regions lib (store s.m_buf s.m_recvBufPos bytes)
        s.m_recvBufPos (s.m_recvBufPos+bytes.length)
      obtain ⟨-,hscans,hparsed⟩ := compact_reports lib (readOf lib s bytes) s.m_recvBufPos
        (s.m_recvBufPos+bytes.length)
      rw [←deliver_data lib hfit] at hscans hparsed
      constructor
      · intro hsafe
        have hin := hsafe.inside bytes rfl (s.m_recvBufPos,s.m_recvBufPos+bytes.length)
          (by rw [hscans]; exact List.mem_append_left _ hfirst)
        have h0 : s.m_recvBufPos=0 := by
          dsimp only [receivedEnd] at hin
          omega
        exact Or.inr ⟨h0,(compaction_apart_iff lib hfit h0).mp hsafe.apart⟩
      · intro hd
        obtain ⟨h0,hover⟩ := hd.resolve_left (not_not_intro hfit)
        refine ⟨h,receive_pos_le lib h _,hwrap,?_,(compaction_apart_iff lib hfit h0).mpr hover⟩
        intro bytes' hb w hw
        rw [Delivery.data.injEq] at hb
        subst hb
        rw [hscans,hparsed] at hw
        have hregion := hwithin w hw
        dsimp only [receivedEnd]
        omega
    · refine iff_of_true ⟨h,receive_pos_le lib h _,hwrap,?_,?_⟩ (Or.inl hfit)
      · rw [deliver_data_of_not_fits lib hfit]
        simp
      · rw [deliver_data_of_not_fits lib hfit]
        simp

/-- The position never reaches the reserved bytes, on any sequence of deliveries. -/
theorem receive_run_pos_le (lib : RecvLibrary) (buf : Cells UInt8) (ds : List Delivery) :
    AlongStates (receive lib) (fun s => s.m_recvBufPos+8 ≤ bufSize) ⟨buf,0⟩ ds :=
  invariant_alongStates (I:=fun s => s.m_recvBufPos+8 ≤ bufSize)
    (fun _ e h _ => receive_pos_le lib h e) (Nat.le_add_left 8 2040)
    (alongSteps_true (receive lib) ⟨buf,0⟩ ds)

/-- Buffer safety of a connection. For every sequence of deliveries, all of them are
handled inside the buffer precisely when each read that passes the size check finds
an empty buffer and leaves a tail that its compaction can move without overlap. -/
theorem reads_safe_iff (lib : RecvLibrary) (buf : Cells UInt8) (ds : List Delivery) :
    AlongSteps (receive lib) (ReadSafe lib) ⟨buf,0⟩ ds ↔
      AlongSteps (receive lib) SafeDelivery ⟨buf,0⟩ ds :=
  alongSteps_congr_of_invariant (I:=fun s => s.m_recvBufPos+8 ≤ bufSize)
    (fun _ e h _ => receive_pos_le lib h e) (fun _ e h _ => readSafe_iff lib h e)
    (Nat.le_add_left 8 2040) (alongSteps_true (receive lib) ⟨buf,0⟩ ds)

/-- Two letters in two reads make `memchr` search a byte never received; a short line
with a longer tail makes the compaction overlap. -/
theorem short_reads_unsafe :
    ¬AlongSteps (receive plainLibrary) (ReadSafe plainLibrary) ⟨fun _ => 0,0⟩
        [.data [97],.data [98]] ∧
      ¬AlongSteps (receive plainLibrary) (ReadSafe plainLibrary) ⟨fun _ => 0,0⟩
        [.data [97,10,98,99,100]] := by
  have h1 : Fits (⟨fun _ => 0,0⟩ : RecvState) [97] := by decide
  have hp : (receive plainLibrary ⟨fun _ => 0,0⟩ (.data [97])).m_recvBufPos=1 :=
    (deliver_of_empty plainLibrary h1 rfl).1
  constructor
  · intro h
    have hs := (readSafe_iff plainLibrary (by rw [hp]; decide) _).mp h.2.1
    rcases hs with hfit|⟨h0,-⟩
    · exact hfit ((fits_iff (by rw [hp]; decide) _).mpr (by rw [hp]; decide))
    · rw [hp] at h0
      cases h0
  · intro h
    have hs := (readSafe_iff plainLibrary (by decide) _).mp h.1
    revert hs
    unfold SafeDelivery
    decide

end XmrigCC.ReceiveBufferRuns
