import XmrigCC.CellMemory
import XmrigCC.DelimitedStream

/-!
# The receive buffer of a pool connection

`Client::onAllocBuffer` hands the tail of `m_buf` to the socket library and
`Client::onRead` cuts what arrived into lines. Addresses are relative to
`m_buf`; cells from 2048 on are the members that follow it, so an access past
the buffer reads or writes whatever they hold. Each report retains the lines
passed to `Client::parse` and every region a library routine was given.
-/

namespace XmrigCC.ReceiveBuffer

open CellMemory DelimitedStream

/-- The line terminator searched by `onRead`. -/
def newline : UInt8 := 10

/-- `sizeof(m_buf)`. -/
def bufSize : ℕ := 2048

/-- Subtraction of `size_t` values. -/
def sizeSub (a b : ℕ) : ℕ := (a+(2^64-b%2^64))%2^64

/-- Below the minuend the machine subtraction is the exact one. -/
theorem sizeSub_of_le {a b : ℕ} (h : b ≤ a) (ha : a<2^64) : sizeSub a b=a-b := by
  unfold sizeSub
  rw [Nat.mod_eq_of_lt (by omega : b<2^64),show a+(2^64-b)=a-b+2^64 by omega,
    Nat.add_mod_right,Nat.mod_eq_of_lt (by omega)]

/-- What the socket library and the in-situ decoder do to memory. -/
structure RecvLibrary where
  /-- `memcpy`, unspecified on overlapping regions. -/
  memcpy : BlockCopy UInt8
  /-- Memory after `ParseInsitu` of the line at an address, with its length. -/
  parseInsitu : Cells UInt8 → ℕ → ℕ → Cells UInt8
  /-- In-situ decoding writes over the line only. -/
  insitu_frame : ∀ m start len c, (c<start ∨ start+len ≤ c) → parseInsitu m start len c=m c

/-- `m_buf` with the members after it, and `m_recvBufPos`. -/
structure RecvState where
  /-- Cells from `m_recvBuf.base` on. -/
  m_buf : Cells UInt8
  /-- Bytes retained from earlier reads. -/
  m_recvBufPos : ℕ

/-- First address from a start holding a byte, within a count of bytes. -/
def memchr (m : Cells UInt8) (c : UInt8) : ℕ → ℕ → Option ℕ
  | _,0 => none
  | a,n+1 => if m a=c then some a else memchr m c (a+1) n

/-- A failed search has seen every byte of its region. -/
theorem memchr_eq_none {m : Cells UInt8} {c : UInt8} {a n : ℕ} :
    memchr m c a n=none ↔ c∉slice m a n := by
  induction n generalizing a with
  | zero => simp [memchr]
  | succ n ih =>
    rw [memchr,slice_succ,List.mem_cons,not_or]
    by_cases h : m a=c
    · rw [if_pos h]
      simp [h]
    · rw [if_neg h,ih]
      exact ⟨fun hn => ⟨fun he => h he.symm,hn⟩,fun hn => hn.2⟩

/-- A successful search stops at the first occurrence in its region. -/
theorem memchr_eq_some {m : Cells UInt8} {c : UInt8} {a n found : ℕ}
    (h : memchr m c a n=some found) :
    a ≤ found ∧ found<a+n ∧ m found=c ∧ c∉slice m a (found-a) := by
  induction n generalizing a with
  | zero => simp [memchr] at h
  | succ n ih =>
    rw [memchr] at h
    by_cases hc : m a=c
    · rw [if_pos hc,Option.some.injEq] at h
      subst h
      exact ⟨le_rfl,by omega,hc,by simp⟩
    · rw [if_neg hc] at h
      obtain ⟨h1,h2,h3,h4⟩ := ih h
      refine ⟨by omega,by omega,h3,?_⟩
      rw [show found-a=(found-(a+1))+1 by omega,slice_succ,List.mem_cons,not_or]
      exact ⟨fun he => hc he.symm,h4⟩

/-- Memory effect of `Client::parse` on a line: its last byte becomes the
terminating NUL and the decoder works in place. -/
def parseCells (lib : RecvLibrary) (m : Cells UInt8) (start len : ℕ) : Cells UInt8 :=
  lib.parseInsitu (store m (start+len-1) [0]) start len

/-- Parsing a line leaves every cell outside it as it was. -/
theorem parseCells_frame (lib : RecvLibrary) {m : Cells UInt8} {start len c : ℕ} (hl : 0<len)
    (h : c<start ∨ start+len ≤ c) : parseCells lib m start len c=m c := by
  unfold parseCells
  rw [lib.insitu_frame _ _ _ _ h]
  apply store_outside
  simp only [List.length_cons,List.length_nil]
  omega

/-- Outcome of the scanning loop of `onRead`. -/
structure LoopReport where
  /-- Memory after the lines were parsed in place. -/
  cells : Cells UInt8
  /-- Final value of `start`. -/
  start : ℕ
  /-- Final value of `remaining`. -/
  remaining : ℕ
  /-- Lines handed to `parse`, as they stood when it was called. -/
  lines : List (List UInt8)
  /-- Address and length of every region given to `memchr`. -/
  scans : List (ℕ×ℕ)
  /-- Address and length of every region given to `parse`. -/
  parsed : List (ℕ×ℕ)

/-- The loop `while ((end = memchr(start, '\n', remaining)) != nullptr)`. -/
def readLoop (lib : RecvLibrary) (m : Cells UInt8) (start remaining : ℕ) : LoopReport :=
  match _h : memchr m newline start remaining with
  | none => ⟨m,start,remaining,[],[(start,remaining)],[]⟩
  | some found =>
    let stop := found+1
    let len := stop-start
    let child := readLoop lib (parseCells lib m start len) stop (remaining-len)
    ⟨child.cells,child.start,child.remaining,slice m start len::child.lines,
      (start,remaining)::child.scans,(start,len)::child.parsed⟩
termination_by remaining
decreasing_by
  have hf := memchr_eq_some _h
  omega

/-- Without a terminator in the region the loop ends at once. -/
theorem readLoop_none (lib : RecvLibrary) {m : Cells UInt8} {start remaining : ℕ}
    (h : memchr m newline start remaining=none) :
    readLoop lib m start remaining=⟨m,start,remaining,[],[(start,remaining)],[]⟩ := by
  rw [readLoop]
  split
  · rfl
  · rename_i found hf
    rw [h] at hf
    cases hf

/-- With a terminator the loop parses one line and continues behind it. -/
theorem readLoop_some (lib : RecvLibrary) {m : Cells UInt8} {start remaining found : ℕ}
    (h : memchr m newline start remaining=some found) :
    readLoop lib m start remaining=
      let len := found+1-start
      let child := readLoop lib (parseCells lib m start len) (found+1) (remaining-len)
      ⟨child.cells,child.start,child.remaining,slice m start len::child.lines,
        (start,remaining)::child.scans,(start,len)::child.parsed⟩ := by
  rw [readLoop]
  split
  · rename_i hf
    rw [h] at hf
    cases hf
  · rename_i found' hf
    rw [h,Option.some.injEq] at hf
    subst hf
    rfl

/-- A region with its first terminator found is a line followed by the rest. -/
theorem slice_of_found {m : Cells UInt8} {start remaining found : ℕ}
    (h : memchr m newline start remaining=some found) :
    slice m start remaining=slice m start (found-start)++
      newline::slice m (found+1) (remaining-(found+1-start)) := by
  obtain ⟨h1,h2,h3,-⟩ := memchr_eq_some h
  have he : remaining=(found-start)+((remaining-(found+1-start))+1) := by omega
  calc
    slice m start remaining=slice m start ((found-start)+((remaining-(found+1-start))+1)) := by
      rw [←he]
    _ = slice m start (found-start)++newline::slice m (found+1) (remaining-(found+1-start)) := by
      rw [slice_add,slice_succ,show start+(found-start)=found by omega,h3]

/-- The line passed to `parse` ends with the terminator just found. -/
theorem slice_line {m : Cells UInt8} {start remaining found : ℕ}
    (h : memchr m newline start remaining=some found) :
    slice m start (found+1-start)=slice m start (found-start)++[newline] := by
  obtain ⟨h1,-,h3,-⟩ := memchr_eq_some h
  rw [show found+1-start=(found-start)+1 by omega,slice_add,slice_succ,
    show start+(found-start)=found by omega,h3,slice_zero]

/-- The scanning loop passes exactly the records of its region to `parse`, ends
at the remainder and changes no cell outside the lines it parsed. -/
theorem readLoop_spec (lib : RecvLibrary) (m : Cells UInt8) (start remaining : ℕ) :
    (readLoop lib m start remaining).lines=records newline (slice m start remaining) ∧
    (readLoop lib m start remaining).remaining=
      (remainder newline (slice m start remaining)).length ∧
    (readLoop lib m start remaining).start+(readLoop lib m start remaining).remaining=
      start+remaining ∧
    ∀ c, (c<start ∨ (readLoop lib m start remaining).start ≤ c) →
      (readLoop lib m start remaining).cells c=m c := by
  induction remaining using Nat.strong_induction_on generalizing m start with
  | h remaining ih =>
    cases hf : memchr m newline start remaining with
    | none =>
      have hn := memchr_eq_none.mp hf
      rw [readLoop_none lib hf,records_of_not_mem hn,remainder_of_not_mem hn,length_slice]
      exact ⟨rfl,rfl,rfl,fun _ _ => rfl⟩
    | some found =>
      obtain ⟨h1,h2,-,h4⟩ := memchr_eq_some hf
      obtain ⟨hl,hr,hs,hc⟩ := ih (remaining-(found+1-start)) (by omega)
        (parseCells lib m start (found+1-start)) (found+1)
      have hslice : slice (parseCells lib m start (found+1-start)) (found+1)
          (remaining-(found+1-start))=slice m (found+1) (remaining-(found+1-start)) := by
        apply slice_congr
        intro i _
        exact parseCells_frame lib (by omega) (by omega)
      rw [hslice] at hl hr
      rw [readLoop_some lib hf]
      dsimp only
      rw [slice_of_found hf,records_append_cons h4,remainder_append_cons h4,slice_line hf,hl]
      refine ⟨rfl,hr,by omega,?_⟩
      intro c hout
      have hstart : found+1 ≤ 
          (readLoop lib (parseCells lib m start (found+1-start)) (found+1)
            (remaining-(found+1-start))).start := by
        have hle := length_remainder_le newline (slice m (found+1) (remaining-(found+1-start)))
        rw [length_slice] at hle
        omega
      rw [hc c (by omega),parseCells_frame lib (by omega) (by omega)]

/-- Every region searched or parsed lies in the region given to the loop, and the
whole region is searched first. -/
theorem readLoop_regions (lib : RecvLibrary) (m : Cells UInt8) (start remaining : ℕ) :
    (start,remaining)∈(readLoop lib m start remaining).scans ∧
    ∀ w∈(readLoop lib m start remaining).scans++(readLoop lib m start remaining).parsed,
      start ≤ w.1 ∧ w.1+w.2 ≤ start+remaining := by
  induction remaining using Nat.strong_induction_on generalizing m start with
  | h remaining ih =>
    cases hf : memchr m newline start remaining with
    | none =>
      rw [readLoop_none lib hf]
      simp
    | some found =>
      obtain ⟨h1,h2,-,-⟩ := memchr_eq_some hf
      obtain ⟨-,hw⟩ := ih (remaining-(found+1-start)) (by omega)
        (parseCells lib m start (found+1-start)) (found+1)
      rw [readLoop_some lib hf]
      dsimp only
      refine ⟨List.mem_cons_self,?_⟩
      intro w hm
      simp only [List.cons_append,List.mem_cons,List.mem_append] at hm hw
      rcases hm with rfl|hm|rfl|hm
      · exact ⟨le_rfl,le_rfl⟩
      · have h := hw w (Or.inl hm)
        omega
      · exact ⟨le_rfl,by dsimp only; omega⟩
      · have h := hw w (Or.inr hm)
        omega

/-- A call of `memcpy` and the memory it is made in. -/
structure CopyCall where
  /-- Memory before the call. -/
  cells : Cells UInt8
  /-- Destination address. -/
  dst : ℕ
  /-- Source address. -/
  src : ℕ
  /-- Bytes to copy. -/
  count : ℕ

/-- Outcome of one call of `onRead`. -/
structure ReadReport where
  /-- Buffer and position when `onRead` returns. -/
  state : RecvState
  /-- `close()` was called because of an error or a full buffer. -/
  closed : Bool
  /-- Lines handed to `parse`, in order. -/
  lines : List (List UInt8)
  /-- Regions given to `memchr`. -/
  scans : List (ℕ×ℕ)
  /-- Regions given to `parse`. -/
  parsed : List (ℕ×ℕ)
  /-- The final compaction, when it is made. -/
  copied : Option CopyCall

/-- `Client::onAllocBuffer`: address and length of the buffer lent for the next read. -/
def onAllocBuffer (s : RecvState) : ℕ×ℕ := (s.m_recvBufPos,sizeSub bufSize s.m_recvBufPos)

/-- The end of `onRead`, after its loop: forget a buffer without remainder, keep one
without a line, and move the remainder to `buf->base` otherwise. -/
def compact (lib : RecvLibrary) (loop : LoopReport) (base received : ℕ) : ReadReport :=
  if loop.remaining=0 then ⟨⟨loop.cells,0⟩,false,loop.lines,loop.scans,loop.parsed,none⟩
  else if loop.start=base then
    ⟨⟨loop.cells,received⟩,false,loop.lines,loop.scans,loop.parsed,none⟩
  else
    ⟨⟨lib.memcpy.copy loop.cells base loop.start loop.remaining,loop.remaining⟩,false,
      loop.lines,loop.scans,loop.parsed,some ⟨loop.cells,base,loop.start,loop.remaining⟩⟩

/-- `Client::onRead` with `buf->base` at an address of the buffer. -/
def onRead (lib : RecvLibrary) (s : RecvState) (nread : ℤ) (base : ℕ) : ReadReport :=
  if nread<0 then ⟨s,true,[],[],[],none⟩
  else if sizeSub (sizeSub bufSize 8) s.m_recvBufPos<nread.toNat then ⟨s,true,[],[],[],none⟩
  else
    let received := s.m_recvBufPos+nread.toNat
    compact lib (readLoop lib s.m_buf base received) base received

/-- What the socket library delivers: bytes stored at the lent address, or an error. -/
inductive Delivery where
  /-- A read of these bytes. -/
  | data (bytes : List UInt8)
  /-- End of stream or an error, with its (negated) code. -/
  | failed (code : ℕ)

/-- One read: the buffer is lent, the bytes are stored in it and `onRead` is called. -/
def deliver (lib : RecvLibrary) (s : RecvState) : Delivery → ReadReport
  | .data bytes =>
    let base := (onAllocBuffer s).1
    onRead lib ⟨store s.m_buf base bytes,s.m_recvBufPos⟩ bytes.length base
  | .failed code => onRead lib s (-(code : ℤ)-1) (onAllocBuffer s).1

/-- The size check of `onRead` lets a read of this length through. -/
def Fits (s : RecvState) (bytes : List UInt8) : Prop :=
  bytes.length ≤ sizeSub (sizeSub bufSize 8) s.m_recvBufPos

instance (s : RecvState) (bytes : List UInt8) : Decidable (Fits s bytes) :=
  inferInstanceAs (Decidable (bytes.length ≤ sizeSub (sizeSub bufSize 8) s.m_recvBufPos))

/-- While the position leaves the reserved bytes free, the size check is exact. -/
theorem fits_iff {s : RecvState} (h : s.m_recvBufPos+8 ≤ bufSize) (bytes : List UInt8) :
    Fits s bytes ↔ s.m_recvBufPos+bytes.length+8 ≤ bufSize := by
  have hroom : sizeSub bufSize 8=bufSize-8 := sizeSub_of_le (by decide) (by decide)
  unfold Fits
  rw [hroom,sizeSub_of_le (by omega) (by decide)]
  omega

/-- The bytes searched by the first `memchr` of a read: as many as the buffer now
holds, but counted from where the new ones start. -/
def window (s : RecvState) (bytes : List UInt8) : List UInt8 :=
  slice (store s.m_buf s.m_recvBufPos bytes) s.m_recvBufPos (s.m_recvBufPos+bytes.length)

/-- The loop that a read of these bytes runs. -/
abbrev readOf (lib : RecvLibrary) (s : RecvState) (bytes : List UInt8) : LoopReport :=
  readLoop lib (store s.m_buf s.m_recvBufPos bytes) s.m_recvBufPos (s.m_recvBufPos+bytes.length)

/-- The loop of a read passes the records of its window, stops at their remainder and
changes no cell outside the lines. -/
theorem readOf_spec (lib : RecvLibrary) (s : RecvState) (bytes : List UInt8) :
    (readOf lib s bytes).lines=records newline (window s bytes) ∧
    (readOf lib s bytes).remaining=(remainder newline (window s bytes)).length ∧
    (readOf lib s bytes).start+(readOf lib s bytes).remaining=
      s.m_recvBufPos+(s.m_recvBufPos+bytes.length) ∧
    ∀ c, (c<s.m_recvBufPos ∨ (readOf lib s bytes).start ≤ c) →
      (readOf lib s bytes).cells c=store s.m_buf s.m_recvBufPos bytes c :=
  readLoop_spec lib _ _ _

/-- A read that passes the size check runs the loop over its window. -/
theorem deliver_data (lib : RecvLibrary) {s : RecvState} {bytes : List UInt8} (h : Fits s bytes) :
    deliver lib s (.data bytes)=
      compact lib (readOf lib s bytes) s.m_recvBufPos (s.m_recvBufPos+bytes.length) := by
  have hneg : ¬((bytes.length : ℤ)<0) := by omega
  have hfit : ¬sizeSub (sizeSub bufSize 8) s.m_recvBufPos<bytes.length := Nat.not_lt.mpr h
  simp only [deliver,onRead,onAllocBuffer,if_neg hneg,Int.toNat_natCast,if_neg hfit]

/-- A read that fails the size check closes the connection and parses nothing. -/
theorem deliver_data_of_not_fits (lib : RecvLibrary) {s : RecvState} {bytes : List UInt8}
    (h : ¬Fits s bytes) :
    deliver lib s (.data bytes)=
      ⟨⟨store s.m_buf s.m_recvBufPos bytes,s.m_recvBufPos⟩,true,[],[],[],none⟩ := by
  have hneg : ¬((bytes.length : ℤ)<0) := by omega
  have hfit : sizeSub (sizeSub bufSize 8) s.m_recvBufPos<bytes.length := Nat.not_le.mp h
  simp only [deliver,onRead,onAllocBuffer,if_neg hneg,Int.toNat_natCast,if_pos hfit]

/-- A failed read closes the connection and touches nothing. -/
theorem deliver_failed (lib : RecvLibrary) (s : RecvState) (code : ℕ) :
    deliver lib s (.failed code)=⟨s,true,[],[],[],none⟩ := by
  have hneg : -(code : ℤ)-1<0 := by omega
  simp only [deliver,onRead,if_pos hneg]

/-- The end of `onRead` retains what the loop reports of lines and regions. -/
theorem compact_reports (lib : RecvLibrary) (loop : LoopReport) (base received : ℕ) :
    (compact lib loop base received).lines=loop.lines ∧
    (compact lib loop base received).scans=loop.scans ∧
    (compact lib loop base received).parsed=loop.parsed := by
  unfold compact
  split
  · exact ⟨rfl,rfl,rfl⟩
  · split <;> exact ⟨rfl,rfl,rfl⟩

/-- The lines of a read are the records of its window. -/
theorem deliver_lines (lib : RecvLibrary) {s : RecvState} {bytes : List UInt8} (h : Fits s bytes) :
    (deliver lib s (.data bytes)).lines=records newline (window s bytes) := by
  rw [deliver_data lib h,(compact_reports _ _ _ _).1]
  exact (readOf_spec lib s bytes).1

end XmrigCC.ReceiveBuffer
