import XmrigCC.CellMemory
import XmrigCC.JsonText

/-!
# Records of the log

The two back ends that format a record to an array of 512 bytes. `snprintf` and `vsnprintf`
store what fits and return the length of the whole text, which `FileLog` uses as an index
and both use as a size.
-/

namespace XmrigCC.LogRecords

open ByteText CellMemory
open PoolMessages (decimal)

/-- Bytes that `snprintf` and `vsnprintf` store of a text. -/
def stored (n : ℕ) (result : Bytes) : Bytes := if n=0 then [] else result.take (n-1)++[0]

/-- `tm` of a time, with the members that are used. -/
structure Tm where
  /-- Years since 1900. -/
  tm_year : ℤ
  /-- Months since January. -/
  tm_mon : ℕ
  /-- Day of the month. -/
  tm_mday : ℕ
  /-- Hour. -/
  tm_hour : ℕ
  /-- Minute. -/
  tm_min : ℕ
  /-- Second. -/
  tm_sec : ℕ

/-- `%02d`. -/
def twoDigits (n : ℕ) : Bytes := if n<10 then 48::decimal n else decimal n

/-- `[%d-%02d-%02d %02d:%02d:%02d]`. -/
def stamp (tm : Tm) : Bytes :=
  text "["++decimal (tm.tm_year+1900)++text "-"++twoDigits (tm.tm_mon+1)++text "-"++
    twoDigits tm.tm_mday++text " "++twoDigits tm.tm_hour++text ":"++twoDigits tm.tm_min++
    text ":"++twoDigits tm.tm_sec++text "]"

/-- What `FileLog::message` does with its array, in which nothing is set at first. -/
structure FileRecord where
  /-- Stores to the array, each with its index. -/
  stores : List (ℕ×Bytes)
  /-- Size handed to `write`. -/
  size : ℕ

/-- `FileLog::message`: the record written for a message that expands to a text, none
without a file. -/
def fileMessage (m_file : ℤ) (tm : Tm) (message : Bytes) : Option FileRecord :=
  if m_file<0 then none
  else
    let head := stamp tm++text " "
    let size := head.length
    -- a negative rest becomes a `size_t`
    let rest := ((512-(size : ℤ)-1)%2^64).toNat
    let size' := message.length+size
    some ⟨[(0,stored 23 head),(size,stored rest message),(size',[10])],size'+1⟩

/-- Contents of the array, none where nothing was stored. -/
def FileRecord.buf (r : FileRecord) : Cells (Option UInt8) :=
  r.stores.foldl (fun buf s => store buf s.1 (s.2.map some)) fun _ => none

/-- A record stays in its array, and what is written of it was stored and ends the line. -/
structure FileRecord.Fits (r : FileRecord) : Prop where
  /-- All stores are inside. -/
  inside : ∀ s∈r.stores, s.1+s.2.length ≤ 512
  /-- All bytes written are inside and were stored. -/
  filled : ∀ i<r.size, i<512 ∧ r.buf i ≠ none
  /-- The last of them is '\n'. -/
  line : 0<r.size ∧ r.buf (r.size-1)=some 10

/-- What `ConsoleLog::print` does with the text of a record. -/
inductive ConsoleRecord where
  /-- It returns for an empty text. -/
  | nothing
  /-- `fputs` of `m_buf`, up to the NUL in it. -/
  | fputs (m_buf : Bytes)
  /-- `uv_try_write` of so many bytes of `m_buf`. -/
  | tryWrite (m_buf : Bytes) (len : ℕ)

/-- `ConsoleLog::print`. -/
def consolePrint (writable : Bool) (result : Bytes) : ConsoleRecord :=
  let m_buf := stored 511 result
  let len := result.length
  if len ≤ 0 then .nothing
  else if writable=false then .fputs m_buf
  else .tryWrite m_buf len

/-- No more is handed to `uv_try_write` than was stored in `m_buf`. -/
def ConsoleRecord.Fits : ConsoleRecord → Prop
  | .nothing => True
  | .fputs m_buf => m_buf.length ≤ 512 ∧ 0∈m_buf
  | .tryWrite m_buf len => m_buf.length ≤ 512 ∧ len ≤ m_buf.length

/-- `Log::Level`. -/
inductive Level where
  /-- `ERR`. -/
  | ERR
  /-- `WARNING`. -/
  | WARNING
  /-- `NOTICE`. -/
  | NOTICE
  /-- `INFO`. -/
  | INFO
  /-- `DEBUG`. -/
  | DEBUG

/-- `kCL_RED` to `kCL_GRAY`, of the last of which Windows has another. -/
def color (win32 : Bool) : Level → Bytes
  | .ERR => text "\x1b[31m"
  | .WARNING => text "\x1b[33m"
  | .NOTICE => text "\x1b[01;37m"
  | .DEBUG => if win32 then text "\x1b[01;30m" else text "\x1b[90m"
  | .INFO => []

/-- `kCL_N`. -/
def kCL_N : Bytes := text "\x1b[0m"

/-- What `m_fmt` holds of a format: 254 characters of it at most. -/
def kept (fmt : Bytes) : Bytes := fmt.take 254

/-- `ConsoleLog::message`; `expand` puts the arguments into a format. -/
def consoleMessage (win32 m_colors writable : Bool) (level : Level) (tm : Tm) (fmt : Bytes)
    (expand : Bytes → Bytes) : ConsoleRecord :=
  let color := if m_colors then color win32 level else []
  let fmt := stamp tm++color++text " "++fmt++(if m_colors then kCL_N else [])++text "\n"
  consolePrint writable (expand (kept fmt))

/-- `ConsoleLog::text`. -/
def consoleText (m_colors writable : Bool) (fmt : Bytes) (expand : Bytes → Bytes) :
    ConsoleRecord :=
  consolePrint writable (expand (kept (fmt++(if m_colors then kCL_N else [])++text "\n")))

section Lengths

theorem length_stored {n : ℕ} (h : 0<n) (result : Bytes) :
    (stored n result).length=min (n-1) result.length+1 := by
  rw [stored,if_neg (by omega),List.length_append,List.length_take]
  rfl

theorem length_decimal (low : ℕ) {n : ℕ} (hlow : 10^low ≤ n) (hhigh : n<10^(low+1)) :
    (decimal n).length=low+1 := by
  rw [JsonText.decimal_natCast,List.length_map]
  have hle := (Nat.length_toDigits_le_iff (b:=10) (n:=n) (by decide) (Nat.succ_pos low)).mpr hhigh
  have hpos := Nat.length_toDigits_pos (b:=10) (n:=n)
  by_contra hne
  have hfew : (Nat.toDigits 10 n).length ≤ low := by omega
  have hzero : 0<low := by omega
  exact absurd ((Nat.length_toDigits_le_iff (by decide) hzero).mp hfew) (by omega)

/-- Two digits are two characters. -/
theorem length_twoDigits {n : ℕ} (h : n<100) : (twoDigits n).length=2 := by
  rw [twoDigits]
  split
  · rename_i hlt
    rw [List.length_cons,JsonText.decimal_natCast,List.length_map]
    have hle := (Nat.length_toDigits_le_iff (b:=10) (n:=n) (k:=1) (by decide) (by decide)).mpr hlt
    have hpos := Nat.length_toDigits_pos (b:=10) (n:=n)
    omega
  · rename_i hge
    exact length_decimal 1 (by omega) h

/-- Until the year 9999 a record of a file begins with 22 characters. -/
theorem length_head {tm : Tm} {year : ℕ} (hyear : tm.tm_year+1900=year) (hfour : 1000 ≤ year)
    (hyear' : year<10000) (hmon : tm.tm_mon<12) (hday : tm.tm_mday<32) (hhour : tm.tm_hour<24)
    (hmin : tm.tm_min<60) (hsec : tm.tm_sec<61) : (stamp tm++text " ").length=22 := by
  have hdecimal : (decimal (tm.tm_year+1900)).length=4 := by
    rw [hyear]
    exact length_decimal 3 hfour hyear'
  have hone : ∀ s : String, s.toList.length=1 → (text s).length=1 := fun s h => by
    rw [text,List.length_map,h]
  simp only [stamp,List.length_append,hdecimal,length_twoDigits (n:=tm.tm_mon+1) (by omega),
    length_twoDigits (n:=tm.tm_mday) (by omega),length_twoDigits (n:=tm.tm_hour) (by omega),
    length_twoDigits (n:=tm.tm_min) (by omega),length_twoDigits (n:=tm.tm_sec) (by omega),
    hone "[" rfl,hone "-" rfl,hone " " rfl,hone ":" rfl,hone "]" rfl]

end Lengths

section Stores

variable {buf : Cells (Option UInt8)} {a i : ℕ} {bytes : Bytes}

theorem store_some (h : a ≤ i ∧ i<a+bytes.length) : store buf a (bytes.map some) i ≠ none := by
  have hi : i-a<(bytes.map some).length := by rw [List.length_map]; omega
  have hread := store_inside (m:=buf) (a:=a) hi
  rw [show a+(i-a)=i by omega,List.getElem_map] at hread
  rw [hread]
  exact Option.some_ne_none _

theorem store_apart (h : i<a ∨ a+bytes.length ≤ i) : store buf a (bytes.map some) i=buf i :=
  store_outside (by rwa [List.length_map])

/-- What is stored stays stored or is replaced. -/
theorem store_keeps (h : buf i ≠ none) : store buf a (bytes.map some) i ≠ none := by
  by_cases hin : a ≤ i ∧ i<a+bytes.length
  · exact store_some hin
  · rw [store_apart (by omega)]
    exact h

end Stores

section Files

variable {head message : Bytes} {rest : ℕ}

/-- The record of a head and a message. -/
def recordOf (head message : Bytes) : FileRecord :=
  ⟨[(0,stored 23 head),
    (head.length,stored ((512-(head.length : ℤ)-1)%2^64).toNat message),
    (message.length+head.length,[10])],message.length+head.length+1⟩

theorem fileMessage_eq {m_file : ℤ} (h : ¬m_file<0) (tm : Tm) (message : Bytes) :
    fileMessage m_file tm message=some (recordOf (stamp tm++text " ") message) := by
  rw [fileMessage,if_neg h]
  rfl

/-- The array of such a record. -/
theorem recordOf_buf (head message : Bytes) : (recordOf head message).buf=
    store (store (store (fun _ => none) 0 ((stored 23 head).map some)) head.length
      ((stored ((512-(head.length : ℤ)-1)%2^64).toNat message).map some))
      (message.length+head.length) ([10].map some) := rfl

/-- Whatever was stored before, '\n' ends the record. -/
theorem recordOf_line (head message : Bytes) :
    (recordOf head message).buf ((recordOf head message).size-1)=some 10 := by
  rw [recordOf_buf,show (recordOf head message).size-1=message.length+head.length from rfl]
  exact store_inside (i:=0) (by decide : 0<([10].map some : List (Option UInt8)).length)

/-- A head of more than 23 characters leaves a gap behind what is stored of it. -/
theorem recordOf_gap (h : 24 ≤ head.length) (message : Bytes) :
    (recordOf head message).buf 23=none := by
  have hshort : (stored 23 head).length=23 := by
    rw [length_stored (by decide)]
    omega
  rw [recordOf_buf,store_apart (Or.inl (by omega)),store_apart (Or.inl (by omega)),
    store_apart (Or.inr (by omega))]

/-- The rest of the array, when the head leaves some. -/
theorem rest_eq (h : head.length ≤ 511) :
    ((512-(head.length : ℤ)-1)%2^64).toNat=511-head.length := by
  omega

/-- A head of up to 23 characters and a message that fits behind it are stored in full, but
for the last character of a message that fills the array. -/
theorem recordOf_fits (hhead : head.length ≤ 23) (hmessage : message.length+head.length ≤ 511) :
    (recordOf head message).Fits := by
  have hfirst : (stored 23 head).length=min 22 head.length+1 := length_stored (by decide) head
  have hrest : ((512-(head.length : ℤ)-1)%2^64).toNat=511-head.length := rest_eq (by omega)
  have hsecond : (stored (511-head.length) message).length=
      min (510-head.length) message.length+1 := by
    rw [length_stored (by omega)]
    omega
  refine ⟨?_,?_,Nat.succ_pos _,recordOf_line head message⟩
  · simp only [recordOf,hrest,List.forall_mem_cons,hfirst,hsecond,List.length_cons,
      List.length_nil,List.not_mem_nil,IsEmpty.forall_iff,implies_true,and_true]
    omega
  · intro i hi
    have hlt : i < message.length+head.length+1 := hi
    refine ⟨by omega,?_⟩
    rw [recordOf_buf,hrest]
    by_cases hline : i=message.length+head.length
    · exact store_some ⟨by omega,by rw [List.length_cons,List.length_nil]; omega⟩
    · apply store_keeps
      by_cases hbehind : head.length ≤ i
      · exact store_some ⟨hbehind,by rw [hsecond]; omega⟩
      · apply store_keeps
        exact store_some ⟨Nat.zero_le i,by rw [hfirst]; omega⟩

/-- These are the only ones. -/
theorem recordOf_fits_iff (head message : Bytes) :
    (recordOf head message).Fits ↔ head.length ≤ 23 ∧ message.length+head.length ≤ 511 := by
  constructor
  · intro h
    have hinside := h.inside (message.length+head.length,[10])
      (List.mem_cons_of_mem _ (List.mem_cons_of_mem _ List.mem_cons_self))
    rw [List.length_cons,List.length_nil] at hinside
    refine ⟨?_,by omega⟩
    by_contra hlong
    have hfilled := h.filled 23 (show 23 < message.length+head.length+1 by omega)
    exact hfilled.2 (recordOf_gap (by omega) message)
  · rintro ⟨hhead,hmessage⟩
    exact recordOf_fits hhead hmessage

end Files

/-- A text of the console fits when `uv_try_write` is not asked for more than was stored. -/
theorem consolePrint_fits_iff (writable : Bool) (result : Bytes) :
    (consolePrint writable result).Fits ↔ writable=false ∨ result.length ≤ 511 := by
  have hstored : (stored 511 result).length=min 510 result.length+1 := length_stored (by decide) _
  have hnul : 0∈stored 511 result := by
    rw [stored,if_neg (by decide)]
    exact List.mem_append_right _ List.mem_cons_self
  rw [consolePrint]
  split
  · rename_i hempty
    exact iff_of_true trivial (Or.inr (by omega))
  · split
    · rename_i hclosed
      exact iff_of_true ⟨by omega,hnul⟩ (Or.inl hclosed)
    · rename_i hopen
      rw [ConsoleRecord.Fits,hstored,or_iff_right hopen]
      omega

theorem length_kept (fmt : Bytes) : (kept fmt).length ≤ 254 := List.length_take_le 254 fmt

/-- A message and a text of the console fit when what their formats expand to does. -/
theorem console_fits_iff (win32 m_colors writable : Bool) (level : Level) (tm : Tm) (fmt : Bytes)
    (expand : Bytes → Bytes) :
    ((consoleMessage win32 m_colors writable level tm fmt expand).Fits ↔
      writable=false ∨ (expand (kept (stamp tm++(if m_colors then color win32 level else [])++
        text " "++fmt++(if m_colors then kCL_N else [])++text "\n"))).length ≤ 511) ∧
    ((consoleText m_colors writable fmt expand).Fits ↔
      writable=false ∨
        (expand (kept (fmt++(if m_colors then kCL_N else [])++text "\n"))).length ≤ 511) :=
  ⟨consolePrint_fits_iff writable _,consolePrint_fits_iff writable _⟩

/-- Arguments that make a format longer by 257 characters at most let every record fit. -/
theorem console_fits (win32 m_colors writable : Bool) (level : Level) (tm : Tm) (fmt : Bytes)
    {expand : Bytes → Bytes} (h : ∀ fmt, (expand fmt).length ≤ fmt.length+257) :
    (consoleMessage win32 m_colors writable level tm fmt expand).Fits ∧
      (consoleText m_colors writable fmt expand).Fits := by
  have hkept : ∀ fmt, (expand (kept fmt)).length ≤ 511 := fun fmt =>
    (h (kept fmt)).trans (Nat.add_le_add_right (length_kept fmt) 257)
  obtain ⟨hmessage,htext⟩ := console_fits_iff win32 m_colors writable level tm fmt expand
  exact ⟨hmessage.mpr (Or.inr (hkept _)),htext.mpr (Or.inr (hkept _))⟩

/-- Log records. One of a file fits its array exactly when its head has at most 23 characters
and at most 511 with its message, one of the console when it is not written by `uv_try_write`
or has at most 511 characters. -/
theorem records_fit_iff (m_file : ℤ) (tm : Tm) (message : Bytes) (writable : Bool)
    (result : Bytes) :
    ((∀ r∈fileMessage m_file tm message, r.Fits) ↔
      m_file<0 ∨ (stamp tm++text " ").length ≤ 23 ∧
        message.length+(stamp tm++text " ").length ≤ 511) ∧
    ((consolePrint writable result).Fits ↔ writable=false ∨ result.length ≤ 511) := by
  refine ⟨?_,consolePrint_fits_iff writable result⟩
  by_cases hclosed : m_file<0
  · rw [fileMessage,if_pos hclosed]
    exact iff_of_true (fun r hr => nomatch hr) (Or.inl hclosed)
  · rw [fileMessage_eq hclosed,or_iff_right hclosed,←recordOf_fits_iff]
    constructor
    · intro h
      exact h _ rfl
    · intro h r hr
      rw [←Option.some.inj hr]
      exact h

/-- New year's day of 2018. -/
def newYear : Tm := ⟨118,0,1,0,0,0⟩

/-- A message of one letter. -/
def letters (n : ℕ) : Bytes := List.replicate n 97

/-- A pool's error message of 500 bytes leaves the array of a file, one of 512 the array of
the console. -/
theorem long_message_not_fits :
    (¬∀ r∈fileMessage 3 newYear (letters 500), r.Fits) ∧
      ¬(consolePrint true (letters 512)).Fits := by
  have hlength : ∀ n, (letters n).length=n := fun n => List.length_replicate
  constructor
  · intro h
    have hfits := h _ (fileMessage_eq (by decide) newYear (letters 500))
    rw [recordOf_fits_iff,hlength] at hfits
    have hhead : (stamp newYear++text " ").length=22 :=
      @length_head newYear 2018 rfl (by decide) (by decide) (by decide) (by decide) (by decide)
        (by decide) (by decide)
    omega
  · rw [consolePrint_fits_iff,hlength]
    decide

end XmrigCC.LogRecords
