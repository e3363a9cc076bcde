import XmrigCC.JsonWriting
import XmrigCC.PoolClient

/-!
# The buffer for outgoing messages

Three formatters fill `m_sendBuf` before `send` is called with a size. Two use
`snprintf`, which is told the size of the buffer; `login` copies a JSON text
and measures it against another buffer.
-/

namespace XmrigCC.SendBuffer

open ByteText CellMemory MiningJob PoolMessages JsonValues JsonWriting PoolClient ReceiveBuffer
open MultiWorker (JobResult)

/-- What a formatter stores in `m_sendBuf`, by offset, and the size it passes to `send`. -/
structure Formatting where
  /-- Stores in order. -/
  stores : List (ℕ×Bytes)
  /-- Argument of `send`, when it is called. -/
  size : Option ℕ

/-- The memory from `m_sendBuf` on after the stores. -/
def Formatting.apply (f : Formatting) (m : Cells UInt8) : Cells UInt8 :=
  f.stores.foldl (fun m s => store m s.1 s.2) m

/-- What `snprintf(m_sendBuf, sizeof(m_sendBuf), ...)` leaves of a message before its
terminator. -/
def formatted (message : Bytes) : Bytes := message.take (sendBufSize-1)

/-- `snprintf` of a message, whose full length it returns. -/
def snprintf (message : Bytes) : Formatting :=
  ⟨[(0,formatted message++[0])],some message.length⟩

/-- `Client::login` with the text of its document: `memcpy`, '\n' and '\0', if the size
check lets it. -/
def formatLogin (body : Bytes) : Formatting :=
  if bufSize-2<body.length then ⟨[],none⟩
  else ⟨[(0,body),(body.length,[newline]),(body.length+1,[0])],some (body.length+1)⟩

/-- What `Client::login` stores and sends. -/
def login (lib : RapidJson) (c : Client) : Formatting := formatLogin (c.loginText lib)

/-- What `Client::submit` stores and sends. -/
def submit (c : Client) (result : JobResult) : Formatting :=
  snprintf (submitRequest c.m_sequence c.m_rpcId result)

/-- What `Client::ping` stores and sends. -/
def ping (c : Client) : Formatting := snprintf (pingRequest c.m_sequence c.m_rpcId)

/-- Every store lies inside `m_sendBuf`, and every byte sent was stored. -/
structure Fits (f : Formatting) : Prop where
  /-- Stores end inside the buffer. -/
  in_bounds : ∀ s∈f.stores, s.1+s.2.length ≤ sendBufSize
  /-- Each byte up to the size passed to `send` is in a store. -/
  stored : ∀ size∈f.size, ∀ a<size, ∃ s∈f.stores, s.1 ≤ a ∧ a<s.1+s.2.length

section Formatters

/-- A message shorter than the buffer fits with its terminator. -/
theorem fits_snprintf {message : Bytes} (h : message.length<sendBufSize) :
    Fits (snprintf message) := by
  have hwhole : formatted message=message := List.take_of_length_le (Nat.le_sub_one_of_lt h)
  unfold snprintf
  rw [hwhole]
  refine ⟨?_,?_⟩
  · intro s hs
    obtain rfl := List.mem_singleton.mp hs
    simp only [List.length_append,List.length_singleton]
    omega
  · intro size hsize a ha
    obtain rfl := Option.some.inj hsize
    refine ⟨_,List.mem_singleton.mpr rfl,Nat.zero_le a,?_⟩
    simp only [List.length_append,List.length_singleton]
    omega

/-- The text of a login fits exactly when two more bytes do, or when the check against
the size of `m_buf` keeps it from being stored at all. -/
theorem fits_formatLogin_iff (body : Bytes) :
    Fits (formatLogin body) ↔ body.length+2 ≤ sendBufSize ∨ bufSize-2<body.length := by
  by_cases hlong : bufSize-2<body.length
  · have hnothing : Fits (formatLogin body) := by
      rw [formatLogin,if_pos hlong]
      refine ⟨?_,?_⟩
      · intro s hs
        cases hs
      · intro size hsize
        cases hsize
    exact iff_of_true hnothing (Or.inr hlong)
  · rw [formatLogin,if_neg hlong]
    constructor
    · intro h
      have hlast := h.in_bounds (body.length+1,[0]) (by simp)
      exact Or.inl hlast
    · rintro (hfits|hlong')
      · refine ⟨?_,?_⟩
        · intro s hs
          simp only [List.mem_cons,List.not_mem_nil,or_false] at hs
          rcases hs with rfl|rfl|rfl
          all_goals
            simp only [List.length_singleton]
            omega
        · intro size hsize a ha
          obtain rfl := Option.some.inj hsize
          by_cases hbody : a<body.length
          · exact ⟨(0,body),by simp,Nat.zero_le a,by simpa using hbody⟩
          · exact ⟨(body.length,[newline]),by simp,by simpa using hbody,by simpa using ha⟩
      · exact absurd hlong' hlong

/-- What `send` is given of a fitting `snprintf` is the message. -/
theorem slice_snprintf {message : Bytes} (h : message.length<sendBufSize) (m : Cells UInt8) :
    slice ((snprintf message).apply m) 0 message.length=message := by
  have hwhole : formatted message=message := List.take_of_length_le (Nat.le_sub_one_of_lt h)
  have hstored := slice_store_same m 0 (message++[0])
  rw [List.length_append,List.length_singleton,slice_add] at hstored
  have hparts := List.append_inj hstored (length_slice _ _ _)
  show slice (store m 0 (formatted message++[0])) 0 message.length=message
  rw [hwhole]
  exact hparts.1

/-- What `send` is given of a login is the text and the newline. -/
theorem slice_formatLogin {body : Bytes} (h : ¬bufSize-2<body.length) (m : Cells UInt8) :
    slice ((formatLogin body).apply m) 0 (body.length+1)=body++[newline] := by
  rw [formatLogin,if_neg h]
  show slice (store (store (store m 0 body) body.length [newline]) (body.length+1) [0]) 0
    (body.length+1)=body++[newline]
  have hnewline : slice (store (store m 0 body) body.length [newline]) body.length 1=[newline] :=
    slice_store_same _ _ _
  rw [slice_store_apart (Or.inl (by omega)),slice_add,slice_store_apart (Or.inl (by omega)),
    slice_store_same,Nat.zero_add,hnewline]

end Formatters

section Lengths

theorem length_text (s : String) : (text s).length=s.toList.length := List.length_map _

/-- Integers of 64 bits, signed or not, take at most twenty characters. -/
theorem length_decimal_le {n : ℤ} (hlow : -0x8000000000000000 ≤ n) (hhigh : n<0x10000000000000000) :
    (decimal n).length ≤ 20 := by
  by_cases hn : 0 ≤ n
  · obtain ⟨k,rfl⟩ := Int.eq_ofNat_of_zero_le hn
    have hk : k<10^20 := by omega
    rw [JsonText.decimal_natCast,List.length_map]
    exact (Nat.length_toDigits_le_iff (by decide) (by decide)).mpr hk
  · have hk : (-n).toNat<10^19 := by omega
    have hdigits : (-n).toNat.repr.toList.length ≤ 19 := by
      rw [Nat.toList_repr]
      exact (Nat.length_toDigits_le_iff (by decide) (by decide)).mpr hk
    rw [decimal,length_text,Int.toString_eq_repr,Int.repr_eq_if,if_neg hn,String.toList_append,
      List.length_append]
    have hsign : "-".toList.length=1 := rfl
    omega

theorem length_toHex (bytes : List UInt8) : (toHex bytes).length=2*bytes.length := by
  induction bytes with
  | nil => rfl
  | cons b bytes ih =>
    rw [toHex,List.flatMap_cons,List.length_append,List.length_cons,←toHex,ih]
    simp only [List.length_cons,List.length_nil]
    omega

/-- The identifier of a job has at most 64 bytes before its first NUL. -/
theorem length_cStr_le (id : JobId) : (cStr id.m_data).length ≤ 64 := by
  have hle := (List.takeWhile_prefix (fun c : UInt8 => decide (c ≠ 0)) (l:=id.m_data)).length_le
  rwa [id.length_eq] at hle

/-- A submit is shorter than the buffer. -/
theorem length_submitRequest_lt (sequence : ℤ) {rpcId : Bytes} (hrpc : rpcId.length<64)
    {result : JobResult} (hhash : result.result.length=32) :
    (submitRequest sequence rpcId result).length<sendBufSize := by
  have hmod : 0 ≤ sequence%2^64 ∧ sequence%2^64<0x10000000000000000 := by omega
  have hdecimal := length_decimal_le (by omega) hmod.2
  have hid := length_cStr_le result.jobId
  have hnonce := length_toHex (le32 result.nonce)
  have hresult := length_toHex result.result
  rw [length_le32] at hnonce
  rw [hhash] at hresult
  have hmethod : (text
      ",\"jsonrpc\":\"2.0\",\"method\":\"submit\",\"params\":\x7b\"id\":\"").length=51 := rfl
  have hnames : (text "\x7b\"id\":").length=6 ∧ (text "\",\"job_id\":\"").length=12 ∧
      (text "\",\"nonce\":\"").length=11 ∧ (text "\",\"result\":\"").length=12 ∧
      (text "\"\x7d\x7d\n").length=4 := ⟨rfl,rfl,rfl,rfl,rfl⟩
  obtain ⟨hopen,hjob,hnonceName,hresultName,hclose⟩ := hnames
  simp only [submitRequest,List.length_append,hopen,hmethod,hjob,hnonceName,hresultName,hclose,
    hnonce,hresult,sendBufSize]
  omega

/-- A ping is shorter than the buffer. -/
theorem length_pingRequest_lt {sequence : ℤ} (hlow : -0x8000000000000000 ≤ sequence)
    (hhigh : sequence<0x8000000000000000) {rpcId : Bytes} (hrpc : rpcId.length<64) :
    (pingRequest sequence rpcId).length<sendBufSize := by
  have hdecimal := length_decimal_le hlow (by omega)
  have hopen : (text "\x7b\"id\":").length=6 := rfl
  have hmethod :
      (text ",\"jsonrpc\":\"2.0\",\"method\":\"keepalived\",\"params\":\x7b\"id\":\"").length=55 :=
    rfl
  have hclose : (text "\"\x7d\x7d\n").length=4 := rfl
  simp only [pingRequest,List.length_append,hopen,hmethod,hclose,sendBufSize]
  omega

end Lengths

/-- Bytes that `Writer` makes of a string, without its quotes. -/
def escapedString (s : Bytes) : Bytes := s.flatMap escaped

/-- What `Writer` makes of the document of a login. -/
def writtenLogin (url : Url) (agent : Bytes) : Bytes :=
  text "\x7b\"id\":1,\"jsonrpc\":\"2.0\",\"method\":\"login\",\"params\":\x7b\"login\":\""++
    escapedString url.user++text "\",\"pass\":\""++escapedString url.password++
    text "\",\"agent\":\""++escapedString agent++text "\"\x7d\x7d"

mutual

/-- A document as the writer sees it, where a number outside `int64_t` has its text. -/
def toValue : Json → Value Bytes
  | .null => .null
  | .bool value => .bool value
  | .int64 value => .int value
  | .number digits => .double digits
  | .string value => .string value
  | .array elements => .array (toValues elements)
  | .object members => .object (toMembers members)

/-- The elements of an array. -/
def toValues : List Json → List (Value Bytes)
  | [] => []
  | v::vs => toValue v::toValues vs

/-- The members of an object. -/
def toMembers : List (Bytes×Json) → List (Bytes×Value Bytes)
  | [] => []
  | (name,v)::ms => (name,toValue v)::toMembers ms

end

/-- Numbers that are their texts. -/
def texts : Doubles Bytes := ⟨some,some⟩

/-- A library that writes with `Writer`. -/
def withWriter (lib : RapidJson) : RapidJson :=
  {lib with write := fun document => written texts plainStyle (toValue document)}

/-- The writer leaves the text of a login. -/
theorem write_loginRequest (lib : RapidJson) (url : Url) (agent : Bytes) :
    (withWriter lib).write (loginRequest url agent)=writtenLogin url agent := by
  have hfinite : Each (fun _ => True) (Finite texts) (toValue (loginRequest url agent)) :=
    ⟨trivial,trivial,trivial,⟨trivial,trivial,trivial,trivial⟩,trivial⟩
  have hstring : ∀ str, WriteString str=34::(escapedString str++[34]) := fun _ => rfl
  refine (written_eq plain_lays hfinite).trans ?_
  simp only [loginRequest,toValue,toMembers,render,renderMembers,plainLayout,hstring]
  rw [writtenLogin]
  generalize escapedString url.user=user
  generalize escapedString url.password=password
  generalize escapedString agent=name
  simp only [List.tail_cons,List.nil_append,List.cons_append,List.append_assoc]
  rfl

/-- Bytes that the three strings of a login take in its text. -/
def credentials (url : Url) (agent : Bytes) : ℕ :=
  (escapedString url.user).length+(escapedString url.password).length+(escapedString agent).length

theorem length_writtenLogin (url : Url) (agent : Bytes) :
    (writtenLogin url agent).length=credentials url agent+84 := by
  have hopen : (text
      "\x7b\"id\":1,\"jsonrpc\":\"2.0\",\"method\":\"login\",\"params\":\x7b\"login\":\"").length=
      60 := rfl
  have hpass : (text "\",\"pass\":\"").length=10 := rfl
  have hagent : (text "\",\"agent\":\"").length=11 := rfl
  have hclose : (text "\"\x7d\x7d").length=3 := rfl
  simp only [writtenLogin,credentials,List.length_append,hopen,hpass,hagent,hclose]
  omega

/-- Send buffer bounds. With a number of 64 bits and an accepted identifier, the three
formatters keep to `m_sendBuf` and send only what they stored exactly when the escaped user,
password and agent leave room for the rest of a login, or are so long that the check against
`m_buf` refuses it. -/
theorem formatters_fit_iff (lib : RapidJson) {c : Client} {result : JobResult}
    (hrpc : c.m_rpcId.length<64)
    (hsequence : -0x8000000000000000 ≤ c.m_sequence ∧ c.m_sequence<0x8000000000000000)
    (hhash : result.result.length=32) :
    (Fits (login (withWriter lib) c) ∧ Fits (submit c result) ∧ Fits (ping c)) ↔
      credentials c.m_url c.m_agent ≤ 682 ∨ 1962<credentials c.m_url c.m_agent := by
  have hsubmit : Fits (submit c result) :=
    fits_snprintf (length_submitRequest_lt c.m_sequence hrpc hhash)
  have hping : Fits (ping c) :=
    fits_snprintf (length_pingRequest_lt hsequence.1 hsequence.2 hrpc)
  have hlength := length_writtenLogin c.m_url c.m_agent
  rw [and_iff_left ⟨hsubmit,hping⟩,login,Client.loginText,write_loginRequest,fits_formatLogin_iff,
    hlength]
  simp only [sendBufSize,bufSize]
  omega

/-- What `send` is given is the message that the client is modelled to send. -/
theorem sent_messages {lib : RapidJson} {c : Client} {result : JobResult}
    (hrpc : c.m_rpcId.length<64)
    (hsequence : -0x8000000000000000 ≤ c.m_sequence ∧ c.m_sequence<0x8000000000000000)
    (hhash : result.result.length=32) (m : Cells UInt8) :
    (∀ size∈(submit c result).size, slice ((submit c result).apply m) 0 size=
      submitRequest c.m_sequence c.m_rpcId result) ∧
    (∀ size∈(ping c).size, slice ((ping c).apply m) 0 size=
      pingRequest c.m_sequence c.m_rpcId) ∧
    ∀ size∈(login lib c).size, slice ((login lib c).apply m) 0 size=
      c.loginText lib++[newline] := by
  refine ⟨?_,?_,?_⟩
  · intro size hsize
    obtain rfl := Option.some.inj hsize
    exact slice_snprintf (length_submitRequest_lt c.m_sequence hrpc hhash) m
  · intro size hsize
    obtain rfl := Option.some.inj hsize
    exact slice_snprintf (length_pingRequest_lt hsequence.1 hsequence.2 hrpc) m
  · intro size hsize
    by_cases hlong : bufSize-2<(c.loginText lib).length
    · rw [login,formatLogin,if_pos hlong] at hsize
      cases hsize
    · have hlogin := slice_formatLogin hlong m
      rw [login,formatLogin,if_neg hlong] at hsize
      obtain rfl := Option.some.inj hsize
      exact hlogin

/-- A library that reads as rapidjson does. -/
def reader : RapidJson := ⟨JsonText.parse,fun _ => [],fun _ => none⟩

/-- A client whose user has some number of letters. -/
def named (letters : ℕ) : Client :=
  Client.new 0 (text "rig") ⟨false,false,none,some (List.replicate letters 120)⟩ (fun _ => 0)
    (fun _ => 0)

/-- A share with all bytes zero. -/
def zeroShare : JobResult := ⟨0,JobId.cleared,0,List.replicate 32 0,0⟩

/-- A user of 95 letters leaves every message in the buffer. -/
theorem short_name_fits :
    Fits (login (withWriter reader) (named 95)) ∧ Fits (submit (named 95) zeroShare) ∧
      Fits (ping (named 95)) :=
  (formatters_fit_iff reader (by decide) ⟨by decide,by decide⟩ rfl).mpr
    (Or.inl (by decide +kernel))

/-- A user of 700 letters takes the login past its end. -/
theorem long_name_overflows : ¬Fits (login (withWriter reader) (named 700)) := by
  rw [login,Client.loginText,write_loginRequest,fits_formatLogin_iff,length_writtenLogin]
  decide +kernel

end XmrigCC.SendBuffer
