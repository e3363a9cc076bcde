import XmrigCC.SendBuffer

/-!
# The text of a submit

A submit is formatted by pasting two identifiers between quotes. They came out
of JSON strings with their escapes undone, and no escapes are put back.
-/

namespace XmrigCC.SubmitText

open ByteText MiningJob PoolMessages JsonText SendBuffer ReceiveBuffer
open MultiWorker (JobResult)

/-- The sixteen digits in lower case. -/
def hexDigits : Bytes := text "0123456789abcdef"

/-- Lower-case hexadecimal digits, two for each byte. -/
def lowerHex (bytes : List UInt8) : Bytes :=
  bytes.flatMap fun b => [hexDigits.getD (b.toNat/16) 0,hexDigits.getD (b.toNat%16) 0]

/-- What a pool should be able to read from a submit. -/
structure Encodes (t : Bytes) (sequence : ℤ) (rpcId jobId : Bytes) (nonce : UInt32)
    (hash : List UInt8) : Prop where
  /-- One line: the only newline is at its end. -/
  line : ∃ front, t=front++[newline] ∧ newline∉front
  /-- A JSON object with the number, the two identifiers, the nonce and the hash. -/
  object : ∃ doc, Denotes t doc ∧ doc.isObject=true ∧ doc.get (text "id")=.int64 sequence ∧
    (doc.get (text "params")).get (text "id")=.string rpcId ∧
    (doc.get (text "params")).get (text "job_id")=.string jobId ∧
    (doc.get (text "params")).get (text "nonce")=.string (lowerHex (le32 nonce)) ∧
    (doc.get (text "params")).get (text "result")=.string (lowerHex hash)

section Hex

theorem hexDigits_eq :
    hexDigits=[48,49,50,51,52,53,54,55,56,57,97,98,99,100,101,102] := rfl

/-- The digits of a byte, as `hf_bin2hex` finds them. -/
theorem hexDigit_byte (b : UInt8) : [hf_bin2hex ((b&&&0xF0)>>>4),hf_bin2hex (b&&&0x0F)]=
    [hexDigits.getD (b.toNat/16) 0,hexDigits.getD (b.toNat%16) 0] := by
  rw [hexDigits_eq]
  revert b
  exact forall_byte (by decide +kernel)

/-- `Job::toHex` writes lower-case digits. -/
theorem toHex_eq_lowerHex (bytes : List UInt8) : toHex bytes=lowerHex bytes := by
  unfold toHex lowerHex
  apply List.flatMap_congr
  intro b _
  exact hexDigit_byte b

theorem plain_digits : ∀ n<16, Plain [hexDigits.getD n 0] := by
  rw [hexDigits_eq]
  decide +kernel

theorem plain_append {s t : Bytes} : Plain (s++t) ↔ Plain s ∧ Plain t := List.forall_mem_append

/-- Hexadecimal digits need no escapes. -/
theorem plain_lowerHex (bytes : List UInt8) : Plain (lowerHex bytes) := by
  induction bytes with
  | nil => exact plain_nil
  | cons b bytes ih =>
    have hb : b.toNat<256 := b.toNat_lt
    have hhigh := plain_digits (b.toNat/16) (by omega)
    have hlow := plain_digits (b.toNat%16) (by omega)
    rw [lowerHex,List.flatMap_cons,←lowerHex]
    exact plain_append.mpr ⟨plain_append.mpr ⟨hhigh,hlow⟩,ih⟩

end Hex

section Shape

/-- The last member of the parameters and the end of the text. -/
def resultField (hash : Bytes) : Bytes := field (text "result") (quoted hash [125,125,newline])

/-- The parameters from the nonce on. -/
def nonceField (nonce hash : Bytes) : Bytes :=
  field (text "nonce") (quoted nonce (44::resultField hash))

/-- The parameters from the job on. -/
def jobField (jobId nonce hash : Bytes) : Bytes :=
  field (text "job_id") (quoted jobId (44::nonceField nonce hash))

/-- The parameters. -/
def idField (rpcId jobId nonce hash : Bytes) : Bytes :=
  field (text "id") (quoted rpcId (44::jobField jobId nonce hash))

/-- The members from the version on. -/
def versionField (params : Bytes) : Bytes :=
  field (text "jsonrpc") (quoted (text "2.0") (44::field (text "method")
    (quoted (text "submit") (44::field (text "params") (123::params)))))

/-- A submit is an object of four members, the last of them an object of four strings. -/
theorem submitRequest_eq (sequence : ℤ) (rpcId : Bytes) (result : JobResult) :
    submitRequest sequence rpcId result=123::field (text "id") (decimal (sequence%2^64)++
      44::versionField (idField rpcId (cStr result.jobId.m_data)
        (lowerHex (le32 result.nonce)) (lowerHex result.result))) := by
  have hmethod : text ",\"jsonrpc\":\"2.0\",\"method\":\"submit\",\"params\":\x7b\"id\":\""=
      44::34::(text "jsonrpc"++34::58::34::(text "2.0"++34::44::34::(text "method"++
        34::58::34::(text "submit"++34::44::34::(text "params"++34::58::123::34::(text "id"++
          [34,58,34])))))) := rfl
  have hopen : text "\x7b\"id\":"=123::34::(text "id"++[34,58]) := rfl
  have hjob : text "\",\"job_id\":\""=34::44::34::(text "job_id"++[34,58,34]) := rfl
  have hnonce : text "\",\"nonce\":\""=34::44::34::(text "nonce"++[34,58,34]) := rfl
  have hresult : text "\",\"result\":\""=34::44::34::(text "result"++[34,58,34]) := rfl
  have hclose : text "\"\x7d\x7d\n"=[34,125,125,newline] := rfl
  rw [submitRequest,hopen,hmethod,hjob,hnonce,hresult,hclose,toHex_eq_lowerHex,
    toHex_eq_lowerHex]
  simp only [versionField,idField,jobField,nonceField,resultField,field,quoted,
    List.append_assoc,List.cons_append,List.nil_append]

end Shape

section Reading

variable {n : ℕ} {rpcId jobId nonce hash : Bytes}

theorem skipSpace_quoted (s t : Bytes) : skipSpace (quoted s t)=quoted s t := skipSpace_cons rfl _

/-- The member names of a submit need no escapes and are short. -/
theorem plain_names : Plain (text "id") ∧ Plain (text "job_id") ∧ Plain (text "nonce") ∧
    Plain (text "result") ∧ Plain (text "jsonrpc") ∧ Plain (text "2.0") ∧
    Plain (text "method") ∧ Plain (text "submit") ∧ Plain (text "params") := by
  decide +kernel

/-- The nonce and the hash are read as they stand. -/
theorem members_nonceField (hn : Plain nonce) (hh : Plain hash) (hfuel : 8 ≤ n)
    (hlength : nonce.length<n ∧ hash.length<n) :
    members (n+3) (nonceField nonce hash)=
      some ([(text "nonce",.string nonce),(text "result",.string hash)],[125,newline]) := by
  obtain ⟨-,-,hnonce,hresult,-⟩ := plain_names
  have hlast : members (n+2) (resultField hash)=
      some ([(text "result",.string hash)],[125,newline]) := by
    have hlen : (text "result").length=6 := rfl
    exact members_field_last hresult (by omega) (skipSpace_quoted _ _)
      (value_quoted_plain hh hlength.2 _)
  have hlen : (text "nonce").length=5 := rfl
  rw [nonceField,resultField,members_field_next hnonce (by omega) (skipSpace_quoted _ _)
    (value_quoted_plain hn (by omega) _),←resultField,hlast]
  rfl

/-- The parameters are read as they stand when the identifiers need no escapes. -/
theorem members_idField (hr : Plain rpcId) (hj : Plain jobId) (hn : Plain nonce) (hh : Plain hash)
    (hfuel : 8 ≤ n) (hids : rpcId.length<n ∧ jobId.length<n)
    (hlength : nonce.length<n ∧ hash.length<n) :
    members (n+5) (idField rpcId jobId nonce hash)=
      some ([(text "id",.string rpcId),(text "job_id",.string jobId),(text "nonce",.string nonce),
        (text "result",.string hash)],[125,newline]) := by
  obtain ⟨hid,hjob,-⟩ := plain_names
  have hlenId : (text "id").length=2 := rfl
  have hlenJob : (text "job_id").length=6 := rfl
  rw [idField,jobField,members_field_next hid (by omega) (skipSpace_quoted _ _)
    (value_quoted_plain hr (by omega) _),nonceField,members_field_next hjob (by omega)
    (skipSpace_quoted _ _) (value_quoted_plain hj (by omega) _),←nonceField,
    members_nonceField hn hh hfuel hlength]
  rfl

/-- Read at all, the parameters begin with what stands between the first quotes. -/
theorem members_idField_some {x : List (Bytes×Json)×Bytes} (hfuel : 8 ≤ n)
    (h : members (n+2) (idField rpcId jobId nonce hash)=some x) :
    ∃ v r others, stringTail n (rpcId++34::44::jobField jobId nonce hash)=some (v,r) ∧
      x.1=(text "id",.string v)::others := by
  have hlen : (text "id").length=2 := rfl
  obtain ⟨first,others,hfirst,hx⟩ := members_field_some plain_names.1 (by omega)
    (skipSpace_quoted _ _) h
  rw [value_quoted] at hfirst
  obtain ⟨⟨v,r⟩,hv,rfl⟩ := Option.map_eq_some_iff.mp hfirst
  exact ⟨v,r,others,hv,hx⟩

/-- Behind an identifier without escapes they go on with what stands between the next. -/
theorem members_jobField_some {x : List (Bytes×Json)×Bytes} (hfuel : 8 ≤ n) (hr : Plain rpcId)
    (hlength : rpcId.length<n)
    (h : members (n+3) (idField rpcId jobId nonce hash)=some x) :
    ∃ v r others, stringTail n (jobId++34::44::nonceField nonce hash)=some (v,r) ∧
      x.1=(text "id",.string rpcId)::(text "job_id",.string v)::others := by
  obtain ⟨hid,hjob,-⟩ := plain_names
  have hlenId : (text "id").length=2 := rfl
  have hlenJob : (text "job_id").length=6 := rfl
  rw [idField,jobField,members_field_next hid (by omega) (skipSpace_quoted _ _)
    (value_quoted_plain hr (by omega) _)] at h
  obtain ⟨r,hmembers,rfl⟩ := Option.map_eq_some_iff.mp h
  obtain ⟨first,others,hfirst,hx⟩ := members_field_some hjob (by omega)
    (skipSpace_quoted _ _) hmembers
  rw [value_quoted] at hfirst
  obtain ⟨⟨v,r'⟩,hv,rfl⟩ := Option.map_eq_some_iff.mp hfirst
  exact ⟨v,r',others,hv,congrArg (_::·) hx⟩

/-- The members in front of the parameters are read as they stand. -/
theorem members_versionField (k : ℕ) (params : Bytes) (hfuel : 10 ≤ n) :
    members (n+3) (field (text "id") (decimal k++44::versionField params))=
      (members n (field (text "params") (123::params))).map fun r =>
        ((text "id",if k<0x8000000000000000 then .int64 k else .number (decimal k))::
          (text "jsonrpc",.string (text "2.0"))::(text "method",.string (text "submit"))::r.1,
          r.2) := by
  obtain ⟨hid,-,-,-,hversion,hnumber,hmethod,hsubmit,-⟩ := plain_names
  have hlens : (text "id").length=2 ∧ (text "jsonrpc").length=7 ∧ (text "2.0").length=3 ∧
      (text "method").length=6 ∧ (text "submit").length=6 := ⟨rfl,rfl,rfl,rfl,rfl⟩
  obtain ⟨hlenId,hlenVersion,hlenNumber,hlenMethod,hlenSubmit⟩ := hlens
  have hdigits : skipSpace (decimal k++44::versionField params)=
      decimal k++44::versionField params := by
    obtain ⟨d,ds,hd,hdigit⟩ := decimal_eq_cons k
    have hrange : 48 ≤ d ∧ d ≤ 57 := of_decide_eq_true hdigit
    have hspace : isSpace d=false := by
      refine decide_eq_false ?_
      rintro (rfl|rfl|rfl|rfl)
      all_goals exact absurd hrange (by decide)
    rw [hd]
    exact skipSpace_cons hspace _
  obtain ⟨m,rfl⟩ := Nat.exists_eq_add_of_le hfuel
  have hvalue := value_decimal (n:=10+m+1) k (versionField params)
  rw [versionField] at hvalue hdigits ⊢
  have hname : value (10+m) (quoted (text "submit") (44::field (text "params") (123::params)))=
      some (.string (text "submit"),44::field (text "params") (123::params)) := by
    rw [show 10+m=9+m+1 by omega]
    exact value_quoted_plain hsubmit (by omega) _
  rw [members_field_next hid (by omega) hdigits hvalue,
    members_field_next hversion (by omega) (skipSpace_quoted _ _)
      (value_quoted_plain hnumber (by omega) _),
    members_field_next hmethod (by omega) (skipSpace_quoted _ _) hname,Option.map_map,
    Option.map_map]
  rfl

/-- The whole text is read as it stands when the identifiers need no escapes. -/
theorem decode_submit (k : ℕ) (hr : Plain rpcId) (hj : Plain jobId) (hn : Plain nonce)
    (hh : Plain hash) (hfuel : 8 ≤ n) (hids : rpcId.length<n ∧ jobId.length<n)
    (hlength : nonce.length<n ∧ hash.length<n) :
    decode (n+11) (123::field (text "id") (decimal k++
      44::versionField (idField rpcId jobId nonce hash)))=
      some (.object [(text "id",if k<0x8000000000000000 then .int64 k else .number (decimal k)),
        (text "jsonrpc",.string (text "2.0")),(text "method",.string (text "submit")),
        (text "params",.object [(text "id",.string rpcId),(text "job_id",.string jobId),
          (text "nonce",.string nonce),(text "result",.string hash)])]) := by
  obtain ⟨-,-,-,-,-,-,-,-,hparams⟩ := plain_names
  have hlenParams : (text "params").length=6 := rfl
  have hvalue : value (n+6) (123::idField rpcId jobId nonce hash)=
      some (.object [(text "id",.string rpcId),(text "job_id",.string jobId),
        (text "nonce",.string nonce),(text "result",.string hash)],125::[newline]) := by
    have hmembers := members_idField hr hj hn hh hfuel hids hlength
    rw [idField] at hmembers ⊢
    rw [value_object,hmembers]
    rfl
  have hlast : members (n+7) (field (text "params") (123::idField rpcId jobId nonce hash))=_ :=
    members_field_last hparams (by omega) (skipSpace_cons rfl _) hvalue
  rw [decode,skipSpace_cons rfl,value_object,members_versionField k _ (by omega),hlast]
  rfl

/-- The first member of a name. -/
theorem get_cons (name : Bytes) (v : Json) (ms : List (Bytes×Json)) (key : Bytes) :
    (Json.object ((name,v)::ms)).get key=if name=key then v else (Json.object ms).get key := by
  rw [Json.get,List.find?_cons]
  by_cases h : name=key
  · simp [h]
  · simp [h,Json.get]

/-- Read at all, the text has its number, and parameters that are read. -/
theorem decode_submit_some {k : ℕ} {params : Bytes} {doc : Json} (hfuel : 10 ≤ n)
    (h : decode (n+6) (123::field (text "id") (decimal k++
      44::versionField (field (text "id") params)))=some doc) :
    doc.get (text "id")=(if k<0x8000000000000000 then .int64 k else .number (decimal k)) ∧
    ∃ x, members n (field (text "id") params)=some x ∧
      doc.get (text "params")=.object x.1 := by
  obtain ⟨-,-,-,-,-,-,-,-,hparams⟩ := plain_names
  have hlenParams : (text "params").length=6 := rfl
  obtain ⟨rest,hvalue⟩ := decode_some h
  rw [skipSpace_cons rfl,value_object,members_versionField k _ (by omega),Option.map_map,
    Option.map_eq_some_iff] at hvalue
  obtain ⟨r,hr,hdoc⟩ := hvalue
  obtain ⟨rfl,-⟩ := Prod.mk.inj hdoc
  obtain ⟨first,others,hfirst,hothers⟩ := members_field_some hparams (by omega)
    (skipSpace_cons rfl _) hr
  rw [value_object] at hfirst
  obtain ⟨x,hx,rfl⟩ := Option.map_eq_some_iff.mp hfirst
  refine ⟨?_,x,hx,?_⟩
  · rw [get_cons,if_pos rfl]
  · dsimp only
    rw [hothers,get_cons,if_neg (by decide),get_cons,if_neg (by decide),get_cons,
      if_neg (by decide),get_cons,if_pos rfl]

end Reading

section Lines

theorem newline_not_mem_plain {s : Bytes} (h : Plain s) : newline∉s := fun hm =>
  absurd (h newline hm).2.2 (by decide)

/-- Without a newline in the identifiers a submit has none but its last byte. -/
theorem submitRequest_line {k : ℕ} {sequence : ℤ} (hk : sequence%2^64=k) {rpcId : Bytes}
    {result : JobResult} (hr : Plain rpcId) (hj : Plain (cStr result.jobId.m_data)) :
    ∃ front, submitRequest sequence rpcId result=front++[newline] ∧ newline∉front := by
  have hdecimal : newline∉decimal k := fun hm =>
    absurd (isDigit_of_mem_decimal hm) (by decide)
  have hnonce := newline_not_mem_plain (plain_lowerHex (le32 result.nonce))
  have hhash := newline_not_mem_plain (plain_lowerHex result.result)
  have hclose : text "\"\x7d\x7d\n"=text "\"\x7d\x7d"++[newline] := rfl
  refine ⟨_,by rw [submitRequest,hclose,←List.append_assoc],?_⟩
  rw [hk,toHex_eq_lowerHex,toHex_eq_lowerHex]
  simp only [List.mem_append,not_or]
  exact ⟨⟨⟨⟨⟨⟨⟨⟨⟨⟨by decide,hdecimal⟩,by decide⟩,newline_not_mem_plain hr⟩,by decide⟩,
    newline_not_mem_plain hj⟩,by decide⟩,hnonce⟩,by decide⟩,hhash⟩,by decide⟩

end Lines

/-- A string that `setId` accepts is what its identifier shows to `snprintf`. -/
theorem cStr_setId {id : Bytes} (hid : id.length<64) (hnul : 0∉id) :
    cStr (JobId.setId (some id)).2.m_data=id := by
  have hshort : ¬64 ≤ id.length := Nat.not_le.mpr hid
  have hne : ∀ c∈id, decide (c ≠ 0)=true := by
    intro c hc
    refine decide_eq_true ?_
    rintro rfl
    exact hnul hc
  obtain ⟨k,hk⟩ := Nat.exists_eq_succ_of_ne_zero (Nat.sub_ne_zero_of_lt hid)
  simp only [JobId.setId,dif_neg hshort]
  rw [cStr,List.takeWhile_append_of_pos hne,hk,List.replicate_succ,
    List.takeWhile_cons_of_neg (by decide),List.append_nil]

section Accepted

variable {sequence : ℤ} {rpcId id : Bytes} {result : JobResult}

/-- The whole of a submit is in `m_sendBuf`. -/
theorem formatted_submitRequest (hrpc : rpcId.length<64) (hhash : result.result.length=32) :
    formatted (submitRequest sequence rpcId result)=submitRequest sequence rpcId result :=
  List.take_of_length_le (Nat.le_sub_one_of_lt (length_submitRequest_lt sequence hrpc hhash))

/-- The shape of a submit for an accepted job identifier. -/
theorem submitRequest_accepted (hid : id.length<64 ∧ 0∉id)
    (hjob : result.jobId=(JobId.setId (some id)).2) {k : ℕ} (hk : sequence%2^64=k) :
    submitRequest sequence rpcId result=123::field (text "id") (decimal k++
      44::versionField (idField rpcId id (lowerHex (le32 result.nonce))
        (lowerHex result.result))) := by
  rw [submitRequest_eq,hjob,cStr_setId hid.1 hid.2,hk]

theorem sequence_mod (sequence : ℤ) : ∃ k : ℕ, sequence%2^64=k :=
  Int.eq_ofNat_of_zero_le (by omega)

/-- A submit that encodes its identifiers had none to escape. -/
theorem plain_of_encodes (hrpc : rpcId.length<64) (hid : id.length<64 ∧ 0∉id)
    (hjob : result.jobId=(JobId.setId (some id)).2) (hhash : result.result.length=32)
    (h : Encodes (formatted (submitRequest sequence rpcId result)) sequence rpcId id result.nonce
      result.result) :
    Plain rpcId ∧ Plain id ∧ 0 ≤ sequence ∧ sequence<0x8000000000000000 := by
  obtain ⟨k,hk⟩ := sequence_mod sequence
  obtain ⟨-,doc,⟨n,hn⟩,-,hnumber,hrpcId,hjobId,-⟩ := h
  rw [formatted_submitRequest hrpc hhash,submitRequest_accepted hid hjob hk] at hn
  have hmore := decode_mono hn (show n ≤ n+70+3+6 by omega)
  rw [idField] at hmore
  obtain ⟨hget,x,hx,hparams⟩ := decode_submit_some (by omega) hmore
  rw [←idField] at hx
  rw [hparams] at hrpcId hjobId
  obtain ⟨v,r,others,hv,hfirst⟩ := members_idField_some (n:=n+71) (by omega) hx
  rw [hfirst,get_cons,if_pos rfl] at hrpcId
  obtain rfl := Json.string.inj hrpcId
  have hr : Plain v := plain_of_stringTail hv
  obtain ⟨v',r',others',hv',hsecond⟩ := members_jobField_some (n:=n+70) (by omega) hr
    (by omega) hx
  rw [hsecond,get_cons,if_neg (by decide),get_cons,if_pos rfl] at hjobId
  obtain rfl := Json.string.inj hjobId
  have hj : Plain v' := plain_of_stringTail hv'
  rw [hnumber] at hget
  split at hget
  · have hseq := Json.int64.inj hget
    exact ⟨hr,hj,by omega,by omega⟩
  · cases hget

/-- A submit with nothing to escape encodes its identifiers. -/
theorem encodes_of_plain (hrpc : rpcId.length<64) (hid : id.length<64 ∧ 0∉id)
    (hjob : result.jobId=(JobId.setId (some id)).2) (hhash : result.result.length=32)
    (hr : Plain rpcId) (hj : Plain id) (hlow : 0 ≤ sequence)
    (hhigh : sequence<0x8000000000000000) :
    Encodes (formatted (submitRequest sequence rpcId result)) sequence rpcId id result.nonce
      result.result := by
  obtain ⟨k,hk⟩ := sequence_mod sequence
  have hk' : (k : ℤ)=sequence := by omega
  have hsmall : k<0x8000000000000000 := by omega
  have hname : cStr result.jobId.m_data=id := by
    rw [hjob]
    exact cStr_setId hid.1 hid.2
  rw [formatted_submitRequest hrpc hhash]
  refine ⟨submitRequest_line hk hr (hname ▸ hj),?_⟩
  have hlength : (lowerHex (le32 result.nonce)).length<100 ∧
      (lowerHex result.result).length<100 := by
    rw [←toHex_eq_lowerHex,←toHex_eq_lowerHex,length_toHex,length_toHex,length_le32,hhash]
    decide
  have hdecode := decode_submit (n:=100) k hr hj (plain_lowerHex (le32 result.nonce))
    (plain_lowerHex result.result) (by omega) ⟨by omega,by omega⟩ hlength
  rw [←submitRequest_accepted hid hjob hk] at hdecode
  refine ⟨_,⟨_,hdecode⟩,rfl,?_⟩
  rw [get_cons,if_pos rfl,if_pos hsmall,hk']
  exact ⟨rfl,rfl,rfl,rfl,rfl⟩

/-- Submit encodes what the pool gave. For an identifier of the client and one of a job,
as they are accepted, what `submit` leaves in `m_sendBuf` is a line that gives a JSON
reader the number, both identifiers, the nonce and the hash exactly when neither
identifier has a quote, a backslash or a control character, and the number is one that
the counter reaches. -/
theorem submit_encodes_iff (hrpc : rpcId.length<64) (hid : id.length<64 ∧ 0∉id)
    (hjob : result.jobId=(JobId.setId (some id)).2) (hhash : result.result.length=32) :
    Encodes (formatted (submitRequest sequence rpcId result)) sequence rpcId id result.nonce
        result.result ↔
      Plain rpcId ∧ Plain id ∧ 0 ≤ sequence ∧ sequence<0x8000000000000000 := by
  constructor
  · intro h
    exact plain_of_encodes hrpc hid hjob hhash h
  · rintro ⟨hr,hj,hlow,hhigh⟩
    exact encodes_of_plain hrpc hid hjob hhash hr hj hlow hhigh

end Accepted

/-- A share of a job of some identifier. -/
def shareFor (id : Bytes) : JobResult := ⟨0,(JobId.setId (some id)).2,1,List.replicate 32 0,0⟩

/-- Usual identifiers are encoded. -/
theorem usual_submit_encodes :
    Encodes (formatted (submitRequest 2 (text "a1") (shareFor (text "7"))))
      2 (text "a1") (text "7") 1 (List.replicate 32 0) :=
  (submit_encodes_iff (by decide) ⟨by decide,by decide⟩ rfl rfl).mpr
    ⟨by decide +kernel,by decide +kernel,by decide,by decide⟩

/-- A job identifier with a quote, which a pool can give as `\"`, ends the string early. -/
theorem quoted_submit_not_encoded :
    ¬Encodes (formatted (submitRequest 2 (text "a1") (shareFor (text "7\""))))
      2 (text "a1") (text "7\"") 1 (List.replicate 32 0) := by
  intro h
  have hplain := plain_of_encodes (by decide) ⟨by decide,by decide⟩ rfl rfl h
  exact absurd hplain.2.1 (by decide +kernel)

end XmrigCC.SubmitText
