import XmrigCC.PoolClientPhases

/-!
# What a line does to a client

Everything that the parsing of one line of the pool can do: report a job, a
login or the answer to a share, or nothing, and close the connection or leave
it alone. The invariants of the later modules are case analyses over this.
-/

namespace XmrigCC.ClientLines

open ByteText CellMemory MiningJob PoolMessages PoolClient PoolClientPhases

section Close

variable (c : Client)

/-- `close` does nothing, or starts to close the socket. -/
theorem close_cases :
    c.close=c ∨ ∃ k, c.m_socket=some k ∧ c.close={c with
      m_state := .closing,m_socket := some {k with reading := false,closing := true}} := by
  unfold Client.close
  cases hsocket : c.m_socket with
  | none => exact Or.inl rfl
  | some k =>
    dsimp only
    split
    · exact Or.inl rfl
    · exact Or.inr ⟨k,rfl,rfl⟩

/-- `close` changes the state and the socket only. -/
theorem close_eq : c.close={c with m_state := c.close.m_state,m_socket := c.close.m_socket} := by
  unfold Client.close
  split
  · rfl
  · split <;> rfl

@[simp] theorem close_m_results : c.close.m_results=c.m_results := by rw [close_eq]

@[simp] theorem close_calls : c.close.calls=c.calls := by rw [close_eq]

@[simp] theorem close_m_failures : c.close.m_failures=c.m_failures := by rw [close_eq]

@[simp] theorem close_m_expire : c.close.m_expire=c.m_expire := by rw [close_eq]

@[simp] theorem close_m_sequence : c.close.m_sequence=c.m_sequence := by rw [close_eq]

@[simp] theorem close_lookups : c.close.lookups=c.lookups := by rw [close_eq]

@[simp] theorem close_corrupted : c.close.corrupted=c.corrupted := by rw [close_eq]

end Close

section Jobs

variable (lib : RapidJson) (stale : Stale)

/-- The job that the members of a JSON value describe to a client with this identifier,
if each member is accepted. -/
def jobOf (id : ℤ) (nicehash : Bool) (params : Json) : Option Job :=
  let jobId := JobId.setId (lib.getString (params.get (text "job_id")))
  let blob := Job.setBlob {Job.new stale.blob id nicehash with m_id := jobId.2}
    (lib.getString (params.get (text "blob")))
  let job := Job.setTarget stale.target blob.2 (lib.getString (params.get (text "target")))
  if params.isObject=true ∧ jobId.1=true ∧ blob.1=true ∧ job.1=true then some job.2 else none

/-- A job described has the pool of the client and the identifier given. -/
theorem jobOf_identity {id : ℤ} {nicehash : Bool} {params : Json} {job : Job}
    (h : jobOf lib stale id nicehash params=some job) :
    job.m_poolId=id ∧
    job.m_id=(JobId.setId (lib.getString (params.get (text "job_id")))).2 := by
  rw [jobOf] at h
  split at h
  · obtain ⟨hpool,hid,-⟩ := Job.setTarget_frame stale.target
      (Job.setBlob {Job.new stale.blob id nicehash with
          m_id := (JobId.setId (lib.getString (params.get (text "job_id")))).2}
        (lib.getString (params.get (text "blob")))).2
      (lib.getString (params.get (text "target")))
    obtain ⟨hpool',hid',-⟩ := Job.setBlob_frame {Job.new stale.blob id nicehash with
        m_id := (JobId.setId (lib.getString (params.get (text "job_id")))).2}
      (lib.getString (params.get (text "blob")))
    rw [←Option.some.inj h]
    exact ⟨hpool.trans hpool',hid.trans hid'⟩
  · cases h

/-- A job is taken unless a member is refused or it is the job the client has. -/
theorem parseJob_eq (c : Client) (params : Json) :
    c.parseJob lib stale params=
      match jobOf lib stale c.m_id c.m_url.m_nicehash params with
      | none => (false,c)
      | some job => if c.m_job.same job then (false,c.close) else (true,{c with m_job := job}) := by
  rw [Client.parseJob,jobOf]
  dsimp only
  split
  · rename_i hobject
    rw [if_neg fun h => Bool.noConfusion (hobject.symm.trans h.1)]
  · rename_i hobject
    split
    · rename_i hid
      rw [if_neg fun h => Bool.noConfusion (hid.symm.trans h.2.1)]
    · rename_i hid
      split
      · rename_i hblob
        rw [if_neg fun h => Bool.noConfusion (hblob.symm.trans h.2.2.1)]
      · rename_i hblob
        split
        · rename_i htarget
          rw [if_neg fun h => Bool.noConfusion (htarget.symm.trans h.2.2.2)]
        · rename_i htarget
          have hall := And.intro ((Bool.not_eq_false _).mp hobject)
            (And.intro ((Bool.not_eq_false _).mp hid)
              (And.intro ((Bool.not_eq_false _).mp hblob) ((Bool.not_eq_false _).mp htarget)))
          rw [if_pos hall]

/-- Whether a login result is accepted depends on the identifier of the client, on its
pool and on the job it has. -/
theorem parseLogin_congr {c d : Client} (hid : d.m_id=c.m_id) (hurl : d.m_url=c.m_url)
    (hjob : d.m_job=c.m_job) (result : Json) :
    (d.parseLogin lib stale result).1=(c.parseLogin lib stale result).1 := by
  rw [Client.parseLogin,Client.parseLogin]
  split
  · rfl
  · split
    · rfl
    · rw [parseJob_eq,parseJob_eq]
      dsimp only
      rw [hid,hurl,hjob]
      split
      · rfl
      · split <;> rfl

end Jobs

section Lines

variable (lib : RapidJson) (stale : Stale)

/-- The number of the request that a line answers. -/
def responseId (line : Bytes) : Option ℤ :=
  match lib.parseInsitu (cStr line.dropLast) with
  | none => none
  | some doc =>
    if doc.isObject=false then none
    else
      match doc.get (text "id") with
      | .int64 id => some id
      | _ => none

/-- The line is the response to a login, and the client accepts it. -/
def LogsIn (c : Client) (line : Bytes) : Prop :=
  ∃ doc, lib.parseInsitu (cStr line.dropLast)=some doc ∧ doc.isObject=true ∧
    doc.get (text "id")=.int64 1 ∧ (doc.get (text "error")).isObject=false ∧
    (doc.get (text "result")).isObject=true ∧
    (c.parseLogin lib stale (doc.get (text "result"))).1=true

/-- Everything a line can report, with the number of the request it answers. -/
inductive Reports (id : Option ℤ) (loggedIn : Prop) (c d : Client) : Prop where
  /-- Nothing. -/
  | nothing (calls : d.calls=c.calls) (results : d.m_results=c.m_results)
      (failures : d.m_failures=c.m_failures)
  /-- A job. -/
  | job (job : Job) (calls : d.calls=c.calls++[.onJobReceived job])
      (results : d.m_results=c.m_results) (failures : d.m_failures=c.m_failures)
  /-- A login with its job. -/
  | login (job : Job) (isLogin : loggedIn)
      (calls : d.calls=c.calls++[.onLoginSuccess,.onJobReceived job])
      (results : d.m_results=c.m_results) (failures : d.m_failures=0)
  /-- The answer to a share. -/
  | answer (k : ℤ) (noted : SubmitResult) (error : Option Bytes) (isAnswer : id=some k)
      (known : c.m_results.lookup k=some noted)
      (calls : d.calls=c.calls++[.onResultAccepted noted error])
      (results : d.m_results=c.m_results.filter fun p => p.1 ≠ k)
      (failures : d.m_failures=c.m_failures)

/-- Closing the connection afterwards reports nothing more. -/
theorem Reports.close {id : Option ℤ} {loggedIn : Prop} {c d : Client}
    (h : Reports id loggedIn c d) : Reports id loggedIn c d.close := by
  cases h with
  | nothing hcalls hresults hfailures =>
    exact .nothing (by rw [close_calls,hcalls]) (by rw [close_m_results,hresults])
      (by rw [close_m_failures,hfailures])
  | job job hcalls hresults hfailures =>
    exact .job job (by rw [close_calls,hcalls]) (by rw [close_m_results,hresults])
      (by rw [close_m_failures,hfailures])
  | login job hlogin hcalls hresults hfailures =>
    exact .login job hlogin (by rw [close_calls,hcalls]) (by rw [close_m_results,hresults])
      (by rw [close_m_failures,hfailures])
  | answer k noted error hid hknown hcalls hresults hfailures =>
    exact .answer k noted error hid hknown (by rw [close_calls,hcalls])
      (by rw [close_m_results,hresults]) (by rw [close_m_failures,hfailures])

/-- What parsing a job leaves besides the job and the connection. -/
theorem parseJob_frame (c : Client) (params : Json) :
    (c.parseJob lib stale params).2.calls=c.calls ∧
    (c.parseJob lib stale params).2.m_results=c.m_results ∧
    (c.parseJob lib stale params).2.m_failures=c.m_failures ∧
    (c.parseJob lib stale params).2.m_sequence=c.m_sequence ∧
    (c.parseJob lib stale params).2.m_expire=c.m_expire := by
  rw [parseJob_eq]
  split
  · exact ⟨rfl,rfl,rfl,rfl,rfl⟩
  · split
    · exact ⟨close_calls c,close_m_results c,close_m_failures c,close_m_sequence c,
        close_m_expire c⟩
    · exact ⟨rfl,rfl,rfl,rfl,rfl⟩

/-- The same of a login. -/
theorem parseLogin_frame (c : Client) (result : Json) :
    (c.parseLogin lib stale result).2.calls=c.calls ∧
    (c.parseLogin lib stale result).2.m_results=c.m_results ∧
    (c.parseLogin lib stale result).2.m_failures=c.m_failures ∧
    (c.parseLogin lib stale result).2.m_sequence=c.m_sequence ∧
    (c.parseLogin lib stale result).2.m_expire=c.m_expire := by
  rw [Client.parseLogin]
  split
  · exact ⟨rfl,rfl,rfl,rfl,rfl⟩
  · split
    · exact ⟨rfl,rfl,rfl,rfl,rfl⟩
    · exact parseJob_frame lib stale _ _

/-- A response found among the shares is reported and erased, any other changes nothing. -/
theorem answered_reports (loggedIn : Prop) (c : Client) (id : ℤ) (error : Option Bytes) :
    Reports (some id) loggedIn c (match c.m_results.lookup id with
      | some noted => c.answered id noted error
      | none => c) := by
  split
  · rename_i noted hknown
    exact .answer id noted error rfl hknown rfl rfl rfl
  · exact .nothing rfl rfl rfl

/-- What a response reports. -/
theorem parseResponse_reports (c : Client) (id : ℤ) (result error : Json) :
    Reports (some id)
      (id=1 ∧ error.isObject=false ∧ result.isObject=true ∧
        (c.parseLogin lib stale result).1=true)
      c (c.parseResponse lib stale id result error) := by
  rw [Client.parseResponse]
  split
  · have hreports := answered_reports (id=1 ∧ error.isObject=false ∧ result.isObject=true ∧
      (c.parseLogin lib stale result).1=true) c id (lib.getString (error.get (text "message")))
    dsimp only
    split
    · exact hreports.close
    · exact hreports
  · rename_i herror
    split
    · exact .nothing rfl rfl rfl
    · rename_i hresult
      split
      · rename_i hid
        have hframe := parseLogin_frame lib stale c result
        dsimp only
        split
        · exact (Reports.nothing hframe.1 hframe.2.1 hframe.2.2.1).close
        · rename_i hparsed
          refine .login (c.parseLogin lib stale result).2.m_job ⟨hid,(Bool.not_eq_true _).mp herror,
            (Bool.not_eq_false _).mp hresult,(Bool.not_eq_false _).mp hparsed⟩ ?_ hframe.2.1 rfl
          rw [hframe.1]
      · exact answered_reports _ c id none

/-- What a notification reports. -/
theorem parseNotification_reports (id : Option ℤ) (loggedIn : Prop) (c : Client)
    (method : Option Bytes) (params error : Json) :
    Reports id loggedIn c (c.parseNotification lib stale method params error) := by
  have hframe := parseJob_frame lib stale c params
  rw [Client.parseNotification]
  split
  · exact .nothing rfl rfl rfl
  · split
    · dsimp only
      split
      · refine .job (c.parseJob lib stale params).2.m_job ?_ hframe.2.1 hframe.2.2.1
        rw [hframe.1]
      · exact .nothing hframe.1 hframe.2.1 hframe.2.2.1
    · exact .nothing rfl rfl rfl

/-- A line that is not a JSON object only stops the response timeout. -/
theorem parse_ignored (c : Client) {line : Bytes}
    (h : ∀ doc, lib.parseInsitu (cStr line.dropLast)=some doc → doc.isObject=false) :
    c.parse lib stale line=c.startTimeout ∧ responseId lib line=none := by
  rw [Client.parse,responseId]
  cases hdoc : lib.parseInsitu (cStr line.dropLast) with
  | none => exact ⟨rfl,rfl⟩
  | some doc => exact ⟨if_pos (h doc hdoc),if_pos (h doc hdoc)⟩

/-- An object with an integer as its identifier is a response. -/
theorem parse_response (c : Client) {line : Bytes} {doc : Json} {id : ℤ}
    (hdoc : lib.parseInsitu (cStr line.dropLast)=some doc) (hobject : doc.isObject=true)
    (hid : doc.get (text "id")=.int64 id) :
    c.parse lib stale line=
      c.startTimeout.parseResponse lib stale id (doc.get (text "result"))
        (doc.get (text "error")) ∧
    responseId lib line=some id := by
  have hneg : ¬doc.isObject=false := fun h => Bool.noConfusion (hobject.symm.trans h)
  rw [Client.parse,responseId,hdoc]
  dsimp only
  rw [if_neg hneg,if_neg hneg,hid]
  exact ⟨rfl,rfl⟩

/-- Any other object is a notification. -/
theorem parse_notification (c : Client) {line : Bytes} {doc : Json}
    (hdoc : lib.parseInsitu (cStr line.dropLast)=some doc) (hobject : doc.isObject=true)
    (hid : ∀ id, doc.get (text "id") ≠ .int64 id) :
    c.parse lib stale line=
      c.startTimeout.parseNotification lib stale (lib.getString (doc.get (text "method")))
        (doc.get (text "params")) (doc.get (text "error")) ∧
    responseId lib line=none := by
  have hneg : ¬doc.isObject=false := fun h => Bool.noConfusion (hobject.symm.trans h)
  rw [Client.parse,responseId,hdoc]
  dsimp only
  rw [if_neg hneg,if_neg hneg]
  cases hget : doc.get (text "id") with
  | int64 id => exact absurd hget (hid id)
  | _ => exact ⟨rfl,rfl⟩

/-- The timeout is not part of what a line reports. -/
theorem Reports.of_startTimeout {id : Option ℤ} {loggedIn loggedIn' : Prop} {c d : Client}
    (h : Reports id loggedIn c.startTimeout d) (himp : loggedIn → loggedIn') :
    Reports id loggedIn' c d := by
  cases h with
  | nothing hcalls hresults hfailures => exact .nothing hcalls hresults hfailures
  | job job hcalls hresults hfailures => exact .job job hcalls hresults hfailures
  | login job hlogin hcalls hresults hfailures =>
    exact .login job (himp hlogin) hcalls hresults hfailures
  | answer k noted error hid hknown hcalls hresults hfailures =>
    exact .answer k noted error hid hknown hcalls hresults hfailures

/-- What a line reports. -/
theorem parse_reports (c : Client) (line : Bytes) :
    Reports (responseId lib line) (LogsIn lib stale c line) c (c.parse lib stale line) := by
  by_cases hignored : ∀ doc, lib.parseInsitu (cStr line.dropLast)=some doc → doc.isObject=false
  · rw [(parse_ignored lib stale c hignored).1]
    exact .nothing rfl rfl rfl
  · push Not at hignored
    obtain ⟨doc,hdoc,hobject⟩ := hignored
    rw [Bool.ne_false_iff] at hobject
    by_cases hid : ∃ id, doc.get (text "id")=.int64 id
    · obtain ⟨id,hid⟩ := hid
      obtain ⟨hparse,hresponse⟩ := parse_response lib stale c hdoc hobject hid
      rw [hparse,hresponse]
      refine (parseResponse_reports lib stale c.startTimeout id _ _).of_startTimeout ?_
      rintro ⟨hone,herror,hresult,hparsed⟩
      rw [parseLogin_congr lib stale (c:=c) (d:=c.startTimeout) rfl rfl rfl] at hparsed
      rw [hone] at hid
      exact ⟨doc,hdoc,hobject,hid,herror,hresult,hparsed⟩
    · obtain ⟨hparse,hresponse⟩ :=
        parse_notification lib stale c hdoc hobject (not_exists.mp hid)
      rw [hparse,hresponse]
      have hreports :=
        parseNotification_reports lib stale none (LogsIn lib stale c line) c.startTimeout
      exact (hreports _ _ _).of_startTimeout
        id

/-- A response leaves the timeout and the numbering of requests alone. -/
theorem parseResponse_frame (c : Client) (id : ℤ) (result error : Json) :
    (c.parseResponse lib stale id result error).m_sequence=c.m_sequence ∧
    (c.parseResponse lib stale id result error).m_expire=c.m_expire := by
  have hanswered : ∀ message, (match c.m_results.lookup id with
      | some noted => c.answered id noted message
      | none => c).m_sequence=c.m_sequence ∧
      (match c.m_results.lookup id with
      | some noted => c.answered id noted message
      | none => c).m_expire=c.m_expire := by
    intro message
    split <;> exact ⟨rfl,rfl⟩
  have hlogin := parseLogin_frame lib stale c result
  rw [Client.parseResponse]
  split
  · dsimp only
    split
    · rw [close_m_sequence,close_m_expire]
      exact hanswered _
    · exact hanswered _
  · split
    · exact ⟨rfl,rfl⟩
    · split
      · dsimp only
        split
        · rw [close_m_sequence,close_m_expire]
          exact hlogin.2.2.2
        · exact hlogin.2.2.2
      · exact hanswered none

/-- A notification does too. -/
theorem parseNotification_frame (c : Client) (method : Option Bytes) (params error : Json) :
    (c.parseNotification lib stale method params error).m_sequence=c.m_sequence ∧
    (c.parseNotification lib stale method params error).m_expire=c.m_expire := by
  have hjob := parseJob_frame lib stale c params
  rw [Client.parseNotification]
  split
  · exact ⟨rfl,rfl⟩
  · split
    · dsimp only
      split <;> exact hjob.2.2.2
    · exact ⟨rfl,rfl⟩

/-- A line stops the response timeout and leaves the numbering of requests alone. -/
theorem parse_frame (c : Client) (line : Bytes) :
    (c.parse lib stale line).m_sequence=c.m_sequence ∧
    (c.parse lib stale line).m_expire=0 := by
  by_cases hignored : ∀ doc, lib.parseInsitu (cStr line.dropLast)=some doc → doc.isObject=false
  · rw [(parse_ignored lib stale c hignored).1]
    exact ⟨rfl,rfl⟩
  · push Not at hignored
    obtain ⟨doc,hdoc,hobject⟩ := hignored
    rw [Bool.ne_false_iff] at hobject
    by_cases hid : ∃ id, doc.get (text "id")=.int64 id
    · obtain ⟨id,hid⟩ := hid
      rw [(parse_response lib stale c hdoc hobject hid).1]
      exact parseResponse_frame lib stale c.startTimeout _ _ _
    · rw [(parse_notification lib stale c hdoc hobject (not_exists.mp hid)).1]
      exact parseNotification_frame lib stale c.startTimeout _ _ _

/-- The listener hears of a login that the client accepts. -/
theorem parse_logsIn {c : Client} {line : Bytes} (h : LogsIn lib stale c line) :
    ∃ job, (c.parse lib stale line).calls=c.calls++[.onLoginSuccess,.onJobReceived job] := by
  obtain ⟨doc,hdoc,hobject,hid,herror,hresult,hparsed⟩ := h
  have hneg : ¬(doc.get (text "error")).isObject=true := fun he =>
    Bool.noConfusion (herror.symm.trans he)
  have hres : ¬(doc.get (text "result")).isObject=false := fun he =>
    Bool.noConfusion (hresult.symm.trans he)
  rw [←parseLogin_congr lib stale (c:=c) (d:=c.startTimeout) rfl rfl rfl] at hparsed
  have haccepted : ¬(c.startTimeout.parseLogin lib stale (doc.get (text "result"))).1=false :=
    fun he => Bool.noConfusion (hparsed.symm.trans he)
  refine ⟨(c.startTimeout.parseLogin lib stale (doc.get (text "result"))).2.m_job,?_⟩
  rw [(parse_response lib stale c hdoc hobject hid).1,Client.parseResponse,if_neg hneg,
    if_neg hres,if_pos rfl]
  dsimp only
  rw [if_neg haccepted,(parseLogin_frame lib stale c.startTimeout _).1]
  rfl

end Lines

end XmrigCC.ClientLines
