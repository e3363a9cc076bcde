import XmrigCC.ClientSessions

/-!
# Responses to a login

A login response brings a job. Whether the client accepts it depends, besides
the response, on the job the client still has from before, which no connection
clears.
-/

namespace XmrigCC.LoginResponses

open ByteText CellMemory TransitionRuns ReceiveBuffer ReceiveBufferRuns DelimitedStream MiningJob
open PoolMessages ClientLines ClientSessions
open PoolClient hiding step Permitted
open PoolClientLiveness (loginWriter rig)

/-- A response to a login with everything that a client asks of it: an identifier, and a
job whose members are accepted. -/
structure LoginResponse (lib : RapidJson) (stale : Stale) (c : Client) (doc : Json) (job : Job) :
    Prop where
  /-- The line is an object. -/
  object : doc.isObject=true
  /-- It answers request 1. -/
  id : doc.get (text "id")=.int64 1
  /-- There is no error object. -/
  error : (doc.get (text "error")).isObject=false
  /-- The result is an object. -/
  result : (doc.get (text "result")).isObject=true
  /-- The identifier of the client fits `m_rpcId`. -/
  rpcId : ∃ name, (doc.get (text "result")).get (text "id")=.string name ∧ (cStr name).length<64
  /-- The job. -/
  job : jobOf lib stale c.m_id c.m_url.m_nicehash ((doc.get (text "result")).get (text "job"))=
    some job

section Response

variable {lib : RapidJson} {stale : Stale} {c : Client} {doc : Json} {job : Job}

/-- The login in such a response is refused, and the connection closed, if the client
already has its job, and accepted if not. -/
theorem parseLogin_response (h : LoginResponse lib stale c doc job) :
    ∃ name, c.parseLogin lib stale (doc.get (text "result"))=
      if c.m_job.same job then (false,Client.close {c with m_rpcId := name})
      else (true,{c with m_rpcId := name,m_job := job}) := by
  obtain ⟨name,hname,hlength⟩ := h.rpcId
  refine ⟨cStr name,?_⟩
  have hshort : ¬64 ≤ (cStr name).length := Nat.not_le.mpr hlength
  rw [Client.parseLogin,hname]
  dsimp only [RapidJson.getString]
  rw [if_neg hshort,parseJob_eq]
  dsimp only
  rw [h.job]

/-- The response of a job that the client does not have yet is accepted. -/
theorem parse_accepted {line : Bytes} (hdoc : lib.parseInsitu (cStr line.dropLast)=some doc)
    (h : LoginResponse lib stale c doc job) (hnew : c.m_job.same job=false) :
    ∃ name, c.parse lib stale line=
      {c.startTimeout with
        m_rpcId := name,m_job := job,m_failures := 0
        calls := c.calls++[.onLoginSuccess,.onJobReceived job]} := by
  have herror : ¬(doc.get (text "error")).isObject=true := fun he =>
    Bool.noConfusion (h.error.symm.trans he)
  have hresult : ¬(doc.get (text "result")).isObject=false := fun he =>
    Bool.noConfusion (h.result.symm.trans he)
  have hsame : ¬c.startTimeout.m_job.same job=true := fun he =>
    Bool.noConfusion (hnew.symm.trans he)
  obtain ⟨name,hparsed⟩ := parseLogin_response (c:=c.startTimeout)
    ⟨h.object,h.id,h.error,h.result,h.rpcId,h.job⟩
  rw [if_neg hsame] at hparsed
  refine ⟨name,?_⟩
  rw [(parse_response lib stale c hdoc h.object h.id).1,Client.parseResponse,if_neg herror,
    if_neg hresult,if_pos rfl,hparsed]
  rfl

/-- The response of the job that the client has is not reported. -/
theorem parse_refused {line : Bytes} (hdoc : lib.parseInsitu (cStr line.dropLast)=some doc)
    (h : LoginResponse lib stale c doc job) (hold : c.m_job.same job=true) :
    (c.parse lib stale line).calls=c.calls := by
  have herror : ¬(doc.get (text "error")).isObject=true := fun he =>
    Bool.noConfusion (h.error.symm.trans he)
  have hresult : ¬(doc.get (text "result")).isObject=false := fun he =>
    Bool.noConfusion (h.result.symm.trans he)
  have hsame : c.startTimeout.m_job.same job=true := hold
  obtain ⟨name,hparsed⟩ := parseLogin_response (c:=c.startTimeout)
    ⟨h.object,h.id,h.error,h.result,h.rpcId,h.job⟩
  rw [if_pos hsame] at hparsed
  rw [(parse_response lib stale c hdoc h.object h.id).1,Client.parseResponse,if_neg herror,
    if_neg hresult,if_pos rfl,hparsed]
  dsimp only
  rw [if_pos rfl,close_calls,close_calls]
  rfl

/-- The listener hears of the login and of the job of a response exactly when the client
does not have that job yet. -/
theorem login_succeeds_iff {line : Bytes} (hdoc : lib.parseInsitu (cStr line.dropLast)=some doc)
    (h : LoginResponse lib stale c doc job) :
    (c.parse lib stale line).calls=c.calls++[.onLoginSuccess,.onJobReceived job] ↔
      c.m_job.same job=false := by
  constructor
  · intro hcalls
    by_contra hsame
    rw [parse_refused hdoc h ((Bool.not_eq_false _).mp hsame)] at hcalls
    have hlength := congrArg List.length hcalls
    simp only [List.length_append,List.length_cons,List.length_nil] at hlength
    omega
  · intro hnew
    obtain ⟨name,hparse⟩ := parse_accepted hdoc h hnew
    rw [hparse]

end Response

/-- A response of a pool, without its terminator. -/
@[irreducible] def responseText : Bytes :=
  text "\x7b\"id\":1,\"jsonrpc\":\"2.0\",\"error\":null,\"result\":\x7b\"id\":\"a\",\"job\":\x7b\"job_id\":\"1\",\"blob\":\""++
    List.replicate 152 48++text "\",\"target\":\"ffffff00\"\x7d,\"status\":\"OK\"\x7d\x7d"

/-- The job in that text. -/
def responseParams : Json :=
  .object [(text "job_id",.string (text "1")),(text "blob",.string (List.replicate 152 48)),
    (text "target",.string (text "ffffff00"))]

/-- The value of that text. -/
def responseDoc : Json :=
  .object [(text "id",.int64 1),(text "jsonrpc",.string (text "2.0")),(text "error",.null),
    (text "result",.object [(text "id",.string (text "a")),(text "job",responseParams),
      (text "status",.string (text "OK"))])]

/-- The library on the response and on the login request of the client `rig`. -/
def responseReader : RapidJson :=
  {loginWriter with parseInsitu := fun line => if line=responseText then some responseDoc else none}

/-- Zeroed memory. -/
def zeroed : Stale := ⟨fun _ => 0,fun _ => 0⟩

/-- The members of the job are accepted. -/
theorem response_job : ∃ job, jobOf responseReader zeroed 0 false responseParams=some job :=
  Option.isSome_iff_exists.mp (by decide +kernel)

/-- The response is one for the client `rig` at any time. -/
theorem responseDoc_response {c : Client} {job : Job}
    (hjob : jobOf responseReader zeroed 0 false responseParams=some job) (hid : c.m_id=0)
    (hurl : c.m_url.m_nicehash=false) :
    LoginResponse responseReader zeroed c responseDoc job := by
  refine ⟨rfl,rfl,rfl,rfl,⟨text "a",rfl,by decide +kernel⟩,?_⟩
  rw [hid,hurl]
  exact hjob

/-- The response is one line of text, and leaves room in `m_buf`. -/
theorem responseText_line : cStr responseText=responseText ∧ newline∉responseText ∧
    responseText.length+9 ≤ bufSize := by
  decide +kernel

theorem parse_responseText :
    responseReader.parseInsitu (cStr (responseText++[newline]).dropLast)=some responseDoc := by
  rw [List.dropLast_concat,responseText_line.1]
  dsimp only [responseReader]
  rw [if_pos rfl]

theorem rig_without_job {job : Job}
    (hjob : jobOf responseReader zeroed 0 false responseParams=some job) :
    rig.m_job.same job=false := by
  have hid := (jobOf_identity responseReader zeroed hjob).2
  have hne : rig.m_job.m_id ≠
      (JobId.setId (responseReader.getString (responseParams.get (text "job_id")))).2 := by
    decide +kernel
  rw [Job.same,hid,decide_eq_false hne,Bool.false_and]

/-- A new client accepts the response. -/
theorem login_succeeds_rig :
    ∃ job, (rig.parse responseReader zeroed (responseText++[newline])).calls=
      [.onLoginSuccess,.onJobReceived job] := by
  obtain ⟨job,hjob⟩ := response_job
  exact ⟨job,(login_succeeds_iff parse_responseText (responseDoc_response hjob rfl rfl)).mpr
    (rig_without_job hjob)⟩

/-- The client `rig` connects and sends its login. -/
def opening : List Action :=
  [.connect 0,.event (.resolved 0 [2] 0 1000),.event (.connected 0 ⟨true,90⟩ 1001)]

/-- The response arrives. -/
def answer : List Action :=
  [.event (.read (fun _ => 0) (.data (responseText++[newline])) fun _ => zeroed),.line]

/-- The connection is lost, and the client connects and sends its login again. -/
def reopening : List Action :=
  [.event (.read (fun _ => 0) (.failed 4094) fun _ => zeroed),.event (.closed 3000),
    .event (.tick 8000 0),.event (.resolved 0 [2] 0 8100),
    .event (.connected 0 ⟨true,90⟩ 8101)]

/-- The client that has sent its login. -/
def opened : Client :=
  {rig with
    recv := ⟨fun _ => 0,0⟩,m_state := .connected,m_sequence := 2,m_expire := 1001+kResponseTimeout
    m_socket := some ⟨false,true,false,[rig.loginText responseReader++[newline]]⟩}

/-- The client that has been answered. -/
def answered (buf : Cells UInt8) (name : Bytes) (job : Job) : Client :=
  {opened.startTimeout with
    recv := ⟨buf,0⟩,m_rpcId := name,m_job := job,m_failures := 0
    calls := [.onLoginSuccess,.onJobReceived job]}

theorem opening_run :
    AlongSteps (step responseReader plainLibrary) Defined ⟨rig,[]⟩ opening ∧
    runFrom (step responseReader plainLibrary) ⟨rig,[]⟩ opening=⟨opened,[]⟩ := by
  refine ⟨⟨⟨rfl,trivial⟩,⟨⟨rfl,rfl,Nat.one_pos,trivial⟩,fun _ => rfl⟩,
    ⟨⟨rfl,rfl,⟨_,rfl,rfl⟩,?_⟩,trivial⟩,trivial⟩,rfl⟩
  rintro ⟨k,⟨⟩,hclosing⟩
  cases hclosing

theorem answer_run {job : Job}
    (hjob : jobOf responseReader zeroed 0 false responseParams=some job) :
    AlongSteps (step responseReader plainLibrary) Defined ⟨opened,[]⟩ answer ∧
    ∃ buf name, runFrom (step responseReader plainLibrary) ⟨opened,[]⟩ answer=
      ⟨answered buf name job,[]⟩ := by
  obtain ⟨-,hline,hlength⟩ := responseText_line
  have hroom : opened.recv.m_recvBufPos+(responseText++[newline]).length ≤ bufSize := by
    have hempty : opened.recv.m_recvBufPos=0 := rfl
    rw [List.length_append,hempty,List.length_singleton]
    omega
  obtain ⟨buf,hread⟩ := beginRead_line plainLibrary (c:=opened) rfl hline hlength
    (fun _ => 0) fun _ => zeroed
  obtain ⟨name,hparse⟩ := parse_accepted (c:={opened with recv := ⟨buf,0⟩}) parse_responseText
    (responseDoc_response hjob rfl rfl) (rig_without_job hjob)
  have hstep : step responseReader plainLibrary ⟨opened,[]⟩
      (.event (.read (fun _ => 0) (.data (responseText++[newline])) fun _ => zeroed))=
      ⟨{opened with recv := ⟨buf,0⟩},[(responseText++[newline],zeroed)]⟩ := hread
  rw [answer,alongSteps_cons,runFrom_cons,hstep]
  refine ⟨⟨⟨⟨rfl,rfl,⟨⟨_,rfl,rfl⟩,hroom⟩,trivial⟩,trivial⟩,⟨⟨rfl,List.cons_ne_nil _ _⟩,trivial⟩,
    trivial⟩,buf,name,?_⟩
  change (⟨_,[]⟩ : Session)=_
  rw [hparse]
  rfl

theorem reopening_run (buf : Cells UInt8) (name : Bytes) (job : Job) :
    AlongSteps (step responseReader plainLibrary) Defined ⟨answered buf name job,[]⟩ reopening := by
  refine ⟨⟨⟨rfl,rfl,⟨_,rfl,rfl⟩,trivial⟩,trivial⟩,⟨⟨rfl,rfl,⟨_,rfl,rfl,rfl⟩,trivial⟩,trivial⟩,
    ⟨⟨rfl,rfl,trivial,trivial⟩,trivial⟩,⟨⟨rfl,rfl,Nat.one_pos,trivial⟩,fun _ => rfl⟩,
    ⟨⟨rfl,rfl,⟨_,rfl,rfl⟩,?_⟩,trivial⟩,trivial⟩
  rintro ⟨k,⟨⟩,hclosing⟩
  cases hclosing

/-- A client that has connected again and sent its login gets the response of before, and
the listener hears of no login. -/
theorem same_job_refused :
    ∃ actions c job, AlongSteps (step responseReader plainLibrary) Defined ⟨rig,[]⟩ actions ∧
      runFrom (step responseReader plainLibrary) ⟨rig,[]⟩ actions=⟨c,[]⟩ ∧
      c.m_state=.connected ∧
      (∃ k∈c.m_socket, k.written=[c.loginText responseReader++[newline]]) ∧
      LoginResponse responseReader zeroed c responseDoc job ∧
      (c.parse responseReader zeroed (responseText++[newline])).calls ≠
        c.calls++[.onLoginSuccess,.onJobReceived job] := by
  obtain ⟨job,hjob⟩ := response_job
  obtain ⟨hanswer,buf,name,hanswered⟩ := answer_run hjob
  have hsame : job.same job=true := by
    rw [Job.same,Bool.and_eq_true]
    exact ⟨decide_eq_true rfl,decide_eq_true rfl⟩
  refine ⟨opening++(answer++reopening),
    (runFrom (step responseReader plainLibrary) ⟨answered buf name job,[]⟩ reopening).client,job,
    ?_,?_,rfl,⟨_,rfl,rfl⟩,responseDoc_response hjob rfl rfl,?_⟩
  · rw [alongSteps_append,opening_run.2,alongSteps_append,hanswered]
    exact ⟨opening_run.1,hanswer,reopening_run buf name job⟩
  · rw [runFrom_append,opening_run.2,runFrom_append,hanswered]
    rfl
  · rw [parse_refused parse_responseText (responseDoc_response hjob rfl rfl) hsame]
    intro hcalls
    have hlength := congrArg List.length hcalls
    rw [List.length_append] at hlength
    simp only [List.length_cons,List.length_nil] at hlength
    omega

end XmrigCC.LoginResponses
