import XmrigCC.LoginResponses
import XmrigCC.ShareLedger

/-!
# Accounting for shares

What the listener hears of shares against what the connection has sent. A share
that could not be sent stays noted, and the next request gets its number, so
that its answer is taken for the answer to the share.
-/

namespace XmrigCC.ShareAccounting

open ByteText CellMemory TransitionRuns MiningJob PoolMessages ReceiveBuffer ClientLines
open ClientSessions hiding step Defined
open ShareLedger
open PoolClientPhases (send_refused send_failed send_taken)
open PoolClient hiding step Permitted
open MultiWorker (JobResult)

/-- The action is a line that answers this share: the socket has taken its submit, and no
other request of that number. -/
def Answers (lib : RapidJson) (l : Ledger) (a : Action) (noted : SubmitResult) : Prop :=
  ∃ line stale rest rpcId result,
    a=.line ∧ l.session.rest=(line,stale)::rest ∧ responseId lib line=some noted.seq ∧
    noted=shareOf noted.seq result ∧
    (∃ k∈l.session.client.m_socket, submitRequest noted.seq rpcId result∈k.written) ∧
    .submit noted.seq rpcId result∈l.requests ∧
    ∀ r∈l.requests, r.id=noted.seq → r=.submit noted.seq rpcId result

/-- The accounts are right in this step. -/
structure Accounts (lib : RapidJson) (recvLib : RecvLibrary) (l : Ledger) (a : Action) : Prop where
  /-- A share reported is one that is answered. -/
  answered : ∀ noted error,
    .onResultAccepted noted error∈
      newCalls l.session.client (step lib recvLib l a).session.client →
    Answers lib l a noted
  /-- No share has been reported twice. -/
  once : (reportedIds (step lib recvLib l a).session.client.calls).Nodup
  /-- A submit that fails changes nothing. -/
  failed : ∀ result w now, a=.event (.submit result w now) →
    (l.session.client.submit result w now).1=-1 →
    (step lib recvLib l a).session.client.m_results=l.session.client.m_results ∧
      (step lib recvLib l a).session.client.m_sequence=l.session.client.m_sequence

section Accounting

variable {lib : RapidJson} {recvLib : RecvLibrary} {l : Ledger} {a : Action}

/-- No action but a line reports a share. -/
theorem unreported (ha : a ≠ .line) {noted : SubmitResult} {error : Option Bytes} :
    .onResultAccepted noted error∉
      newCalls l.session.client (step lib recvLib l a).session.client := by
  change .onResultAccepted noted error∉
    newCalls l.session.client (ClientSessions.step lib recvLib l.session a).client
  rcases step_calls recvLib l.session ha with hcalls|⟨failures,hcalls⟩
  · rw [newCalls_same hcalls]
    exact List.not_mem_nil
  · rw [newCalls_append hcalls]
    exact fun hm => nomatch List.mem_singleton.mp hm

/-- A share that a line reports is one that it answers. -/
theorem answers_of_line (h : Consistent l) (hd : Defined l .line) {noted : SubmitResult}
    {error : Option Bytes} (hm : .onResultAccepted noted error∈
      newCalls l.session.client (step lib recvLib l .line).session.client) :
    Answers lib l .line noted := by
  obtain ⟨⟨c,rest⟩,requests⟩ := l
  cases rest with
  | nil => exact absurd rfl hd.1.2
  | cons line rest =>
    obtain ⟨line,stale⟩ := line
    change .onResultAccepted noted error∈newCalls c (c.parse lib stale line) at hm
    cases parse_reports lib stale c line with
    | nothing hcalls =>
      rw [newCalls_same hcalls] at hm
      cases hm
    | job job hcalls =>
      rw [newCalls_append hcalls] at hm
      exact nomatch List.mem_singleton.mp hm
    | login job _ hcalls =>
      rw [newCalls_append hcalls,List.mem_pair] at hm
      rcases hm with hm|hm <;> cases hm
    | answer k noted' error' hid hknown hcalls =>
      rw [newCalls_append hcalls,List.mem_singleton] at hm
      obtain ⟨rfl,rfl⟩ := Call.onResultAccepted.inj hm
      obtain ⟨before,after,hsplit,-⟩ := List.lookup_eq_some_iff.mp hknown
      have hmem : (k,noted)∈c.m_results := by
        rw [hsplit]
        exact List.mem_append_right _ List.mem_cons_self
      have hlistening : Listening ⟨c,(line,stale)::rest⟩ := Or.inl (List.cons_ne_nil _ _)
      obtain ⟨rpcId,result,hshare,hrequest⟩ := h.pending hlistening _ hmem
      have hseq : noted.seq=k := congrArg SubmitResult.seq hshare
      subst hseq
      obtain ⟨k,hk⟩ := Option.ne_none_iff_exists'.mp (h.source hlistening)
      refine ⟨line,stale,rest,rpcId,result,rfl,rfl,hid,hshare,⟨k,hk,?_⟩,hrequest,?_⟩
      · rw [h.written k hk]
        exact List.mem_map_of_mem hrequest
      · intro r hr hsame
        exact List.inj_on_of_nodup_map h.distinct hr hrequest hsame

/-- The accounts of a step are right exactly when it sends the share it submits, if any. -/
theorem accounts_iff_sends (h : Consistent l) (hd : Defined l a) :
    Accounts lib recvLib l a ↔ Sends l a := by
  constructor
  · intro haccounts
    cases a with
    | event e =>
      cases e with
      | submit result w now =>
        by_contra hunsent
        have hreturned : (l.session.client.submit result w now).1=-1 ∧
            (l.session.client.submit result w now).2.m_results=
              (noteShare l.session.client result).m_results := by
          rw [submit_eq]
          by_cases hopen : l.session.client.m_state ≠ .connected ∨ w.writable=false
          · rw [send_refused (c:=noteShare l.session.client result) hopen]
            exact ⟨rfl,rfl⟩
          · rw [not_or,not_not,Bool.not_eq_false] at hopen
            have hfails : w.tryWrite<0 := by
              by_contra hok
              exact hunsent ⟨hopen.1,hopen.2,hok⟩
            rw [send_failed (c:=noteShare l.session.client result) hopen.1 hopen.2 hfails]
            exact ⟨rfl,close_m_results _⟩
        have hsame := (haccounts.failed result w now rfl hreturned.1).1
        change (l.session.client.submit result w now).2.m_results=_ at hsame
        rw [hreturned.2] at hsame
        have hmem : (l.session.client.m_sequence,notedShare l.session.client result)∈
            l.session.client.m_results := by
          rw [←hsame]
          exact List.mem_cons_self
        exact (h.noted _ hmem).1.false
      | resolved | connected | read | closed | tick | keepAlive | othersSent => exact trivial
    | connect | disconnect | line => exact trivial
  · intro hs
    refine ⟨?_,(consistent_step h hd hs).once,?_⟩
    · intro noted error hm
      by_cases hline : a=.line
      · subst hline
        exact answers_of_line h hd hm
      · exact absurd hm (unreported hline)
    · intro result w now he hfailed
      subst he
      obtain ⟨hstate,hwritable,hwrite⟩ := hs
      rw [submit_eq,send_taken (c:=noteShare l.session.client result) hstate hwritable hwrite]
        at hfailed
      have hfirst := h.first
      change l.session.client.m_sequence=-1 at hfailed
      omega

/-- A new client has an empty ledger. -/
theorem consistent_new (id : ℤ) (agent : Bytes) (url : Url) (buf blob : Cells UInt8) :
    Consistent ⟨⟨Client.new id agent url buf blob,[]⟩,[]⟩ := by
  have hsilent : ¬Listening ⟨Client.new id agent url buf blob,[]⟩ := by
    rintro (hne|⟨k,hk,-⟩)
    · exact hne rfl
    · cases hk
  exact ⟨wired_new id agent url buf blob,fun hl => absurd hl hsilent,le_rfl,
    fun _ hr => (nomatch hr),List.nodup_nil,fun _ hk => (nomatch hk),fun _ hk => (nomatch hk),
    fun _ => rfl,fun _ hp => (nomatch hp),fun _ hid => (nomatch hid),List.nodup_nil,
    fun hl => absurd hl hsilent⟩

/-- In every run of a client the accounts are right at every step exactly when every share
that is submitted is sent. -/
theorem share_accounting_iff (lib : RapidJson) (recvLib : RecvLibrary) (id : ℤ) (agent : Bytes)
    (url : Url) (buf blob : Cells UInt8) {actions : List Action}
    (hdefined : AlongSteps (step lib recvLib) Defined
      ⟨⟨Client.new id agent url buf blob,[]⟩,[]⟩ actions) :
    AlongSteps (step lib recvLib) (Accounts lib recvLib)
        ⟨⟨Client.new id agent url buf blob,[]⟩,[]⟩ actions ↔
      AlongSteps (step lib recvLib) Sends ⟨⟨Client.new id agent url buf blob,[]⟩,[]⟩ actions :=
  alongSteps_iff_of_kept (I:=Consistent) (fun _ _ h hd hs => consistent_step h hd hs)
    (fun _ _ h hd => accounts_iff_sends h hd) (consistent_new id agent url buf blob) hdefined

end Accounting

section Runs

open LoginResponses (zeroed)
open PoolClientLiveness (loginWriter)
open ReceiveBufferRuns (plainLibrary)

/-- The answer of a pool to request 2, without its terminator. -/
@[irreducible] def pongText : Bytes :=
  text "\x7b\"id\":2,\"jsonrpc\":\"2.0\",\"error\":null,\"result\":\x7b\"status\":\"KEEPALIVED\"\x7d\x7d"

/-- The value of that text. -/
def pongDoc : Json :=
  .object [(text "id",.int64 2),(text "jsonrpc",.string (text "2.0")),(text "error",.null),
    (text "result",.object [(text "status",.string (text "KEEPALIVED"))])]

/-- The library on that answer and on the login request of the client below. -/
def pongReader : RapidJson :=
  {loginWriter with parseInsitu := fun line => if line=pongText then some pongDoc else none}

/-- A new client that keeps its connection alive by pings. -/
def pingingRig : Client :=
  Client.new 0 (text "rig") ⟨true,false,none,none⟩ (fun _ => 0) fun _ => 0

/-- A share. -/
def someShare : JobResult := ⟨0,JobId.cleared,7,List.replicate 32 1,1000⟩

/-- The client connects and sends its login. -/
def opening : List Action :=
  [.connect 0,.event (.resolved 0 [2] 0 1000),.event (.connected 0 ⟨true,90⟩ 1001)]

/-- The answer arrives. -/
def pong : List Action :=
  [.event (.read (fun _ => 0) (.data (pongText++[newline])) fun _ => zeroed),.line]

/-- A share is submitted, and a ping is sent. -/
def submitting (w : WriteResult) : List Action :=
  [.event (.submit someShare w 1500),.event (.keepAlive ⟨true,66⟩ 2000)]

/-- The client that has sent its login. -/
def opened : Client :=
  {pingingRig with
    recv := ⟨fun _ => 0,0⟩,m_state := .connected,m_sequence := 2,m_expire := 1001+kResponseTimeout
    m_socket := some ⟨false,true,false,[pingingRig.loginText pongReader++[newline]]⟩}

/-- The login request of that client. -/
def loginOf : Request := .login (pingingRig.loginText pongReader++[newline])

theorem opening_run :
    AlongSteps (step pongReader plainLibrary) Defined ⟨⟨pingingRig,[]⟩,[]⟩ opening ∧
    runFrom (step pongReader plainLibrary) ⟨⟨pingingRig,[]⟩,[]⟩ opening=
      ⟨⟨opened,[]⟩,[loginOf]⟩ := by
  refine ⟨⟨⟨rfl,trivial⟩,⟨⟨rfl,rfl,Nat.one_pos,trivial⟩,fun _ => rfl⟩,
    ⟨⟨rfl,rfl,⟨_,rfl,rfl⟩,?_⟩,trivial⟩,trivial⟩,rfl⟩
  rintro ⟨k,⟨⟩,hclosing⟩
  cases hclosing

/-- The answer is taken for that of a share noted under its number. -/
theorem parse_pong (c : Client) :
    c.parse pongReader zeroed (pongText++[newline])=
      match c.m_results.lookup 2 with
      | some noted => c.startTimeout.answered 2 noted none
      | none => c.startTimeout := by
  have htext : cStr pongText=pongText := by decide +kernel
  have hdoc : pongReader.parseInsitu (cStr (pongText++[newline]).dropLast)=some pongDoc := by
    rw [List.dropLast_concat,htext]
    dsimp only [pongReader]
    rw [if_pos rfl]
  exact (parse_response pongReader zeroed c hdoc rfl rfl).1

/-- The requests of a socket that takes nothing. -/
theorem requestsAfter_same {lib : RapidJson} {l : Ledger} {a : Action} {c : Client} {k : Socket}
    (hk : l.session.client.m_socket=some k) (hc : c.m_socket=some k) :
    requestsAfter lib l a c=l.requests := by
  refine requestsAfter_nil (newlyWritten_nil fun k' hk' => ?_) fun hnone =>
    nomatch hnone.symm.trans hc
  rw [Option.some.inj (hc.symm.trans hk')] at hk
  exact ⟨k',hk,rfl⟩

theorem pong_run {c : Client} {k : Socket} (hk : c.m_socket=some k) (hreading : k.reading=true)
    (hintact : c.corrupted=false) (hempty : c.recv.m_recvBufPos=0) (requests : List Request) :
    AlongSteps (step pongReader plainLibrary) Defined ⟨⟨c,[]⟩,requests⟩ pong ∧
    ∃ buf, runFrom (step pongReader plainLibrary) ⟨⟨c,[]⟩,requests⟩ pong=
      ⟨⟨Client.parse pongReader zeroed {c with recv := ⟨buf,0⟩} (pongText++[newline]),[]⟩,
        requests⟩ := by
  have hline : newline∉pongText := by decide +kernel
  have hlength : pongText.length+9 ≤ bufSize := by decide +kernel
  have hroom : c.recv.m_recvBufPos+(pongText++[newline]).length ≤ bufSize := by
    rw [List.length_append,hempty,List.length_singleton]
    omega
  obtain ⟨buf,hread⟩ := beginRead_line plainLibrary hempty hline hlength (fun _ => 0)
    fun _ => zeroed
  have hbegun : step pongReader plainLibrary ⟨⟨c,[]⟩,requests⟩
      (.event (.read (fun _ => 0) (.data (pongText++[newline])) fun _ => zeroed))=
      ⟨⟨{c with recv := ⟨buf,0⟩},[(pongText++[newline],zeroed)]⟩,requests⟩ := by
    have hsession : ClientSessions.step pongReader plainLibrary ⟨c,[]⟩
        (.event (.read (fun _ => 0) (.data (pongText++[newline])) fun _ => zeroed))=
        ⟨{c with recv := ⟨buf,0⟩},[(pongText++[newline],zeroed)]⟩ := hread
    rw [step,hsession]
    exact congrArg (Ledger.mk _) (requestsAfter_same (l:=⟨⟨c,[]⟩,requests⟩) hk hk)
  have hsocket : (Client.parse pongReader zeroed {c with recv := ⟨buf,0⟩}
      (pongText++[newline])).m_socket=some k := by
    rw [parse_pong]
    split <;> exact hk
  rw [pong,alongSteps_cons,runFrom_cons,hbegun]
  refine ⟨⟨⟨⟨hintact,rfl,⟨⟨k,hk,hreading⟩,hroom⟩,trivial⟩,trivial⟩,
    ⟨⟨hintact,List.cons_ne_nil _ _⟩,trivial⟩,trivial⟩,buf,?_⟩
  rw [runFrom_cons,runFrom_nil,step]
  exact congrArg (Ledger.mk _) (requestsAfter_same (l:=⟨⟨{c with recv := ⟨buf,0⟩},
    [(pongText++[newline],zeroed)]⟩,requests⟩) hk hsocket)

/-- The client that has been answered once. -/
def answered (buf : Cells UInt8) : Client :=
  {opened.startTimeout with recv := ⟨buf,0⟩}

theorem answer_run :
    AlongSteps (step pongReader plainLibrary) Defined ⟨⟨opened,[]⟩,[loginOf]⟩ pong ∧
    ∃ buf, runFrom (step pongReader plainLibrary) ⟨⟨opened,[]⟩,[loginOf]⟩ pong=
      ⟨⟨answered buf,[]⟩,[loginOf]⟩ := by
  obtain ⟨hdefined,buf,hrun⟩ := pong_run (c:=opened) rfl rfl rfl rfl [loginOf]
  refine ⟨hdefined,buf,?_⟩
  rw [hrun,parse_pong]
  rfl

/-- A share submitted with this outcome, and a ping, between two answers. -/
def exchange (w : WriteResult) : List Action := opening++(pong++(submitting w++pong))

/-- The client that has sent its ping. -/
def pinged (w : WriteResult) (buf : Cells UInt8) : Client :=
  (runFrom (step pongReader plainLibrary) ⟨⟨answered buf,[]⟩,[loginOf]⟩
    (submitting w)).session.client

/-- A run of these actions, when the socket is still read after the ping. -/
theorem exchange_run (w : WriteResult) (requests : List Request)
    (hdefined : ∀ buf, AlongSteps (step pongReader plainLibrary) Defined
      ⟨⟨answered buf,[]⟩,[loginOf]⟩ (submitting w))
    (hrun : ∀ buf, runFrom (step pongReader plainLibrary) ⟨⟨answered buf,[]⟩,[loginOf]⟩
      (submitting w)=⟨⟨pinged w buf,[]⟩,requests⟩)
    (hready : ∀ buf, (∃ k∈(pinged w buf).m_socket, k.reading=true) ∧
      (pinged w buf).corrupted=false ∧ (pinged w buf).recv.m_recvBufPos=0) :
    AlongSteps (step pongReader plainLibrary) Defined ⟨⟨pingingRig,[]⟩,[]⟩ (exchange w) ∧
    ∃ before after, runFrom (step pongReader plainLibrary) ⟨⟨pingingRig,[]⟩,[]⟩ (exchange w)=
      ⟨⟨Client.parse pongReader zeroed {pinged w before with recv := ⟨after,0⟩}
        (pongText++[newline]),[]⟩,requests⟩ := by
  obtain ⟨hanswer,before,hanswered⟩ := answer_run
  obtain ⟨⟨k,hk,hreading⟩,hintact,hempty⟩ := hready before
  obtain ⟨hpong,after,hponged⟩ := pong_run hk hreading hintact hempty requests
  refine ⟨?_,before,after,?_⟩
  · rw [exchange,alongSteps_append,opening_run.2,alongSteps_append,hanswered,alongSteps_append,
      hrun before]
    exact ⟨opening_run.1,hanswer,hdefined before,hpong⟩
  · rw [exchange,runFrom_append,opening_run.2,runFrom_append,hanswered,runFrom_append,
      hrun before,hponged]

/-- A share that is sent is accounted for. -/
theorem share_accounting_answered :
    AlongSteps (step pongReader plainLibrary) (Accounts pongReader plainLibrary)
      ⟨⟨pingingRig,[]⟩,[]⟩ (exchange ⟨true,169⟩) ∧
    (runFrom (step pongReader plainLibrary) ⟨⟨pingingRig,[]⟩,[]⟩
      (exchange ⟨true,169⟩)).session.client.calls=
        [.onResultAccepted (shareOf 2 someShare) none] := by
  obtain ⟨hdefined,before,after,hrun⟩ := exchange_run ⟨true,169⟩
    [loginOf,.submit 2 [] someShare,.keepAlive 3 []]
    (fun _ => ⟨⟨⟨rfl,rfl,trivial,trivial⟩,trivial⟩,⟨⟨rfl,rfl,rfl,trivial⟩,trivial⟩,trivial⟩)
    (fun _ => rfl) fun _ => ⟨⟨_,rfl,rfl⟩,rfl,rfl⟩
  have hsends : AlongSteps (step pongReader plainLibrary) Sends ⟨⟨pingingRig,[]⟩,[]⟩
      (exchange ⟨true,169⟩) := by
    obtain ⟨-,buf,hanswered⟩ := answer_run
    rw [exchange,alongSteps_append,opening_run.2,alongSteps_append,hanswered]
    exact ⟨⟨trivial,trivial,trivial,trivial⟩,⟨trivial,trivial,trivial⟩,⟨rfl,rfl,by decide⟩,trivial,
      trivial,trivial,trivial⟩
  refine ⟨(share_accounting_iff pongReader plainLibrary 0 (text "rig") ⟨true,false,none,none⟩
    (fun _ => 0) (fun _ => 0) hdefined).mpr hsends,?_⟩
  rw [hrun,parse_pong]
  rfl

/-- A share that cannot be sent is taken to be accepted when a ping is answered. -/
theorem pong_accepts_share :
    ∃ actions noted,
      AlongSteps (step pongReader plainLibrary) Defined ⟨⟨pingingRig,[]⟩,[]⟩ actions ∧
      (runFrom (step pongReader plainLibrary) ⟨⟨pingingRig,[]⟩,[]⟩ actions).session.client.calls=
        [.onResultAccepted noted none] ∧
      (runFrom (step pongReader plainLibrary) ⟨⟨pingingRig,[]⟩,[]⟩ actions).requests=
        [loginOf,.keepAlive noted.seq []] ∧
      ¬AlongSteps (step pongReader plainLibrary) (Accounts pongReader plainLibrary)
        ⟨⟨pingingRig,[]⟩,[]⟩ actions := by
  obtain ⟨hdefined,before,after,hrun⟩ := exchange_run ⟨false,0⟩ [loginOf,.keepAlive 2 []]
    (fun _ => ⟨⟨⟨rfl,rfl,trivial,trivial⟩,trivial⟩,⟨⟨rfl,rfl,rfl,trivial⟩,trivial⟩,trivial⟩)
    (fun _ => rfl) fun _ => ⟨⟨_,rfl,rfl⟩,rfl,rfl⟩
  refine ⟨exchange ⟨false,0⟩,shareOf 2 someShare,hdefined,?_,?_,?_⟩
  · rw [hrun,parse_pong]
    rfl
  · rw [hrun]
    rfl
  · obtain ⟨-,before,hanswered⟩ := answer_run
    rw [exchange,alongSteps_append,opening_run.2,alongSteps_append,hanswered]
    rintro ⟨-,-,haccounts,-⟩
    exact nomatch (haccounts.failed someShare ⟨false,0⟩ 1500 rfl rfl).1

end Runs

end XmrigCC.ShareAccounting
