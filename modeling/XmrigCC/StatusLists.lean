import XmrigCC.CommandChannel
import XmrigCC.StatusReports

/-!
# The statuses that the administrator sees

A miner sends its status as a text, the server keeps the last one of every client, and the list
of all of them goes to the administrator as a text again.
-/

namespace XmrigCC.StatusLists

open ByteText CommandServer JsonValues JsonWriting JsonReading ClientStatuses CommandService
open CommandDelivery CommandChannel StatusReports TransitionRuns

variable {D : Type}

/-- `ClientStatus::toJsonString`. -/
def toJsonString (nums : Doubles D) (s : ClientStatus D) : Bytes :=
  cStr (written nums plainStyle (.object [(text "client_status",s.toJson)]))

/-- The doubles of a status survive being written. -/
structure DoublesKept (nums : Doubles D) (s : ClientStatus D) : Prop where
  /-- The hashrate of the last ten seconds. -/
  short : JsonReading.Kept nums s.m_hashrateShort
  /-- Of the last minute. -/
  medium : JsonReading.Kept nums s.m_hashrateMedium
  /-- Of the last fifteen minutes. -/
  long : JsonReading.Kept nums s.m_hashrateLong
  /-- The highest one. -/
  highest : JsonReading.Kept nums s.m_hashrateHighest

/-- The document of a status survives being written. -/
theorem sound_toJson {nums : Doubles D} {s : ClientStatus D} (h : DoublesKept nums s) :
    Sound nums s.toJson := by
  have hint : ∀ n : Int32, InRange n.toInt := fun n => by
    have hlow := n.le_toInt
    have hhigh := n.toInt_lt
    rw [InRange]
    omega
  have huint : ∀ n : UInt64, InRange n.toNat := fun n => by
    have hhigh := n.toNat_lt
    rw [InRange]
    omega
  have hword : ∀ n : UInt32, InRange n.toNat := fun n => by
    have hhigh := n.toNat_lt
    rw [InRange]
    omega
  exact ⟨trivial,trivial,trivial,trivial,trivial,trivial,trivial,trivial,trivial,hint _,trivial,
    trivial,h.short,h.medium,h.long,h.highest,hint _,hint _,hint _,hint _,hint _,hint _,huint _,
    huint _,huint _,hword _,huint _,trivial⟩

section Statuses

variable (host : Host D)

theorem getClientCommand_status (clientId : Bytes) (s : Service D) :
    (getClientCommand host clientId s).state.m_clientStatus=s.m_clientStatus := by
  rw [getClientCommand]
  dsimp only
  split <;> rfl

/-- A report that is not refused replaces the status of its client. -/
theorem setClientStatus_status (clientIp clientId data : Bytes) (s : Service D)
    {document : Value D} (hparse : host.lib.parse (cStr data)=some document) :
    (setClientStatus host clientIp clientId data s).state.m_clientStatus=
      s.m_clientStatus.insert clientId (((ClientStatus.new host.lib).parseFromJson host.lib s.now
        document).value.1.setExternalIp clientIp) := by
  rw [setClientStatus,hparse]
  dsimp only
  split
  · exact getClientCommand_status host clientId _
  · exact getClientCommand_status host clientId _

/-- What is not a report of a client leaves its status. -/
theorem step_status {c : Bytes} {call : Call} (h : ¬Polls host c call) (s : Service D) :
    (CommandService.step host s call).m_clientStatus[c]?=s.m_clientStatus[c]? := by
  cases call with
  | get now url clientId =>
    rw [CommandService.step,answer,routeGET]
    split
    · rfl
    split
    · rfl
    split
    · rfl
    split
    · rfl
    split
    · rfl
    split
    · exact congrArg (·[c]?) (getClientCommand_status host clientId (s.atTime now))
    · rfl
  | post now url clientIp clientId data =>
    rw [CommandService.step,answer]
    cases hroute : routePOST url with
    | none => rfl
    | some route =>
      cases route with
      | clientSetClientStatus =>
        cases hparse : host.lib.parse (cStr data) with
        | none =>
          have hrefused := setClientStatus_refused host clientIp clientId (s.atTime now) hparse
          exact congrArg (fun a => a.state.m_clientStatus[c]?) hrefused
        | some document =>
          have hne : ¬compare clientId c=.eq := fun he => by
            obtain rfl := Std.LawfulEqCmp.eq_of_compare he
            exact h ⟨data,document,⟨now,url,clientIp,rfl,hroute⟩,hparse⟩
          have hset := setClientStatus_status host clientIp clientId data (s.atTime now) hparse
          refine (congrArg (·[c]?) hset).trans ?_
          rw [Std.TreeMap.getElem?_insert,if_neg hne]
          rfl
      | adminGetClientCommand =>
        exact congrArg (·[c]?) (getClientCommand_status host clientId (s.atTime now))
      | adminSetClientCommand =>
        rw [Actions.run]
        change (setClientCommand host clientId data (s.atTime now)).state.m_clientStatus[c]?=_
        rw [setClientCommand]
        split <;> rfl
      | _ => rfl

theorem run_status {c : Bytes} {calls : List Call} (h : ∀ call∈calls, ¬Polls host c call)
    (s : Service D) :
    (runFrom (CommandService.step host) s calls).m_clientStatus[c]?=s.m_clientStatus[c]? := by
  induction calls generalizing s with
  | nil => rfl
  | cons call calls ih =>
    rw [runFrom_cons,ih (fun call' h' => h call' (List.mem_cons_of_mem call h')),
      step_status host (h call List.mem_cons_self)]

/-- What a report leaves in place of the status of its client. -/
theorem report_status (c : Bytes) (now : Int64) (clientIp : Bytes) {data : Bytes}
    {document : Value D} (hparse : host.lib.parse (cStr data)=some document) (s : Service D) :
    (CommandService.step host s (reportCall c now clientIp data)).m_clientStatus=
      s.m_clientStatus.insert c (((ClientStatus.new host.lib).parseFromJson host.lib now
        document).value.1.setExternalIp clientIp) := by
  have hroute : routePOST (text "/client/setClientStatus")=some .clientSetClientStatus := by
    decide
  rw [CommandService.step,reportCall,answer,hroute]
  exact setClientStatus_status host clientIp c data (s.atTime now) hparse

end Statuses

/-- The text of a status is stored as that status, at the time and from the address. -/
theorem report_stored (host : Host D) {nums : Doubles D} (c : Bytes) (now : Int64)
    (clientIp : Bytes) {st : ClientStatus D} (hst : NulFree st) (hdoubles : DoublesKept nums st)
    (s : Service D) :
    (CommandService.step (withJson nums host) s
      (reportCall c now clientIp (toJsonString nums st))).m_clientStatus[c]?=
        some (({st with m_lastStatusUpdate := now}).setExternalIp clientIp) := by
  have hsound : Sound nums (.object [(text "client_status",st.toJson)]) :=
    ⟨sound_toJson hdoubles,trivial⟩
  obtain ⟨htext,hread⟩ := Parse_written plain_lays plain_spacing hsound
  have hparse : (withJson nums host).lib.parse (cStr (toJsonString nums st))=
      some (.object [(text "client_status",st.toJson)]) := by
    rw [toJsonString,htext,htext]
    exact hread
  have hfound : find [(text "client_status",st.toJson)] (text "client_status")=
      some (.object (StatusReports.members st.toJson)) := rfl
  obtain ⟨new,hnew,hupdated,htime⟩ := parseFromJson_updated (withJson nums host).lib now
    (ClientStatus.new (withJson nums host).lib) hfound (toJson_written st)
  rw [report_status (withJson nums host) c now clientIp hparse s,hnew,
    Std.TreeMap.getElem?_insert_self,hupdated.eq hst,htime]

/-- The entries of the list for the administrator. -/
def clientStatusList (s : Service D) : List (Value D) :=
  s.m_clientStatus.toList.map fun entry => .object [(text "client_status",entry.2.toJson)]

/-- The document of the list. -/
def listMembers (host : Host D) (s : Service D) : List (Bytes×Value D) :=
  [(text "current_server_time",.int s.now.toInt32.toInt),
    (text "current_version",.string (cStr host.staleVersion)),
    (text "client_status_list",.array (clientStatusList s))]

theorem sound_entries {nums : Doubles D} {entries : List (Bytes×ClientStatus D)}
    (h : ∀ entry∈entries, DoublesKept nums entry.2) : EachOf InRange (JsonReading.Kept nums)
      (entries.map fun entry => .object [(text "client_status",entry.2.toJson)]) := by
  induction entries with
  | nil => trivial
  | cons entry entries ih =>
    obtain ⟨hentry,hentries⟩ := List.forall_mem_cons.mp h
    exact ⟨⟨sound_toJson hentry,trivial⟩,ih hentries⟩

/-- The administrator's text is read as the list of all statuses. -/
theorem list_read (host : Host D) {nums : Doubles D} {s : Service D}
    (h : ∀ entry∈s.m_clientStatus.toList, DoublesKept nums entry.2) :
    ∃ document, Parse nums (cStr (getClientStatusList (withJson nums host) s).resp)=
        some (.object document) ∧
      find document (text "client_status_list")=some (.array (clientStatusList s)) := by
  have htime : InRange s.now.toInt32.toInt := by
    have hlow := s.now.toInt32.le_toInt
    have hhigh := s.now.toInt32.toInt_lt
    rw [InRange]
    omega
  have hsound : Sound nums (.object (listMembers host s)) :=
    ⟨htime,trivial,sound_entries h,trivial⟩
  obtain ⟨htext,hread⟩ := Parse_written plain_lays plain_spacing hsound
  have hresp : (getClientStatusList (withJson nums host) s).resp=
      cStr (written nums plainStyle (.object (listMembers host s))) := rfl
  refine ⟨listMembers host s,?_,rfl⟩
  rw [hresp,htext,htext]
  exact hread

/-- Whatever calls come behind a miner's report, until its next one the server keeps the status
that was reported, at the time and from the address, and the administrator's list has it. -/
theorem status_listed (host : Host D) (nums : Doubles D) (c : Bytes) (now : Int64)
    (clientIp : Bytes) {st : ClientStatus D} (hst : NulFree st) (hdoubles : DoublesKept nums st)
    (s : Service D) {later : List Call}
    (hlater : ∀ call∈later, ¬Polls (withJson nums host) c call) :
    let s' := runFrom (CommandService.step (withJson nums host)) s
      (reportCall c now clientIp (toJsonString nums st)::later)
    let shown := ({st with m_lastStatusUpdate := now}).setExternalIp clientIp
    s'.m_clientStatus[c]?=some shown ∧
    ((∀ entry∈s'.m_clientStatus.toList, DoublesKept nums entry.2) →
      ∃ document entries,
        Parse nums (cStr (getClientStatusList (withJson nums host) s').resp)=
          some (.object document) ∧
        find document (text "client_status_list")=some (.array entries) ∧
        .object [(text "client_status",shown.toJson)]∈entries) := by
  intro s' shown
  have hstatus : s'.m_clientStatus[c]?=some shown :=
    (run_status (withJson nums host) hlater _).trans
      (report_stored host c now clientIp hst hdoubles s)
  refine ⟨hstatus,fun hkept => ?_⟩
  obtain ⟨document,hread,hfound⟩ := list_read host hkept
  refine ⟨document,_,hread,hfound,?_⟩
  have hmem : (c,shown)∈s'.m_clientStatus.toList :=
    Std.TreeMap.mem_toList_iff_getElem?_eq_some.mpr hstatus
  exact List.mem_map_of_mem (f:=fun entry : Bytes×ClientStatus D =>
    (.object [(text "client_status",entry.2.toJson)] : Value D)) hmem

/-- A request for a page is no report. -/
theorem not_polls_get (host : Host D) (c : Bytes) (now : Int64) (url clientId : Bytes) :
    ¬Polls host c (.get now url clientId) := by
  rintro ⟨_,_,⟨_,_,_,hcall,_⟩,_⟩
  cases hcall

/-- A server with nothing configured, which counts in tenths. -/
def tenthsHost : Host ℤ := ⟨inTenths,false,⟨none,none,none,none,none⟩,text "1.6.1"⟩

/-- It starts on an empty disk. -/
def tenthsStart : Service ℤ := .start ClientConfigFiles.emptyDirectory 0

/-- The report of the miner at work, and a request for the page. -/
def busyCalls : List Call :=
  [reportCall (text "a") 7 (text "10.0.0.9") (toJsonString tenths busyStatus),
    .get 8 (text "/") []]

/-- The server keeps what the miner reported, and lists it from the address it saw. -/
theorem status_listed_busy :
    let s := runFrom (CommandService.step (withJson tenths tenthsHost)) tenthsStart busyCalls
    let shown : ClientStatus ℤ :=
      {busyStatus with m_externalIp := text "10.0.0.9",m_lastStatusUpdate := 7}
    s.m_clientStatus[text "a"]?=some shown ∧
    ∃ document entries,
      Parse tenths (cStr (getClientStatusList (withJson tenths tenthsHost) s).resp)=
        some (.object document) ∧
      find document (text "client_status_list")=some (.array entries) ∧
      .object [(text "client_status",shown.toJson)]∈entries := by
  intro s shown
  have hdoubles : ∀ st : ClientStatus ℤ, (st.m_hashrateShort,st.m_hashrateMedium,
      st.m_hashrateLong,st.m_hashrateHighest)=(5,4,3,9) → DoublesKept tenths st := by
    intro st h
    obtain ⟨hshort,hmedium,hlong,hhighest⟩ := by simpa only [Prod.mk.injEq] using h
    exact ⟨hshort ▸ kept_tenth (by decide),hmedium ▸ kept_tenth (by decide),
      hlong ▸ kept_tenth (by decide),hhighest ▸ kept_tenth (by decide)⟩
  have hlater : ∀ call∈[Call.get 8 (text "/") []],
      ¬Polls (withJson tenths tenthsHost) (text "a") call := by
    intro call hmem
    rw [List.mem_singleton.mp hmem]
    exact not_polls_get _ _ _ _ _
  have hlisted := status_listed tenthsHost tenths (text "a") 7 (text "10.0.0.9")
    nulFree_busyStatus (hdoubles busyStatus rfl) tenthsStart hlater
  have hshown : s.m_clientStatus[text "a"]?=some shown := hlisted.1
  refine ⟨hshown,hlisted.2 ?_⟩
  rintro ⟨c,st⟩ hentry
  have hst : s.m_clientStatus[c]?=some st :=
    Std.TreeMap.mem_toList_iff_getElem?_eq_some.mp hentry
  by_cases hc : c=text "a"
  · rw [hc,hshown] at hst
    exact hdoubles st (Option.some.inj hst ▸ rfl)
  · -- no other client has reported, so it has no entry
    have hpolls : ∀ call∈busyCalls, ¬Polls (withJson tenths tenthsHost) c call := by
      intro call hmem
      rcases List.mem_cons.mp hmem with rfl | hmem
      · rintro ⟨_,_,⟨_,_,_,hcall,_⟩,_⟩
        exact hc (Call.post.inj hcall).2.2.2.1.symm
      · rw [List.mem_singleton.mp hmem]
        exact not_polls_get _ _ _ _ _
    rw [run_status (withJson tenths tenthsHost) hpolls] at hst
    cases hst

end XmrigCC.StatusLists
