import XmrigCC.CommandDelivery
import XmrigCC.ConfigCopies

/-!
# Commands on their way into the miner

A thread of the miner reports to the server and finds a command in the answer. It leaves the
command in one slot for the main loop and wakes it, which happens in several steps on both sides.
A request or its answer may be lost, and other calls to the server come in between.
-/

namespace XmrigCC.CommandChannel

open ByteText CommandServer JsonValues JsonWriting JsonReading ControlCommands CommandService
open CommandDelivery ConfigCopies TransitionRuns
open OneShotMailboxes hiding step

section Order

variable {α : Type*}

/-- Elements taken from a list in its order, each any number of times. -/
def InOrder (taken all : List α) : Prop :=
  ∃ positions : List ℕ, positions.Pairwise (· ≤ ·) ∧
    positions.map (all[·]?)=taken.map some

variable {taken all : List α}

theorem InOrder.grow (h : InOrder taken all) (a : α) : InOrder taken (all++[a]) := by
  obtain ⟨positions,hsorted,hmap⟩ := h
  refine ⟨positions,hsorted,?_⟩
  rw [←hmap]
  refine List.map_congr_left fun n hn => ?_
  have htaken : all[n]?∈taken.map some := hmap ▸ List.mem_map_of_mem hn
  obtain ⟨b,-,hb⟩ := List.mem_map.mp htaken
  exact List.getElem?_append_left (List.getElem?_eq_some_iff.mp hb.symm).1

theorem InOrder.subset (h : InOrder taken all) {a : α} (ha : a∈taken) : a∈all := by
  obtain ⟨positions,-,hmap⟩ := h
  have hmem : some a∈positions.map (all[·]?) := hmap ▸ List.mem_map_of_mem ha
  obtain ⟨n,-,hn⟩ := List.mem_map.mp hmem
  exact List.mem_of_getElem? hn

/-- The last element may be taken at any time. -/
theorem InOrder.takeLast (h : InOrder taken all) {a : α} (ha : all.getLast?=some a) :
    InOrder (taken++[a]) all := by
  obtain ⟨positions,hsorted,hmap⟩ := h
  refine ⟨positions++[all.length-1],?_,?_⟩
  · rw [List.pairwise_append]
    refine ⟨hsorted,List.pairwise_singleton _ _,fun n hn m hm => ?_⟩
    have htaken : all[n]?∈taken.map some := hmap ▸ List.mem_map_of_mem hn
    obtain ⟨b,-,hb⟩ := List.mem_map.mp htaken
    have hlt := (List.getElem?_eq_some_iff.mp hb.symm).1
    rw [List.mem_singleton.mp hm]
    omega
  · rw [List.map_append,List.map_append,hmap,List.map_singleton,List.map_singleton,
      ←List.getLast?_eq_getElem?,ha]

end Order

/-- What `App` does about a command. -/
inductive Act where
  /-- `Workers::setEnabled(true)`. -/
  | enable
  /-- `Workers::setEnabled(false)`. -/
  | disable
  /-- `App::restart`. -/
  | restart
  /-- `App::shutdown`. -/
  | shutdown
deriving DecidableEq

/-- `App::onCommandReceived`. -/
def onCommandReceived : Command → Option Act
  | .START => some .enable
  | .STOP => some .disable
  | .UPDATE_CONFIG => some .restart
  | .RESTART => some .restart
  | .SHUTDOWN => some .shutdown
  | .PUBLISH_CONFIG => none

variable {D : Type}

/-- The server, the slot between the threads of a miner, and what was put into it and taken. -/
structure Channel (D : Type) where
  /-- The server. -/
  service : Service D
  /-- `m_async->data`. -/
  data : Command
  /-- The command stands in the slot, and `uv_async_send` comes next. -/
  sending : Bool
  /-- The main loop is to call back. -/
  pending : Bool
  /-- The main loop has begun to call back. -/
  woken : Bool
  /-- Commands put into the slot so far. -/
  told : List Command
  /-- Commands that `App` received so far. -/
  received : List Command

/-- Nothing was put into the slot. -/
def Channel.start (service : Service D) : Channel D :=
  ⟨service,.START,false,false,false,[],[]⟩

/-- Both threads are done with the slot. -/
def Channel.Idle (s : Channel D) : Prop := s.sending=false ∧ s.pending=false ∧ s.woken=false

/-- `CCClient::publishClientStatusReport` behind the request. `skipCommand` is not set unless the
command is START. The transfers of configurations that a command may ask for are calls of their
own. -/
def publishClientStatusReport (lib : Library D) (skipCommand : Bool) (res : Answer (Service D))
    (s : Channel D) : Channel D :=
  if res.status=200 then
    match lib.parse (cStr res.resp) with
    | some document =>
      let parsed := (ControlCommand.new.parseFromJson lib document).value
      if parsed.2 then
        let command := parsed.1.m_command
        if command=.START || skipCommand then s
        else {s with data := command,sending := true,told := s.told++[command]}
      else s
    | none => s
  else s

/-- A step of the server, of the thread that reports or of the main loop. -/
inductive Event where
  /-- A call of others. -/
  | call (call : Call)
  /-- A report. -/
  | report (now : Int64) (clientIp data : Bytes) (delivery : Delivery) (skipCommand : Bool)
  /-- `uv_async_send`. -/
  | send
  /-- The main loop takes note. -/
  | wake
  /-- `App::onCommandReceived`. -/
  | callBack

/-- The request of a report. -/
def reportCall (clientId : Bytes) (now : Int64) (clientIp data : Bytes) : Call :=
  .post now (text "/client/setClientStatus") clientIp clientId data

/-- The channel afterwards. -/
def step (host : Host D) (clientId : Bytes) (s : Channel D) : Event → Channel D
  | .call call => {s with service := CommandService.step host s.service call}
  | .report now clientIp data delivery skipCommand =>
    let call := reportCall clientId now clientIp data
    let served := {s with service := CommandService.step host s.service call}
    if s.sending then s
    else match delivery with
      | .lost => s
      | .unanswered => served
      | .answered =>
        publishClientStatusReport host.lib skipCommand (answer host s.service call) served
  | .send => if s.sending then {s with sending := false,pending := true} else s
  | .wake => if s.pending && !s.woken then {s with pending := false,woken := true} else s
  | .callBack =>
    if s.woken then {s with woken := false,received := s.received++[s.data]} else s

/-- A server whose library is the one that is used. -/
def withJson (nums : Doubles D) (host : Host D) : Host D :=
  {host with lib := {host.lib with
    parse := Parse nums,write := written nums plainStyle,prettyWrite := written nums prettyStyle}}

/-- How often a command is stored for a client in a step. -/
def stores (host : Host D) (clientId : Bytes) (k : Command) : Event → ℕ
  | .call call =>
    match op host call with
    | .put owner message => if owner=clientId ∧ message=⟨k⟩ then 1 else 0
    | _ => 0
  | _ => 0

/-- A command stands in the client's box. -/
def held (s : Service D) (clientId : Bytes) (k : Command) : ℕ :=
  if s.command clientId=⟨k⟩ then 1 else 0

section Reports

variable {host : Host D} {clientId : Bytes}

/-- A report is told the client's command and takes it, or it is refused. -/
theorem report_cases (host : Host D) (s : Service D) (clientId : Bytes) (now : Int64)
    (clientIp data : Bytes) :
    (Tells host (s.command clientId) (answer host s (reportCall clientId now clientIp data)) ∧
      (CommandService.step host s (reportCall clientId now clientIp data)).command=
        OneShotMailboxes.step policy s.command (.take clientId)) ∨
    ((answer host s (reportCall clientId now clientIp data)).status=400 ∧
      (CommandService.step host s (reportCall clientId now clientIp data)).command=s.command) := by
  have hroute : routePOST (text "/client/setClientStatus")=some .clientSetClientStatus := by
    decide
  cases hparse : host.lib.parse (cStr data) with
  | some document =>
    have hpolls : Polls host clientId (reportCall clientId now clientIp data) :=
      ⟨data,document,⟨now,_,clientIp,rfl,hroute⟩,hparse⟩
    exact .inl ⟨hpolls.tells s,by rw [step_boxes,hpolls.op_eq]⟩
  | none =>
    have hrefused := setClientStatus_refused host clientIp clientId (s.atTime now) hparse
    have hanswer : answer host s (reportCall clientId now clientIp data)=
        ⟨400,[],s.atTime now⟩ := by
      rw [reportCall,answer,hroute]
      exact hrefused
    rw [CommandService.step,hanswer]
    exact .inr ⟨rfl,rfl⟩

/-- The command in an answer is the one that is put into the slot. -/
theorem publish_told {nums : Doubles D} {res : Answer (Service D)} {k : ControlCommand}
    (h : Tells (withJson nums host) k res) (skipCommand : Bool) (s : Channel D) :
    publishClientStatusReport (withJson nums host).lib skipCommand res s=
      if k.m_command=.START || skipCommand then s
      else {s with data := k.m_command,sending := true,told := s.told++[k.m_command]} := by
  have hsound : Sound nums (commandDocument k) := ⟨⟨trivial,trivial⟩,trivial⟩
  obtain ⟨htext,hread⟩ := Parse_written plain_lays plain_spacing hsound
  have hresp : res.resp=written nums plainStyle (commandDocument k) := h.2.trans htext
  have hparse : (withJson nums host).lib.parse (cStr res.resp)=some (commandDocument k) := by
    rw [hresp,htext]
    exact hread
  have hcommand : Commands (commandDocument k : Value D) k.m_command.toString := by
    refine ⟨_,_,k.m_command.toString,rfl,rfl,rfl,?_⟩
    cases k.m_command <;> decide
  have hstatus : res.status=200 := h.1
  rw [publishClientStatusReport,if_pos hstatus,hparse]
  dsimp only
  rw [parseFromJson_commands _ _ hcommand,toCommand_toString]
  rfl

theorem publish_refused {lib : Library D} {res : Answer (Service D)} (h : res.status=400)
    (skipCommand : Bool) (s : Channel D) :
    publishClientStatusReport lib skipCommand res s=s := by
  rw [publishClientStatusReport,if_neg (by rw [h]; decide)]

/-- What a report leaves: the slot as it was, or a command in it that is not START and that was
the client's at the server. -/
theorem report_step {nums : Doubles D} (s : Channel D) (now : Int64) (clientIp data : Bytes)
    (delivery : Delivery) (skipCommand : Bool) {s' : Channel D}
    (h : step (withJson nums host) clientId s (.report now clientIp data delivery skipCommand)=s') :
    (∃ service, s'={s with service} ∧ (service.command=s.service.command ∨
      service.command=
        OneShotMailboxes.step policy s.service.command (.take clientId))) ∨
    (∃ service k, s.sending=false ∧ k ≠ .START ∧ s.service.command clientId=⟨k⟩ ∧
      service.command=OneShotMailboxes.step policy s.service.command (.take clientId) ∧
      s'={s with service,data := k,sending := true,told := s.told++[k]}) := by
  rw [←h,step.eq_def]
  dsimp only
  by_cases hsending : s.sending=true
  · rw [if_pos hsending]
    exact .inl ⟨s.service,rfl,.inl rfl⟩
  rw [if_neg hsending]
  have hidle : s.sending=false := Bool.eq_false_iff.mpr hsending
  have hreport := report_cases (withJson nums host) s.service clientId now clientIp data
  cases delivery with
  | lost => exact .inl ⟨s.service,rfl,.inl rfl⟩
  | unanswered =>
    refine .inl ⟨_,rfl,?_⟩
    rcases hreport with ⟨-,htaken⟩ | ⟨-,hsame⟩
    · exact .inr htaken
    · exact .inl hsame
  | answered =>
    dsimp only
    rcases hreport with ⟨htells,htaken⟩ | ⟨hrefused,hsame⟩
    · rw [publish_told htells]
      split
      · exact .inl ⟨_,rfl,.inr htaken⟩
      · rename_i hskip
        rw [Bool.or_eq_true,decide_eq_true_eq,not_or] at hskip
        exact .inr ⟨_,_,hidle,hskip.1,rfl,htaken,rfl⟩
    · rw [publish_refused hrefused]
      exact .inl ⟨_,rfl,.inl hsame⟩

/-- The command that an event puts into the slot, by what the server has for the client: that of an
answered report whose text is parsed, unless it is START or is to be skipped. -/
def toldBy (host : Host D) (clientId : Bytes) (s : Channel D) : Event → List Command
  | .report _ _ data .answered skipCommand =>
    let command := (s.service.command clientId).m_command
    if s.sending=false ∧ (host.lib.parse (cStr data)).isSome=true ∧ skipCommand=false ∧
      command ≠ .START then [command] else []
  | _ => []

/-- The command that `App` receives by an event. -/
def receivedBy (s : Channel D) : Event → List Command
  | .callBack => if s.woken=true then [s.data] else []
  | _ => []

/-- An answered report tells the client's command, unless the server refuses it. -/
theorem told_answered {nums : Doubles D} (s : Channel D) (now : Int64) (clientIp data : Bytes)
    (skipCommand : Bool) (hidle : s.sending=false) :
    (step (withJson nums host) clientId s (.report now clientIp data .answered skipCommand)).told=
      s.told++toldBy (withJson nums host) clientId s
        (.report now clientIp data .answered skipCommand) := by
  have hroute : routePOST (text "/client/setClientStatus")=some .clientSetClientStatus := by
    decide
  rw [step.eq_def,toldBy]
  dsimp only
  rw [if_neg (by rw [hidle]; exact Bool.false_ne_true)]
  cases hparse : (withJson nums host).lib.parse (cStr data) with
  | none =>
    have hrefused := setClientStatus_refused (withJson nums host) clientIp clientId
      (s.service.atTime now) hparse
    have hstatus : (answer (withJson nums host) s.service
        (reportCall clientId now clientIp data)).status=400 := by
      rw [reportCall,answer,hroute]
      exact congrArg Answer.status hrefused
    rw [publish_refused hstatus,if_neg fun h => Bool.false_ne_true h.2.1]
    exact (List.append_nil _).symm
  | some document =>
    have hpolls : Polls (withJson nums host) clientId (reportCall clientId now clientIp data) :=
      ⟨data,document,⟨now,_,clientIp,rfl,hroute⟩,hparse⟩
    rw [publish_told (hpolls.tells s.service)]
    by_cases hskip : (s.service.command clientId).m_command=.START ∨ skipCommand=true
    · have hnone : ¬(s.sending=false ∧ (some document).isSome=true ∧ skipCommand=false ∧
          (s.service.command clientId).m_command ≠ .START) := by
        rintro ⟨-,-,hnoskip,hcommand⟩
        rcases hskip with hstart | hskip
        · exact hcommand hstart
        · rw [hnoskip] at hskip
          cases hskip
      rw [if_pos (by rwa [Bool.or_eq_true,decide_eq_true_eq]),if_neg hnone]
      exact (List.append_nil _).symm
    · have hnot := not_or.mp hskip
      rw [if_neg (by rwa [Bool.or_eq_true,decide_eq_true_eq]),
        if_pos ⟨hidle,rfl,Bool.eq_false_iff.mpr hnot.2,hnot.1⟩]

theorem told_step {nums : Doubles D} (s : Channel D) (e : Event) :
    (step (withJson nums host) clientId s e).told=
      s.told++toldBy (withJson nums host) clientId s e := by
  cases e with
  | report now clientIp data delivery skipCommand =>
    by_cases hsending : s.sending=true
    · have hnone : toldBy (withJson nums host) clientId s
          (.report now clientIp data delivery skipCommand)=[] := by
        cases delivery with
        | answered => exact if_neg fun h => Bool.false_ne_true (h.1.symm.trans hsending)
        | _ => rfl
      rw [step.eq_def,hnone,List.append_nil]
      dsimp only
      rw [if_pos hsending]
    cases delivery with
    | answered =>
      exact told_answered s now clientIp data skipCommand (Bool.eq_false_iff.mpr hsending)
    | lost | unanswered =>
      rw [step.eq_def]
      dsimp only
      rw [if_neg hsending]
      exact (List.append_nil _).symm
  | call call => exact (List.append_nil _).symm
  | send | wake | callBack =>
    rw [step]
    split <;> exact (List.append_nil _).symm

theorem received_step (s : Channel D) (e : Event) :
    (step host clientId s e).received=s.received++receivedBy s e := by
  cases e with
  | callBack =>
    rw [step,receivedBy]
    split
    · rfl
    · exact (List.append_nil _).symm
  | report now clientIp data delivery skipCommand =>
    have hpublish : ∀ (res : Answer (Service D)) (s : Channel D),
        (publishClientStatusReport host.lib skipCommand res s).received=s.received := by
      intro res s
      rw [publishClientStatusReport]
      split
      · split
        · dsimp only
          split
          · split <;> rfl
          · rfl
        · rfl
      · rfl
    rw [step.eq_def]
    dsimp only
    split
    · exact (List.append_nil _).symm
    · cases delivery with
      | lost | unanswered => exact (List.append_nil _).symm
      | answered => exact (hpublish _ _).trans (List.append_nil _).symm
  | call call => exact (List.append_nil _).symm
  | send | wake =>
    rw [step]
    split <;> exact (List.append_nil _).symm

end Reports

section Slot

/-- What holds of the slot. -/
structure Kept (s : Channel D) : Prop where
  /-- Commands are received in the order in which they were told. -/
  order : InOrder s.received s.told
  /-- The slot has the last one. -/
  last : s.told ≠ [] → s.told.getLast?=some s.data
  /-- Nothing is on its way before a command was told. -/
  onTheWay : s.told=[] → s.Idle
  /-- START is never told. -/
  noStart : Command.START∉s.told
  /-- What was told last is received last. -/
  current : s.Idle → s.received.getLast?=s.told.getLast?

theorem kept_start (service : Service D) : Kept (Channel.start service) :=
  ⟨⟨[],List.Pairwise.nil,rfl⟩,fun h => absurd rfl h,fun _ => ⟨rfl,rfl,rfl⟩,List.not_mem_nil,
    fun _ => rfl⟩

/-- The server does not matter for the slot. -/
theorem Kept.serve {s : Channel D} (h : Kept s) (service : Service D) :
    Kept {s with service} :=
  ⟨h.order,h.last,h.onTheWay,h.noStart,h.current⟩

/-- Every step keeps the slot in order. -/
theorem Kept.step {host : Host D} {nums : Doubles D} {clientId : Bytes} {s : Channel D}
    (h : Kept s) (e : Event) : Kept (CommandChannel.step (withJson nums host) clientId s e) := by
  cases e with
  | call call => exact h.serve _
  | report now clientIp data delivery skipCommand =>
    rcases report_step s now clientIp data delivery skipCommand rfl with
      ⟨service,hs,-⟩ | ⟨service,k,-,hk,-,-,hs⟩
    · rw [hs]
      exact h.serve service
    · rw [hs]
      refine ⟨h.order.grow k,fun _ => List.getLast?_concat,fun hnil => ?_,?_,fun hidle => ?_⟩
      · exact absurd hnil (List.append_ne_nil_of_right_ne_nil _ (List.cons_ne_nil k []))
      · intro hmem
        rcases List.mem_append.mp hmem with hmem | hmem
        · exact h.noStart hmem
        · exact hk (List.mem_singleton.mp hmem).symm
      · cases hidle.1
  | send =>
    rw [CommandChannel.step]
    split
    · rename_i hsending
      refine ⟨h.order,h.last,fun hnil => ?_,h.noStart,fun hidle => ?_⟩
      · rw [(h.onTheWay hnil).1] at hsending
        cases hsending
      · cases hidle.2.1
    · exact h
  | wake =>
    rw [CommandChannel.step]
    split
    · rename_i hpending
      refine ⟨h.order,h.last,fun hnil => ?_,h.noStart,fun hidle => ?_⟩
      · rw [(h.onTheWay hnil).2.1] at hpending
        cases hpending
      · cases hidle.2.2
    · exact h
  | callBack =>
    rw [CommandChannel.step]
    split
    · rename_i hwoken
      have htold : s.told ≠ [] := fun hnil => by
        rw [(h.onTheWay hnil).2.2] at hwoken
        cases hwoken
      refine ⟨h.order.takeLast (h.last htold),h.last,fun hnil => absurd hnil htold,h.noStart,
        fun _ => ?_⟩
      dsimp only
      rw [List.getLast?_concat,h.last htold]
    · exact h

theorem kept_run {host : Host D} {nums : Doubles D} {clientId : Bytes} {s : Channel D}
    (h : Kept s) (events : List Event) :
    Kept (runFrom (CommandChannel.step (withJson nums host) clientId) s events) :=
  (invariant_alongStates (fun _ e hs _ => hs.step e) h (alongSteps_true _ s events)).last

end Slot

section Counts

variable {clientId : Bytes} {k : Command}

theorem held_congr {s s' : Service D} (h : s'.command=s.command) :
    held s' clientId k=held s clientId k := by
  rw [held,held,h]

/-- What is handed out once is not there any more when it was taken. -/
theorem held_taken (hk : ControlCommand.isOneTimeCommand ⟨k⟩=true) {s s' : Service D}
    (h : s'.command=OneShotMailboxes.step policy s.command (.take clientId)) :
    held s' clientId k=0 := by
  refine if_neg fun hheld => ?_
  rw [h,OneShotMailboxes.step] at hheld
  split at hheld
  · rw [Function.update_self] at hheld
    rw [←hheld] at hk
    exact absurd hk (by decide)
  · rename_i honce
    rw [hheld] at honce
    exact honce hk

/-- A call puts a command there at most when it stores it. -/
theorem held_call (clientId : Bytes) (hk : ControlCommand.isOneTimeCommand ⟨k⟩=true)
    (host : Host D) (s : Service D) (call : Call) :
    held (CommandService.step host s call) clientId k ≤
      held s clientId k+stores host clientId k (.call call) := by
  have hboxes := step_boxes host s call
  rw [stores.eq_def]
  dsimp only
  cases hop : op host call with
  | put owner message =>
    rw [hop,OneShotMailboxes.step] at hboxes
    dsimp only
    rw [held,hboxes]
    by_cases howner : owner=clientId
    · rw [howner,Function.update_self]
      by_cases hmessage : message=⟨k⟩
      · rw [if_pos hmessage,if_pos ⟨rfl,hmessage⟩]
        omega
      · rw [if_neg hmessage]
        exact Nat.zero_le _
    · rw [Function.update_of_ne (Ne.symm howner)]
      exact Nat.le_add_right _ _
  | take owner =>
    rw [hop] at hboxes
    by_cases howner : owner=clientId
    · rw [howner] at hboxes
      rw [held_taken hk hboxes]
      exact Nat.zero_le _
    · have hsame : (CommandService.step host s call).command clientId=s.command clientId := by
        rw [hboxes]
        have hput : ¬∃ m : ControlCommand,Op.take owner=Op.put clientId m := by
          rintro ⟨m,h⟩
          cases h
        exact step_spared policy ⟨hput,fun h => howner (Op.take.inj h)⟩
      rw [held,hsame]
      exact Nat.le_add_right _ _
  | other =>
    rw [hop] at hboxes
    rw [held_congr hboxes]
    exact Nat.le_add_right _ _

/-- A command that is handed out once moves: it is told when it is taken from the server. -/
theorem count_step (clientId : Bytes) (hk : ControlCommand.isOneTimeCommand ⟨k⟩=true)
    (host : Host D) (nums : Doubles D) (s : Channel D) (e : Event) :
    (step (withJson nums host) clientId s e).told.count k+
        held (step (withJson nums host) clientId s e).service clientId k ≤
      s.told.count k+held s.service clientId k+stores (withJson nums host) clientId k e := by
  cases e with
  | call call =>
    have hcall := held_call clientId hk (withJson nums host) s.service call
    rw [step]
    dsimp only
    omega
  | report now clientIp data delivery skipCommand =>
    rcases report_step s now clientIp data delivery skipCommand rfl with
      ⟨service,hs,hcommand⟩ | ⟨service,k',-,-,hheld,hcommand,hs⟩
    · rw [hs]
      dsimp only
      rcases hcommand with hsame | htaken
      · rw [held_congr hsame]
        omega
      · rw [held_taken hk htaken]
        omega
    · rw [hs]
      dsimp only
      rw [held_taken hk hcommand,List.count_append]
      by_cases hsame : k'=k
      · rw [hsame] at hheld ⊢
        have hone : held s.service clientId k=1 := if_pos hheld
        rw [hone,List.count_singleton_self]
        omega
      · have hzero : List.count k [k']=0 :=
          List.count_eq_zero_of_not_mem fun h => hsame (List.mem_singleton.mp h).symm
        omega
  | send =>
    rw [step]
    split <;> exact Nat.le_add_right _ _
  | wake =>
    rw [step]
    split <;> exact Nat.le_add_right _ _
  | callBack =>
    rw [step]
    split <;> exact Nat.le_add_right _ _

theorem count_run (clientId : Bytes) (hk : ControlCommand.isOneTimeCommand ⟨k⟩=true)
    (host : Host D) (nums : Doubles D) (s : Channel D) (events : List Event) :
    (runFrom (step (withJson nums host) clientId) s events).told.count k ≤
      s.told.count k+held s.service clientId k+
        (events.map (stores (withJson nums host) clientId k)).sum := by
  induction events generalizing s with
  | nil => exact Nat.le_add_right _ _
  | cons e events ih =>
    have hstep := count_step clientId hk host nums s e
    have hrest := ih (step (withJson nums host) clientId s e)
    rw [runFrom_cons,List.map_cons,List.sum_cons]
    omega

end Counts

/-- From a start with an empty slot and any server, over every order of reports, calls of others
and steps of the two threads, whichever requests and answers are lost: what was told and received
are the commands of the answered reports and those of the calls of `App`; `App` receives commands in
the order in which the miner was told them, each one any number of times, and at rest the last one
is received; START is never among them; and a command that is handed out once is told at most as
often as it was stored for the client. -/
theorem commands_received (host : Host D) (nums : Doubles D) (clientId : Bytes)
    (service : Service D) (events : List Event) :
    let s := runFrom (step (withJson nums host) clientId) (Channel.start service) events
    s.told=outputs (step (withJson nums host) clientId) (toldBy (withJson nums host) clientId)
      (Channel.start service) events ∧
    s.received=outputs (step (withJson nums host) clientId) receivedBy
      (Channel.start service) events ∧
    InOrder s.received s.told ∧ (s.Idle → s.received.getLast?=s.told.getLast?) ∧
    Act.enable∉s.received.filterMap onCommandReceived ∧
    ∀ k, ControlCommand.isOneTimeCommand ⟨k⟩=true → s.told.count k ≤
      (events.map (stores (withJson nums host) clientId k)).sum+held service clientId k := by
  intro s
  have hkept : Kept s := kept_run (kept_start service) events
  refine ⟨log_eq_outputs told_step (Channel.start service) events,
    log_eq_outputs received_step (Channel.start service) events,hkept.order,hkept.current,
    fun hmem => ?_,fun k hk => ?_⟩
  · obtain ⟨k,hk,hact⟩ := List.mem_filterMap.mp hmem
    have hstart : k=.START := by
      cases k <;> first | rfl | cases hact
    exact hkept.noStart (hkept.order.subset (hstart ▸ hk))
  · have hcount : s.told.count k ≤ _ :=
      count_run clientId hk host nums (Channel.start service) events
    have hnone : (Channel.start service).told.count k=0 := rfl
    have hheld : held (Channel.start service).service clientId k=held service clientId k := rfl
    omega

end XmrigCC.CommandChannel
