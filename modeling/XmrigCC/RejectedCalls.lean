import XmrigCC.CommandDelivery

/-!
# Malformed reports and commands

The results of `ClientStatus::parseFromJson` and `ControlCommand::parseFromJson`
are dropped, an unknown command reads as START, and a POST is not asked for a
client. Only a body that is no JSON is refused.
-/

namespace XmrigCC.RejectedCalls

open ByteText CommandServer JsonValues ControlCommands CommandService CommandDelivery

variable {D : Type}

/-- An object without the member client_status. -/
def NoStatus (document : Value D) : Prop :=
  ∃ members, document=.object members ∧ find members (text "client_status")=none

/-- An object without the member control_command.command. -/
def NoCommand (document : Value D) : Prop :=
  ∃ members, document=.object members ∧ ∀ controlCommand,
    find members (text "control_command")=some (.object controlCommand) →
      find controlCommand (text "command")=none

/-- A document with a command that is none of the six. -/
def UnknownCommand (document : Value D) : Prop :=
  ∃ command, Commands document command ∧ ∀ k : Command, command ≠ k.toString

/-- The ways in which a body that is JSON is malformed for a route. -/
def MalformedDocument (route : Route) (document : Value D) : Prop :=
  (route=.clientSetClientStatus ∧ NoStatus document) ∨
  (route=.adminSetClientCommand ∧ (NoCommand document ∨ UnknownCommand document))

/-- A post without a client, or with a body that is no JSON or malformed for the route. -/
def Malformed (host : Host D) (route : Route) (clientId data : Bytes) : Prop :=
  clientId=[] ∨ host.lib.parse (cStr data)=none ∨
  ∃ document, host.lib.parse (cStr data)=some document ∧ MalformedDocument route document

/-- A call that is not answered with success, changes neither map, and takes no client's
one-time command. -/
def Rejected (host : Host D) (s : Service D) (call : Call) : Prop :=
  (answer host s call).status ≠ httpOk ∧
  (answer host s call).state.m_clientStatus=s.m_clientStatus ∧
  (answer host s call).state.m_clientCommand=s.m_clientCommand ∧
  ∀ c, (s.command c).isOneTimeCommand=true → (answer host s call).state.command c=s.command c

section Posts

variable (host : Host D) (s : Service D) {call : Call} {route : Route} {clientId data : Bytes}

/-- A body that is no JSON is rejected. -/
theorem rejected_of_not_json (hpost : Posts call route clientId data)
    (hroute : route=.clientSetClientStatus ∨ route=.adminSetClientCommand)
    (hparse : host.lib.parse (cStr data)=none) : Rejected host s call := by
  obtain ⟨now,url,clientIp,rfl,hurl⟩ := hpost
  have hrefused : answer host s (.post now url clientIp clientId data)=⟨400,[],s.atTime now⟩ := by
    rw [answer,hurl]
    rcases hroute with rfl|rfl
    · exact setClientStatus_refused host clientIp clientId (s.atTime now) hparse
    · exact setClientCommand_refused host clientId (s.atTime now) hparse
  have hstatus : (400 : ℕ) ≠ httpOk := by decide
  rw [Rejected,hrefused]
  exact ⟨hstatus,rfl,rfl,fun _ _ => rfl⟩

/-- Any other is answered with success. -/
theorem status_of_json (hpost : Posts call route clientId data)
    (hroute : route=.clientSetClientStatus ∨ route=.adminSetClientCommand) {document : Value D}
    (hparse : host.lib.parse (cStr data)=some document) :
    (answer host s call).status=httpOk := by
  rcases hroute with rfl|rfl
  · have hpolls : Polls host clientId call := ⟨data,document,hpost,hparse⟩
    exact (hpolls.tells s).1
  · obtain ⟨now,url,clientIp,rfl,hurl⟩ := hpost
    rw [answer,hurl,Actions.run]
    exact congrArg Answer.status (setClientCommand_stored host clientId (s.atTime now) hparse)

/-- A malformed post is rejected exactly when its body is no JSON. -/
theorem malformed_rejected_iff (hpost : Posts call route clientId data)
    (hroute : route=.clientSetClientStatus ∨ route=.adminSetClientCommand) :
    (Malformed host route clientId data → Rejected host s call) ↔
      ¬Malformed host route clientId data ∨ host.lib.parse (cStr data)=none := by
  cases hparse : host.lib.parse (cStr data) with
  | none =>
    have hrejected := rejected_of_not_json host s hpost hroute hparse
    exact iff_of_true (fun _ => hrejected) (Or.inr rfl)
  | some document =>
    have hok := status_of_json host s hpost hroute hparse
    constructor
    · intro h
      exact Or.inl fun hm => (h hm).1 hok
    · intro h hm
      rcases h with hwell|hnone
      · exact absurd hm hwell
      · cases hnone

end Posts

/-- A body that the library does not know is rejected. -/
theorem malformed_rejected_not_json :
    Malformed fourBodiesHost .adminSetClientCommand (text "rig") (text "nonsense") ∧
    Rejected fourBodiesHost fourBodiesStart
      (rigPosts "/admin/setClientCommand" "nonsense") := by
  have hparse : fourBodiesHost.lib.parse (cStr (text "nonsense"))=none := by decide
  have hmalformed : Malformed fourBodiesHost .adminSetClientCommand (text "rig")
      (text "nonsense") := Or.inr (Or.inl hparse)
  have hpost : Posts (rigPosts "/admin/setClientCommand" "nonsense") .adminSetClientCommand
      (text "rig") (text "nonsense") := ⟨_,_,_,rfl,by decide⟩
  exact ⟨hmalformed,(malformed_rejected_iff fourBodiesHost fourBodiesStart hpost
    (Or.inr rfl)).mpr (Or.inr hparse) hmalformed⟩

/-- The server with RESTART pending for "rig". -/
def restartPending : Service Unit :=
  step fourBodiesHost fourBodiesStart (rigPosts "/admin/setClientCommand" "restart")

/-- An empty object posted as a command is answered with success, and the pending RESTART is
replaced with START. -/
theorem empty_object_drops_restart :
    restartPending.command (text "rig")=⟨.RESTART⟩ ∧
    Malformed fourBodiesHost .adminSetClientCommand (text "rig") (text "\x7b\x7d") ∧
    (answer fourBodiesHost restartPending
      (rigPosts "/admin/setClientCommand" "\x7b\x7d")).status=httpOk ∧
    (step fourBodiesHost restartPending
      (rigPosts "/admin/setClientCommand" "\x7b\x7d")).command (text "rig")=.new ∧
    ¬(Malformed fourBodiesHost .adminSetClientCommand (text "rig") (text "\x7b\x7d") →
      Rejected fourBodiesHost restartPending
        (rigPosts "/admin/setClientCommand" "\x7b\x7d")) := by
  have hempty : NoCommand (Value.object [] : Value Unit) := ⟨[],rfl,fun _ hfind => nomatch hfind⟩
  have hmalformed : Malformed fourBodiesHost .adminSetClientCommand (text "rig")
      (text "\x7b\x7d") :=
    Or.inr (Or.inr ⟨.object [],rfl,Or.inr ⟨rfl,Or.inl hempty⟩⟩)
  have hok : (answer fourBodiesHost restartPending
      (rigPosts "/admin/setClientCommand" "\x7b\x7d")).status=httpOk := by rfl
  exact ⟨by decide,hmalformed,hok,by decide,fun h => (h hmalformed).1 hok⟩

end XmrigCC.RejectedCalls
