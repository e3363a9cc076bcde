import XmrigCC.ClientConfigFiles
import XmrigCC.ControlCommands
import XmrigCC.ClientStatuses

/-!
# The command server's service

`Service` keeps the last status and the next command of every client. All its
actions run under one mutex, so a run of the server is a list of calls, each
answered whole from the state that the last one left.
-/

namespace XmrigCC.CommandService

open ByteText CommandServer JsonValues ControlCommands ClientStatuses
open ClientConfigFiles (Files)

/-- What the service runs on. -/
structure Host (D : Type) where
  /-- The JSON library. -/
  lib : Library D
  /-- A Windows build. -/
  win32 : Bool
  /-- The options. -/
  options : Options
  /-- Text in the memory of the version string, which is freed before it is written. -/
  staleVersion : Bytes

/-- The state of `Service`, the disk, and the clock. -/
structure Service (D : Type) where
  /-- Time of the last list of clients. -/
  m_currentServerTime : Int32
  /-- Last status of each client. -/
  m_clientStatus : Std.TreeMap Bytes (ClientStatus D)
  /-- Next command of each client. -/
  m_clientCommand : Std.TreeMap Bytes ControlCommand
  /-- The disk. -/
  files : Files
  /-- Time of `system_clock::now`. -/
  now : Int64

namespace Service

variable {D : Type}

/-- The value of `m_clientCommand[clientId]`. -/
def command (s : Service D) (clientId : Bytes) : ControlCommand :=
  s.m_clientCommand[clientId]?.getD .new

/-- The service with another command for a client. -/
def setCommand (s : Service D) (clientId : Bytes) (command : ControlCommand) : Service D :=
  {s with m_clientCommand := s.m_clientCommand.insert clientId command}

/-- The service after a client's command was erased. -/
def eraseCommand (s : Service D) (clientId : Bytes) : Service D :=
  {s with m_clientCommand := s.m_clientCommand.erase clientId}

/-- The service with another status for a client. -/
def setStatus (s : Service D) (clientId : Bytes) (status : ClientStatus D) : Service D :=
  {s with m_clientStatus := s.m_clientStatus.insert clientId status}

/-- The service at another time. -/
def atTime (s : Service D) (now : Int64) : Service D := {s with now := now}

/-- A service just started, with a disk and at a time. -/
def start (files : Files) (now : Int64) : Service D := ⟨0,∅,∅,files,now⟩

end Service

variable {D : Type}

/-- The document that answers a client with a command. -/
def commandDocument (command : ControlCommand) : Value D :=
  .object [(text "control_command",command.toJson)]

/-- The page for a server without a dashboard. -/
def defaultPage : Bytes :=
  text "<!DOCTYPE html><html lang=\"en\"><head><meta charset=\"utf-8\">"++
  text "<title>XMRigCC Dashboard</title></head><body>"++
  text "    <div style=\"text-align: center;\">"++
  text "       <h1>Please configure a Dashboard</h1>    </div></body></html>"

/-- `Service::getAdminPage`. An empty dashboard leaves the stream failed, and the page
empty. -/
def getAdminPage (options : Options) (s : Service D) : Answer (Service D) :=
  ⟨httpOk,(options.ccCustomDashboard.bind s.files.contents).getD defaultPage,s⟩

/-- `Service::getClientStatusList`. -/
def getClientStatusList (host : Host D) (s : Service D) : Answer (Service D) :=
  let clientStatusList := s.m_clientStatus.toList.map fun entry =>
    .object [(text "client_status",entry.2.toJson)]
  let time := s.now.toInt32
  let document := .object [(text "current_server_time",.int time.toInt),
    (text "current_version",.string (cStr host.staleVersion)),
    (text "client_status_list",.array clientStatusList)]
  ⟨httpOk,cStr (host.lib.write document),{s with m_currentServerTime := time}⟩

/-- `Service::getClientCommand`. -/
def getClientCommand (host : Host D) (clientId : Bytes) (s : Service D) : Answer (Service D) :=
  let s := if clientId∈s.m_clientCommand then s else s.setCommand clientId .new
  ⟨httpOk,cStr (host.lib.write (commandDocument (s.command clientId))),s⟩

/-- `Service::setClientStatus`. -/
def setClientStatus (host : Host D) (clientIp clientId data : Bytes) (s : Service D) :
    Answer (Service D) :=
  match host.lib.parse (cStr data) with
  | some document =>
    let parsed := (ClientStatus.new host.lib).parseFromJson host.lib s.now document
    let clientStatus := parsed.value.1.setExternalIp clientIp
    let a := getClientCommand host clientId (s.setStatus clientId clientStatus)
    if (a.state.command clientId).isOneTimeCommand then
      {a with state := a.state.eraseCommand clientId}
    else a
  | none => ⟨400,[],s⟩

/-- `Service::setClientCommand`. -/
def setClientCommand (host : Host D) (clientId data : Bytes) (s : Service D) :
    Answer (Service D) :=
  match host.lib.parse (cStr data) with
  | some document =>
    let parsed := ControlCommand.new.parseFromJson host.lib document
    ⟨httpOk,[],s.setCommand clientId parsed.value.1⟩
  | none => ⟨400,[],s⟩

/-- The JSON library as the stored configurations need it. -/
def configLibrary (lib : Library D) : ClientConfigFiles.RapidJson :=
  ⟨Value D,lib.parse,lib.write,lib.prettyWrite⟩

/-- An answer of the stored configurations, with the disk put back into the service. -/
def withFiles (s : Service D) (a : Answer Files) : Answer (Service D) :=
  ⟨a.status,a.resp,{s with files := a.state}⟩

/-- The actions of `Service`. -/
def actions (host : Host D) : Actions (Service D) where
  getAdminPage := getAdminPage
  getClientStatusList := getClientStatusList host
  getClientConfig options clientId s := withFiles s
    (ClientConfigFiles.getClientConfig (configLibrary host.lib) host.win32 options clientId s.files)
  getClientCommand := getClientCommand host
  setClientStatus := setClientStatus host
  setClientConfig options clientId data s := withFiles s
    (ClientConfigFiles.setClientConfig (configLibrary host.lib) host.win32 options clientId data
      s.files)
  setClientCommand := setClientCommand host

/-- A call of one of the two handlers, at a time. -/
inductive Call where
  /-- `Service::handleGET`. -/
  | get (now : Int64) (url clientId : Bytes)
  /-- `Service::handlePOST`. -/
  | post (now : Int64) (url clientIp clientId data : Bytes)

/-- The client a call is made for. -/
def Call.clientId : Call → Bytes
  | .get _ _ clientId => clientId
  | .post _ _ _ clientId _ => clientId

/-- What a call comes to. -/
def answer (host : Host D) (s : Service D) : Call → Answer (Service D)
  | .get now url clientId =>
    (actions host).run host.options ⟨url,[],clientId,[]⟩ (s.atTime now) (routeGET url clientId)
  | .post now url clientIp clientId data =>
    (actions host).run host.options ⟨url,clientIp,clientId,data⟩ (s.atTime now) (routePOST url)

/-- The service after a call. -/
def step (host : Host D) (s : Service D) (call : Call) : Service D := (answer host s call).state

section Bodies

variable (host : Host D) (clientIp clientId : Bytes) {data : Bytes} (s : Service D)

/-- A body that is no JSON is refused. -/
theorem setClientStatus_refused (h : host.lib.parse (cStr data)=none) :
    setClientStatus host clientIp clientId data s=⟨400,[],s⟩ := by
  rw [setClientStatus,h]

theorem setClientCommand_refused (h : host.lib.parse (cStr data)=none) :
    setClientCommand host clientId data s=⟨400,[],s⟩ := by
  rw [setClientCommand,h]

/-- Any other replaces the client's command. -/
theorem setClientCommand_stored {document : Value D}
    (h : host.lib.parse (cStr data)=some document) :
    setClientCommand host clientId data s=
      ⟨httpOk,[],s.setCommand clientId
        (ControlCommand.new.parseFromJson host.lib document).value.1⟩ := by
  rw [setClientCommand,h]

end Bodies

/-- A library that knows four bodies, and writes an answer as the command's text alone. -/
def fourBodies : Library Unit where
  parse body :=
    if body=text "update" then some (commandDocument ⟨.UPDATE_CONFIG⟩)
    else if body=text "restart" then some (commandDocument ⟨.RESTART⟩)
    else if body=text "report" then some (.object [(text "client_status",.object [])])
    else if body=text "\x7b\x7d" then some (.object [])
    else none
  write
    | .object [(_,.object [(_,.string command)])] => command
    | _ => []
  prettyWrite _ := []
  ofInt _ := ()
  strayHasMember _ _ := false
  strayMember _ _ := .null
  strayString _ := []
  strayBits _ := 0

/-- A server of such bodies, with nothing configured. -/
def fourBodiesHost : Host Unit := ⟨fourBodies,false,⟨none,none,none,none,none⟩,[]⟩

/-- It starts on an empty disk. -/
def fourBodiesStart : Service Unit := .start ClientConfigFiles.emptyDirectory 0

/-- A body posted for the client "rig". -/
def rigPosts (url data : String) : Call := .post 0 (text url) [] (text "rig") (text data)

end XmrigCC.CommandService
