import XmrigCC.ByteText

/-!
# The command server's HTTP front

`Httpd::handler` chooses between the bearer token and the admin password by
looking for "/client/" anywhere in the URL. `Service::handleGET` and
`Service::handlePOST` then choose the action by the URL's prefix.
-/

namespace XmrigCC.CommandServer

open ByteText

/-- The options the server reads; `none` is a null pointer. -/
structure Options where
  /-- `ccToken()`. -/
  ccToken : Option Bytes
  /-- `ccAdminUser()`. -/
  ccAdminUser : Option Bytes
  /-- `ccAdminPass()`. -/
  ccAdminPass : Option Bytes
  /-- `ccClientConfigFolder()`. -/
  ccClientConfigFolder : Option Bytes
  /-- `ccCustomDashboard()`. -/
  ccCustomDashboard : Option Bytes

/-- `MHD_HTTP_OK`. -/
def httpOk : ℕ := 200

/-- `MHD_HTTP_UNAUTHORIZED`. -/
def httpUnauthorized : ℕ := 401

/-- `MHD_HTTP_FORBIDDEN`. -/
def httpForbidden : ℕ := 403

/-- `MHD_HTTP_NOT_FOUND`. -/
def httpNotFound : ℕ := 404

/-- `MHD_HTTP_METHOD_NOT_ALLOWED`. -/
def httpMethodNotAllowed : ℕ := 405

/-- `Httpd::tokenAuth` with the Authorization header. -/
def tokenAuth (options : Options) (header : Option Bytes) : ℕ :=
  match options.ccToken,header with
  | none,_ => httpOk
  | some _,none => httpUnauthorized
  | some token,some header =>
    let size := header.length
    if size<8 ∨ token.length ≠ size-7 ∨ header.take 7 ≠ text "Bearer " then httpForbidden
    else if (header.drop 7).take token.length=token then httpOk else httpForbidden

/-- The page for a server without admin user and password. -/
def configureAdminPage : Bytes :=
  text "<html><body\\>Please configure admin user and pass to view this Page.</body><html\\>"

/-- Status and page text that `basicAuth` leaves. -/
structure BasicAuth where
  /-- Status returned. -/
  status : ℕ
  /-- Text in `resp`. -/
  resp : Bytes

/-- `Httpd::basicAuth`; `credentials` is `MHD_basic_auth_get_username_password`, the user
and the password it finds in the header. -/
def basicAuth (credentials : Bytes → Option Bytes×Option Bytes) (options : Options)
    (header : Option Bytes) : BasicAuth :=
  match options.ccAdminUser,options.ccAdminPass with
  | some adminUser,some adminPass =>
    match header with
    | some header =>
      let (user,pass) := credentials header
      if user ≠ some adminUser ∨ pass ≠ some adminPass then ⟨httpUnauthorized,[]⟩
      else ⟨httpOk,[]⟩
    | none => ⟨httpUnauthorized,[]⟩
  | _,_ => ⟨httpForbidden,configureAdminPage⟩

/-- A response queued by `sendResponse`; its other headers are the same for all. -/
structure Reply where
  /-- Status code. -/
  status : ℕ
  /-- Body, empty when no response object was made. -/
  body : Bytes
  /-- The Content-Type header. -/
  contentType : Bytes

/-- `CONTENT_TYPE_HTML`. -/
def contentTypeHtml : Bytes := text "text/html"

/-- `CONTENT_TYPE_JSON`. -/
def contentTypeJson : Bytes := text "application/json"

/-- What a request is let through by. -/
inductive Guard where
  /-- `tokenAuth`. -/
  | token
  /-- `basicAuth`. -/
  | basic
  deriving DecidableEq

/-- The branches of `handleGET` and `handlePOST`, named by the URL prefix tested. -/
inductive Route where
  /-- The page "/". -/
  | adminPage
  /-- "/admin/getClientStatusList". -/
  | adminGetClientStatusList
  /-- "/client/getConfig". -/
  | clientGetConfig
  /-- "/admin/getClientConfig". -/
  | adminGetClientConfig
  /-- "/admin/getClientCommand". -/
  | adminGetClientCommand
  /-- "/client/setClientStatus". -/
  | clientSetClientStatus
  /-- "/admin/setClientConfig". -/
  | adminSetClientConfig
  /-- "/client/setClientConfig". -/
  | clientSetClientConfig
  /-- "/admin/setClientCommand". -/
  | adminSetClientCommand
  deriving DecidableEq

/-- The routes of the administrator: the page and the "/admin/" prefixes. -/
def Route.isAdmin : Route → Bool
  | .clientGetConfig | .clientSetClientStatus | .clientSetClientConfig => false
  | _ => true

/-- Result of one of the actions: status, response text and the service's state. -/
structure Answer (σ : Type) where
  /-- Result code. -/
  status : ℕ
  /-- Text left in `resp`. -/
  resp : Bytes
  /-- State of the service after the action. -/
  state : σ

/-- The private functions of `Service`, over a state of the service. -/
structure Actions (σ : Type) where
  /-- `getAdminPage`. -/
  getAdminPage : Options → σ → Answer σ
  /-- `getClientStatusList`. -/
  getClientStatusList : σ → Answer σ
  /-- `getClientConfig` for a client. -/
  getClientConfig : Options → Bytes → σ → Answer σ
  /-- `getClientCommand` for a client. -/
  getClientCommand : Bytes → σ → Answer σ
  /-- `setClientStatus` from an address, for a client, with a body. -/
  setClientStatus : Bytes → Bytes → Bytes → σ → Answer σ
  /-- `setClientConfig` for a client, with a body. -/
  setClientConfig : Options → Bytes → Bytes → σ → Answer σ
  /-- `setClientCommand` for a client, with a body. -/
  setClientCommand : Bytes → Bytes → σ → Answer σ

/-- The branch `Service::handleGET` takes. -/
def routeGET (url clientId : Bytes) : Option Route :=
  if url=text "/" then some .adminPage
  else if startsWith url (text "/admin/getClientStatusList") then some .adminGetClientStatusList
  else if clientId=[] then none
  else if startsWith url (text "/client/getConfig") then some .clientGetConfig
  else if startsWith url (text "/admin/getClientConfig") then some .adminGetClientConfig
  else if startsWith url (text "/admin/getClientCommand") then some .adminGetClientCommand
  else none

/-- The branch `Service::handlePOST` takes. -/
def routePOST (url : Bytes) : Option Route :=
  if startsWith url (text "/client/setClientStatus") then some .clientSetClientStatus
  else if startsWith url (text "/admin/setClientConfig") then some .adminSetClientConfig
  else if startsWith url (text "/client/setClientConfig") then some .clientSetClientConfig
  else if startsWith url (text "/admin/setClientCommand") then some .adminSetClientCommand
  else none

/-- What the handlers of `Service` know about a request. -/
structure Query where
  /-- Path of the URL. -/
  url : Bytes
  /-- Address of the peer, empty when unknown. -/
  clientIp : Bytes
  /-- The clientId argument, empty when absent. -/
  clientId : Bytes
  /-- Body received. -/
  data : Bytes

/-- The action of a branch. -/
def Actions.run {σ : Type} (acts : Actions σ) (options : Options) (q : Query) (s : σ) :
    Option Route → Answer σ
  | none => ⟨httpNotFound,[],s⟩
  | some .adminPage => acts.getAdminPage options s
  | some .adminGetClientStatusList => acts.getClientStatusList s
  | some .clientGetConfig => acts.getClientConfig options q.clientId s
  | some .adminGetClientConfig => acts.getClientConfig options q.clientId s
  | some .adminGetClientCommand => acts.getClientCommand q.clientId s
  | some .clientSetClientStatus => acts.setClientStatus q.clientIp q.clientId q.data s
  | some .adminSetClientConfig => acts.setClientConfig options q.clientId q.data s
  | some .clientSetClientConfig => acts.setClientConfig options q.clientId q.data s
  | some .adminSetClientCommand => acts.setClientCommand q.clientId q.data s

/-- A request as `handler` sees it in each of its calls. -/
structure Request where
  /-- HTTP method. -/
  method : Bytes
  /-- Path of the URL. -/
  url : Bytes
  /-- Authorization header. -/
  authorization : Option Bytes
  /-- The clientId argument. -/
  clientId : Option Bytes
  /-- Address of the peer, when it can be named. -/
  clientIp : Option Bytes

/-- What a call of `handler` comes to. -/
inductive Outcome where
  /-- Answered before any action: OPTIONS, a wrong method or a failed check. -/
  | refused (reply : Reply)
  /-- More of the body is expected; the body so far is kept in `con_cls`. -/
  | continued (con_cls : Bytes)
  /-- A branch of `Service` was reached, let through by a check. -/
  | served (guard : Guard) (route : Option Route) (reply : Reply)

/-- The check made for a URL: the one that lets the request through, or the reply. -/
def authorize (credentials : Bytes → Option Bytes×Option Bytes) (options : Options)
    (req : Request) : Except Reply Guard :=
  if strstr req.url (text "/client/") then
    let status := tokenAuth options req.authorization
    if status ≠ httpOk then .error ⟨status,[],contentTypeJson⟩ else .ok .token
  else
    let auth := basicAuth credentials options req.authorization
    if auth.status ≠ httpOk then .error ⟨auth.status,auth.resp,contentTypeHtml⟩ else .ok .basic

/-- `Httpd::handleGET`. -/
def handleGET {σ : Type} (acts : Actions σ) (options : Options) (guard : Guard) (req : Request)
    (s : σ) : Outcome×σ :=
  let clientId := req.clientId.getD []
  let route := routeGET req.url clientId
  let a := acts.run options ⟨req.url,[],clientId,[]⟩ s route
  let contentType := if req.url=text "/" then contentTypeHtml else contentTypeJson
  (.served guard route ⟨a.status,a.resp,contentType⟩,a.state)

/-- `Httpd::handlePOST`: the first call makes the context, calls with data add to the
body, and the call without data is the last. -/
def handlePOST {σ : Type} (acts : Actions σ) (options : Options) (guard : Guard) (req : Request)
    (con_cls : Option Bytes) (upload_data : Bytes) (s : σ) : Outcome×σ :=
  match con_cls with
  | none => (.continued [],s)
  | some data =>
    if upload_data ≠ [] then (.continued (data++upload_data),s)
    else
      let route := routePOST req.url
      let a := acts.run options ⟨req.url,req.clientIp.getD [],req.clientId.getD [],data⟩ s route
      (.served guard route ⟨a.status,a.resp,contentTypeJson⟩,a.state)

/-- `Httpd::handler`. -/
def handler {σ : Type} (credentials : Bytes → Option Bytes×Option Bytes) (acts : Actions σ)
    (options : Options) (req : Request) (con_cls : Option Bytes) (upload_data : Bytes) (s : σ) :
    Outcome×σ :=
  if req.method=text "OPTIONS" then (.refused ⟨httpOk,[],contentTypeHtml⟩,s)
  else if req.method ≠ text "GET" ∧ req.method ≠ text "POST" then
    (.refused ⟨httpMethodNotAllowed,[],contentTypeHtml⟩,s)
  else
    match authorize credentials options req with
    | .error reply => (.refused reply,s)
    | .ok guard =>
      if req.method=text "GET" then handleGET acts options guard req s
      else handlePOST acts options guard req con_cls upload_data s

/-- The calls libmicrohttpd makes until a response is queued, one for each part of the
body offered. -/
def serveFrom {σ : Type} (credentials : Bytes → Option Bytes×Option Bytes) (acts : Actions σ)
    (options : Options) (req : Request) : Option Bytes → List Bytes → σ → Outcome×σ
  | con_cls,[],s => handler credentials acts options req con_cls [] s
  | con_cls,upload::rest,s =>
    match handler credentials acts options req con_cls upload s with
    | (.continued data,s) => serveFrom credentials acts options req (some data) rest s
    | done => done

/-- A whole request: a call with the headers, one for each part of the body, and one at
its end. -/
def serve {σ : Type} (credentials : Bytes → Option Bytes×Option Bytes) (acts : Actions σ)
    (options : Options) (req : Request) (body : List Bytes) (s : σ) : Outcome×σ :=
  serveFrom credentials acts options req none ([]::body) s

end XmrigCC.CommandServer
