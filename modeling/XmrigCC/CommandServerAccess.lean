import XmrigCC.CommandServer

/-!
# Who reaches the administrator's actions

The check is chosen by an occurrence of "/client/" anywhere in the URL and the
action by the URL's prefix. Both apply to a URL with an admin prefix and
"/client/" behind it, and then a bearer token, or none when none is configured,
opens an admin action.
-/

namespace XmrigCC.CommandServerAccess

open ByteText CommandServer

/-- The branch of a request. -/
def routeOf (req : Request) : Option Route :=
  if req.method=text "GET" then routeGET req.url (req.clientId.getD []) else routePOST req.url

/-- Methods that reach `Service`. -/
def MethodAllowed (req : Request) : Prop := req.method=text "GET" ∨ req.method=text "POST"

/-- An admin action served was let through by `basicAuth`, which accepted the request. -/
def AdminGuarded (credentials : Bytes → Option Bytes×Option Bytes) (options : Options)
    (req : Request) (outcome : Outcome) : Prop :=
  ∀ guard route reply, outcome=.served guard (some route) reply → route.isAdmin=true →
    guard=.basic ∧ (basicAuth credentials options req.authorization).status=httpOk

/-- The admin prefixes that a request's method and clientId make `Service` test. -/
def adminPrefixes (req : Request) : List Bytes :=
  if req.method=text "GET" then
    text "/admin/getClientStatusList"::
      if req.clientId.getD []=[] then []
      else [text "/admin/getClientConfig",text "/admin/getClientCommand"]
  else if req.method=text "POST" then
    [text "/admin/setClientConfig",text "/admin/setClientCommand"]
  else []

/-- A URL that is an admin prefix with "/client/" somewhere behind it. -/
def ClientBehindAdmin (req : Request) : Prop :=
  ∃ front∈adminPrefixes req, ∃ rest, req.url=front++rest ∧ strstr rest (text "/client/")=true

/-- A request that passes its check and has an allowed method is served by its branch. -/
theorem handler_served {σ : Type} (credentials : Bytes → Option Bytes×Option Bytes)
    (acts : Actions σ) (options : Options) {req : Request} {guard : Guard}
    (hmethod : MethodAllowed req) (hauth : authorize credentials options req=.ok guard)
    (con_cls : Option Bytes) (upload : Bytes) (s : σ) :
    (∃ reply s', handler credentials acts options req con_cls upload s=
      (.served guard (routeOf req) reply,s')) ∨
    (req.method ≠ text "GET" ∧ (con_cls=none ∨ upload ≠ []) ∧
      ∃ data, handler credentials acts options req con_cls upload s=(.continued data,s)) := by
  have hoptions : req.method ≠ text "OPTIONS" := by
    rcases hmethod with h|h <;> rw [h] <;> decide
  have hallowed : ¬(req.method ≠ text "GET" ∧ req.method ≠ text "POST") := by
    rintro ⟨hg,hp⟩
    exact hmethod.elim hg hp
  rw [handler,if_neg hoptions,if_neg hallowed,hauth]
  dsimp only
  by_cases hget : req.method=text "GET"
  · left
    rw [if_pos hget,handleGET,routeOf,if_pos hget]
    exact ⟨_,_,rfl⟩
  · rw [if_neg hget,routeOf,if_neg hget]
    cases con_cls with
    | none => exact Or.inr ⟨hget,Or.inl rfl,[],rfl⟩
    | some data =>
      rw [handlePOST]
      by_cases hup : upload=[]
      · left
        rw [if_neg (not_not.mpr hup)]
        exact ⟨_,_,rfl⟩
      · right
        rw [if_pos hup]
        exact ⟨hget,Or.inr hup,_,rfl⟩

/-- The same for the whole request, however its body is cut. -/
theorem serve_served {σ : Type} (credentials : Bytes → Option Bytes×Option Bytes)
    (acts : Actions σ) (options : Options) {req : Request} {guard : Guard}
    (hmethod : MethodAllowed req) (hauth : authorize credentials options req=.ok guard)
    (body : List Bytes) (s : σ) :
    ∃ reply s', serve credentials acts options req body s=
      (.served guard (routeOf req) reply,s') := by
  have hfrom : ∀ (parts : List Bytes) (con_cls : Option Bytes),
      (con_cls=none → parts ≠ []) →
      ∃ reply s', serveFrom credentials acts options req con_cls parts s=
        (.served guard (routeOf req) reply,s') := by
    intro parts
    induction parts with
    | nil =>
      intro con_cls hcc
      rw [serveFrom]
      rcases handler_served credentials acts options hmethod hauth con_cls [] s with
        h|⟨-,hnone|hne,-⟩
      · exact h
      · exact absurd rfl (hcc hnone)
      · exact absurd rfl hne
    | cons part parts ih =>
      intro con_cls _
      rw [serveFrom]
      rcases handler_served credentials acts options hmethod hauth con_cls part s with
        ⟨reply,s',h⟩|⟨-,-,data,h⟩
      · rw [h]
        exact ⟨reply,s',rfl⟩
      · rw [h]
        exact ih (some data) (fun hc => nomatch hc)
  exact hfrom ([]::body) none (fun _ => by simp)

/-- A request that fails its check or has another method is refused. -/
theorem serve_refused {σ : Type} (credentials : Bytes → Option Bytes×Option Bytes)
    (acts : Actions σ) (options : Options) {req : Request}
    (h : ¬MethodAllowed req ∨ ∃ reply, authorize credentials options req=.error reply)
    (body : List Bytes) (s : σ) :
    ∃ reply, serve credentials acts options req body s=(.refused reply,s) := by
  have hcall : ∃ reply, handler credentials acts options req none [] s=(.refused reply,s) := by
    rw [handler]
    split
    · exact ⟨_,rfl⟩
    · split
      · exact ⟨_,rfl⟩
      · rename_i hallowed
        rcases h with h|⟨reply,h⟩
        · exact absurd (not_or.mp h) hallowed
        · rw [h]
          exact ⟨reply,rfl⟩
  obtain ⟨reply,hr⟩ := hcall
  refine ⟨reply,?_⟩
  rw [serve,serveFrom,hr]

/-- An admin branch is the page "/" or has one of the admin prefixes. -/
theorem routeOf_admin {req : Request} {route : Route} (hmethod : MethodAllowed req)
    (h : routeOf req=some route) (hadmin : route.isAdmin=true) :
    req.url=text "/" ∨ ∃ front∈adminPrefixes req, startsWith req.url front=true := by
  rw [routeOf] at h
  rw [adminPrefixes]
  by_cases hget : req.method=text "GET"
  · rw [if_pos hget] at h ⊢
    rw [routeGET] at h
    split at h
    · rename_i hpage
      exact Or.inl hpage
    split at h
    · rename_i hlist
      exact Or.inr ⟨_,List.mem_cons_self,hlist⟩
    split at h
    · cases h
    rename_i hid
    rw [if_neg hid]
    split at h
    · cases h
      cases hadmin
    split at h
    · rename_i hconfig
      exact Or.inr ⟨_,List.mem_cons_of_mem _ List.mem_cons_self,hconfig⟩
    split at h
    · rename_i hcommand
      exact Or.inr ⟨_,List.mem_cons_of_mem _ (List.mem_cons_of_mem _ List.mem_cons_self),hcommand⟩
    · cases h
  · rw [if_neg hget] at h ⊢
    rw [if_pos (hmethod.resolve_left hget)]
    rw [routePOST] at h
    split at h
    · cases h
      cases hadmin
    split at h
    · rename_i hconfig
      exact Or.inr ⟨_,List.mem_cons_self,hconfig⟩
    split at h
    · cases h
      cases hadmin
    split at h
    · rename_i hcommand
      exact Or.inr ⟨_,List.mem_cons_of_mem _ List.mem_cons_self,hcommand⟩
    · cases h

/-- A URL with an admin prefix takes an admin branch. -/
theorem routeOf_of_prefix {req : Request} {front rest : Bytes}
    (hfront : front∈adminPrefixes req) (hurl : req.url=front++rest) :
    ∃ route, routeOf req=some route ∧ route.isAdmin=true := by
  rw [adminPrefixes] at hfront
  rw [routeOf,hurl]
  by_cases hget : req.method=text "GET"
  · rw [if_pos hget] at hfront ⊢
    rw [routeGET]
    have hpage : ∀ p : Bytes, 1<p.length → p++rest ≠ text "/" := by
      intro p hp he
      have hlen := congrArg List.length he
      rw [List.length_append,show (text "/").length=1 by decide] at hlen
      omega
    rcases List.mem_cons.mp hfront with rfl|hfront
    · rw [if_neg (hpage _ (by decide)),if_pos (startsWith_append _ _)]
      exact ⟨_,rfl,rfl⟩
    by_cases hid : req.clientId.getD []=[]
    · rw [if_pos hid] at hfront
      cases hfront
    rw [if_neg hid,List.mem_cons,List.mem_singleton] at hfront
    rcases hfront with rfl|rfl
    · rw [if_neg (hpage _ (by decide)),if_neg (startsWith_apart (by decide) rest),if_neg hid,
        if_neg (startsWith_apart (by decide) rest),if_pos (startsWith_append _ _)]
      exact ⟨_,rfl,rfl⟩
    · rw [if_neg (hpage _ (by decide)),if_neg (startsWith_apart (by decide) rest),if_neg hid,
        if_neg (startsWith_apart (by decide) rest),if_neg (startsWith_apart (by decide) rest),
        if_pos (startsWith_append _ _)]
      exact ⟨_,rfl,rfl⟩
  · rw [if_neg hget] at hfront ⊢
    rw [routePOST]
    by_cases hpost : req.method=text "POST"
    · rw [if_pos hpost,List.mem_cons,List.mem_singleton] at hfront
      rcases hfront with rfl|rfl
      · rw [if_neg (startsWith_apart (by decide) rest),if_pos (startsWith_append _ _)]
        exact ⟨_,rfl,rfl⟩
      · rw [if_neg (startsWith_apart (by decide) rest),if_neg (startsWith_apart (by decide) rest),
          if_neg (startsWith_apart (by decide) rest),if_pos (startsWith_append _ _)]
        exact ⟨_,rfl,rfl⟩
    · rw [if_neg hpost] at hfront
      cases hfront

/-- No occurrence of "/client/" begins inside an admin prefix. -/
theorem startsNone_client {req : Request} {front : Bytes} (h : front∈adminPrefixes req) :
    StartsNone front (text "/client/") := by
  have hlist : StartsNone (text "/admin/getClientStatusList") (text "/client/") := by decide
  have hgetConfig : StartsNone (text "/admin/getClientConfig") (text "/client/") := by decide
  have hgetCommand : StartsNone (text "/admin/getClientCommand") (text "/client/") := by decide
  have hsetConfig : StartsNone (text "/admin/setClientConfig") (text "/client/") := by decide
  have hsetCommand : StartsNone (text "/admin/setClientCommand") (text "/client/") := by decide
  rw [adminPrefixes] at h
  split at h
  · rcases List.mem_cons.mp h with rfl|h
    · exact hlist
    split at h
    · cases h
    · rw [List.mem_cons,List.mem_singleton] at h
      rcases h with rfl|rfl
      · exact hgetConfig
      · exact hgetCommand
  · split at h
    · rw [List.mem_cons,List.mem_singleton] at h
      rcases h with rfl|rfl
      · exact hsetConfig
      · exact hsetCommand
    · cases h

/-- "/client/" behind an admin prefix is "/client/" in the URL. -/
theorem ClientBehindAdmin.strstr_url {req : Request} (h : ClientBehindAdmin req) :
    strstr req.url (text "/client/")=true := by
  obtain ⟨front,hfront,rest,hurl,hrest⟩ := h
  rw [hurl,strstr_append (startsNone_client hfront),hrest]

/-- And "/client/" in a URL with an admin prefix is behind it. -/
theorem clientBehindAdmin_of_strstr {req : Request} {front : Bytes}
    (hfront : front∈adminPrefixes req) (hp : startsWith req.url front=true)
    (hclient : strstr req.url (text "/client/")=true) : ClientBehindAdmin req := by
  obtain ⟨rest,hurl⟩ := startsWith_iff.mp hp
  rw [hurl,strstr_append (startsNone_client hfront)] at hclient
  exact ⟨front,hfront,rest,hurl,hclient⟩

/-- No admin prefix is tested for a method other than GET and POST. -/
theorem ClientBehindAdmin.methodAllowed {req : Request} (h : ClientBehindAdmin req) :
    MethodAllowed req := by
  obtain ⟨front,hfront,-⟩ := h
  by_contra hnot
  obtain ⟨hg,hp⟩ := not_or.mp hnot
  rw [adminPrefixes,if_neg hg,if_neg hp] at hfront
  cases hfront

/-- A refused request reaches no action. -/
theorem refused_guarded (credentials : Bytes → Option Bytes×Option Bytes) (options : Options)
    (req : Request) (reply : Reply) : AdminGuarded credentials options req (.refused reply) := by
  intro guard route reply' h
  cases h

/-- The token check is the one made where "/client/" occurs, and the password check is
made everywhere else. -/
theorem authorize_ok {credentials : Bytes → Option Bytes×Option Bytes} {options : Options}
    {req : Request} {guard : Guard} (h : authorize credentials options req=.ok guard) :
    (guard=.token ∧ strstr req.url (text "/client/")=true ∧
      tokenAuth options req.authorization=httpOk) ∨
    (guard=.basic ∧ ¬strstr req.url (text "/client/")=true ∧
      (basicAuth credentials options req.authorization).status=httpOk) := by
  rw [authorize] at h
  split at h
  · rename_i hclient
    dsimp only at h
    split at h
    · cases h
    · rename_i htoken
      cases h
      exact Or.inl ⟨rfl,hclient,not_not.mp htoken⟩
  · rename_i hclient
    dsimp only at h
    split at h
    · cases h
    · rename_i hbasic
      cases h
      exact Or.inr ⟨rfl,hclient,not_not.mp hbasic⟩

/-- What a token lets through is no admin action exactly when the URL has no "/client/"
behind an admin prefix. -/
theorem token_guarded_iff (credentials : Bytes → Option Bytes×Option Bytes) (options : Options)
    {req : Request} (reply : Reply) (hmethod : MethodAllowed req)
    (hclient : strstr req.url (text "/client/")=true) :
    AdminGuarded credentials options req (.served .token (routeOf req) reply) ↔
      ¬ClientBehindAdmin req := by
  constructor
  · rintro h ⟨front,hfront,rest,hurl,-⟩
    obtain ⟨route,hroute,hadmin⟩ := routeOf_of_prefix hfront hurl
    rw [hroute] at h
    cases (h _ _ _ rfl hadmin).1
  · intro h guard route reply' ho hadmin
    obtain ⟨-,hroute,-⟩ := Outcome.served.inj ho
    rcases routeOf_admin hmethod hroute hadmin with hpage|⟨front,hfront,hp⟩
    · rw [hpage] at hclient
      exact absurd hclient (by decide)
    · exact absurd (clientBehindAdmin_of_strstr hfront hp hclient) h

/-- Admin actions are guarded exactly when the request's token check fails or its URL has
no "/client/" behind an admin prefix. -/
theorem admin_guarded_iff {σ : Type} (credentials : Bytes → Option Bytes×Option Bytes)
    (acts : Actions σ) (options : Options) (req : Request) (body : List Bytes) (s : σ) :
    AdminGuarded credentials options req (serve credentials acts options req body s).1 ↔
      tokenAuth options req.authorization ≠ httpOk ∨ ¬ClientBehindAdmin req := by
  by_cases hmethod : MethodAllowed req
  swap
  · obtain ⟨reply,hr⟩ := serve_refused credentials acts options (Or.inl hmethod) body s
    rw [hr]
    exact iff_of_true (refused_guarded _ _ _ _) (Or.inr fun h => hmethod h.methodAllowed)
  cases hauth : authorize credentials options req with
  | error reply =>
    obtain ⟨reply',hr⟩ := serve_refused credentials acts options (Or.inr ⟨reply,hauth⟩) body s
    rw [hr]
    refine iff_of_true (refused_guarded _ _ _ _) ?_
    by_contra hnot
    obtain ⟨htoken,hbehind⟩ := not_or.mp hnot
    rw [authorize,if_pos (not_not.mp hbehind).strstr_url,if_neg htoken] at hauth
    cases hauth
  | ok guard =>
    obtain ⟨reply,s',hs⟩ := serve_served credentials acts options hmethod hauth body s
    rw [hs]
    rcases authorize_ok hauth with ⟨rfl,hclient,htoken⟩|⟨rfl,hclient,hbasic⟩
    · rw [token_guarded_iff credentials options reply hmethod hclient]
      exact ⟨Or.inr,fun h => h.resolve_left (not_not.mpr htoken)⟩
    · refine iff_of_true ?_ (Or.inr fun h => hclient h.strstr_url)
      intro guard route reply' ho _
      obtain ⟨hguard,-,-⟩ := Outcome.served.inj ho
      exact ⟨hguard.symm,hbasic⟩

/-- A server with a token and an admin password, and actions that answer nothing. -/
def guardedServer : Options :=
  ⟨some (text "token"),some (text "admin"),some (text "pass"),none,none⟩

/-- Actions without effect. -/
def quietActions : Actions Unit where
  getAdminPage _ s := ⟨httpOk,[],s⟩
  getClientStatusList s := ⟨httpOk,[],s⟩
  getClientConfig _ _ s := ⟨httpOk,[],s⟩
  getClientCommand _ s := ⟨httpOk,[],s⟩
  setClientStatus _ _ _ s := ⟨httpOk,[],s⟩
  setClientConfig _ _ _ s := ⟨httpOk,[],s⟩
  setClientCommand _ _ s := ⟨httpOk,[],s⟩

/-- A miner's token opens the list of all clients. -/
theorem token_opens_status_list :
    ¬∀ (options : Options) (req : Request),
      AdminGuarded (fun _ => (none,none)) options req
        (serve (fun _ => (none,none)) quietActions options req [] ()).1 := by
  intro h
  have hg := h guardedServer ⟨text "GET",text "/admin/getClientStatusList/client/",
    some (text "Bearer token"),none,none⟩ .token .adminGetClientStatusList _ rfl rfl
  cases hg.1

end XmrigCC.CommandServerAccess
