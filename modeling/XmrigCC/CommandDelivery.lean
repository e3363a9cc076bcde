import XmrigCC.CommandService
import XmrigCC.OneShotMailboxes

/-!
# Delivery of commands

What a client will be answered behaves as a box per client: `setClientCommand`
fills it, `setClientStatus` takes what is in it, and nothing else touches it.
The entries that lookups make on the way hold START, as an absent one counts.
-/

namespace XmrigCC.CommandDelivery

open ByteText CommandServer JsonValues ControlCommands ClientStatuses CommandService TransitionRuns
open OneShotMailboxes hiding step

variable {D : Type}

/-- One-time commands are handed out once and leave START behind. -/
def policy : Policy ControlCommand := ⟨.new,ControlCommand.isOneTimeCommand,rfl⟩

/-- A POST whose action is that of a route, for a client and with a body. -/
def Posts (call : Call) (route : Route) (clientId data : Bytes) : Prop :=
  ∃ now url clientIp, call=.post now url clientIp clientId data ∧ routePOST url=some route

/-- A setClientStatus for a client that is not refused. -/
def Polls (host : Host D) (clientId : Bytes) (call : Call) : Prop :=
  ∃ data document, Posts call .clientSetClientStatus clientId data ∧
    host.lib.parse (cStr data)=some document

/-- A setClientCommand for a client that is not refused. -/
def Replaces (host : Host D) (clientId : Bytes) (call : Call) : Prop :=
  ∃ data document, Posts call .adminSetClientCommand clientId data ∧
    host.lib.parse (cStr data)=some document

/-- A setClientCommand for a client whose body names a command. -/
def Stores (host : Host D) (clientId : Bytes) (k : Command) (call : Call) : Prop :=
  ∃ data document, Posts call .adminSetClientCommand clientId data ∧
    host.lib.parse (cStr data)=some document ∧ Commands document k.toString

/-- The answer to a client that tells it a command. -/
def Tells (host : Host D) (k : ControlCommand) (a : Answer (Service D)) : Prop :=
  a.status=httpOk ∧ a.resp=cStr (host.lib.write (commandDocument k))

/-- A one-time command (`UPDATE_CONFIG`, `PUBLISH_CONFIG`, `RESTART` or `SHUTDOWN`) stored for a
client is told by the first poll, and after it START is told until another is stored. -/
def ToldOnce (host : Host D) (s : Service D) (c : Bytes) : Prop :=
  ∀ (k : Command) (store poll again : Call) (between later : List Call),
    ControlCommand.isOneTimeCommand ⟨k⟩=true → Stores host c k store →
    (∀ r∈between, ¬Replaces host c r ∧ ¬Polls host c r) → Polls host c poll →
    (∀ r∈later, ¬Replaces host c r) → Polls host c again →
    Tells host ⟨k⟩ (answer host (runFrom (step host) s (store::between)) poll) ∧
    Tells host .new (answer host (runFrom (step host) s (store::between++poll::later)) again)

/-- START and STOP are told by every poll until another command is stored. -/
def ToldUntilReplaced (host : Host D) (s : Service D) (c : Bytes) : Prop :=
  ∀ (k : Command) (store poll : Call) (later : List Call),
    ControlCommand.isOneTimeCommand ⟨k⟩=false → Stores host c k store →
    (∀ r∈later, ¬Replaces host c r) → Polls host c poll →
    Tells host ⟨k⟩ (answer host (runFrom (step host) s (store::later)) poll)

/-- A poll is told the client's command, which no GET and no call for another client
changes. -/
def ToldApart (host : Host D) (s : Service D) (c : Bytes) : Prop :=
  (∀ poll, Polls host c poll → Tells host (s.command c) (answer host s poll)) ∧
  (∀ now url clientId, (step host s (.get now url clientId)).command c=s.command c) ∧
  ∀ call : Call, call.clientId ≠ c → (step host s call).command c=s.command c

/-- What a branch of the handlers does to the boxes. -/
def routeOp (host : Host D) (clientId data : Bytes) : Option Route → Op Bytes ControlCommand
  | some .clientSetClientStatus =>
    match host.lib.parse (cStr data) with
    | some _ => .take clientId
    | none => .other
  | some .adminSetClientCommand =>
    match host.lib.parse (cStr data) with
    | some document => .put clientId (ControlCommand.new.parseFromJson host.lib document).value.1
    | none => .other
  | _ => .other

/-- What a call does to the boxes. -/
def op (host : Host D) : Call → Op Bytes ControlCommand
  | .get _ _ _ => .other
  | .post _ url _ clientId data => routeOp host clientId data (routePOST url)

section Entries

variable (s : Service D) (clientId : Bytes)

theorem command_setCommand (k : ControlCommand) :
    (s.setCommand clientId k).command=Function.update s.command clientId k := by
  funext c
  by_cases hc : c=clientId
  · subst hc
    rw [Function.update_self,Service.command,Service.setCommand,Std.TreeMap.getElem?_insert_self,
      Option.getD_some]
  · have hcmp : compare clientId c ≠ .eq := fun he => hc (Std.LawfulEqCmp.eq_of_compare he).symm
    rw [Function.update_of_ne hc,Service.command,Service.setCommand,Std.TreeMap.getElem?_insert,
      if_neg hcmp,Service.command]

/-- An erased entry counts as START. -/
theorem command_eraseCommand :
    (s.eraseCommand clientId).command=Function.update s.command clientId .new := by
  funext c
  by_cases hc : c=clientId
  · subst hc
    rw [Function.update_self,Service.command,Service.eraseCommand,Std.TreeMap.getElem?_erase_self,
      Option.getD_none]
  · have hcmp : compare clientId c ≠ .eq := fun he => hc (Std.LawfulEqCmp.eq_of_compare he).symm
    rw [Function.update_of_ne hc,Service.command,Service.eraseCommand,Std.TreeMap.getElem?_erase,
      if_neg hcmp,Service.command]

/-- And so does one that is not there. -/
theorem command_of_not_mem (h : clientId∉s.m_clientCommand) : s.command clientId=.new := by
  rw [Service.command,Std.TreeMap.getElem?_eq_none h,Option.getD_none]

end Entries

section Calls

variable (host : Host D) (s : Service D) (clientId : Bytes)

/-- `getClientCommand` tells the client's command, and the entry it makes changes none. -/
theorem getClientCommand_spec :
    Tells host (s.command clientId) (getClientCommand host clientId s) ∧
    (getClientCommand host clientId s).state.command=s.command := by
  rw [getClientCommand]
  split
  · exact ⟨⟨rfl,rfl⟩,rfl⟩
  · rename_i habsent
    have hnew := command_of_not_mem s clientId habsent
    have hsame : (s.setCommand clientId .new).command=s.command := by
      rw [command_setCommand,←hnew,Function.update_eq_self]
    refine ⟨⟨rfl,?_⟩,hsame⟩
    dsimp only
    rw [hsame]

/-- Erasing a one-time command behind an answer takes it from the client's box. -/
theorem erase_spec {k : ControlCommand} {a : Answer (Service D)} (h : Tells host k a)
    (hcommand : a.state.command=s.command) :
    Tells host k (if (a.state.command clientId).isOneTimeCommand then
      {a with state := a.state.eraseCommand clientId} else a) ∧
    (if (a.state.command clientId).isOneTimeCommand then
      {a with state := a.state.eraseCommand clientId} else a).state.command=
      OneShotMailboxes.step policy s.command (.take clientId) := by
  rw [hcommand,OneShotMailboxes.step]
  by_cases honce : (s.command clientId).isOneTimeCommand=true
  · have hpolicy : policy.once (s.command clientId)=true := honce
    rw [if_pos honce,if_pos hpolicy]
    refine ⟨h,?_⟩
    dsimp only
    rw [command_eraseCommand,hcommand]
    rfl
  · have hpolicy : ¬policy.once (s.command clientId)=true := honce
    rw [if_neg honce,if_neg hpolicy]
    exact ⟨h,hcommand⟩

/-- `setClientStatus` tells the client's command and takes it. -/
theorem setClientStatus_spec (clientIp data : Bytes) {document : Value D}
    (hparse : host.lib.parse (cStr data)=some document) :
    Tells host (s.command clientId) (setClientStatus host clientIp clientId data s) ∧
    (setClientStatus host clientIp clientId data s).state.command=
      OneShotMailboxes.step policy s.command (.take clientId) := by
  rw [setClientStatus,hparse]
  have htold := getClientCommand_spec host (s.setStatus clientId
    (((ClientStatus.new host.lib).parseFromJson host.lib s.now document).value.1.setExternalIp
      clientIp)) clientId
  exact erase_spec host s clientId htold.1 htold.2

/-- Every branch does to the boxes what its operation says. -/
theorem run_boxes (options : Options) (url clientIp data : Bytes) (route : Option Route) :
    ((actions host).run options ⟨url,clientIp,clientId,data⟩ s route).state.command=
      OneShotMailboxes.step policy s.command (routeOp host clientId data route) := by
  rcases route with _|route
  · rfl
  cases route with
  | adminGetClientCommand => exact (getClientCommand_spec host s clientId).2
  | clientSetClientStatus =>
    rw [routeOp,Actions.run]
    cases hparse : host.lib.parse (cStr data) with
    | none =>
      have hrefused := setClientStatus_refused host clientIp clientId s hparse
      exact congrArg (fun a => a.state.command) hrefused
    | some document => exact (setClientStatus_spec host s clientId clientIp data hparse).2
  | adminSetClientCommand =>
    rw [routeOp,Actions.run]
    cases hparse : host.lib.parse (cStr data) with
    | none =>
      have hrefused := setClientCommand_refused host clientId s hparse
      exact congrArg (fun a => a.state.command) hrefused
    | some document =>
      have hstored := setClientCommand_stored host clientId s hparse
      rw [OneShotMailboxes.step,←command_setCommand]
      exact congrArg (fun a => a.state.command) hstored
  | _ => rfl

/-- No GET changes a client's command. -/
theorem step_get (now : Int64) (url : Bytes) :
    (step host s (.get now url clientId)).command=s.command := by
  rw [step,answer,routeGET]
  split
  · rfl
  split
  · rfl
  split
  · rfl
  split
  · rfl
  split
  · rfl
  split
  · exact (getClientCommand_spec host (s.atTime now) clientId).2
  · rfl

end Calls

/-- The commands of all clients are boxes, and each call does to them what its operation
says. -/
theorem step_boxes (host : Host D) (s : Service D) (call : Call) :
    (step host s call).command=OneShotMailboxes.step policy s.command (op host call) := by
  cases call with
  | get now url clientId => exact step_get host s clientId now url
  | post now url clientIp clientId data =>
    exact run_boxes host (s.atTime now) clientId host.options url clientIp data (routePOST url)

/-- And so along every run. -/
theorem run_boxes_eq (host : Host D) (s : Service D) (calls : List Call) :
    (runFrom (step host) s calls).command=
      runFrom (OneShotMailboxes.step policy) s.command (calls.map (op host)) :=
  runFrom_map (step_boxes host) s calls

section Operations

variable {host : Host D} {s : Service D} {c : Bytes} {call : Call}

/-- A poll takes the client's message and is told it. -/
theorem Polls.op_eq (h : Polls host c call) : op host call=.take c := by
  obtain ⟨data,document,⟨now,url,clientIp,rfl,hroute⟩,hparse⟩ := h
  rw [op,hroute,routeOp,hparse]

theorem Polls.tells (h : Polls host c call) (s : Service D) :
    Tells host (s.command c) (answer host s call) := by
  obtain ⟨data,document,⟨now,url,clientIp,rfl,hroute⟩,hparse⟩ := h
  rw [answer,hroute]
  exact (setClientStatus_spec host (s.atTime now) c clientIp data hparse).1

/-- A command stored is put into the client's box. -/
theorem Stores.op_eq {k : Command} (h : Stores host c k call) : op host call=.put c ⟨k⟩ := by
  obtain ⟨data,document,⟨now,url,clientIp,rfl,hroute⟩,hparse,hcommand⟩ := h
  rw [op,hroute,routeOp,hparse]
  dsimp only
  rw [parseFromJson_commands host.lib .new hcommand,toCommand_toString]

/-- A call is a poll, a command stored, or nothing to any box. -/
theorem op_cases (host : Host D) (call : Call) :
    (Polls host call.clientId call ∧ op host call=.take call.clientId) ∨
    (Replaces host call.clientId call ∧ ∃ k, op host call=.put call.clientId k) ∨
    op host call=.other := by
  cases call with
  | get now url clientId => exact Or.inr (Or.inr rfl)
  | post now url clientIp clientId data =>
    rw [op]
    unfold routeOp
    split
    · rename_i hroute
      split
      · rename_i document hparse
        exact Or.inl ⟨⟨data,document,⟨now,url,clientIp,rfl,hroute⟩,hparse⟩,rfl⟩
      · exact Or.inr (Or.inr rfl)
    · rename_i hroute
      split
      · rename_i document hparse
        exact Or.inr (Or.inl ⟨⟨data,document,⟨now,url,clientIp,rfl,hroute⟩,hparse⟩,_,rfl⟩)
      · exact Or.inr (Or.inr rfl)
    · exact Or.inr (Or.inr rfl)

/-- Only a setClientCommand that is not refused puts something into a client's box. -/
theorem replaces_of_puts (h : (op host call).Puts c) : Replaces host c call := by
  obtain ⟨k,hk⟩ := h
  rcases op_cases host call with ⟨-,hop⟩|⟨hreplaces,k',hop⟩|hop
  · cases hop.symm.trans hk
  · obtain ⟨rfl,-⟩ := Op.put.inj (hop.symm.trans hk)
    exact hreplaces
  · cases hop.symm.trans hk

/-- And only a poll takes it. -/
theorem polls_of_take (h : op host call=.take c) : Polls host c call := by
  rcases op_cases host call with ⟨hpolls,hop⟩|⟨-,k,hop⟩|hop
  · obtain rfl := Op.take.inj (hop.symm.trans h)
    exact hpolls
  · cases hop.symm.trans h
  · cases hop.symm.trans h

/-- Whatever is neither spares the client's box. -/
theorem spares_of_neither (h : ¬Replaces host c call ∧ ¬Polls host c call) :
    (op host call).Spares c :=
  ⟨fun hp => h.1 (replaces_of_puts hp),fun ht => h.2 (polls_of_take ht)⟩

/-- The operations of calls that all meet a condition. -/
theorem forall_ops {P : Call → Prop} {Q : Op Bytes ControlCommand → Prop}
    (hPQ : ∀ r, P r → Q (op host r)) {calls : List Call} (h : ∀ r∈calls, P r) :
    ∀ o∈calls.map (op host), Q o := by
  intro o ho
  obtain ⟨r,hr,rfl⟩ := List.mem_map.mp ho
  exact hPQ r (h r hr)

/-- Calls made for one client spare the boxes of the others. -/
theorem spares_other (h : call.clientId ≠ c) : (op host call).Spares c := by
  refine spares_of_neither ⟨fun hr => ?_,fun hp => ?_⟩
  · obtain ⟨data,document,⟨now,url,clientIp,rfl,-⟩,-⟩ := hr
    exact h rfl
  · obtain ⟨data,document,⟨now,url,clientIp,rfl,-⟩,-⟩ := hp
    exact h rfl

end Operations

section Delivery

variable (host : Host D) (s : Service D) (c : Bytes)

theorem told_once : ToldOnce host s c := by
  intro k store poll again between later honce hstore hbetween hpoll hlater hagain
  have hspared : ∀ o∈between.map (op host), o.Spares c :=
    forall_ops (fun r => spares_of_neither) hbetween
  have hkept : ∀ o∈later.map (op host), ¬o.Puts c :=
    forall_ops (fun r hr hp => hr (replaces_of_puts hp)) hlater
  have hshown : (runFrom (step host) s (store::between)).command c=⟨k⟩ := by
    rw [run_boxes_eq,List.map_cons,hstore.op_eq]
    exact shown_after_put policy ⟨k⟩ hspared
  refine ⟨?_,?_⟩
  · rw [←hshown]
    exact hpoll.tells _
  · have hidle : (runFrom (step host) s (store::between++poll::later)).command c=.new := by
      rw [runFrom_append,run_boxes_eq,List.map_cons,hpoll.op_eq]
      exact idle_after_take policy (by rw [hshown]; exact honce) hkept
    rw [←hidle]
    exact hagain.tells _

theorem told_until_replaced : ToldUntilReplaced host s c := by
  intro k store poll later honce hstore hlater hpoll
  have hkept : ∀ o∈later.map (op host), ¬o.Puts c :=
    forall_ops (fun r hr hp => hr (replaces_of_puts hp)) hlater
  have hshown : (runFrom (step host) s (store::later)).command c=⟨k⟩ := by
    rw [run_boxes_eq,List.map_cons,hstore.op_eq]
    exact shown_until_put policy honce hkept
  rw [←hshown]
  exact hpoll.tells _

theorem told_apart : ToldApart host s c := by
  refine ⟨fun poll hpoll => hpoll.tells s,fun now url clientId => ?_,fun call hne => ?_⟩
  · rw [step_get]
  · rw [step_boxes]
    exact step_spared policy (spares_other hne)

/-- From every state, one-time commands are told once, START and STOP until they are
replaced, and nothing but the client's own posts changes what it is told. -/
theorem commands_delivered :
    ToldOnce host s c ∧ ToldUntilReplaced host s c ∧ ToldApart host s c :=
  ⟨told_once host s c,told_until_replaced host s c,told_apart host s c⟩

end Delivery

/-- A report that the service takes. -/
theorem report_polls :
    Polls fourBodiesHost (text "rig") (rigPosts "/client/setClientStatus" "report") :=
  ⟨text "report",.object [(text "client_status",.object [])],⟨_,_,_,rfl,by decide⟩,rfl⟩

/-- UPDATE_CONFIG reaches the client with its first report and START with the second. -/
theorem update_config_told_once :
    (answer fourBodiesHost (runFrom (step fourBodiesHost) fourBodiesStart
      [rigPosts "/admin/setClientCommand" "update"])
      (rigPosts "/client/setClientStatus" "report")).resp=text "UPDATE_CONFIG" ∧
    (answer fourBodiesHost (runFrom (step fourBodiesHost) fourBodiesStart
      [rigPosts "/admin/setClientCommand" "update",rigPosts "/client/setClientStatus" "report"])
      (rigPosts "/client/setClientStatus" "report")).resp=text "START" := by
  have hstore : Stores fourBodiesHost (text "rig") .UPDATE_CONFIG
      (rigPosts "/admin/setClientCommand" "update") :=
    ⟨text "update",commandDocument ⟨.UPDATE_CONFIG⟩,⟨_,_,_,rfl,by decide⟩,rfl,
      _,_,text "UPDATE_CONFIG",rfl,rfl,rfl,by decide⟩
  obtain ⟨hfirst,hlater⟩ := (commands_delivered fourBodiesHost fourBodiesStart (text "rig")).1
    .UPDATE_CONFIG _ _ _ [] [] rfl hstore (fun _ hr => nomatch hr) report_polls
    (fun _ hr => nomatch hr) report_polls
  exact ⟨hfirst.2.trans (by decide),hlater.2.trans (by decide)⟩

end XmrigCC.CommandDelivery
