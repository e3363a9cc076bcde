import XmrigCC.CommandServer
import XmrigCC.TransitionRuns

/-!
# Bodies that arrive in parts

The server is called for the head of a request, for each part of its body and at its end, and calls
for other connections come in between. A context per connection keeps the body. Every request is
answered as if it had arrived at once when its last call was made.
-/

namespace XmrigCC.UploadedBodies

open ByteText CommandServer TransitionRuns

variable {σ : Type}

/-- A request that was answered. -/
structure Answered where
  /-- Its connection. -/
  connection : ℕ
  /-- The request. -/
  req : Request
  /-- The parts of the body that were offered. -/
  parts : List Bytes
  /-- What came of it. -/
  outcome : Outcome

/-- The server with its connections. -/
structure Server (σ : Type) where
  /-- State of the service. -/
  state : σ
  /-- `con_cls` of each connection. -/
  con_cls : ℕ → Option Bytes
  /-- Requests that are not answered, and the parts offered so far. -/
  waiting : ℕ → Option (Request×List Bytes)
  /-- Requests that were answered. -/
  answered : List Answered

/-- No connection has a request. -/
def Server.start (state : σ) : Server σ := ⟨state,fun _ => none,fun _ => none,[]⟩

/-- What arrives on a connection. -/
inductive Event where
  /-- The head of a request. -/
  | head (i : ℕ) (req : Request)
  /-- A part of its body. -/
  | part (i : ℕ) (upload_data : Bytes)
  /-- The end of the body. -/
  | finish (i : ℕ)

section Histories

variable (credentials : Bytes → Option Bytes×Option Bytes) (options : Options)

/-- The body of a request is awaited: it is a POST that is let through. -/
def awaitsBody (req : Request) : Bool :=
  req.method=text "POST" && (authorize credentials options req).isOk

/-- The requests whose bodies are awaited, with their parts so far, by the events alone. -/
def assemble (waiting : ℕ → Option (Request×List Bytes)) :
    Event → ℕ → Option (Request×List Bytes)
  | .head i req =>
    if waiting i=none ∧ awaitsBody credentials options req=true then
      Function.update waiting i (some (req,[])) else waiting
  | .part i upload_data =>
    match waiting i with
    | some (req,parts) =>
      if upload_data ≠ [] then Function.update waiting i (some (req,parts++[upload_data]))
      else waiting
    | none => waiting
  | .finish i => Function.update waiting i none

/-- The requests that an event completes, each with its connection and its parts. -/
def completes (waiting : ℕ → Option (Request×List Bytes)) : Event → List (ℕ×Request×List Bytes)
  | .head i req =>
    if waiting i=none ∧ awaitsBody credentials options req=false then [(i,req,[])] else []
  | .part _ _ => []
  | .finish i =>
    match waiting i with
    | some (req,parts) => [(i,req,parts)]
    | none => []

end Histories

/-- What was asked for, without what came of it. -/
def Answered.asked (a : Answered) : ℕ×Request×List Bytes := (a.connection,a.req,a.parts)

section Model

variable (credentials : Bytes → Option Bytes×Option Bytes) (acts : Actions σ) (options : Options)

/-- A call of `Httpd::handler`. When a response is queued the request is done. -/
def offer (s : Server σ) (i : ℕ) (req : Request) (parts : List Bytes) (upload_data : Bytes) :
    Server σ :=
  match handler credentials acts options req (s.con_cls i) upload_data s.state with
  | (.continued data,state) =>
    {s with
      state
      con_cls := Function.update s.con_cls i (some data)
      waiting := Function.update s.waiting i (some (req,parts))}
  | (outcome,state) =>
    {state
     con_cls := Function.update s.con_cls i none
     waiting := Function.update s.waiting i none
     answered := s.answered++[⟨i,req,parts,outcome⟩]}

/-- The server afterwards. -/
def step (s : Server σ) : Event → Server σ
  | .head i req =>
    match s.waiting i with
    | none => offer credentials acts options s i req [] []
    | some _ => s
  | .part i upload_data =>
    match s.waiting i with
    | some (req,parts) =>
      if upload_data ≠ [] then
        offer credentials acts options s i req (parts++[upload_data]) upload_data
      else s
    | none => s
  | .finish i =>
    match s.waiting i with
    | some (req,parts) => offer credentials acts options s i req parts []
    | none => s

/-- Whole requests one after the other. -/
def replay (state : σ) : List Answered → List Outcome×σ
  | [] => ([],state)
  | a::rest =>
    let served := serve credentials acts options a.req a.parts state
    let later := replay served.2 rest
    (served.1::later.1,later.2)

end Model

variable {credentials : Bytes → Option Bytes×Option Bytes} {acts : Actions σ} {options : Options}

theorem replay_append (state : σ) (answered : List Answered) (a : Answered) :
    replay credentials acts options state (answered++[a])=
      ((replay credentials acts options state answered).1++
        [(serve credentials acts options a.req a.parts
          (replay credentials acts options state answered).2).1],
        (serve credentials acts options a.req a.parts
          (replay credentials acts options state answered).2).2) := by
  induction answered generalizing state with
  | nil => rfl
  | cons b answered ih =>
    rw [List.cons_append,replay,replay,ih]
    rfl

/-- A request whose body is awaited: its head was let through. -/
def Awaited (credentials : Bytes → Option Bytes×Option Bytes) (acts : Actions σ)
    (options : Options) (req : Request) : Prop :=
  ∃ guard, ∀ con_cls upload_data state,
    handler credentials acts options req con_cls upload_data state=
      handlePOST acts options guard req con_cls upload_data state

/-- A head is answered at once or its body is awaited. -/
theorem handler_cases (credentials : Bytes → Option Bytes×Option Bytes) (acts : Actions σ)
    (options : Options) (req : Request) :
    (awaitsBody credentials options req=false ∧ ∀ upload_data state, ∃ outcome state',
      (∀ data, outcome ≠ .continued data) ∧
        handler credentials acts options req none upload_data state=(outcome,state')) ∨
    (awaitsBody credentials options req=true ∧ Awaited credentials acts options req) := by
  by_cases hoptions : req.method=text "OPTIONS"
  · refine .inl ⟨by rw [awaitsBody,hoptions]; rfl,fun upload_data state => ⟨_,_,fun data h => ?_,by
      rw [handler,if_pos hoptions]⟩⟩
    cases h
  by_cases hmethod : req.method ≠ text "GET" ∧ req.method ≠ text "POST"
  · refine .inl ⟨by rw [awaitsBody,decide_eq_false hmethod.2]; rfl,
      fun upload_data state => ⟨_,_,fun data h => ?_,by
        rw [handler,if_neg hoptions,if_pos hmethod]⟩⟩
    cases h
  cases hguard : authorize credentials options req with
  | error reply =>
    refine .inl ⟨by rw [awaitsBody,hguard]; exact Bool.and_false _,
      fun upload_data state => ⟨_,_,fun data h => ?_,by
        rw [handler,if_neg hoptions,if_neg hmethod,hguard]⟩⟩
    cases h
  | ok guard =>
    by_cases hget : req.method=text "GET"
    · refine .inl ⟨by rw [awaitsBody,hget]; rfl,fun upload_data state => ?_⟩
      have hcall : handler credentials acts options req none upload_data state=
          handleGET acts options guard req state := by
        rw [handler,if_neg hoptions,if_neg hmethod,hguard]
        dsimp only
        rw [if_pos hget]
      rw [hcall]
      exact ⟨_,_,fun data h => Outcome.noConfusion h,rfl⟩
    · have hpost : req.method=text "POST" := by
        by_contra hother
        exact hmethod ⟨hget,hother⟩
      refine .inr ⟨by rw [awaitsBody,hpost,hguard]; rfl,guard,fun con_cls upload_data state => ?_⟩
      rw [handler,if_neg hoptions,if_neg hmethod,hguard]
      dsimp only
      rw [if_neg hget]

/-- The parts of a body are joined, and at the end the body is handed over. -/
theorem serve_parts {req : Request} (h : Awaited credentials acts options req) (state : σ)
    {parts : List Bytes} (hparts : ∀ part∈parts, part ≠ []) :
    serve credentials acts options req parts state=
      handler credentials acts options req (some parts.flatten) [] state := by
  obtain ⟨guard,hhandler⟩ := h
  have hfrom : ∀ parts : List Bytes, (∀ part∈parts, part ≠ []) → ∀ data,
      serveFrom credentials acts options req (some data) parts state=
        handler credentials acts options req (some (data++parts.flatten)) [] state := by
    intro parts
    induction parts with
    | nil =>
      intro _ data
      rw [List.flatten_nil,List.append_nil]
      rfl
    | cons part parts ih =>
      intro hparts data
      obtain ⟨hpart,hrest⟩ := List.forall_mem_cons.mp hparts
      rw [serveFrom,hhandler,handlePOST]
      dsimp only
      rw [if_pos hpart]
      dsimp only
      rw [ih hrest,List.flatten_cons,List.append_assoc]
  rw [serve,serveFrom,hhandler,handlePOST]
  dsimp only
  rw [hfrom parts hparts,List.nil_append]

/-- A request that is answered at its head is answered so whatever its body. -/
theorem serve_head {req : Request} {state state' : σ} {outcome : Outcome}
    (h : handler credentials acts options req none [] state=(outcome,state'))
    (houtcome : ∀ data, outcome ≠ .continued data) (parts : List Bytes) :
    serve credentials acts options req parts state=(outcome,state') := by
  rw [serve,serveFrom,h]
  split
  · rename_i data state'' hdone
    exact absurd (Prod.mk.inj hdone).1 (houtcome data)
  · rfl

/-- What holds between the calls. -/
structure Kept (credentials : Bytes → Option Bytes×Option Bytes) (acts : Actions σ)
    (options : Options) (initial : σ) (s : Server σ) : Prop where
  /-- Requests that wait were let through, and their contexts have the parts joined. -/
  waiting : ∀ i req parts, s.waiting i=some (req,parts) → Awaited credentials acts options req ∧
    (∀ part∈parts, part ≠ []) ∧ s.con_cls i=some parts.flatten
  /-- The other connections have no context. -/
  idle : ∀ i, s.waiting i=none → s.con_cls i=none
  /-- The answered requests give the same one after the other. -/
  replayed : replay credentials acts options initial s.answered=
    (s.answered.map Answered.outcome,s.state)

theorem kept_start (state : σ) : Kept credentials acts options state (Server.start state) :=
  ⟨fun _ _ _ h => (nomatch h),fun _ _ => rfl,rfl⟩

theorem offer_continued {s : Server σ} {i : ℕ} {req : Request} {parts : List Bytes}
    {upload_data data : Bytes} (h : handler credentials acts options req (s.con_cls i) upload_data
      s.state=(.continued data,s.state)) :
    offer credentials acts options s i req parts upload_data=
      ⟨s.state,Function.update s.con_cls i (some data),
        Function.update s.waiting i (some (req,parts)),s.answered⟩ := by
  rw [offer,h]

theorem offer_done {s : Server σ} {i : ℕ} {req : Request} {parts : List Bytes}
    {upload_data : Bytes} {outcome : Outcome} {state : σ}
    (h : handler credentials acts options req (s.con_cls i) upload_data s.state=(outcome,state))
    (houtcome : ∀ data, outcome ≠ .continued data) :
    offer credentials acts options s i req parts upload_data=
      ⟨state,Function.update s.con_cls i none,Function.update s.waiting i none,
        s.answered++[⟨i,req,parts,outcome⟩]⟩ := by
  rw [offer,h]
  cases outcome with
  | continued data => exact absurd rfl (houtcome data)
  | refused reply => rfl
  | served guard route reply => rfl

variable {initial : σ} {s : Server σ}

theorem Kept.continued (h : Kept credentials acts options initial s) (i : ℕ) {req : Request}
    (hreq : Awaited credentials acts options req) {parts : List Bytes}
    (hparts : ∀ part∈parts, part ≠ []) :
    Kept credentials acts options initial ⟨s.state,
      Function.update s.con_cls i (some parts.flatten),
      Function.update s.waiting i (some (req,parts)),s.answered⟩ := by
  refine ⟨fun j req' parts' hj => ?_,fun j hj => ?_,h.replayed⟩
  · dsimp only at hj ⊢
    by_cases hij : j=i
    · rw [hij,Function.update_self] at hj
      obtain ⟨rfl,rfl⟩ := Prod.mk.inj (Option.some.inj hj)
      rw [hij,Function.update_self]
      exact ⟨hreq,hparts,rfl⟩
    · rw [Function.update_of_ne hij] at hj ⊢
      exact h.waiting j req' parts' hj
  · dsimp only at hj ⊢
    by_cases hij : j=i
    · rw [hij,Function.update_self] at hj
      cases hj
    · rw [Function.update_of_ne hij] at hj ⊢
      exact h.idle j hj

theorem Kept.done (h : Kept credentials acts options initial s) (i : ℕ) {req : Request}
    {parts : List Bytes} {outcome : Outcome} {state : σ}
    (hserve : serve credentials acts options req parts s.state=(outcome,state)) :
    Kept credentials acts options initial ⟨state,Function.update s.con_cls i none,
      Function.update s.waiting i none,s.answered++[⟨i,req,parts,outcome⟩]⟩ := by
  refine ⟨fun j req' parts' hj => ?_,fun j hj => ?_,?_⟩
  · dsimp only at hj ⊢
    by_cases hij : j=i
    · rw [hij,Function.update_self] at hj
      cases hj
    · rw [Function.update_of_ne hij] at hj ⊢
      exact h.waiting j req' parts' hj
  · dsimp only at hj ⊢
    by_cases hij : j=i
    · rw [hij,Function.update_self]
    · rw [Function.update_of_ne hij] at hj ⊢
      exact h.idle j hj
  · dsimp only
    rw [replay_append,h.replayed]
    dsimp only
    rw [hserve,List.map_append]
    rfl

/-- What an event does: a part of a body is taken up, a request is answered as if it had been made
at once, or nothing. In each case the events alone say which. -/
theorem Kept.step_cases (h : Kept credentials acts options initial s) (e : Event) :
    (∃ i req parts, UploadedBodies.step credentials acts options s e=
        ⟨s.state,Function.update s.con_cls i (some parts.flatten),
          Function.update s.waiting i (some (req,parts)),s.answered⟩ ∧
      Awaited credentials acts options req ∧ (∀ part∈parts, part ≠ []) ∧
      assemble credentials options s.waiting e=Function.update s.waiting i (some (req,parts)) ∧
      completes credentials options s.waiting e=[]) ∨
    (∃ i req parts outcome state, UploadedBodies.step credentials acts options s e=
        ⟨state,Function.update s.con_cls i none,Function.update s.waiting i none,
          s.answered++[⟨i,req,parts,outcome⟩]⟩ ∧
      serve credentials acts options req parts s.state=(outcome,state) ∧
      assemble credentials options s.waiting e=Function.update s.waiting i none ∧
      completes credentials options s.waiting e=[(i,req,parts)]) ∨
    (UploadedBodies.step credentials acts options s e=s ∧
      assemble credentials options s.waiting e=s.waiting ∧
      completes credentials options s.waiting e=[]) := by
  cases e with
  | head i req =>
    rw [UploadedBodies.step,assemble,completes]
    split
    · rename_i hnone
      have hcontext := h.idle i hnone
      rcases handler_cases credentials acts options req with ⟨hbody,hdone⟩ | ⟨hbody,hawaited⟩
      · obtain ⟨outcome,state,houtcome,hcall⟩ := hdone [] s.state
        refine .inr (.inl ⟨i,req,[],outcome,state,?_,serve_head hcall houtcome [],?_,
          if_pos ⟨hnone,hbody⟩⟩)
        · rw [offer_done (by rw [hcontext]; exact hcall) houtcome]
        · rw [if_neg fun hc => Bool.false_ne_true (hbody.symm.trans hc.2),←hnone,
            Function.update_eq_self]
      · obtain ⟨guard,hhandler⟩ := id hawaited
        refine .inl ⟨i,req,[],?_,hawaited,List.forall_mem_nil _,if_pos ⟨hnone,hbody⟩,
          if_neg fun hc => Bool.false_ne_true (hc.2.symm.trans hbody)⟩
        exact offer_continued (by rw [hcontext,hhandler]; rfl)
    · rename_i w hwaiting
      have hsome : ¬s.waiting i=none := by
        rw [hwaiting]
        exact Option.some_ne_none w
      exact .inr (.inr ⟨rfl,if_neg fun hc => hsome hc.1,if_neg fun hc => hsome hc.1⟩)
  | part i upload_data =>
    rw [UploadedBodies.step,assemble]
    cases hwaiting : s.waiting i with
    | none => exact .inr (.inr ⟨rfl,rfl,rfl⟩)
    | some w =>
      obtain ⟨req,parts⟩ := w
      dsimp only
      obtain ⟨hawaited,hparts,hcontext⟩ := h.waiting i req parts hwaiting
      by_cases hpart : upload_data ≠ []
      · rw [if_pos hpart,if_pos hpart]
        have hall : ∀ part∈parts++[upload_data], part ≠ [] := by
          intro part hmem
          rcases List.mem_append.mp hmem with hmem | hmem
          · exact hparts part hmem
          · rwa [List.mem_singleton.mp hmem]
        have hjoined : (parts++[upload_data]).flatten=parts.flatten++upload_data := by
          rw [List.flatten_append,List.flatten_singleton]
        obtain ⟨guard,hhandler⟩ := id hawaited
        have hcall : handler credentials acts options req (s.con_cls i) upload_data s.state=
            (.continued (parts++[upload_data]).flatten,s.state) := by
          rw [hcontext,hhandler,handlePOST]
          dsimp only
          rw [if_pos hpart,hjoined]
        exact .inl ⟨i,req,parts++[upload_data],offer_continued hcall,hawaited,hall,rfl,rfl⟩
      · rw [if_neg hpart,if_neg hpart]
        exact .inr (.inr ⟨rfl,rfl,rfl⟩)
  | finish i =>
    rw [UploadedBodies.step,assemble,completes]
    cases hwaiting : s.waiting i with
    | none =>
      refine .inr (.inr ⟨rfl,?_,rfl⟩)
      rw [←hwaiting,Function.update_eq_self]
    | some w =>
      obtain ⟨req,parts⟩ := w
      dsimp only
      obtain ⟨hawaited,hparts,hcontext⟩ := h.waiting i req parts hwaiting
      have hserve := serve_parts hawaited s.state hparts
      obtain ⟨guard,hhandler⟩ := id hawaited
      obtain ⟨reply,state,hcall⟩ : ∃ reply state,
          handler credentials acts options req (some parts.flatten) [] s.state=
            (.served guard (routePOST req.url) reply,state) := by
        rw [hhandler,handlePOST]
        exact ⟨_,_,rfl⟩
      have hlast : handler credentials acts options req (s.con_cls i) [] s.state=
          (.served guard (routePOST req.url) reply,state) := by
        rw [hcontext]
        exact hcall
      exact .inr (.inl ⟨i,req,parts,_,state,
        offer_done hlast (fun data h => Outcome.noConfusion h),hserve.trans hcall,rfl,rfl⟩)

/-- Every call keeps this. -/
theorem Kept.step (h : Kept credentials acts options initial s) (e : Event) :
    Kept credentials acts options initial
      (UploadedBodies.step credentials acts options s e) := by
  rcases h.step_cases e with ⟨i,req,parts,hs,hawaited,hparts,-⟩ |
    ⟨i,req,parts,outcome,state,hs,hserve,-⟩ | ⟨hs,-⟩
  · rw [hs]
    exact h.continued i hawaited hparts
  · rw [hs]
    exact h.done i hserve
  · rwa [hs]

theorem kept_run (h : Kept credentials acts options initial s) (events : List Event) :
    Kept credentials acts options initial
      (runFrom (UploadedBodies.step credentials acts options) s events) :=
  (invariant_alongStates (fun _ e hs _ => hs.step e) h (alongSteps_true _ s events)).last

/-- The requests that wait and those that were answered are the ones that the events make up. -/
theorem Kept.histories (h : Kept credentials acts options initial s) (events : List Event) :
    (runFrom (UploadedBodies.step credentials acts options) s events).waiting=
      runFrom (assemble credentials options) s.waiting events ∧
    (runFrom (UploadedBodies.step credentials acts options) s events).answered.map Answered.asked=
      s.answered.map Answered.asked++outputs (assemble credentials options)
        (completes credentials options) s.waiting events := by
  induction events generalizing s with
  | nil => exact ⟨rfl,(List.append_nil _).symm⟩
  | cons e events ih =>
    obtain ⟨hwaiting,hanswered⟩ := ih (h.step e)
    rw [runFrom_cons,runFrom_cons,outputs_cons,hwaiting,hanswered]
    rcases h.step_cases e with ⟨i,req,parts,hs,-,-,hassemble,hcompletes⟩ |
      ⟨i,req,parts,outcome,state,hs,-,hassemble,hcompletes⟩ | ⟨hs,hassemble,hcompletes⟩
    · rw [hs,hassemble,hcompletes]
      exact ⟨rfl,rfl⟩
    · rw [hs,hassemble,hcompletes,List.map_append,List.append_assoc]
      exact ⟨rfl,rfl⟩
    · rw [hs,hassemble,hcompletes]
      exact ⟨rfl,rfl⟩

/-- Over every interleaving of the calls for any connections, the requests are answered, and the
service is left, as if each had been made at once when it was answered, with its own parts alone;
the answered requests are those that the events complete, and the parts of a body that is not
complete wait in their order in the context of its connection. -/
theorem requests_atomic (credentials : Bytes → Option Bytes×Option Bytes) (acts : Actions σ)
    (options : Options) (initial : σ) (events : List Event) :
    let s := runFrom (step credentials acts options) (Server.start initial) events
    replay credentials acts options initial s.answered=
      (s.answered.map Answered.outcome,s.state) ∧
    s.answered.map Answered.asked=
      outputs (assemble credentials options) (completes credentials options) (fun _ => none)
        events ∧
    s.waiting=runFrom (assemble credentials options) (fun _ => none) events ∧
    ∀ i req parts, s.waiting i=some (req,parts) → s.con_cls i=some parts.flatten := by
  intro s
  have hstart : Kept credentials acts options initial (Server.start initial) := kept_start initial
  have hkept : Kept credentials acts options initial s := kept_run hstart events
  obtain ⟨hwaiting,hanswered⟩ := hstart.histories events
  exact ⟨hkept.replayed,hanswered,hwaiting,fun i req parts h => (hkept.waiting i req parts h).2.2⟩

end XmrigCC.UploadedBodies
