import XmrigCC.JsonText
import XmrigCC.PoolClient
import XmrigCC.JsonValues

/-!
# Typed access to what a pool sends

`Client::parse` and what it calls, once more with every accessor they use. An
accessor is meant for values of one kind, `GetString` also for null; a null
string may be tested but not printed.
-/

namespace XmrigCC.PoolAccess

open ByteText MiningJob PoolMessages PoolClient
open JsonValues (Read)

/-- A string. -/
def isString : Json → Bool
  | .string _ => true
  | _ => false

/-- A string or null, the values on which `GetString` may be used. -/
def isText : Json → Bool
  | .string _ => true
  | .null => true
  | _ => false

/-- An integer of 32 bits, a value on which `GetInt` may be used. -/
def isInt : Json → Bool
  | .int64 value => decide (-0x80000000 ≤ value ∧ value<0x80000000)
  | _ => false

/-- `operator[]` with a member's name. -/
def member (v : Json) (name : Bytes) : Read Json := ⟨v.get name,v.isObject⟩

/-- `GetString`. -/
def getString (lib : RapidJson) (v : Json) : Read (Option Bytes) := ⟨lib.getString v,isText v⟩

/-- `GetString` of a member. -/
def memberString (lib : RapidJson) (v : Json) (name : Bytes) : Read (Option Bytes) := do
  getString lib (←member v name)

/-- `GetInt` of a value that is only printed. -/
def getInt (v : Json) : Read Unit := ⟨(),isInt v⟩

/-- A string printed without a test. -/
def print (s : Option Bytes) : Read Unit := ⟨(),s.isSome⟩

/-- `Client::parseJob`. -/
def parseJob (lib : RapidJson) (stale : Stale) (c : Client) (params : Json) :
    Read (Bool×Client) :=
  if params.isObject=false then pure (false,c)
  else do
    let id := JobId.setId (←memberString lib params (text "job_id"))
    if id.1=false then pure (false,c)
    else do
      let blob := Job.setBlob {Job.new stale.blob c.m_id c.m_url.m_nicehash with m_id := id.2}
        (←memberString lib params (text "blob"))
      if blob.1=false then pure (false,c)
      else do
        let job := Job.setTarget stale.target blob.2
          (←memberString lib params (text "target"))
        if job.1=false then pure (false,c)
        else if c.m_job.same job.2 then pure (false,c.close)
        else pure (true,{c with m_job := job.2})

/-- `Client::parseLogin`. -/
def parseLogin (lib : RapidJson) (stale : Stale) (c : Client) (result : Json) :
    Read (Bool×Client) := do
  match ←memberString lib result (text "id") with
  | none => pure (false,c)
  | some id =>
    if 64 ≤ id.length then pure (false,c)
    else do
      let job ← member result (text "job")
      parseJob lib stale {c with m_rpcId := id} job

/-- The message and the code of an error, printed unless `m_quiet` is set. -/
def printError (quiet : Bool) (message : Option Bytes) (error : Json) : Read Unit :=
  if quiet then pure ()
  else do
    print message
    getInt (←member error (text "code"))

/-- The share that a response with an error answers, or else its error printed. -/
def noteError (quiet : Bool) (c : Client) (id : ℤ) (message : Option Bytes) (error : Json) :
    Read Client :=
  match c.m_results.lookup id with
  | some noted => pure (c.answered id noted message)
  | none => do
    printError quiet message error
    pure c

/-- `Client::parseResponse`. -/
def parseResponse (lib : RapidJson) (stale : Stale) (quiet : Bool) (c : Client) (id : ℤ)
    (result error : Json) : Read Client :=
  if error.isObject then do
    let message ← memberString lib error (text "message")
    let next ← noteError quiet c id message error
    pure (if id=1 ∨ isCriticalError message then next.close else next)
  else if result.isObject=false then pure c
  else if id=1 then do
    let parsed ← parseLogin lib stale c result
    if parsed.1=false then pure parsed.2.close
    else
      pure {parsed.2 with
        m_failures := 0
        calls := parsed.2.calls++[.onLoginSuccess,.onJobReceived parsed.2.m_job]}
  else
    match c.m_results.lookup id with
    | some noted => pure (c.answered id noted none)
    | none => pure c

/-- `Client::parseNotification`. -/
def parseNotification (lib : RapidJson) (stale : Stale) (quiet : Bool) (c : Client)
    (method : Option Bytes) (params error : Json) : Read Client :=
  if error.isObject then do
    if quiet then pure c
    else do
      let message ← memberString lib error (text "message")
      printError quiet message error
      pure c
  else if method=some (text "job") then do
    let parsed ← parseJob lib stale c params
    if parsed.1 then
      pure {parsed.2 with calls := parsed.2.calls++[.onJobReceived parsed.2.m_job]}
    else pure parsed.2
  else pure c

/-- `Client::parse` of a line with its terminator. -/
def parse (lib : RapidJson) (stale : Stale) (quiet : Bool) (c : Client) (line : Bytes) :
    Read Client :=
  let c := c.startTimeout
  match lib.parseInsitu (cStr line.dropLast) with
  | none => pure c
  | some doc =>
    if doc.isObject=false then pure c
    else do
      match ←member doc (text "id") with
      | .int64 id => do
        let result ← member doc (text "result")
        let error ← member doc (text "error")
        parseResponse lib stale quiet c id result error
      | _ => do
        let params ← member doc (text "params")
        let error ← member doc (text "error")
        let method ← getString lib (←member doc (text "method"))
        parseNotification lib stale quiet c method params error

section Conditions

variable (lib : RapidJson) (stale : Stale) (quiet : Bool) (c : Client)

/-- The members of a job that are looked at can be looked at: each of them is a string or
null, unless an earlier one was refused. -/
def JobRead (params : Json) : Prop :=
  let id := JobId.setId (lib.getString (params.get (text "job_id")))
  let blob := Job.setBlob {Job.new stale.blob c.m_id c.m_url.m_nicehash with m_id := id.2}
    (lib.getString (params.get (text "blob")))
  params.isObject=true → isText (params.get (text "job_id"))=true ∧
    (id.1=true → isText (params.get (text "blob"))=true ∧
      (blob.1=true → isText (params.get (text "target"))=true))

/-- The members of a login can be looked at. -/
def LoginRead (result : Json) : Prop :=
  isText (result.get (text "id"))=true ∧
    ∀ id, lib.getString (result.get (text "id"))=some id → id.length<64 →
      JobRead lib stale c (result.get (text "job"))

/-- The members of an error can be printed. -/
def ErrorPrints (error : Json) : Prop :=
  isString (error.get (text "message"))=true ∧ isInt (error.get (text "code"))=true

/-- The members of a response that are looked at can be looked at. -/
def ResponseRead (id : ℤ) (result error : Json) : Prop :=
  if error.isObject then
    isText (error.get (text "message"))=true ∧
      (c.m_results.lookup id=none → quiet=false → ErrorPrints error)
  else result.isObject=true → id=1 → LoginRead lib stale c result

/-- The members of a notification that are looked at can be looked at. -/
def NotificationRead (method params error : Json) : Prop :=
  isText method=true ∧
    if error.isObject then quiet=false → ErrorPrints error
    else lib.getString method=some (text "job") → JobRead lib stale c params

/-- The members of an object that are looked at can be looked at. -/
def ObjectRead (doc : Json) : Prop :=
  match doc.get (text "id") with
  | .int64 id =>
    ResponseRead lib stale quiet c id (doc.get (text "result")) (doc.get (text "error"))
  | _ => NotificationRead lib stale quiet c (doc.get (text "method")) (doc.get (text "params"))
      (doc.get (text "error"))

end Conditions

section Reads

variable {lib : RapidJson} {stale : Stale} {quiet : Bool} {c : Client}

@[simp] theorem member_value (v : Json) (name : Bytes) : (member v name).value=v.get name := rfl

@[simp] theorem member_defined (v : Json) (name : Bytes) :
    (member v name).defined=v.isObject := rfl

@[simp] theorem getString_value (v : Json) : (getString lib v).value=lib.getString v := rfl

@[simp] theorem getString_defined (v : Json) : (getString lib v).defined=isText v := rfl

/-- What a reading yields and when it is defined. -/
structure Yields {α : Type} (r : Read α) (value : α) (condition : Prop) : Prop where
  /-- The value. -/
  value_eq : r.value=value
  /-- The condition. -/
  defined_iff : r.defined=true ↔ condition

theorem yields_pure {α : Type} (a : α) : Yields (pure a) a True :=
  ⟨rfl,iff_of_true rfl trivial⟩

/-- Reading on after a value. -/
theorem Yields.bind {α β : Type} {r : Read α} {a : α} {P : Prop} {f : α → Read β} {b : β}
    {Q : Prop} (hr : Yields r a P) (hf : Yields (f a) b Q) : Yields (r>>=f) b (P ∧ Q) := by
  obtain ⟨rfl,hr⟩ := hr
  exact ⟨hf.value_eq,by rw [Read.bind_defined,Bool.and_eq_true,hr,hf.defined_iff]⟩

/-- Reading on unless a test fails. -/
theorem Yields.unless {α : Type} {t : Prop} [Decidable t] {r : Read α} {a b : α} {P : Prop}
    (h : Yields r b P) : Yields (if t then pure a else r) (if t then a else b) (¬t → P) := by
  by_cases ht : t
  · rw [if_pos ht,if_pos ht]
    exact ⟨rfl,iff_of_true rfl fun hn => absurd ht hn⟩
  · rw [if_neg ht,if_neg ht]
    exact ⟨h.value_eq,h.defined_iff.trans ⟨fun hp _ => hp,fun hp => hp ht⟩⟩

/-- Either of two values. -/
theorem yields_choice {α : Type} {t : Prop} [Decidable t] (a b : α) :
    Yields (if t then pure a else pure b) (if t then a else b) True := by
  by_cases ht : t
  · rw [if_pos ht,if_pos ht]
    exact yields_pure a
  · rw [if_neg ht,if_neg ht]
    exact yields_pure b

/-- A condition may be replaced by an equivalent one. -/
theorem Yields.congr {α : Type} {r : Read α} {a : α} {P Q : Prop} (h : Yields r a P)
    (hPQ : P ↔ Q) : Yields r a Q := ⟨h.value_eq,h.defined_iff.trans hPQ⟩

/-- A member of an object is read as it is. -/
theorem yields_member {v : Json} (hv : v.isObject=true) (name : Bytes) :
    Yields (member v name) (v.get name) True := ⟨rfl,iff_of_true hv trivial⟩

/-- A member of an object used as a string. -/
theorem yields_memberString (lib : RapidJson) {v : Json} (hv : v.isObject=true) (name : Bytes) :
    Yields (memberString lib v name) (lib.getString (v.get name)) (isText (v.get name)=true) := by
  have hstring : Yields (getString lib (v.get name)) (lib.getString (v.get name))
      (isText (v.get name)=true) := ⟨rfl,Iff.rfl⟩
  exact ((yields_member hv name).bind hstring).congr (and_iff_right trivial)

theorem yields_parseJob (params : Json) :
    Yields (parseJob lib stale c params) (c.parseJob lib stale params)
      (JobRead lib stale c params) := by
  by_cases hobject : params.isObject=true
  · have hobject' : ¬params.isObject=false := by
      rw [hobject]
      exact Bool.noConfusion
    rw [parseJob,Client.parseJob,if_neg hobject',if_neg hobject']
    have hread : ∀ name, Yields (memberString lib params name) (lib.getString (params.get name))
        (isText (params.get name)=true) := yields_memberString lib hobject
    refine Yields.congr ((hread _).bind (Yields.unless ((hread _).bind (Yields.unless
      ((hread _).bind (Yields.unless (Yields.unless (yields_pure _)))))))) ?_
    simp only [JobRead,hobject,Bool.not_eq_false,implies_true,and_true,true_implies]
  · have hobject' : params.isObject=false := (Bool.not_eq_true _).mp hobject
    rw [parseJob,Client.parseJob,if_pos hobject',if_pos hobject']
    exact (yields_pure _).congr (iff_of_true trivial fun h => absurd h hobject)

theorem yields_parseLogin {result : Json} (hobject : result.isObject=true) :
    Yields (parseLogin lib stale c result) (c.parseLogin lib stale result)
      (LoginRead lib stale c result) := by
  unfold parseLogin Client.parseLogin LoginRead
  cases hid : lib.getString (result.get (text "id")) with
  | none =>
    have hread := yields_memberString lib hobject (text "id")
    rw [hid] at hread
    refine (hread.bind (yields_pure (false,c))).congr (and_congr_right fun _ => ?_)
    refine iff_of_true trivial ?_
    intro id hnone
    cases hnone
  | some id =>
    have hread := yields_memberString lib hobject (text "id")
    rw [hid] at hread
    refine (hread.bind (Yields.unless ((yields_member hobject (text "job")).bind
      (yields_parseJob _)))).congr (and_congr_right fun _ => ?_)
    rw [and_iff_right trivial,Nat.not_le]
    constructor
    · intro h id' hid' hlength
      obtain rfl := Option.some.inj hid'
      exact h hlength
    · intro h hlength
      exact h id rfl hlength

theorem isText_of_isString {v : Json} (h : isString v=true) : isText v=true := by
  cases v with
  | string _ => rfl
  | null => cases h
  | bool _ => cases h
  | int64 _ => cases h
  | number _ => cases h
  | array _ => cases h
  | object _ => cases h

/-- A string or null that is not null is a string. -/
theorem isSome_getString_iff {v : Json} (h : isText v=true) :
    (lib.getString v).isSome=true ↔ isString v=true := by
  cases v with
  | null => exact iff_of_false Bool.false_ne_true Bool.false_ne_true
  | string _ => exact iff_of_true rfl rfl
  | bool _ => cases h
  | int64 _ => cases h
  | number _ => cases h
  | array _ => cases h
  | object _ => cases h

theorem yields_printError {error : Json} (hobject : error.isObject=true)
    (message : Option Bytes) :
    Yields (printError quiet message error) ()
      (quiet=false → message.isSome=true ∧ isInt (error.get (text "code"))=true) := by
  have hprint : Yields (print message) () (message.isSome=true) := ⟨rfl,Iff.rfl⟩
  have hcode : Yields (getInt (error.get (text "code"))) ()
      (isInt (error.get (text "code"))=true) := ⟨rfl,Iff.rfl⟩
  have hboth := Yields.bind hprint (f:=fun _ => member error (text "code")>>=getInt)
    ((yields_member hobject (text "code")).bind hcode)
  refine (Yields.unless (t:=quiet=true) hboth).congr ?_
  rw [Bool.not_eq_true,and_iff_right trivial]

/-- Printing an error and going on with a value. -/
theorem yields_printed {error : Json} (hobject : error.isObject=true) (message : Option Bytes)
    (a : Client) :
    Yields (printError quiet message error>>=fun _ => pure a) a
      (quiet=false → message.isSome=true ∧ isInt (error.get (text "code"))=true) :=
  (Yields.bind (yields_printError hobject message) (f:=fun _ => pure a) (yields_pure a)).congr
    (and_iff_left trivial)

theorem yields_noteError {error : Json} (hobject : error.isObject=true) (id : ℤ)
    (message : Option Bytes) :
    Yields (noteError quiet c id message error)
      (match c.m_results.lookup id with
        | some noted => c.answered id noted message
        | none => c)
      (c.m_results.lookup id=none → quiet=false →
        message.isSome=true ∧ isInt (error.get (text "code"))=true) := by
  unfold noteError
  cases c.m_results.lookup id with
  | some noted =>
    refine (yields_pure _).congr (iff_of_true trivial ?_)
    intro hnone
    cases hnone
  | none => exact (yields_printed hobject message c).congr ⟨fun h _ => h,fun h => h rfl⟩

theorem yields_parseResponse (id : ℤ) (result error : Json) :
    Yields (parseResponse lib stale quiet c id result error)
      (c.parseResponse lib stale id result error)
      (ResponseRead lib stale quiet c id result error) := by
  unfold parseResponse Client.parseResponse ResponseRead
  by_cases herror : error.isObject=true
  · rw [if_pos herror,if_pos herror,if_pos herror]
    have hmessage := yields_memberString lib herror (text "message")
    refine Yields.congr (Yields.bind hmessage (Yields.bind (yields_noteError herror id _)
      (yields_pure _))) (and_congr_right ?_)
    intro htext
    rw [isSome_getString_iff htext,and_true,ErrorPrints]
  · rw [if_neg herror,if_neg herror,if_neg herror]
    by_cases hresult : result.isObject=true
    · have hresult' : ¬result.isObject=false := by
        rw [hresult]
        exact Bool.noConfusion
      rw [if_neg hresult',if_neg hresult']
      by_cases hid : id=1
      · rw [if_pos hid,if_pos hid]
        refine Yields.congr (Yields.bind (yields_parseLogin hresult) (yields_choice _ _)) ?_
        · rw [and_true]
          exact ⟨fun h _ _ => h,fun h => h hresult hid⟩
      · rw [if_neg hid,if_neg hid]
        have hvacuous : True ↔
            (result.isObject=true → id=1 → LoginRead lib stale c result) :=
          iff_of_true trivial fun _ h => absurd h hid
        cases c.m_results.lookup id with
        | some noted => exact (yields_pure _).congr hvacuous
        | none => exact (yields_pure _).congr hvacuous
    · have hresult' : result.isObject=false := (Bool.not_eq_true _).mp hresult
      rw [if_pos hresult',if_pos hresult']
      exact (yields_pure _).congr (iff_of_true trivial fun h => absurd h hresult)

theorem yields_parseNotification {method : Json} (params error : Json) :
    Yields (getString lib method>>=fun name =>
        parseNotification lib stale quiet c name params error)
      (c.parseNotification lib stale (lib.getString method) params error)
      (NotificationRead lib stale quiet c method params error) := by
  have hmethod : Yields (getString lib method) (lib.getString method) (isText method=true) :=
    ⟨rfl,Iff.rfl⟩
  refine Yields.bind hmethod ?_
  unfold parseNotification Client.parseNotification
  by_cases herror : error.isObject=true
  · rw [if_pos herror,if_pos herror,if_pos herror]
    cases quiet with
    | true => exact (yields_pure c).congr (iff_of_true trivial Bool.noConfusion)
    | false =>
      have hmessage := yields_memberString lib herror (text "message")
      refine Yields.congr (Yields.bind hmessage (yields_printed herror _ c)) ?_
      constructor
      · rintro ⟨htext,hprint⟩ _
        exact ⟨(isSome_getString_iff htext).mp (hprint rfl).1,(hprint rfl).2⟩
      · intro h
        have htext := isText_of_isString (h rfl).1
        exact ⟨htext,fun _ => ⟨(isSome_getString_iff htext).mpr (h rfl).1,(h rfl).2⟩⟩
  · rw [if_neg herror,if_neg herror,if_neg herror]
    by_cases hjob : lib.getString method=some (text "job")
    · rw [if_pos hjob,if_pos hjob]
      refine Yields.congr (Yields.bind (yields_parseJob params) (yields_choice _ _)) ?_
      · rw [and_true]
        exact ⟨fun h _ => h,fun h => h hjob⟩
    · rw [if_neg hjob,if_neg hjob]
      exact (yields_pure _).congr (iff_of_true trivial fun h => absurd h hjob)

/-- The members that a response is parsed from. -/
theorem yields_response {doc : Json} (hobject : doc.isObject=true) (id : ℤ) :
    Yields (member doc (text "result")>>=fun result => member doc (text "error")>>=fun error =>
        parseResponse lib stale quiet c id result error)
      (c.parseResponse lib stale id (doc.get (text "result")) (doc.get (text "error")))
      (ResponseRead lib stale quiet c id (doc.get (text "result")) (doc.get (text "error"))) := by
  have hread : ∀ name, Yields (member doc name) (doc.get name) True := yields_member hobject
  refine (Yields.bind (hread _) (Yields.bind (hread _) (yields_parseResponse id _ _))).congr ?_
  rw [true_and,true_and]

/-- The members that a notification is parsed from. -/
theorem yields_notification {doc : Json} (hobject : doc.isObject=true) :
    Yields (member doc (text "params")>>=fun params => member doc (text "error")>>=fun error =>
        member doc (text "method")>>=fun name => getString lib name>>=fun method =>
          parseNotification lib stale quiet c method params error)
      (c.parseNotification lib stale (lib.getString (doc.get (text "method")))
        (doc.get (text "params")) (doc.get (text "error")))
      (NotificationRead lib stale quiet c (doc.get (text "method")) (doc.get (text "params"))
        (doc.get (text "error"))) := by
  have hread : ∀ name, Yields (member doc name) (doc.get name) True := yields_member hobject
  refine (Yields.bind (hread _) (Yields.bind (hread _) (Yields.bind (hread _)
    (yields_parseNotification _ _)))).congr ?_
  rw [true_and,true_and,true_and]

end Reads

section Lines

variable (lib : RapidJson) (stale : Stale) (quiet : Bool) (c : Client) (line : Bytes)

/-- What a line may hold for its members to be looked at: any error of the parser, any
value that is no object, or an object that can be looked at. -/
def LineRead : Prop :=
  ∀ doc, lib.parseInsitu (cStr line.dropLast)=some doc → doc.isObject=true →
    ObjectRead lib stale quiet c doc

theorem yields_parse :
    Yields (parse lib stale quiet c line) (c.parse lib stale line)
      (LineRead lib stale quiet c.startTimeout line) := by
  unfold parse Client.parse LineRead
  cases hparsed : lib.parseInsitu (cStr line.dropLast) with
  | none =>
    refine (yields_pure _).congr (iff_of_true trivial ?_)
    intro doc hdoc
    cases hdoc
  | some doc =>
    dsimp only
    by_cases hobject : doc.isObject=true
    · have hobject' : ¬doc.isObject=false := by
        rw [hobject]
        exact Bool.noConfusion
      have hdoc : ObjectRead lib stale quiet c.startTimeout doc ↔
          ∀ doc', some doc=some doc' → doc'.isObject=true →
            ObjectRead lib stale quiet c.startTimeout doc' := by
        constructor
        · intro h doc' hdoc' _
          obtain rfl := Option.some.inj hdoc'
          exact h
        · intro h
          exact h doc rfl hobject
      rw [if_neg hobject',if_neg hobject']
      refine Yields.congr (Yields.bind (yields_member hobject (text "id")) ?_)
        ((and_iff_right trivial).trans hdoc)
      unfold ObjectRead
      cases doc.get (text "id") with
      | int64 id => exact yields_response hobject id
      | null => exact yields_notification hobject
      | bool _ => exact yields_notification hobject
      | number _ => exact yields_notification hobject
      | string _ => exact yields_notification hobject
      | array _ => exact yields_notification hobject
      | object _ => exact yields_notification hobject
    · have hobject' : doc.isObject=false := (Bool.not_eq_true _).mp hobject
      rw [if_pos hobject',if_pos hobject']
      refine (yields_pure _).congr (iff_of_true trivial ?_)
      intro doc' hdoc' h
      obtain rfl := Option.some.inj hdoc'
      exact absurd h hobject

end Lines

/-- Typed access to pool JSON. Parsing a line uses every accessor where it may be used and
prints no null string exactly when the line is no JSON object, or the members it looks at
are strings, null or integers where they have to be. -/
theorem pool_access_defined_iff (lib : RapidJson) (stale : Stale) (quiet : Bool) (c : Client)
    (line : Bytes) :
    (parse lib stale quiet c line).defined=true ↔ LineRead lib stale quiet c.startTimeout line :=
  (yields_parse lib stale quiet c line).defined_iff

/-- The library with its parser. -/
def reader : RapidJson := ⟨JsonText.parse,fun _ => [],fun _ => none⟩

/-- An error without message and code, for a request that the client does not wait for. -/
def bareError : Bytes := text "\x7b\"id\":7,\"error\":\x7b\x7d\x7d\n"

/-- A client that is not quiet. -/
def rig : Client :=
  Client.new 0 (text "rig") ⟨false,false,none,none⟩ (fun _ => 0) (fun _ => 0)

/-- Such an error makes the client print a null string and read null as an integer. -/
theorem bareError_not_defined :
    (reader.parseInsitu (cStr bareError.dropLast)).map Json.isObject=some true ∧
    (parse reader ⟨fun _ => 0,fun _ => 0⟩ false rig bareError).defined=false := by
  decide +kernel

end XmrigCC.PoolAccess
