import XmrigCC.ClientDisconnect

/-!
# Donation periods

`DonateStrategy` has a client of its own and one timer, which is armed once at a time: for
the time between two periods while it is idle, for the length of a period from the login
on. The end of a period disconnects the client, which does not reach a lookup that is
still pending.
-/

namespace XmrigCC.DonatePeriods

open ByteText CellMemory TransitionRuns MiningJob PoolMessages ReceiveBuffer ClientLines
open ClientSessions ClientDisconnect
open PoolClientPhases (Unresolved)
open PoolClient hiding step Permitted
open PoolClientLiveness (loginWriter)
open LoginResponses (LoginResponse parse_accepted zeroed)
open ReceiveBufferRuns (plainLibrary)

/-- `m_timer` while it is armed. -/
structure Timer where
  /-- Time at which it was started. -/
  started : ℕ
  /-- Milliseconds until it fires. -/
  length : ℕ

/-- `DonateStrategy` without its client. -/
structure DonateStrategy where
  /-- A period is going on. -/
  m_active : Bool
  /-- Milliseconds of a period. -/
  m_donateTime : ℕ
  /-- Milliseconds between periods. -/
  m_idleTime : ℕ
  /-- The timer. -/
  m_timer : Option Timer

namespace DonateStrategy

/-- `uv_timer_start` without a repetition, which replaces an armed timer. -/
def startTimer (d : DonateStrategy) (length now : ℕ) : DonateStrategy :=
  {d with m_timer := some ⟨now,length⟩}

/-- `DonateStrategy::idle`. -/
def idle (d : DonateStrategy) (now : ℕ) : DonateStrategy := d.startTimer d.m_idleTime now

/-- `DonateStrategy::DonateStrategy`, for a level of donation in percent. -/
def new (donateLevel now : ℕ) : DonateStrategy :=
  idle ⟨false,donateLevel*60*1000,(100-donateLevel)*60*1000,none⟩ now

/-- `DonateStrategy::onLoginSuccess`. -/
def onLoginSuccess (d : DonateStrategy) (now : ℕ) : DonateStrategy :=
  let d := if d.m_active=false then d.startTimer d.m_donateTime now else d
  {d with m_active := true}

/-- `DonateStrategy::suspend` after its client is disconnected. -/
def suspend (d : DonateStrategy) (now : ℕ) : DonateStrategy := idle {d with m_active := false} now

/-- What the strategy does on a call of its client: `onClose` does nothing, and the others pass
the call on. -/
def hear (now : ℕ) (d : DonateStrategy) : Call → DonateStrategy
  | .onLoginSuccess => d.onLoginSuccess now
  | .onClose _ => d
  | .onJobReceived _ => d
  | .onResultAccepted _ _ => d

/-- The timer has fired, so it is armed no more. -/
def expired (d : DonateStrategy) : DonateStrategy := {d with m_timer := none}

end DonateStrategy

/-- The strategy with its client. -/
structure Donation where
  /-- The strategy. -/
  strategy : DonateStrategy
  /-- The client and the lines of its read. -/
  session : Session
  /-- The time. -/
  now : ℕ

/-- Something that happens, at a time. The client gets its own readings of the clock with
its actions. -/
inductive Event where
  /-- A callback, a tick or a share of the client, or the next line of its read. -/
  | client (a : Action) (now : ℕ)
  /-- The timer fires; `r` is the result of `uv_getaddrinfo` if it connects. -/
  | timer (now : ℕ) (r : ℤ)

/-- The time of an event. -/
def Event.now : Event → ℕ
  | .client _ now => now
  | .timer now _ => now

/-- `DonateStrategy::onTimer`. -/
def onTimer (lib : RapidJson) (recvLib : RecvLibrary) (d : Donation) (now : ℕ) (r : ℤ) :
    Donation :=
  if d.strategy.m_active=false then
    ⟨d.strategy.expired,ClientSessions.step lib recvLib d.session (.connect r),now⟩
  else
    ⟨d.strategy.expired.suspend now,ClientSessions.step lib recvLib d.session .disconnect,now⟩

/-- One event. -/
def step (lib : RapidJson) (recvLib : RecvLibrary) (d : Donation) : Event → Donation
  | .client a now =>
    let s := ClientSessions.step lib recvLib d.session a
    ⟨(newCalls d.session.client s.client).foldl (DonateStrategy.hear now) d.strategy,s,now⟩
  | .timer now r => onTimer lib recvLib d now r

/-- Time goes on. The client acts with defined behaviour and is connected and disconnected by
the strategy only; the timer fires when it is due, and no read is in progress then. -/
def Permitted (d : Donation) : Event → Prop
  | .client a now => d.now ≤ now ∧ ClientSessions.Defined d.session a ∧ Unprompted a
  | .timer now _ =>
    d.now ≤ now ∧ (∃ t∈d.strategy.m_timer, t.started+t.length ≤ now) ∧ d.session.rest=[] ∧
      d.session.client.corrupted=false

/-- The donation with what has happened to it. -/
structure History where
  /-- The donation. -/
  donation : Donation
  /-- The timer has fired while no period was going on, since the last one or since the
  construction. -/
  fired : Bool
  /-- Time at which the last period ended. -/
  ended : Option ℕ
  /-- Time at which the last period began. -/
  began : ℕ

namespace History

/-- A period is going on. -/
def active (h : History) : Bool := h.donation.strategy.m_active

/-- One event. A timer that fires in a period ends it. -/
def step (lib : RapidJson) (recvLib : RecvLibrary) (h : History) (e : Event) : History where
  donation := DonatePeriods.step lib recvLib h.donation e
  fired := match e with
    | .client _ _ => h.fired
    | .timer _ _ => !h.active
  ended := match e with
    | .client _ _ => h.ended
    | .timer now _ => if h.active then some now else h.ended
  began :=
    if h.active=false ∧ (DonatePeriods.step lib recvLib h.donation e).strategy.m_active=true then
      e.now
    else h.began

end History

/-- A donation that has just been constructed. -/
def newHistory (donateLevel now : ℕ) (agent : Bytes) (url : Url) (retryPause : ℤ)
    (buf blob : Cells UInt8) : History :=
  ⟨⟨.new donateLevel now,⟨{Client.new (-1) agent url buf blob with m_retryPause := retryPause},[]⟩,
    now⟩,false,none,0⟩

/-- A period begins only after the timer has fired, and the idle time has passed since the
end of the last one. -/
def Separated (lib : RapidJson) (recvLib : RecvLibrary) (h : History) (e : Event) : Prop :=
  h.active=false → (h.step lib recvLib e).active=true →
    h.fired=true ∧ ∀ t∈h.ended, t+h.donation.strategy.m_idleTime ≤ e.now

/-- In a period the timer is the one of its length that was started when it began. -/
def Timed (h : History) : Prop :=
  h.active=true →
    h.donation.strategy.m_timer=some ⟨h.began,h.donation.strategy.m_donateTime⟩

/-- No lookup that is pending at the end of a period succeeds before the timer fires. -/
def NoLateLookup (h : History) : Event → Prop
  | .client (.event (.resolved status families _ _)) _ =>
    h.active=false → h.fired=false → Unresolved status families
  | _ => True

section Strategy

variable {d : DonateStrategy} {now : ℕ}

/-- In a period no call changes anything. -/
theorem hear_active (hd : d.m_active=true) (call : Call) : d.hear now call=d := by
  cases call with
  | onLoginSuccess =>
    have hidle : ¬d.m_active=false := by
      rw [hd]
      exact Bool.noConfusion
    rw [DonateStrategy.hear,DonateStrategy.onLoginSuccess,if_neg hidle,←hd]
  | onClose failures => rfl
  | onJobReceived job => rfl
  | onResultAccepted noted error => rfl

theorem hearAll_active (hd : d.m_active=true) (now : ℕ) (calls : List Call) :
    calls.foldl (DonateStrategy.hear now) d=d := by
  induction calls with
  | nil => rfl
  | cons call calls ih => rw [List.foldl_cons,hear_active hd,ih]

/-- The strategy at the beginning of a period. -/
def begun (d : DonateStrategy) (now : ℕ) : DonateStrategy :=
  {d with m_active := true,m_timer := some ⟨now,d.m_donateTime⟩}

/-- Between periods only a login changes something, and it begins one. -/
theorem hearAll_idle (hd : d.m_active=false) (now : ℕ) (calls : List Call) :
    calls.foldl (DonateStrategy.hear now) d=d ∧ .onLoginSuccess∉calls ∨
    calls.foldl (DonateStrategy.hear now) d=begun d now ∧ .onLoginSuccess∈calls := by
  induction calls with
  | nil => exact Or.inl ⟨rfl,List.not_mem_nil⟩
  | cons call calls ih =>
    rw [List.foldl_cons]
    cases call with
    | onLoginSuccess =>
      have hbegun : d.hear now .onLoginSuccess=begun d now := by
        rw [DonateStrategy.hear,DonateStrategy.onLoginSuccess,if_pos hd]
        rfl
      rw [hbegun,hearAll_active rfl]
      exact Or.inr ⟨rfl,List.mem_cons_self⟩
    | onClose failures => simpa [DonateStrategy.hear] using ih
    | onJobReceived job => simpa [DonateStrategy.hear] using ih
    | onResultAccepted noted error => simpa [DonateStrategy.hear] using ih

end Strategy

section Runs

variable {lib : RapidJson} {recvLib : RecvLibrary}

/-- A disconnected client is dormant. -/
theorem dormant_disconnect {c : Client} (h : Wired c) : Dormant c.disconnect := by
  have hcleared : Wired {c with m_keepAliveTimer := false,m_expire := 0,m_failures := -1} :=
    h.of_connection rfl rfl
  refine ⟨?_,hcleared.close_state,hcleared.close_socket,Or.inl ?_⟩
  · rw [Client.disconnect,close_m_expire]
  · rw [Client.disconnect,close_m_failures]

/-- What holds between all events. -/
structure Orderly (h : History) : Prop where
  /-- State and socket of the client fit together. -/
  wired : Wired h.donation.session.client
  /-- In a period the timer is the one of the period. -/
  timed : Timed h
  /-- Until it fires, the timer is the one that was started at the end of the last period. -/
  idle : h.active=false → h.fired=false → ∃ t, h.donation.strategy.m_timer=some t ∧
    t.length=h.donation.strategy.m_idleTime ∧ ∀ e∈h.ended, e=t.started
  /-- Until then no read is in progress. -/
  rest : h.active=false → h.fired=false → h.donation.session.rest=[]
  /-- Until then the client is dormant. -/
  dormant : h.active=false → h.fired=false → Dormant h.donation.session.client
  /-- Once it has fired, the idle time has passed. -/
  waited : h.fired=true → ∀ e∈h.ended, e+h.donation.strategy.m_idleTime ≤ h.donation.now

variable {h : History} {now : ℕ}

/-- An action of the client in a period leaves the strategy alone. -/
theorem client_active (hactive : h.active=true) (a : Action) :
    h.step lib recvLib (.client a now)=
      ⟨⟨h.donation.strategy,ClientSessions.step lib recvLib h.donation.session a,now⟩,h.fired,
        h.ended,h.began⟩ := by
  have hstrategy := hearAll_active hactive now
    (newCalls h.donation.session.client
      (ClientSessions.step lib recvLib h.donation.session a).client)
  simp only [History.step,DonatePeriods.step,hstrategy,hactive,Bool.true_eq_false,false_and,
    if_false]

/-- An action of the client between periods leaves the strategy alone too, unless a login is
reported, which begins a period. -/
theorem client_idle (lib : RapidJson) (recvLib : RecvLibrary) (hidle : h.active=false) (now : ℕ)
    (a : Action) :
    (.onLoginSuccess∉newCalls h.donation.session.client
          (ClientSessions.step lib recvLib h.donation.session a).client ∧
        h.step lib recvLib (.client a now)=
          ⟨⟨h.donation.strategy,ClientSessions.step lib recvLib h.donation.session a,now⟩,
            h.fired,h.ended,h.began⟩) ∨
      (.onLoginSuccess∈newCalls h.donation.session.client
          (ClientSessions.step lib recvLib h.donation.session a).client ∧
        h.step lib recvLib (.client a now)=
          ⟨⟨begun h.donation.strategy now,ClientSessions.step lib recvLib h.donation.session a,
            now⟩,h.fired,h.ended,now⟩) := by
  have hoff : h.donation.strategy.m_active=false := hidle
  rcases hearAll_idle hidle now (newCalls h.donation.session.client
    (ClientSessions.step lib recvLib h.donation.session a).client) with
    ⟨hsame,hquiet⟩|⟨hbegun,hlogin⟩
  · left
    exact ⟨hquiet,by simp only [History.step,DonatePeriods.step,hsame,hoff,Bool.false_eq_true,
      and_false,if_false]⟩
  · right
    have hon : (begun h.donation.strategy now).m_active=true := rfl
    exact ⟨hlogin,by simp only [History.step,DonatePeriods.step,hbegun,hon,hidle,and_self,
      if_true,Event.now]⟩

/-- The timer that fires between periods connects the client. -/
theorem timer_idle (hidle : h.active=false) (r : ℤ) :
    h.step lib recvLib (.timer now r)=
      ⟨⟨h.donation.strategy.expired,
        ClientSessions.step lib recvLib h.donation.session (.connect r),now⟩,true,h.ended,
        h.began⟩ := by
  have hoff : h.donation.strategy.expired.m_active=false := hidle
  have htimer : onTimer lib recvLib h.donation now r=⟨h.donation.strategy.expired,
      ClientSessions.step lib recvLib h.donation.session (.connect r),now⟩ := if_pos hidle
  simp only [History.step,DonatePeriods.step,htimer,hoff,hidle,Bool.not_false,Bool.false_eq_true,
    and_false,if_false]

/-- The timer that fires in a period ends it. -/
theorem timer_active (hactive : h.active=true) (r : ℤ) :
    h.step lib recvLib (.timer now r)=
      ⟨⟨h.donation.strategy.expired.suspend now,
        ClientSessions.step lib recvLib h.donation.session .disconnect,now⟩,false,some now,
        h.began⟩ := by
  have hgoing : ¬h.donation.strategy.m_active=false := fun hidle =>
    Bool.noConfusion (hactive.symm.trans hidle)
  have htimer : onTimer lib recvLib h.donation now r=⟨h.donation.strategy.expired.suspend now,
      ClientSessions.step lib recvLib h.donation.session .disconnect,now⟩ := if_neg hgoing
  simp only [History.step,DonatePeriods.step,htimer,hactive,Bool.not_true,Bool.true_eq_false,
    false_and,if_false,if_true]

/-- The client stays dormant while the strategy waits for its timer, and reports no login. -/
theorem Orderly.waiting (ho : Orderly h) (hidle : h.active=false) (hfired : h.fired=false)
    {a : Action} (hp : Permitted h.donation (.client a now))
    (hlate : NoLateLookup h (.client a now)) :
    (ClientSessions.step lib recvLib h.donation.session a).rest=[] ∧
      Stays h.donation.session.client
        (ClientSessions.step lib recvLib h.donation.session a).client := by
  obtain ⟨-,⟨hpermitted,-⟩,hunprompted⟩ := hp
  have hrest : h.donation.session=⟨h.donation.session.client,[]⟩ := by
    rw [←ho.rest hidle hfired]
  cases a with
  | connect r => exact hunprompted.elim
  | disconnect => exact hunprompted.elim
  | line => exact absurd (ho.rest hidle hfired) hpermitted.2
  | event e =>
    rw [hrest] at hpermitted ⊢
    refine dormant_event lib recvLib (ho.dormant hidle hfired) hpermitted ?_
    rintro status families r now' rfl
    exact hlate hidle hfired

/-- A period begins only after the timer has fired and the idle time has passed. -/
theorem Orderly.separated (ho : Orderly h) {e : Event} (hp : Permitted h.donation e)
    (hlate : NoLateLookup h e) : Separated lib recvLib h e := by
  intro hidle hbegins
  cases e with
  | timer now r =>
    rw [timer_idle hidle,History.active] at hbegins
    exact Bool.noConfusion (hidle.symm.trans hbegins)
  | client a now =>
    rcases client_idle lib recvLib hidle now a with ⟨-,hsame⟩|⟨hlogin,-⟩
    · rw [hsame] at hbegins
      exact Bool.noConfusion (hidle.symm.trans hbegins)
    · have hfired : h.fired=true := by
        by_contra hnot
        have hwaits : h.fired=false := (Bool.not_eq_true _).mp hnot
        exact (ho.waiting hidle hwaits hp hlate).2.silent.newCalls hlogin
      refine ⟨hfired,?_⟩
      intro t ht
      exact (ho.waited hfired t ht).trans hp.1

/-- Every event keeps the donation orderly. -/
theorem orderly_step (ho : Orderly h) {e : Event} (hp : Permitted h.donation e)
    (hlate : NoLateLookup h e) : Orderly (h.step lib recvLib e) := by
  cases e with
  | timer now r =>
    obtain ⟨htime,⟨t,ht,hdue⟩,hrest,hintact⟩ := hp
    by_cases hactive : h.active=true
    · rw [timer_active hactive]
      refine ⟨ho.wired.disconnect,fun h => (nomatch h),fun _ _ => ⟨_,rfl,rfl,?_⟩,fun _ _ => hrest,
        fun _ _ => dormant_disconnect ho.wired,fun h => (nomatch h)⟩
      intro e he
      exact (Option.some.inj he).symm
    · have hidle : h.active=false := (Bool.not_eq_true _).mp hactive
      rw [timer_idle hidle]
      refine ⟨ho.wired.resolve r,fun h => absurd h hactive,fun _ h => (nomatch h),
        fun _ h => (nomatch h),fun _ h => (nomatch h),fun _ e he => ?_⟩
      by_cases hfired : h.fired=true
      · exact (ho.waited hfired e he).trans htime
      · obtain ⟨t',ht',hlength,hstarted⟩ := ho.idle hidle ((Bool.not_eq_true _).mp hfired)
        obtain rfl : t=t' := Option.some.inj (ht.symm.trans ht')
        rw [hstarted e he]
        change t.started+h.donation.strategy.m_idleTime ≤ now
        rw [←hlength]
        exact hdue
  | client a now =>
    have hwired : Wired (ClientSessions.step lib recvLib h.donation.session a).client :=
      wired_step recvLib ho.wired hp.2.1.1
    have hwaited : ∀ e∈h.ended, h.fired=true → e+h.donation.strategy.m_idleTime ≤ now :=
      fun e he hfired => (ho.waited hfired e he).trans hp.1
    by_cases hactive : h.active=true
    · rw [client_active hactive]
      exact ⟨hwired,ho.timed,fun h => absurd (hactive.symm.trans h) Bool.noConfusion,
        fun h => absurd (hactive.symm.trans h) Bool.noConfusion,
        fun h => absurd (hactive.symm.trans h) Bool.noConfusion,
        fun hfired e he => hwaited e he hfired⟩
    · have hidle : h.active=false := (Bool.not_eq_true _).mp hactive
      rcases client_idle lib recvLib hidle now a with ⟨-,hsame⟩|⟨-,hbegun⟩
      · rw [hsame]
        exact ⟨hwired,fun h => absurd h hactive,ho.idle,
          fun _ hfired => (ho.waiting hidle hfired hp hlate).1,
          fun _ hfired => (ho.waiting hidle hfired hp hlate).2.dormant,
          fun hfired e he => hwaited e he hfired⟩
      · rw [hbegun]
        exact ⟨hwired,fun _ => rfl,fun h => (nomatch h),fun h => (nomatch h),fun h => (nomatch h),
          fun hfired e he => hwaited e he hfired⟩

theorem orderly_new (donateLevel now : ℕ) (agent : Bytes) (url : Url) (retryPause : ℤ)
    (buf blob : Cells UInt8) :
    Orderly (newHistory donateLevel now agent url retryPause buf blob) := by
  have hwired := (wired_new (-1) agent url buf blob).of_connection (d:={Client.new (-1) agent url
    buf blob with m_retryPause := retryPause}) rfl rfl
  refine ⟨hwired,fun h => (nomatch h),fun _ _ => ⟨_,rfl,rfl,fun e he => (nomatch he)⟩,
    fun _ _ => rfl,
    fun _ _ => ⟨rfl,fun h => (nomatch h),fun k hk => (nomatch hk),Or.inr ⟨rfl,rfl⟩⟩,
    fun h => (nomatch h)⟩

/-- Donation periods. In every run of a donation in which no lookup that is pending at the
end of a period succeeds before the timer fires, a period begins only after the timer has
fired since the last one ended, at least the idle time after that, and in a period the timer
is the one that ends it, started when it began. -/
theorem periods_separated {lib : RapidJson} {recvLib : RecvLibrary} {donateLevel start : ℕ}
    {agent : Bytes} {url : Url} {retryPause : ℤ} {buf blob : Cells UInt8} {events : List Event}
    (hpermitted : AlongSteps (History.step lib recvLib) (fun h e => Permitted h.donation e)
      (newHistory donateLevel start agent url retryPause buf blob) events)
    (hlate : AlongSteps (History.step lib recvLib) NoLateLookup
      (newHistory donateLevel start agent url retryPause buf blob) events) :
    AlongSteps (History.step lib recvLib) (Separated lib recvLib)
        (newHistory donateLevel start agent url retryPause buf blob) events ∧
      AlongStates (History.step lib recvLib) Timed
        (newHistory donateLevel start agent url retryPause buf blob) events := by
  have hboth := alongSteps_and hpermitted hlate
  have hnew := orderly_new donateLevel start agent url retryPause buf blob
  have hall : AlongStates (History.step lib recvLib) Orderly
      (newHistory donateLevel start agent url retryPause buf blob) events :=
    invariant_alongStates (fun h e ho he => orderly_step ho he.1 he.2) hnew hboth
  refine ⟨?_,hall.imp fun h ho => ho.timed⟩
  exact alongSteps_of_invariant (I:=Orderly)
    (fun h e ho he => orderly_step ho he.1 he.2) (fun h e ho he => ho.separated he.1 he.2)
    hnew hboth

end Runs

section Late

/-- The job in a response, under an identifier. -/
def answerParams (id : Bytes) : Json :=
  .object [(text "job_id",.string id),(text "blob",.string (List.replicate 152 48)),
    (text "target",.string (text "ffffff00"))]

/-- A response with that job, without its terminator. -/
@[irreducible] def answerText (id : Bytes) : Bytes :=
  text "\x7b\"id\":1,\"result\":\x7b\"id\":\"a\",\"job\":\x7b\"job_id\":\""++id++
    text "\",\"blob\":\""++List.replicate 152 48++text "\",\"target\":\"ffffff00\"\x7d\x7d\x7d"

/-- The value of that text. -/
def answerDoc (id : Bytes) : Json :=
  .object [(text "id",.int64 1),
    (text "result",.object [(text "id",.string (text "a")),(text "job",answerParams id)])]

/-- The library on the responses with the jobs 1 and 2. -/
def answerReader : RapidJson :=
  {loginWriter with parseInsitu := fun line =>
    if line=answerText (text "1") then some (answerDoc (text "1"))
    else if line=answerText (text "2") then some (answerDoc (text "2")) else none}

/-- One of the two identifiers. -/
def Known (id : Bytes) : Prop := id=text "1" ∨ id=text "2"

variable {id : Bytes}

/-- The response is one line of text, and leaves room in `m_buf`. -/
theorem answerText_line (h : Known id) : cStr (answerText id)=answerText id ∧
    newline∉answerText id ∧ (answerText id).length+9 ≤ bufSize := by
  rcases h with rfl|rfl <;> decide +kernel

theorem parse_answerText (h : Known id) :
    answerReader.parseInsitu (cStr (answerText id++[newline]).dropLast)=some (answerDoc id) := by
  rw [List.dropLast_concat,(answerText_line h).1]
  rcases h with rfl|rfl
  · exact if_pos rfl
  · have hne : answerText (text "2") ≠ answerText (text "1") := by decide +kernel
    exact (if_neg hne).trans (if_pos rfl)

/-- The job in an answer is accepted. -/
theorem answer_job (h : Known id) :
    ∃ job, jobOf answerReader zeroed (-1) false (answerParams id)=some job ∧
      job.m_id=(JobId.setId (some id)).2 := by
  rcases h with rfl|rfl
  · obtain ⟨job,hjob⟩ : ∃ job, jobOf answerReader zeroed (-1) false (answerParams (text "1"))=
        some job := Option.isSome_iff_exists.mp (by decide +kernel)
    exact ⟨job,hjob,(jobOf_identity answerReader zeroed hjob).2⟩
  · obtain ⟨job,hjob⟩ : ∃ job, jobOf answerReader zeroed (-1) false (answerParams (text "2"))=
        some job := Option.isSome_iff_exists.mp (by decide +kernel)
    exact ⟨job,hjob,(jobOf_identity answerReader zeroed hjob).2⟩

/-- A client that has logged in. -/
def loggedIn (c : Client) (buf : Cells UInt8) (name : Bytes) (job : Job) : Client :=
  {Client.startTimeout {c with recv := ⟨buf,0⟩} with
    m_rpcId := name,m_job := job,m_failures := 0
    calls := c.calls++[.onLoginSuccess,.onJobReceived job]}

/-- The response of a job that the client does not have arrives in one read, and its line is
a login. -/
theorem answer_steps (h : Known id) {c : Client} (hpos : c.recv.m_recvBufPos=0)
    (hid : c.m_id=-1) (hurl : c.m_url.m_nicehash=false)
    (hnew : c.m_job.m_id ≠ (JobId.setId (some id)).2) :
    ∃ buf name job, job.m_id=(JobId.setId (some id)).2 ∧
      ClientSessions.step answerReader plainLibrary ⟨c,[]⟩
          (.event (.read (fun _ => 0) (.data (answerText id++[newline])) fun _ => zeroed))=
        ⟨{c with recv := ⟨buf,0⟩},[(answerText id++[newline],zeroed)]⟩ ∧
      ClientSessions.step answerReader plainLibrary
          ⟨{c with recv := ⟨buf,0⟩},[(answerText id++[newline],zeroed)]⟩ .line=
        ⟨loggedIn c buf name job,[]⟩ := by
  obtain ⟨-,hline,hlength⟩ := answerText_line h
  obtain ⟨job,hjob,hjobId⟩ := answer_job h
  obtain ⟨buf,hread⟩ := beginRead_line plainLibrary hpos hline hlength (fun _ => 0) fun _ => zeroed
  have hother : c.m_job.same job=false := by
    rw [←hjobId] at hnew
    rw [Job.same,decide_eq_false hnew,Bool.false_and]
  have hresponse : LoginResponse answerReader zeroed {c with recv := ⟨buf,0⟩} (answerDoc id)
      job := by
    refine ⟨rfl,rfl,rfl,rfl,⟨text "a",rfl,by decide +kernel⟩,?_⟩
    rw [hid,hurl]
    exact hjob
  obtain ⟨name,hparse⟩ := parse_accepted (parse_answerText h) hresponse hother
  refine ⟨buf,name,job,hjobId,hread,?_⟩
  change (⟨_,[]⟩ : Session)=_
  rw [hparse]
  rfl

/-- A donation of 5 minutes in 100. -/
def fresh : History :=
  newHistory 5 0 (text "rig") ⟨false,false,none,none⟩ 5000 (fun _ => 0) fun _ => 0

/-- The timer fires for the first time, and the client connects. -/
def opening : List Event :=
  [.timer 5700000 0,.client (.event (.resolved 0 [2] 0 5700100)) 5700100,
    .client (.event (.connected 0 ⟨true,90⟩ 5700101)) 5700101]

/-- A response arrives, at some time. -/
def answer (id : Bytes) (now : ℕ) : Event :=
  .client (.event (.read (fun _ => 0) (.data (answerText id++[newline])) fun _ => zeroed)) now

/-- The connection is lost late in the period, which ends while the client looks the pool up
again; then it connects. -/
def reopening : List Event :=
  [.client (.event (.read (fun _ => 0) (.failed 4094) fun _ => zeroed)) 5994000,
    .client (.event (.closed 5994001)) 5994001,.client (.event (.tick 6000100 0)) 6000100,
    .timer 6000200 0,.client (.event (.resolved 0 [2] 0 6000300)) 6000300,
    .client (.event (.connected 0 ⟨true,90⟩ 6000301)) 6000301]

/-- The client that has sent its first login. -/
def openedDonor : Client :=
  (((Client.new (-1) (text "rig") ⟨false,false,none,none⟩ (fun _ => 0) fun _ => 0).connect
    0).onResolved 0 [2] 0 5700100).onConnect answerReader 0 ⟨true,90⟩ 5700101

/-- The donation then. -/
def opened : History := ⟨⟨(DonateStrategy.new 5 0).expired,⟨openedDonor,[]⟩,5700101⟩,true,none,0⟩

/-- The donation after the first login. -/
def active (buf : Cells UInt8) (name : Bytes) (job : Job) : History :=
  ⟨⟨begun (DonateStrategy.new 5 0).expired 5700200,⟨loggedIn openedDonor buf name job,[]⟩,
    5700200⟩,true,none,5700200⟩

theorem opening_run :
    AlongSteps (History.step answerReader plainLibrary) (fun h e => Permitted h.donation e) fresh
      opening ∧
    runFrom (History.step answerReader plainLibrary) fresh opening=opened := by
  refine ⟨⟨⟨by decide,⟨_,rfl,by decide⟩,rfl,rfl⟩,
    ⟨by decide,⟨⟨rfl,rfl,Nat.one_pos,trivial⟩,fun _ => rfl⟩,trivial⟩,
    ⟨by decide,⟨⟨rfl,rfl,⟨_,rfl,rfl⟩,?_⟩,trivial⟩,trivial⟩,trivial⟩,rfl⟩
  rintro ⟨k,⟨⟩,hclosing⟩
  cases hclosing

/-- Such a response is permitted when the client reads and has room for it. -/
theorem answer_permitted {h : History} (hid : Known id) {c : Client} {now : ℕ}
    (hsession : h.donation.session=⟨c,[]⟩) (hnow : h.donation.now ≤ now)
    (hintact : c.corrupted=false) (hreading : ∃ k∈c.m_socket, k.reading=true)
    (hpos : c.recv.m_recvBufPos=0) : Permitted h.donation (answer id now) := by
  have hlength : (answerText id++[newline]).length ≤ bufSize := by
    have hfits := (answerText_line hid).2.2
    rw [List.length_append,List.length_singleton]
    omega
  change h.donation.now ≤ now ∧ ClientSessions.Defined h.donation.session _ ∧ _
  rw [hsession]
  refine ⟨hnow,⟨⟨hintact,rfl,⟨hreading,?_⟩,trivial⟩,trivial⟩,trivial⟩
  change c.recv.m_recvBufPos+_ ≤ _
  rw [hpos,Nat.zero_add]
  exact hlength

/-- A response that is read, and its line. -/
def login (id : Bytes) (now : ℕ) : List Event := [answer id now,.client .line now]

/-- A client without a job of this identifier that reads and has room for the response. -/
structure Ready (h : History) (c : Client) (id : Bytes) : Prop where
  /-- No period is going on. -/
  idle : h.active=false
  /-- No read is in progress. -/
  session : h.donation.session=⟨c,[]⟩
  /-- The client is intact. -/
  intact : c.corrupted=false
  /-- It reads. -/
  reading : ∃ k∈c.m_socket, k.reading=true
  /-- Nothing is retained. -/
  pos : c.recv.m_recvBufPos=0
  /-- It is the client of the donation. -/
  donor : c.m_id=-1 ∧ c.m_url.m_nicehash=false
  /-- Its job is another one. -/
  job : c.m_job.m_id ≠ (JobId.setId (some id)).2

/-- Between periods the login of such a client is permitted and begins a period. -/
theorem login_run (hid : Known id) {h : History} {c : Client} (hr : Ready h c id) {now : ℕ}
    (hnow : h.donation.now ≤ now) :
    ∃ buf name job, job.m_id=(JobId.setId (some id)).2 ∧
      AlongSteps (History.step answerReader plainLibrary) (fun h e => Permitted h.donation e) h
        (login id now) ∧
      runFrom (History.step answerReader plainLibrary) h (login id now)=
        ⟨⟨begun h.donation.strategy now,⟨loggedIn c buf name job,[]⟩,now⟩,h.fired,h.ended,now⟩ ∧
      (AlongSteps (History.step answerReader plainLibrary) (Separated answerReader plainLibrary) h
        (login id now) → h.fired=true) := by
  obtain ⟨buf,name,job,hjob,hread,hline⟩ := answer_steps hid hr.pos hr.donor.1 hr.donor.2 hr.job
  have hquiet : newCalls c {c with recv := ⟨buf,0⟩}=[] := newCalls_same rfl
  have hcalls : newCalls ({c with recv := ⟨buf,0⟩} : Client) (loggedIn c buf name job)=
      [.onLoginSuccess,.onJobReceived job] := newCalls_append rfl
  have hfirst : h.step answerReader plainLibrary (answer id now)=
      ⟨⟨h.donation.strategy,⟨{c with recv := ⟨buf,0⟩},[(answerText id++[newline],zeroed)]⟩,now⟩,
        h.fired,h.ended,h.began⟩ := by
    rcases client_idle answerReader plainLibrary hr.idle now
      (.event (.read (fun _ => 0) (.data (answerText id++[newline])) fun _ => zeroed)) with
      ⟨-,hsame⟩|⟨hlogin,-⟩
    · rw [hr.session,hread] at hsame
      exact hsame
    · rw [hr.session,hread,hquiet] at hlogin
      cases hlogin
  have hsecond : History.step answerReader plainLibrary
      ⟨⟨h.donation.strategy,⟨{c with recv := ⟨buf,0⟩},[(answerText id++[newline],zeroed)]⟩,now⟩,
        h.fired,h.ended,h.began⟩ (.client .line now)=
      ⟨⟨begun h.donation.strategy now,⟨loggedIn c buf name job,[]⟩,now⟩,h.fired,h.ended,now⟩ := by
    rcases client_idle (h:=⟨⟨h.donation.strategy,⟨{c with recv := ⟨buf,0⟩},
      [(answerText id++[newline],zeroed)]⟩,now⟩,h.fired,h.ended,h.began⟩) answerReader
      plainLibrary hr.idle now .line with ⟨hquiet,-⟩|⟨-,hbegun⟩
    · dsimp only at hquiet
      rw [hline,hcalls] at hquiet
      exact absurd List.mem_cons_self hquiet
    · dsimp only at hbegun
      rw [hline] at hbegun
      exact hbegun
  refine ⟨buf,name,job,hjob,?_,?_,?_⟩
  · refine ⟨answer_permitted hid hr.session hnow hr.intact hr.reading hr.pos,?_⟩
    rw [hfirst]
    exact ⟨⟨le_rfl,⟨⟨hr.intact,List.cons_ne_nil _ _⟩,trivial⟩,trivial⟩,trivial⟩
  · rw [login,runFrom_cons,hfirst,runFrom_cons,hsecond]
    rfl
  · rintro ⟨-,hseparated,-⟩
    rw [hfirst,Separated,hsecond] at hseparated
    exact (hseparated hr.idle rfl).1

/-- The time after an event is that of the event. -/
theorem step_now (h : History) (e : Event) :
    (h.step answerReader plainLibrary e).donation.now=e.now := by
  cases e with
  | client a now => rfl
  | timer now r =>
    change (onTimer answerReader plainLibrary h.donation now r).now=now
    rw [onTimer]
    split <;> rfl

/-- Time goes on from one event to the next. -/
theorem step_now_le (h : History) {e : Event} {now : ℕ} (hle : e.now ≤ now) :
    (h.step answerReader plainLibrary e).donation.now ≤ now := by
  rw [step_now]
  exact hle

theorem reopening_run (buf : Cells UInt8) (name : Bytes) (job : Job) :
    AlongSteps (History.step answerReader plainLibrary) (fun h e => Permitted h.donation e)
      (active buf name job) reopening := by
  have hstart : (5700200:ℕ) ≤ 5994000 := by decide
  refine ⟨⟨hstart,⟨⟨rfl,rfl,⟨_,rfl,rfl⟩,trivial⟩,trivial⟩,trivial⟩,
    ⟨step_now_le _ (by decide),⟨⟨rfl,rfl,⟨_,rfl,rfl,rfl⟩,trivial⟩,trivial⟩,trivial⟩,
    ⟨step_now_le _ (by decide),⟨⟨rfl,rfl,trivial,trivial⟩,trivial⟩,trivial⟩,
    ⟨step_now_le _ (by decide),⟨_,rfl,by decide⟩,rfl,rfl⟩,
    ⟨step_now_le _ (by decide),⟨⟨rfl,rfl,Nat.one_pos,trivial⟩,fun _ => rfl⟩,trivial⟩,
    ⟨step_now_le _ (by decide),⟨⟨rfl,rfl,⟨_,rfl,rfl⟩,?_⟩,trivial⟩,trivial⟩,trivial⟩
  rintro ⟨k,⟨⟩,hclosing⟩
  cases hclosing

/-- The donation when the client has sent its second login: the period is over. -/
def reopened (buf : Cells UInt8) (name : Bytes) (job : Job) : History :=
  runFrom (History.step answerReader plainLibrary) (active buf name job) reopening

theorem opened_ready : Ready opened openedDonor (text "1") :=
  ⟨rfl,rfl,rfl,⟨_,rfl,rfl⟩,rfl,⟨rfl,rfl⟩,by decide +kernel⟩

/-- The identifiers of the two jobs differ. -/
theorem first_ne_second :
    (JobId.setId (some (text "1"))).2 ≠ (JobId.setId (some (text "2"))).2 := by
  decide +kernel

theorem reopened_ready (buf : Cells UInt8) (name : Bytes) {job : Job}
    (hjob : job.m_id=(JobId.setId (some (text "1"))).2) :
    Ready (reopened buf name job) (reopened buf name job).donation.session.client (text "2") := by
  have hheld : (reopened buf name job).donation.session.client.m_job=job := rfl
  refine ⟨rfl,rfl,rfl,⟨_,rfl,rfl⟩,rfl,⟨rfl,rfl⟩,?_⟩
  rw [hheld,hjob]
  exact first_ne_second

/-- The timer has not fired since the end of the period, and the second response is awaited. -/
theorem reopened_waits (buf : Cells UInt8) (name : Bytes) {job : Job}
    (hjob : job.m_id=(JobId.setId (some (text "1"))).2) :
    ∃ h c, runFrom (History.step answerReader plainLibrary) (active buf name job) reopening=h ∧
      h.fired=false ∧ h.donation.now ≤ 6000400 ∧ Ready h c (text "2") := by
  refine ⟨reopened buf name job,_,rfl,rfl,?_,reopened_ready buf name hjob⟩
  rw [reopened]
  exact step_now_le _ (by decide)

/-- The timer ends the period, and fires again when the idle time has passed; then the client
connects. -/
def returning : List Event :=
  [.timer 6000200 0,.client (.event (.closed 6000201)) 6000201,.timer 11700200 0,
    .client (.event (.resolved 0 [2] 0 11700300)) 11700300,
    .client (.event (.connected 0 ⟨true,90⟩ 11700301)) 11700301]

theorem returning_run (buf : Cells UInt8) (name : Bytes) (job : Job) :
    AlongSteps (History.step answerReader plainLibrary) (fun h e => Permitted h.donation e)
      (active buf name job) returning := by
  have hstart : (5700200:ℕ) ≤ 6000200 := by decide
  have hidle : (6000200:ℕ)+5700000 ≤ 11700200 := by decide
  refine ⟨⟨hstart,⟨_,rfl,by decide⟩,rfl,rfl⟩,
    ⟨step_now_le _ (by decide),⟨⟨rfl,rfl,⟨_,rfl,rfl,rfl⟩,trivial⟩,trivial⟩,trivial⟩,
    ⟨step_now_le _ (by decide),⟨_,rfl,hidle⟩,rfl,rfl⟩,
    ⟨step_now_le _ (by decide),⟨⟨rfl,rfl,Nat.one_pos,trivial⟩,fun _ => rfl⟩,trivial⟩,
    ⟨step_now_le _ (by decide),⟨⟨rfl,rfl,⟨_,rfl,rfl⟩,?_⟩,trivial⟩,trivial⟩,trivial⟩
  rintro ⟨k,⟨⟩,hclosing⟩
  cases hclosing

/-- The donation when the client has sent its login after that. -/
def returned (buf : Cells UInt8) (name : Bytes) (job : Job) : History :=
  runFrom (History.step answerReader plainLibrary) (active buf name job) returning

theorem returned_ready (buf : Cells UInt8) (name : Bytes) {job : Job}
    (hjob : job.m_id=(JobId.setId (some (text "1"))).2) :
    Ready (returned buf name job) (returned buf name job).donation.session.client (text "2") := by
  have hheld : (returned buf name job).donation.session.client.m_job=job := rfl
  refine ⟨rfl,rfl,rfl,⟨_,rfl,rfl⟩,rfl,⟨rfl,rfl⟩,?_⟩
  rw [hheld,hjob]
  exact first_ne_second

/-- The timer has fired since the end of the first period, and the second response is awaited. -/
theorem returned_waits (buf : Cells UInt8) (name : Bytes) {job : Job}
    (hjob : job.m_id=(JobId.setId (some (text "1"))).2) :
    ∃ h c, runFrom (History.step answerReader plainLibrary) (active buf name job) returning=h ∧
      h.ended=some 6000200 ∧ h.donation.now ≤ 11700400 ∧ Ready h c (text "2") := by
  refine ⟨returned buf name job,_,rfl,rfl,?_,returned_ready buf name hjob⟩
  rw [returned]
  exact step_now_le _ (by decide)

/-- A period that ends, and a second one. -/
def twoPeriods : List Event :=
  opening++(login (text "1") 5700200++(returning++login (text "2") 11700400))

/-- Two periods are separated, and the second one goes on at the end. -/
theorem second_period_separated :
    AlongSteps (History.step answerReader plainLibrary) (Separated answerReader plainLibrary)
        fresh twoPeriods ∧
      AlongStates (History.step answerReader plainLibrary) Timed fresh twoPeriods ∧
      (runFrom (History.step answerReader plainLibrary) fresh twoPeriods).active=true ∧
      (runFrom (History.step answerReader plainLibrary) fresh twoPeriods).ended=some 6000200 ∧
      (runFrom (History.step answerReader plainLibrary) fresh twoPeriods).began=11700400 := by
  have hopened : opened.donation.now ≤ 5700200 := by decide
  obtain ⟨buf,name,job,hjob,hpermitted,hactive,-⟩ := login_run (Or.inl rfl) opened_ready hopened
  have hfirst : runFrom (History.step answerReader plainLibrary) opened
      (login (text "1") 5700200)=active buf name job := hactive
  obtain ⟨h,c,hreturned,hended,hnow,hready⟩ := returned_waits buf name hjob
  obtain ⟨buf',name',job',-,hpermitted',hagain,-⟩ := login_run (Or.inr rfl) hready hnow
  have hrun : AlongSteps (History.step answerReader plainLibrary)
      (fun h e => Permitted h.donation e) fresh twoPeriods := by
    rw [twoPeriods,alongSteps_append,opening_run.2,alongSteps_append,hfirst,alongSteps_append,
      hreturned]
    exact ⟨opening_run.1,hpermitted,returning_run buf name job,hpermitted'⟩
  have hlate : AlongSteps (History.step answerReader plainLibrary) NoLateLookup fresh
      twoPeriods := by
    rw [twoPeriods,alongSteps_append,opening_run.2,alongSteps_append,hfirst,alongSteps_append,
      hreturned]
    refine ⟨⟨trivial,fun _ h => ?_,trivial,trivial⟩,⟨trivial,trivial,trivial⟩,
      ⟨trivial,trivial,trivial,fun _ h => ?_,trivial,trivial⟩,⟨trivial,trivial,trivial⟩⟩
    · exact Bool.noConfusion h
    · exact Bool.noConfusion h
  have hlast : runFrom (History.step answerReader plainLibrary) fresh twoPeriods=
      ⟨⟨begun h.donation.strategy 11700400,⟨loggedIn c buf' name' job',[]⟩,11700400⟩,h.fired,
        h.ended,11700400⟩ := by
    rw [twoPeriods,runFrom_append,opening_run.2,runFrom_append,hfirst,runFrom_append,hreturned,
      hagain]
  obtain ⟨hseparated,htimed⟩ := periods_separated hrun hlate
  rw [hlast]
  exact ⟨hseparated,htimed,rfl,hended,rfl⟩

/-- The period ends while the client looks the pool up again, and the lookup succeeds. -/
def lateLookup : List Event :=
  opening++(login (text "1") 5700200++(reopening++login (text "2") 6000400))

/-- The next period begins 200 milliseconds after the end of the last one. -/
theorem late_lookup_not_separated :
    AlongSteps (History.step answerReader plainLibrary) (fun h e => Permitted h.donation e) fresh
      lateLookup ∧
    ¬AlongSteps (History.step answerReader plainLibrary) (Separated answerReader plainLibrary)
      fresh lateLookup := by
  have hopened : opened.donation.now ≤ 5700200 := by decide
  obtain ⟨buf,name,job,hjob,hpermitted,hactive,-⟩ := login_run (Or.inl rfl) opened_ready hopened
  have hfirst : runFrom (History.step answerReader plainLibrary) opened
      (login (text "1") 5700200)=active buf name job := hactive
  obtain ⟨h,c,hsecond,hwaits,hnow,hready⟩ := reopened_waits buf name hjob
  obtain ⟨-,-,-,-,hpermitted',-,hfired⟩ := login_run (Or.inr rfl) hready hnow
  have hsplit : ∀ P, AlongSteps (History.step answerReader plainLibrary) P fresh lateLookup ↔
      AlongSteps (History.step answerReader plainLibrary) P fresh opening ∧
      AlongSteps (History.step answerReader plainLibrary) P opened (login (text "1") 5700200) ∧
      AlongSteps (History.step answerReader plainLibrary) P (active buf name job) reopening ∧
      AlongSteps (History.step answerReader plainLibrary) P h (login (text "2") 6000400) := by
    intro P
    rw [lateLookup,alongSteps_append,opening_run.2,alongSteps_append,hfirst,alongSteps_append,
      hsecond]
  rw [hsplit,hsplit]
  refine ⟨⟨opening_run.1,hpermitted,reopening_run buf name job,hpermitted'⟩,?_⟩
  rintro ⟨-,-,-,hseparated⟩
  exact Bool.noConfusion (hwaits.symm.trans (hfired hseparated))

end Late

end XmrigCC.DonatePeriods
