import XmrigCC.TransitionRuns

/-!
# Mailboxes whose messages are handed out once or for ever

Every owner has a box with one message. Putting replaces it. Taking shows it,
and if it is a message to be handed out once, leaves an idle message in its
place. The idle message itself stays.
-/

namespace XmrigCC.OneShotMailboxes

open TransitionRuns

/-- Which messages are handed out once, and what is left behind. -/
structure Policy (M : Type*) where
  /-- Left behind by a message handed out once. -/
  idle : M
  /-- Messages handed out once. -/
  once : M → Bool
  /-- The idle message is not one of them. -/
  idle_stays : once idle=false

/-- What is done to the boxes. -/
inductive Op (K M : Type*) where
  /-- A message is put into a box. -/
  | put (owner : K) (message : M)
  /-- An owner takes the message shown. -/
  | take (owner : K)
  /-- Something else. -/
  | other

variable {K M : Type*}

/-- A message is put into the owner's box. -/
def Op.Puts (op : Op K M) (owner : K) : Prop := ∃ message, op=.put owner message

/-- The owner's box is neither filled nor read. -/
def Op.Spares (op : Op K M) (owner : K) : Prop := ¬op.Puts owner ∧ op ≠ .take owner

variable [DecidableEq K] (p : Policy M)

/-- The boxes afterwards. -/
def step (boxes : K → M) : Op K M → K → M
  | .put owner message => Function.update boxes owner message
  | .take owner => if p.once (boxes owner) then Function.update boxes owner p.idle else boxes
  | .other => boxes

variable {boxes : K → M} {owner : K}

/-- A message put is the one shown. -/
theorem step_put (message : M) : step p boxes (.put owner message) owner=message := by
  rw [step]
  exact Function.update_self owner message boxes

/-- What spares a box leaves it alone. -/
theorem step_spared {op : Op K M} (h : op.Spares owner) : step p boxes op owner=boxes owner := by
  cases op with
  | put other message =>
    have hne : owner ≠ other := fun he => h.1 ⟨message,by rw [he]⟩
    exact Function.update_of_ne hne message boxes
  | take other =>
    have hne : owner ≠ other := fun he => h.2 (by rw [he])
    rw [step]
    split
    · exact Function.update_of_ne hne p.idle boxes
    · rfl
  | other => rfl

/-- A message that is not handed out once stays until the next is put. -/
theorem step_stays {op : Op K M} (hop : ¬op.Puts owner) (honce : p.once (boxes owner)=false) :
    step p boxes op owner=boxes owner := by
  by_cases htake : op=.take owner
  · rw [htake,step,honce]
    rfl
  · exact step_spared p ⟨hop,htake⟩

/-- A message handed out once leaves the idle one. -/
theorem step_take (honce : p.once (boxes owner)=true) :
    step p boxes (.take owner) owner=p.idle := by
  rw [step,if_pos honce]
  exact Function.update_self owner p.idle boxes

/-- A run that spares a box leaves it alone. -/
theorem run_spared {ops : List (Op K M)} (h : ∀ op∈ops, op.Spares owner) :
    runFrom (step p) boxes ops owner=boxes owner := by
  induction ops generalizing boxes with
  | nil => rfl
  | cons op ops ih =>
    obtain ⟨hop,hops⟩ := List.forall_mem_cons.mp h
    rw [runFrom_cons,ih hops,step_spared p hop]

/-- And a message that is not handed out once stays along a run without a new one. -/
theorem run_stays {ops : List (Op K M)} (h : ∀ op∈ops, ¬op.Puts owner)
    (honce : p.once (boxes owner)=false) :
    runFrom (step p) boxes ops owner=boxes owner := by
  induction ops generalizing boxes with
  | nil => rfl
  | cons op ops ih =>
    obtain ⟨hop,hops⟩ := List.forall_mem_cons.mp h
    have hstays := step_stays p hop honce
    have honce' : p.once (step p boxes op owner)=false := by rw [hstays,honce]
    rw [runFrom_cons,ih hops honce',hstays]

/-- A message put is shown until the box is used again. -/
theorem shown_after_put (message : M) {between : List (Op K M)}
    (h : ∀ op∈between, op.Spares owner) :
    runFrom (step p) boxes (.put owner message::between) owner=message := by
  rw [runFrom_cons,run_spared p h,step_put]

/-- Once a message that is handed out once was taken, the box is idle until the next. -/
theorem idle_after_take (honce : p.once (boxes owner)=true) {later : List (Op K M)}
    (h : ∀ op∈later, ¬op.Puts owner) :
    runFrom (step p) boxes (.take owner::later) owner=p.idle := by
  have htake := step_take p honce
  have hidle : p.once (step p boxes (.take owner) owner)=false := by rw [htake,p.idle_stays]
  rw [runFrom_cons,run_stays p h hidle,htake]

/-- A message that is not handed out once is shown until the next is put. -/
theorem shown_until_put {message : M} (honce : p.once message=false) {later : List (Op K M)}
    (h : ∀ op∈later, ¬op.Puts owner) :
    runFrom (step p) boxes (.put owner message::later) owner=message := by
  have hput : step p boxes (.put owner message) owner=message := step_put p message
  have hstays : p.once (step p boxes (.put owner message) owner)=false := by rw [hput,honce]
  rw [runFrom_cons,run_stays p h hstays,hput]

end XmrigCC.OneShotMailboxes
