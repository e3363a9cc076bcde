import XmrigCC.WorkersControl

/-!
# Calls on the workers, one after another

`setJob`, `setEnabled` and `pause` as whole calls between `start` and `stop`. Two flags
decide whether the workers are paused, and a number is raised for them to notice what has
changed. The calls are the accesses of the control thread made without a break.
-/

namespace XmrigCC.WorkersCalls

open TransitionRuns WorkersControl

variable {ι J : Type}

/-- `Workers::setEnabled`. -/
def setEnabled (s : System ι J) (enabled : Bool) : System ι J :=
  if s.m_enabled=enabled then s
  else
    let s : System ι J := {s with m_enabled := enabled}
    if s.m_active=false then s
    else {s with m_paused := if enabled then 0 else 1,m_sequence := s.m_sequence+1}

/-- `Workers::setJob`. -/
def setJob (s : System ι J) (job : J) : System ι J :=
  let s : System ι J := {s with m_job := job,m_active := true}
  if s.m_enabled=false then s else {s with m_sequence := s.m_sequence+1,m_paused := 0}

/-- `Workers::pause`. -/
def pause (s : System ι J) : System ι J :=
  {s with m_active := false,m_paused := 1,m_sequence := s.m_sequence+1}

/-- `Workers::isOutdated`. -/
def isOutdated (s : System ι J) (sequence : UInt64) : Bool := decide (s.m_sequence ≠ sequence)

/-- A call on `Workers`. -/
inductive Call (J : Type) where
  /-- `setJob(job)`. -/
  | setJob (job : J)
  /-- `setEnabled(enabled)`. -/
  | setEnabled (enabled : Bool)
  /-- `pause()`. -/
  | pause

/-- The system after a call. -/
def call (s : System ι J) : Call J → System ι J
  | .setJob job => setJob s job
  | .setEnabled enabled => setEnabled s enabled
  | .pause => pause s

/-- After `Workers::start`, when the miner may have been disabled before. -/
def started (job : J) (enabled : Bool) : System ι J :=
  {System.start job with m_enabled := enabled}

/-- The accesses that make up a call. -/
def accesses : Call J → List (Event ι J)
  | .setJob job => [.setJob job,.control,.control]
  | .setEnabled enabled => [.setEnabled enabled,.control]
  | .pause => [.pause,.control]

/-- Times that a list of calls raises the number. -/
def increments : System ι J → List (Call J) → ℕ
  | _,[] => 0
  | s,c::cs => (if (call s c).m_sequence=s.m_sequence then 0 else 1)+increments (call s c) cs

/-- The flags decide whether the workers are paused, and the number is not that of `stop`. -/
structure Tied (s : System ι J) : Prop where
  /-- Unpaused are enabled workers with something to mine. -/
  unpaused_iff : s.m_paused=0 ↔ s.m_enabled=true ∧ s.m_active=true
  /-- The number is not 0. -/
  alive : s.m_sequence ≠ 0

/-- What a call does to the number. -/
structure Announces (s : System ι J) (c : Call J) : Prop where
  /-- It never falls. -/
  monotone : s.m_sequence ≤ (call s c).m_sequence
  /-- It rises when the workers are paused or let run. -/
  paused : (call s c).m_paused ≠ s.m_paused → s.m_sequence < (call s c).m_sequence
  /-- It rises when workers that run get another job. -/
  job : (call s c).m_job ≠ s.m_job → (call s c).m_paused=0 →
    s.m_sequence < (call s c).m_sequence
  /-- After a rise every number from before is outdated. -/
  outdated : s.m_sequence < (call s c).m_sequence → ∀ sequence ≤ s.m_sequence,
    isOutdated (call s c) sequence=true

section Calls

variable {s : System ι J}

/-- A call is its accesses made one after another. -/
theorem runFrom_accesses [DecidableEq ι] (hidle : s.control=.idle) (c : Call J) :
    runFrom step s (accesses c)=call s c ∧ (call s c).control=.idle := by
  obtain ⟨job,active,enabled,paused,sequence,control,workers⟩ := s
  obtain rfl : control=.idle := hidle
  cases c with
  | setJob job' => cases enabled <;> exact ⟨rfl,rfl⟩
  | pause => exact ⟨rfl,rfl⟩
  | setEnabled enabled' =>
    cases active <;> cases enabled <;> cases enabled' <;> exact ⟨rfl,rfl⟩

/-- A call changes nothing but flags, or raises the number and pauses the workers or not. -/
theorem call_cases (s : System ι J) (c : Call J) :
    ((call s c).m_sequence=s.m_sequence ∧ (call s c).m_paused=s.m_paused ∧
      ((call s c).m_job=s.m_job ∧ (call s c).m_enabled=s.m_enabled ∧
          (call s c).m_active=s.m_active ∨
        (call s c).m_job=s.m_job ∧ s.m_active=false ∧ (call s c).m_active=false ∨
        s.m_enabled=false ∧ (call s c).m_enabled=false)) ∨
    ((call s c).m_sequence=s.m_sequence+1 ∧
      ((call s c).m_paused=0 ↔ (call s c).m_enabled=true ∧ (call s c).m_active=true)) := by
  cases c with
  | setJob job =>
    cases henabled : s.m_enabled <;> simp [call,setJob,henabled]
  | setEnabled enabled =>
    by_cases hsame : s.m_enabled=enabled
    · simp [call,setEnabled,hsame]
    · cases hactive : s.m_active <;> cases enabled <;>
        simp [call,setEnabled,hsame,hactive]
  | pause => simp [call,pause]

theorem toNat_succ {n : UInt64} (h : n.toNat+1<2^64) : (n+1).toNat=n.toNat+1 := by
  rw [UInt64.toNat_add,UInt64.toNat_one,Nat.mod_eq_of_lt h]

/-- A call that leaves the number leaves the workers paused or as they were. -/
theorem quiet_call (h : Tied s) {c : Call J} (hsequence : (call s c).m_sequence=s.m_sequence)
    (hpaused : (call s c).m_paused=s.m_paused)
    (hcases : (call s c).m_job=s.m_job ∧ (call s c).m_enabled=s.m_enabled ∧
          (call s c).m_active=s.m_active ∨
        (call s c).m_job=s.m_job ∧ s.m_active=false ∧ (call s c).m_active=false ∨
        s.m_enabled=false ∧ (call s c).m_enabled=false) :
    Tied (call s c) ∧ Announces s c := by
  have hno : (call s c).m_sequence ≤ s.m_sequence := by
    rw [hsequence]
    exact UInt64.le_refl _
  have hunpaused : (call s c).m_paused=0 ↔
      (call s c).m_enabled=true ∧ (call s c).m_active=true := by
    rw [hpaused,h.unpaused_iff]
    rcases hcases with ⟨-,henabled,hactive⟩|⟨-,hactive,hactive'⟩|⟨henabled,henabled'⟩
    · rw [henabled,hactive]
    · rw [hactive,hactive']
      simp only [Bool.false_eq_true,and_false]
    · rw [henabled,henabled']
      simp only [Bool.false_eq_true,false_and]
  refine ⟨⟨hunpaused,by rw [hsequence]; exact h.alive⟩,?_,?_,?_,?_⟩
  · rw [hsequence]
    exact UInt64.le_refl _
  · intro hne
    exact absurd hpaused hne
  · intro hjob hzero
    rcases hcases with ⟨hsame,-⟩|⟨hsame,-⟩|⟨-,henabled'⟩
    · exact absurd hsame hjob
    · exact absurd hsame hjob
    · rw [(hunpaused.mp hzero).1] at henabled'
      cases henabled'
  · intro hlt
    exact absurd hno (UInt64.not_le.mpr hlt)

/-- A call that raises the number without a wrap announces all it does. -/
theorem loud_call {c : Call J} (hsequence : (call s c).m_sequence=s.m_sequence+1)
    (hunpaused : (call s c).m_paused=0 ↔ (call s c).m_enabled=true ∧ (call s c).m_active=true)
    (hwrap : s.m_sequence.toNat+1<2^64) : Tied (call s c) ∧ Announces s c := by
  have hraised : (call s c).m_sequence.toNat=s.m_sequence.toNat+1 := by
    rw [hsequence,toNat_succ hwrap]
  have hlt : s.m_sequence < (call s c).m_sequence := by
    rw [UInt64.lt_iff_toNat_lt,hraised]
    omega
  refine ⟨⟨hunpaused,?_⟩,UInt64.le_of_lt hlt,fun _ => hlt,fun _ _ => hlt,?_⟩
  · intro hzero
    rw [hzero] at hraised
    exact absurd hraised (by simp only [UInt64.toNat_zero]; omega)
  · intro _ sequence hle
    rw [isOutdated,decide_eq_true_eq]
    rintro rfl
    exact absurd hle (UInt64.not_le.mpr hlt)

/-- One call keeps the flags tied and announces what it changes, unless the number wraps. -/
theorem call_step (h : Tied s) (c : Call J)
    (hwrap : (call s c).m_sequence=s.m_sequence ∨ s.m_sequence.toNat+1<2^64) :
    Tied (call s c) ∧ Announces s c := by
  rcases call_cases s c with ⟨hsequence,hpaused,hcases⟩|⟨hsequence,hunpaused⟩
  · exact quiet_call h hsequence hpaused hcases
  · rcases hwrap with hsame|hwrap
    · rw [hsequence] at hsame
      simp at hsame
    · exact loud_call hsequence hunpaused hwrap

theorem tied_started (job : J) (enabled : Bool) : Tied (started job enabled : System ι J) := by
  refine ⟨iff_of_false (fun h => (nomatch h)) fun h => (nomatch h.2),?_⟩
  exact fun h => absurd h (by decide : (1 : UInt64) ≠ 0)

/-- The number after a call. -/
theorem toNat_call (s : System ι J) (c : Call J) (cs : List (Call J))
    (hroom : s.m_sequence.toNat+increments s (c::cs)<2^64) :
    ((call s c).m_sequence=s.m_sequence ∨ s.m_sequence.toNat+1<2^64) ∧
      (call s c).m_sequence.toNat+increments (call s c) cs<2^64 := by
  rw [increments] at hroom
  by_cases hsame : (call s c).m_sequence=s.m_sequence
  · rw [if_pos hsame] at hroom
    exact ⟨Or.inl hsame,by rw [hsame]; omega⟩
  · rw [if_neg hsame] at hroom
    have hwrap : s.m_sequence.toNat+1<2^64 := by omega
    refine ⟨Or.inr hwrap,?_⟩
    rcases call_cases s c with ⟨hsequence,-⟩|⟨hsequence,-⟩
    · exact absurd hsequence hsame
    · rw [hsequence,toNat_succ hwrap]
      omega

/-- Calls keep the flags tied as long as the number does not wrap. -/
theorem calls_run (h : Tied s) (calls : List (Call J))
    (hroom : s.m_sequence.toNat+increments s calls<2^64) :
    AlongStates call Tied s calls ∧ AlongSteps call Announces s calls := by
  induction calls generalizing s with
  | nil => exact ⟨h,trivial⟩
  | cons c cs ih =>
    obtain ⟨hwrap,hroom'⟩ := toNat_call s c cs hroom
    obtain ⟨htied,hannounces⟩ := call_step h c hwrap
    obtain ⟨hstates,hsteps⟩ := ih htied hroom'
    exact ⟨⟨h,hstates⟩,hannounces,hsteps⟩

end Calls

/-- Control of the workers. Whatever is called after `start`, with fewer than 2^64 increments
of the number, that of `start` included, the flags stay tied and every call is announced. -/
theorem calls_tied_and_announced (job : J) (enabled : Bool) (calls : List (Call J))
    (h : 1+increments (started job enabled : System ι J) calls<2^64) :
    AlongStates call Tied (started job enabled : System ι J) calls ∧
      AlongSteps call Announces (started job enabled : System ι J) calls :=
  calls_run (tied_started job enabled) calls h

/-- A job, a break and another job. -/
def breakCalls : List (Call ℕ) :=
  [.setJob 1,.setEnabled false,.setJob 2,.setEnabled true,.pause,.setJob 3]

/-- Each of these calls is announced, and the number stays that of the job. -/
theorem breakCalls_tied_and_announced :
    1+increments (started 0 true : System Unit ℕ) breakCalls<2^64 ∧
      AlongStates call Tied (started 0 true : System Unit ℕ) breakCalls ∧
      AlongSteps call Announces (started 0 true : System Unit ℕ) breakCalls := by
  have hroom : 1+increments (started 0 true : System Unit ℕ) breakCalls<2^64 := by decide
  exact ⟨hroom,calls_tied_and_announced 0 true breakCalls hroom⟩

end XmrigCC.WorkersCalls
