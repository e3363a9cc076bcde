import Mathlib

/-!
# Deterministic machines run along event lists

A machine is a state type, an event type and a total step. A run is a list
of events; what an environment may do is a predicate on state and event,
required at every step of the run. Invariants are proved once for a step
and carried to every state of a run here.
-/

namespace XmrigCC.TransitionRuns

variable {σ ε : Type*}

/-- Final state of the run that takes the listed events in order. -/
def runFrom (step : σ → ε → σ) : σ → List ε → σ
  | s,[] => s
  | s,e::es => runFrom step (step s e) es

/-- Every step of the run meets a condition on the state before it and its event. -/
def AlongSteps (step : σ → ε → σ) (P : σ → ε → Prop) : σ → List ε → Prop
  | _,[] => True
  | s,e::es => P s e ∧ AlongSteps step P (step s e) es

/-- Every state of the run, the first and the last included, meets a predicate. -/
def AlongStates (step : σ → ε → σ) (Q : σ → Prop) : σ → List ε → Prop
  | s,[] => Q s
  | s,e::es => Q s ∧ AlongStates step Q (step s e) es

/-- What the steps of a run put out, in order. -/
def outputs {β : Type*} (step : σ → ε → σ) (out : σ → ε → List β) : σ → List ε → List β
  | _,[] => []
  | s,e::es => out s e++outputs step out (step s e) es

@[simp] theorem runFrom_nil (step : σ → ε → σ) (s : σ) : runFrom step s []=s := rfl

@[simp] theorem runFrom_cons (step : σ → ε → σ) (s : σ) (e : ε) (es : List ε) :
    runFrom step s (e::es)=runFrom step (step s e) es := rfl

@[simp] theorem alongSteps_nil (step : σ → ε → σ) (P : σ → ε → Prop) (s : σ) :
    AlongSteps step P s [] := trivial

@[simp] theorem alongSteps_cons (step : σ → ε → σ) (P : σ → ε → Prop) (s : σ) (e : ε)
    (es : List ε) :
    AlongSteps step P s (e::es) ↔ P s e ∧ AlongSteps step P (step s e) es := Iff.rfl

@[simp] theorem alongStates_nil (step : σ → ε → σ) (Q : σ → Prop) (s : σ) :
    AlongStates step Q s [] ↔ Q s := Iff.rfl

@[simp] theorem alongStates_cons (step : σ → ε → σ) (Q : σ → Prop) (s : σ) (e : ε)
    (es : List ε) :
    AlongStates step Q s (e::es) ↔ Q s ∧ AlongStates step Q (step s e) es := Iff.rfl

theorem runFrom_append (step : σ → ε → σ) (s : σ) (es fs : List ε) :
    runFrom step s (es++fs)=runFrom step (runFrom step s es) fs := by
  induction es generalizing s with
  | nil => rfl
  | cons e es ih => exact ih (step s e)

/-- A map that takes each step to a step of another machine takes runs to its runs. -/
theorem runFrom_map {τ δ : Type*} {step : σ → ε → σ} {step' : τ → δ → τ} {f : σ → τ}
    {g : ε → δ} (h : ∀ s e, f (step s e)=step' (f s) (g e)) (s : σ) (es : List ε) :
    f (runFrom step s es)=runFrom step' (f s) (es.map g) := by
  induction es generalizing s with
  | nil => rfl
  | cons e es ih => rw [runFrom_cons,ih,h,List.map_cons,runFrom_cons]

/-- A run in two parts. -/
theorem alongSteps_append (step : σ → ε → σ) (P : σ → ε → Prop) (s : σ) (es fs : List ε) :
    AlongSteps step P s (es++fs) ↔
      AlongSteps step P s es ∧ AlongSteps step P (runFrom step s es) fs := by
  induction es generalizing s with
  | nil => exact (and_iff_right trivial).symm
  | cons e es ih =>
    rw [List.cons_append,alongSteps_cons,alongSteps_cons,ih,and_assoc]
    rfl

/-- A condition holds along a run exactly when it holds at each event, in the state that the
events before it lead to. -/
theorem alongSteps_iff_before (step : σ → ε → σ) (P : σ → ε → Prop) (s : σ) (es : List ε) :
    AlongSteps step P s es ↔
      ∀ before e after, es=before++e::after → P (runFrom step s before) e := by
  constructor
  · rintro h before e after rfl
    exact ((alongSteps_append step P s before (e::after)).mp h).2.1
  · intro h
    induction es generalizing s with
    | nil => trivial
    | cons e es ih =>
      refine ⟨h [] e es rfl,ih (step s e) ?_⟩
      rintro before e' after rfl
      exact h (e::before) e' after rfl

section Outputs

variable {β : Type*} {step : σ → ε → σ} {out taken : σ → ε → List β}

theorem outputs_cons (s : σ) (e : ε) (es : List ε) :
    outputs step out s (e::es)=out s e++outputs step out (step s e) es := rfl

/-- When each step takes something in behind what is kept and puts something out in front of it,
so does a run. -/
theorem outputs_kept {kept : σ → List β}
    (h : ∀ s e, out s e++kept (step s e)=kept s++taken s e) (s : σ) (es : List ε) :
    outputs step out s es++kept (runFrom step s es)=kept s++outputs step taken s es := by
  induction es generalizing s with
  | nil => exact (List.append_nil _).symm
  | cons e es ih =>
    calc outputs step out s (e::es)++kept (runFrom step s (e::es))
        =out s e++(kept (step s e)++outputs step taken (step s e) es) := by
          rw [outputs_cons,runFrom_cons,List.append_assoc,ih]
      _=kept s++(taken s e++outputs step taken (step s e) es) := by
          rw [←List.append_assoc,h,List.append_assoc]

/-- A log that each step extends by what it puts out. -/
theorem log_eq_outputs {log : σ → List β} (h : ∀ s e, log (step s e)=log s++out s e) (s : σ)
    (es : List ε) : log (runFrom step s es)=log s++outputs step out s es := by
  induction es generalizing s with
  | nil => exact (List.append_nil _).symm
  | cons e es ih => rw [runFrom_cons,ih,h,List.append_assoc,outputs_cons]

/-- What is put out by a part of the state is put out by that part alone. -/
theorem outputs_part {τ : Type*} {f : σ → τ} {g : τ → ε → τ} {o : τ → ε → List β}
    (hstep : ∀ s e, f (step s e)=g (f s) e) (hout : ∀ s e, out s e=o (f s) e) (s : σ)
    (es : List ε) : outputs step out s es=outputs g o (f s) es := by
  induction es generalizing s with
  | nil => rfl
  | cons e es ih => rw [outputs_cons,outputs_cons,ih,hstep,hout]

end Outputs

instance decidableAlongSteps (step : σ → ε → σ) (P : σ → ε → Prop)
    [∀ s e, Decidable (P s e)] : ∀ s es, Decidable (AlongSteps step P s es)
  | _,[] => isTrue trivial
  | s,e::es =>
    haveI := decidableAlongSteps step P (step s e) es
    inferInstanceAs (Decidable (P s e ∧ AlongSteps step P (step s e) es))

/-- The states of a run are exactly those reached by its initial segments. -/
theorem alongStates_iff_initial (step : σ → ε → σ) (Q : σ → Prop) (s : σ) (es : List ε) :
    AlongStates step Q s es ↔ ∀ fs, fs <+: es → Q (runFrom step s fs) := by
  induction es generalizing s with
  | nil =>
    simp only [alongStates_nil,List.prefix_nil]
    constructor
    · rintro h fs rfl
      exact h
    · intro h
      exact h [] rfl
  | cons e es ih =>
    rw [alongStates_cons,ih]
    constructor
    · rintro ⟨hs,ht⟩ fs hf
      cases fs with
      | nil => exact hs
      | cons f fs =>
        obtain ⟨rfl,hp⟩ := List.cons_prefix_cons.mp hf
        exact ht fs hp
    · intro h
      refine ⟨h [] (List.nil_prefix),?_⟩
      intro fs hf
      exact h (e::fs) (List.cons_prefix_cons.mpr ⟨rfl,hf⟩)

/-- What holds in every state of a run holds in the last one. -/
theorem AlongStates.last {step : σ → ε → σ} {Q : σ → Prop} {s : σ} {es : List ε}
    (h : AlongStates step Q s es) : Q (runFrom step s es) :=
  (alongStates_iff_initial step Q s es).mp h es List.prefix_rfl

/-- Two conditions that both hold along a run hold together. -/
theorem alongSteps_and {step : σ → ε → σ} {P Q : σ → ε → Prop} {s : σ} {es : List ε}
    (hP : AlongSteps step P s es) (hQ : AlongSteps step Q s es) :
    AlongSteps step (fun s e => P s e ∧ Q s e) s es := by
  induction es generalizing s with
  | nil => trivial
  | cons e es ih => exact ⟨⟨hP.1,hQ.1⟩,ih hP.2 hQ.2⟩

/-- A condition on events that holds in every state holds along every run of them. -/
theorem alongSteps_of_forall {step : σ → ε → σ} {P : σ → ε → Prop} {es : List ε}
    (h : ∀ e∈es, ∀ s, P s e) (s : σ) : AlongSteps step P s es := by
  induction es generalizing s with
  | nil => trivial
  | cons e es ih =>
    exact ⟨h e List.mem_cons_self s,ih (fun e' he' => h e' (List.mem_cons_of_mem _ he')) _⟩

/-- The condition that permits every step holds along every run. -/
theorem alongSteps_true (step : σ → ε → σ) (s : σ) (es : List ε) :
    AlongSteps step (fun _ _ => True) s es :=
  alongSteps_of_forall (fun _ _ _ => trivial) s

/-- A state predicate may be replaced by one it implies. -/
theorem AlongStates.imp {step : σ → ε → σ} {P Q : σ → Prop} {s : σ} {es : List ε}
    (h : AlongStates step P s es) (hPQ : ∀ t, P t → Q t) : AlongStates step Q s es := by
  induction es generalizing s with
  | nil => exact hPQ s h
  | cons e es ih => exact ⟨hPQ s h.1,ih h.2⟩

/-- An invariant preserved by each permitted step holds in every state of the run. -/
theorem invariant_alongStates {step : σ → ε → σ} {I : σ → Prop} {P : σ → ε → Prop}
    (hstep : ∀ s e, I s → P s e → I (step s e)) {s : σ} {es : List ε}
    (hs : I s) (hP : AlongSteps step P s es) : AlongStates step I s es := by
  induction es generalizing s with
  | nil => exact hs
  | cons e es ih => exact ⟨hs,ih (hstep s e hs hP.1) hP.2⟩

/-- What follows from the invariant at a permitted step holds at all of them. -/
theorem alongSteps_of_invariant {step : σ → ε → σ} {I : σ → Prop} {P R : σ → ε → Prop}
    (hstep : ∀ s e, I s → P s e → I (step s e)) (hR : ∀ s e, I s → P s e → R s e)
    {s : σ} {es : List ε} (hs : I s) (hP : AlongSteps step P s es) :
    AlongSteps step R s es := by
  induction es generalizing s with
  | nil => trivial
  | cons e es ih => exact ⟨hR s e hs hP.1,ih (hstep s e hs hP.1) hP.2⟩

/-- Two step conditions equivalent under an invariant are equivalent along a run. -/
theorem alongSteps_congr_of_invariant {step : σ → ε → σ} {I : σ → Prop}
    {P R T : σ → ε → Prop}
    (hstep : ∀ s e, I s → P s e → I (step s e)) (hRT : ∀ s e, I s → P s e → (R s e ↔ T s e))
    {s : σ} {es : List ε} (hs : I s) (hP : AlongSteps step P s es) :
    AlongSteps step R s es ↔ AlongSteps step T s es := by
  induction es generalizing s with
  | nil => exact Iff.rfl
  | cons e es ih =>
    exact and_congr (hRT s e hs hP.1) (ih (hstep s e hs hP.1) hP.2)

/-- Two step conditions are equivalent along a run if they are wherever an invariant holds
that the steps meeting one of them keep. -/
theorem alongSteps_iff_of_kept {step : σ → ε → σ} {I : σ → Prop} {P R T : σ → ε → Prop}
    (hstep : ∀ s e, I s → P s e → T s e → I (step s e))
    (hRT : ∀ s e, I s → P s e → (R s e ↔ T s e)) {s : σ} {es : List ε} (hs : I s)
    (hP : AlongSteps step P s es) : AlongSteps step R s es ↔ AlongSteps step T s es := by
  induction es generalizing s with
  | nil => exact Iff.rfl
  | cons e es ih =>
    rw [alongSteps_cons,alongSteps_cons,hRT s e hs hP.1]
    exact and_congr_right fun ht => ih (hstep s e hs hP.1 ht) hP.2

/-- A state predicate holds throughout a run exactly when every step meets the
condition that decides, from a state where it holds, whether it still holds. -/
theorem alongStates_iff_alongSteps {step : σ → ε → σ} {I Q : σ → Prop}
    {P R : σ → ε → Prop}
    (hstep : ∀ s e, I s → Q s → P s e → R s e → I (step s e))
    (hQR : ∀ s e, I s → Q s → P s e → (Q (step s e) ↔ R s e))
    {s : σ} {es : List ε} (hs : I s) (hq : Q s) (hP : AlongSteps step P s es) :
    AlongStates step Q s es ↔ AlongSteps step R s es := by
  induction es generalizing s with
  | nil => exact ⟨fun _ => trivial,fun _ => hq⟩
  | cons e es ih =>
    have hiff := hQR s e hs hq hP.1
    rw [alongStates_cons,alongSteps_cons]
    constructor
    · rintro ⟨_,ht⟩
      have hq' : Q (step s e) := by
        cases es with
        | nil => exact ht
        | cons f fs => exact ht.1
      have hr := hiff.mp hq'
      exact ⟨hr,(ih (hstep s e hs hq hP.1 hr) hq' hP.2).mp ht⟩
    · rintro ⟨hr,ht⟩
      exact ⟨hq,(ih (hstep s e hs hq hP.1 hr) (hiff.mpr hr) hP.2).mpr ht⟩

end XmrigCC.TransitionRuns
