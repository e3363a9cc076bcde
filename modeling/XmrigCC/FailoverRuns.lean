import XmrigCC.FailoverPools
import XmrigCC.TransitionRuns

/-!
# Runs of the failover strategy

`m_index` and `m_active` under every order of the strategy's operations. Both
stay in range, the active pool is the one last connected to, jobs are handed on
from the active pool only, and a close goes on to the pool after the one that
failed.
-/

namespace XmrigCC.FailoverRuns

open TransitionRuns MiningJob FailoverPools

/-- An operation of the strategy with what its caller passes. -/
inductive Event where
  /-- `connect`. -/
  | connect
  /-- `stop`. -/
  | stop
  /-- `resume`, when the clients hold these jobs. -/
  | resume (job : ℤ → Job)
  /-- `tick`. -/
  | tick
  /-- `onLoginSuccess` from client `id`. -/
  | login (id : ℕ)
  /-- `onJobReceived` from client `id`. -/
  | job (id : ℕ) (job : Job)
  /-- `onClose` from client `id`. -/
  | close (id : ℕ) (failures : ℤ)

/-- What an operation does, with the number of retries of the options. -/
def effect (retries : ℤ) (s : FailoverStrategy) : Event → Effect
  | .connect => s.connect
  | .stop => s.stop
  | .resume job => s.resume job
  | .tick => s.tick
  | .login id => s.onLoginSuccess id
  | .job id job => s.onJobReceived id job
  | .close id failures => s.onClose retries id failures

/-- The state an operation leaves. -/
def step (retries : ℤ) (s : FailoverStrategy) (e : Event) : FailoverStrategy :=
  (effect retries s e).strategy

/-- The clients that notify the strategy are its own, and failures count from -1. -/
def Permitted (s : FailoverStrategy) : Event → Prop
  | .login id => id<s.pools
  | .job id _ => id<s.pools
  | .close id failures => id<s.pools ∧ -1 ≤ failures
  | _ => True

/-- What `m_index` and `m_active` satisfy. -/
structure WellFormed (s : FailoverStrategy) : Prop where
  /-- There is a pool at `m_index`. -/
  index : 0 ≤ s.m_index ∧ s.m_index<s.pools
  /-- There is a pool at `m_active`, unless it is -1. -/
  active : -1 ≤ s.m_active ∧ s.m_active<s.pools
  /-- The active pool is the one last connected to. -/
  same : 0 ≤ s.m_active → s.m_index=s.m_active

/-- What an operation does in a state. -/
structure Orderly (retries : ℤ) (s : FailoverStrategy) (e : Event) : Prop where
  /-- A job handed on comes from the active client. -/
  job : ∀ id job, .onJob id job∈(effect retries s e).calls → id=s.m_active ∧ 0 ≤ s.m_active
  /-- A client connected to exists. -/
  connect : ∀ i : ℤ, .connect i∈(effect retries s e).calls → 0 ≤ i ∧ i<s.pools
  /-- After a close it is the successor of the client that failed. -/
  close : ∀ id failures, e=.close id failures →
    ∀ i : ℤ, .connect i∈(effect retries s e).calls → i=id+1
  /-- The active pool after a login. -/
  login : ∀ id, e=.login id → (step retries s e).m_active=
    if id=0 then 0 else if s.m_active=-1 then (id : ℤ) else s.m_active

instance (s : FailoverStrategy) : DecidablePred (Permitted s)
  | .login id => inferInstanceAs (Decidable (id<s.pools))
  | .job id _ => inferInstanceAs (Decidable (id<s.pools))
  | .close id failures => inferInstanceAs (Decidable (id<s.pools ∧ -1 ≤ failures))
  | .connect | .stop | .resume _ | .tick => isTrue trivial

theorem wellFormed_new {pools : ℕ} (hpools : 1 ≤ pools) :
    WellFormed (FailoverStrategy.new pools) := by
  refine ⟨⟨le_refl _,?_⟩,⟨le_refl _,?_⟩,fun h => ?_⟩
  · simp only [FailoverStrategy.new]
    omega
  · simp only [FailoverStrategy.new]
    omega
  · simp only [FailoverStrategy.new] at h
    omega

/-- `isActive` in a well-formed state. -/
theorem isActive_eq_false_iff {s : FailoverStrategy} (h : WellFormed s) :
    s.isActive=false ↔ s.m_active=-1 := by
  have hge := h.active.1
  rw [FailoverStrategy.isActive,decide_eq_false_iff_not]
  omega

/-- A login makes its client's pool the active one and the one last connected to, or
changes nothing. -/
theorem wellFormed_login {s : FailoverStrategy} (h : WellFormed s) {id : ℕ} (hid : id<s.pools) :
    WellFormed (s.onLoginSuccess id).strategy := by
  have hge : (0 : ℤ) ≤ id := Int.natCast_nonneg id
  have hactive : s.activeAfterLogin id=id ∨ s.activeAfterLogin id=s.m_active := by
    rw [FailoverStrategy.activeAfterLogin]
    split
    · exact Or.inl rfl
    · exact Or.inr rfl
  have hold := h.active
  rw [FailoverStrategy.onLoginSuccess_strategy s hge]
  by_cases hsame : s.activeAfterLogin id=s.m_active
  · rw [if_pos hsame,hsame]
    exact h
  · rw [if_neg hsame]
    have heq := hactive.resolve_right hsame
    rw [heq]
    exact ⟨⟨hge,by dsimp only; omega⟩,⟨by dsimp only; omega,by dsimp only; omega⟩,fun _ => rfl⟩

/-- A close goes on only from a pool that has a successor, and then no pool is active. -/
theorem wellFormed_close {s : FailoverStrategy} (h : WellFormed s) (retries : ℤ) (id : ℕ)
    (failures : ℤ) : WellFormed (s.onClose retries id failures).strategy := by
  have hindex := h.index
  have hactive := h.active
  have hsame := h.same
  rw [FailoverStrategy.onClose_eq]
  by_cases hgoes : s.GoesOn retries id failures
  · have hid := hgoes.2.2.1
    have hleft := hgoes.2.2.2
    have hnone : (if s.EndsService id failures then (-1 : ℤ) else s.m_active)=-1 := by
      split
      · rfl
      · rename_i hends
        by_contra hne
        exact hends ⟨hgoes.1,(hsame (by omega)).symm.trans hid⟩
    rw [if_pos hgoes,hnone]
    exact ⟨⟨by dsimp only; omega,by dsimp only; omega⟩,⟨by dsimp only; omega,by dsimp only; omega⟩,
      fun hn => by dsimp only at hn; omega⟩
  · rw [if_neg hgoes]
    by_cases hends : s.EndsService id failures
    · rw [if_pos hends]
      exact ⟨hindex,⟨by dsimp only; omega,by dsimp only; omega⟩,
        fun hn => by dsimp only at hn; omega⟩
    · rw [if_neg hends]
      exact h

/-- Every operation keeps the state well formed. -/
theorem wellFormed_step (retries : ℤ) {s : FailoverStrategy} (h : WellFormed s) {e : Event}
    (he : Permitted s e) : WellFormed (step retries s e) := by
  cases e with
  | connect => exact h
  | stop =>
    have hindex := h.index
    refine ⟨⟨le_refl _,?_⟩,⟨le_refl _,?_⟩,?_⟩ <;>
      simp only [step,effect,FailoverStrategy.stop] <;> omega
  | resume job =>
    rw [step,effect,FailoverStrategy.resume_strategy]
    exact h
  | tick => exact h
  | login id => exact wellFormed_login h he
  | job id job =>
    rw [step,effect,FailoverStrategy.onJobReceived_strategy]
    exact h
  | close id failures => exact wellFormed_close h retries id failures

/-- A close connects to the successor of the failed client only. -/
theorem onClose_connect {retries : ℤ} {s : FailoverStrategy} {id failures i : ℤ}
    (h : .connect i∈(s.onClose retries id failures).calls) :
    i=id+1 ∧ s.GoesOn retries id failures := by
  rw [FailoverStrategy.onClose_eq] at h
  rcases List.mem_append.mp h with h|h
  · split at h
    · exact nomatch List.mem_singleton.mp h
    · cases h
  · split at h
    · rename_i hgoes
      have heq := Call.connect.inj (List.mem_singleton.mp h)
      rw [heq,hgoes.2.2.1]
      exact ⟨rfl,hgoes⟩
    · cases h

/-- A job is handed on from the active client. -/
theorem job_from_active (retries : ℤ) {s : FailoverStrategy} {e : Event} {id : ℤ} {job : Job}
    (h : .onJob id job∈(effect retries s e).calls) : id=s.m_active ∧ 0 ≤ s.m_active := by
  cases e with
  | connect => exact nomatch List.mem_singleton.mp h
  | stop =>
    rcases List.mem_append.mp h with h|h
    · obtain ⟨k,-,hk⟩ := List.mem_map.mp h
      cases hk
    · exact nomatch List.mem_singleton.mp h
  | resume jobs =>
    obtain ⟨heq,hactive⟩ := FailoverStrategy.resume_calls h
    exact ⟨(Call.onJob.inj heq).1,of_decide_eq_true hactive⟩
  | tick =>
    obtain ⟨k,-,hk⟩ := List.mem_map.mp h
    cases hk
  | login k => exact absurd rfl (FailoverStrategy.onLoginSuccess_calls h id job)
  | job k received =>
    obtain ⟨heq,hactive⟩ := FailoverStrategy.onJobReceived_calls h
    rw [hactive]
    exact ⟨(Call.onJob.inj heq).1,Int.natCast_nonneg k⟩
  | close k failures => exact absurd rfl (FailoverStrategy.onClose_calls h id job)

/-- A client connected to exists. -/
theorem connect_in_range (retries : ℤ) {s : FailoverStrategy} {e : Event} {i : ℤ}
    (h : .connect i∈(effect retries s e).calls) (hs : WellFormed s) :
    0 ≤ i ∧ i<s.pools := by
  have hindex := hs.index
  cases e with
  | connect =>
    rw [Call.connect.inj (List.mem_singleton.mp h)]
    exact hindex
  | stop =>
    rcases List.mem_append.mp h with h|h
    · obtain ⟨k,-,hk⟩ := List.mem_map.mp h
      cases hk
    · exact nomatch List.mem_singleton.mp h
  | resume jobs => exact nomatch (FailoverStrategy.resume_calls h).1
  | tick =>
    obtain ⟨k,-,hk⟩ := List.mem_map.mp h
    cases hk
  | login k =>
    rcases FailoverStrategy.onLoginSuccess_call h with ⟨j,-,-,-,hj⟩|hactive
    · cases hj
    · cases hactive
  | job k received => exact nomatch (FailoverStrategy.onJobReceived_calls h).1
  | close k failures =>
    obtain ⟨heq,hgoes⟩ := onClose_connect h
    have hid := hgoes.2.2.1
    have hleft := hgoes.2.2.2
    omega

/-- Every operation is orderly in a well-formed state. -/
theorem orderly_of_wellFormed (retries : ℤ) {s : FailoverStrategy} (h : WellFormed s) (e : Event) :
    Orderly retries s e := by
  refine ⟨fun id job hc => job_from_active retries hc,
    fun i hc => connect_in_range retries hc h,?_,?_⟩
  · intro id failures hclose i hc
    rw [hclose] at hc
    exact (onClose_connect hc).1
  · intro id hlogin
    have hnone := isActive_eq_false_iff h
    rw [hlogin,step,effect,FailoverStrategy.onLoginSuccess_m_active s (Int.natCast_nonneg id)]
    by_cases hid : id=0
    · rw [if_pos (Or.inl (Int.ofNat_eq_zero.mpr hid)),if_pos hid,hid]
      rfl
    · rw [if_neg hid]
      by_cases hn : s.m_active=-1
      · rw [if_pos (Or.inr (hnone.mpr hn)),if_pos hn]
      · rw [if_neg hn,if_neg]
        exact fun hc => hc.elim (fun hz => hid (Int.ofNat_eq_zero.mp hz)) fun ha => hn (hnone.mp ha)

/-- In every run of the strategy its indices stay in range, the active pool is the one last
connected to, and every operation is orderly. -/
theorem failover_runs (pools : ℕ) (hpools : 1 ≤ pools) (retries : ℤ) (events : List Event)
    (hevents : AlongSteps (step retries) Permitted (FailoverStrategy.new pools) events) :
    AlongStates (step retries) WellFormed (FailoverStrategy.new pools) events ∧
    AlongSteps (step retries) (Orderly retries) (FailoverStrategy.new pools) events := by
  have hstep : ∀ s e, WellFormed s → Permitted s e → WellFormed (step retries s e) :=
    fun s e hs he => wellFormed_step retries hs he
  have hnew := wellFormed_new hpools
  exact ⟨invariant_alongStates hstep hnew hevents,alongSteps_of_invariant hstep
    (fun s e hs _ => orderly_of_wellFormed retries hs e) hnew hevents⟩

/-- Pool 0 fails until it is given up, pool 1 serves, and pool 0 comes back. -/
def fallback : List Event :=
  [.connect,.close 0 1,.close 0 2,.login 1,.login 0,.close 1 (-1),.close 0 1,.stop]

/-- The run theorem at two pools and two retries. -/
theorem failover_runs_fallback :
    AlongStates (step 2) WellFormed (FailoverStrategy.new 2) fallback ∧
    AlongSteps (step 2) (Orderly 2) (FailoverStrategy.new 2) fallback :=
  failover_runs 2 (by decide) 2 fallback (by decide +kernel)

end XmrigCC.FailoverRuns
