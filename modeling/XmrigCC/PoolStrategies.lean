import XmrigCC.FailoverPools

/-!
# The pool strategies

`SinglePoolStrategy`, and the strategy of a miner, which depends on the number
of its pools. A single pool hands on every job of its client, a list of pools
only those of the active one.
-/

namespace XmrigCC.PoolStrategies

open MiningJob FailoverPools

/-- `SinglePoolStrategy`; its client has the identifier 0. -/
structure SinglePoolStrategy where
  /-- `m_active`. -/
  m_active : Bool

namespace SinglePoolStrategy

/-- The constructor. -/
def new : SinglePoolStrategy := ⟨false⟩

/-- `resume`, with the job the client holds. -/
def resume (s : SinglePoolStrategy) (job : Job) : SinglePoolStrategy×List Call :=
  if s.m_active=false then (s,[]) else (s,[.onJob 0 job])

/-- `onClose`. -/
def onClose (s : SinglePoolStrategy) : SinglePoolStrategy×List Call :=
  if s.m_active=false then (s,[]) else (⟨false⟩,[.onPause])

/-- `onJobReceived`. -/
def onJobReceived (s : SinglePoolStrategy) (job : Job) : SinglePoolStrategy×List Call :=
  (s,[.onJob 0 job])

/-- `onLoginSuccess`. -/
def onLoginSuccess (_ : SinglePoolStrategy) : SinglePoolStrategy×List Call :=
  (⟨true⟩,[.onActive 0])

end SinglePoolStrategy

/-- `m_strategy` of the network. -/
inductive PoolStrategy where
  /-- One pool. -/
  | single (s : SinglePoolStrategy)
  /-- More than one. -/
  | failover (s : FailoverStrategy)

namespace PoolStrategy

/-- The strategy that `Network::Network` makes for this many pools. -/
def new (pools : ℕ) : PoolStrategy :=
  if 1<pools then .failover (FailoverStrategy.new pools) else .single SinglePoolStrategy.new

/-- The number of clients. -/
def size : PoolStrategy → ℕ
  | single _ => 1
  | failover s => s.pools

/-- `isActive`. -/
def isActive : PoolStrategy → Bool
  | single s => s.m_active
  | failover s => s.isActive

/-- Identifier of the active client, -1 for none. -/
def active : PoolStrategy → ℤ
  | single s => if s.m_active then 0 else -1
  | failover s => s.m_active

/-- `resume`, with the jobs the clients hold. -/
def resume (job : ℤ → Job) : PoolStrategy → PoolStrategy×List Call
  | single s => (single (s.resume (job 0)).1,(s.resume (job 0)).2)
  | failover s => (failover (s.resume job).strategy,(s.resume job).calls)

/-- `onClose` from a client. -/
def onClose (retries : ℤ) (id : ℕ) (failures : ℤ) : PoolStrategy → PoolStrategy×List Call
  | single s => (single s.onClose.1,s.onClose.2)
  | failover s =>
    (failover (s.onClose retries id failures).strategy,(s.onClose retries id failures).calls)

/-- `onJobReceived` from a client. -/
def onJobReceived (id : ℕ) (job : Job) : PoolStrategy → PoolStrategy×List Call
  | single s => (single (s.onJobReceived job).1,(s.onJobReceived job).2)
  | failover s => (failover (s.onJobReceived id job).strategy,(s.onJobReceived id job).calls)

/-- `onLoginSuccess` from a client. -/
def onLoginSuccess (id : ℕ) : PoolStrategy → PoolStrategy×List Call
  | single s => (single s.onLoginSuccess.1,s.onLoginSuccess.2)
  | failover s => (failover (s.onLoginSuccess id).strategy,(s.onLoginSuccess id).calls)

/-- A job of this client is handed on. -/
def HandsOn (id : ℕ) : PoolStrategy → Prop
  | single _ => True
  | failover s => s.m_active=id

instance decidableHandsOn (id : ℕ) : ∀ s, Decidable (HandsOn id s)
  | single _ => isTrue trivial
  | failover s => inferInstanceAs (Decidable (s.m_active=id))

/-- A close of this client leaves no pool active. -/
def EndsService (id : ℕ) (failures : ℤ) : PoolStrategy → Prop
  | single s => s.m_active=true
  | failover s => s.EndsService id failures

instance decidableEndsService (id : ℕ) (failures : ℤ) : ∀ s, Decidable (EndsService id failures s)
  | single s => inferInstanceAs (Decidable (s.m_active=true))
  | failover s => inferInstanceAs (Decidable (s.EndsService id failures))

/-- A call that does not concern the workers. -/
def Idle : Call → Prop
  | .onPause => False
  | .onJob _ _ => False
  | _ => True

/-- Resuming hands on the job of the active client. -/
theorem resume_eq (job : ℤ → Job) (s : PoolStrategy) :
    s.resume job=(s,if s.isActive then [.onJob s.active (job s.active)] else []) := by
  cases s with
  | single s =>
    rw [resume,SinglePoolStrategy.resume,isActive,active]
    cases hactive : s.m_active <;> rfl
  | failover s =>
    rw [resume,FailoverStrategy.resume,isActive,active]
    cases hactive : s.isActive <;> rfl

/-- A job of a client is handed on, or nothing happens. -/
theorem onJobReceived_eq {id : ℕ} (job : Job) {s : PoolStrategy} (hid : id<s.size) :
    s.onJobReceived id job=(s,if HandsOn id s then [.onJob id job] else []) := by
  cases s with
  | single s =>
    have hzero : id=0 := Nat.lt_one_iff.mp hid
    subst hzero
    rfl
  | failover s =>
    rw [onJobReceived,FailoverStrategy.onJobReceived]
    by_cases hactive : s.m_active=id
    · have hands : HandsOn id (failover s) := hactive
      rw [if_pos hactive,if_pos hands]
    · have hands : ¬HandsOn id (failover s) := hactive
      rw [if_neg hactive,if_neg hands]

/-- A close pauses the listener if it leaves no pool active. -/
theorem onClose_calls (retries : ℤ) (id : ℕ) (failures : ℤ) (s : PoolStrategy) :
    ∃ calls, (s.onClose retries id failures).2=
      (if EndsService id failures s then [.onPause] else [])++calls ∧ ∀ call∈calls, Idle call := by
  cases s with
  | single s =>
    refine ⟨[],?_,fun _ h => (nomatch h)⟩
    rw [onClose,SinglePoolStrategy.onClose,List.append_nil]
    by_cases hactive : s.m_active=true
    · have hends : EndsService id failures (single s) := hactive
      rw [if_pos hends,if_neg (by rw [hactive]; decide)]
    · have hends : ¬EndsService id failures (single s) := hactive
      rw [if_neg hends,if_pos ((Bool.not_eq_true _).mp hactive)]
  | failover s =>
    refine ⟨if s.GoesOn retries id failures then [.connect (s.m_index+1)] else [],?_,?_⟩
    · rw [onClose,FailoverStrategy.onClose_eq]
      rfl
    · intro call hcall
      split at hcall
      · rw [List.mem_singleton.mp hcall]
        exact trivial
      · cases hcall

/-- Then no pool is active, and otherwise the same as before. -/
theorem onClose_active (retries : ℤ) (id : ℕ) (failures : ℤ) (s : PoolStrategy) :
    if EndsService id failures s then (s.onClose retries id failures).1.isActive=false
    else (s.onClose retries id failures).1.isActive=s.isActive ∧
      (s.onClose retries id failures).1.active=s.active := by
  cases s with
  | single s =>
    rw [onClose,SinglePoolStrategy.onClose]
    by_cases hactive : s.m_active=true
    · have hends : EndsService id failures (single s) := hactive
      rw [if_pos hends,if_neg (by rw [hactive]; decide)]
      rfl
    · have hends : ¬EndsService id failures (single s) := hactive
      rw [if_neg hends,if_pos ((Bool.not_eq_true _).mp hactive)]
      exact ⟨rfl,rfl⟩
  | failover s =>
    by_cases hends : s.EndsService id failures
    · have hends' : EndsService id failures (failover s) := hends
      rw [if_pos hends',onClose,isActive,FailoverStrategy.isActive,
        FailoverStrategy.onClose_m_active,if_pos hends]
      rfl
    · have hends' : ¬EndsService id failures (failover s) := hends
      rw [if_neg hends',onClose,isActive,isActive,active,active,FailoverStrategy.isActive,
        FailoverStrategy.onClose_m_active,if_neg hends]
      exact ⟨rfl,rfl⟩

/-- A login does not concern the workers. -/
theorem onLoginSuccess_calls (id : ℕ) (s : PoolStrategy) :
    ∀ call∈(s.onLoginSuccess id).2, Idle call := by
  intro call hcall
  cases s with
  | single s =>
    rw [List.mem_singleton.mp hcall]
    exact trivial
  | failover s =>
    rcases FailoverStrategy.onLoginSuccess_call hcall with ⟨i,-,-,-,rfl⟩|rfl <;> exact trivial

/-- After a login a pool is active: that of the login, or the one before. -/
theorem onLoginSuccess_active {id : ℕ} (s : PoolStrategy) (hid : id<s.size) :
    (s.onLoginSuccess id).1.isActive=true ∧ (s.onLoginSuccess id).1.size=s.size ∧
    if HandsOn id (s.onLoginSuccess id).1 then (s.onLoginSuccess id).1.active=id
    else s.isActive=true ∧ (s.onLoginSuccess id).1.active=s.active ∧ s.active ≠ id := by
  cases s with
  | single s =>
    have hzero : id=0 := Nat.lt_one_iff.mp hid
    subst hzero
    have hands : HandsOn 0 ((single s).onLoginSuccess 0).1 := trivial
    rw [if_pos hands]
    exact ⟨rfl,rfl,rfl⟩
  | failover s =>
    have hge : (0 : ℤ) ≤ id := Int.natCast_nonneg id
    have hactive := FailoverStrategy.onLoginSuccess_m_active s hge
    refine ⟨?_,FailoverStrategy.onLoginSuccess_pools s hge,?_⟩
    · rw [onLoginSuccess,isActive,FailoverStrategy.isActive,hactive]
      split
      · exact decide_eq_true hge
      · rename_i hother
        rw [not_or,Bool.not_eq_false] at hother
        exact hother.2
    · by_cases hands : HandsOn id ((failover s).onLoginSuccess id).1
      · rw [if_pos hands]
        exact hands
      · rw [if_neg hands]
        have hne : ¬(s.onLoginSuccess id).strategy.m_active=id := hands
        rw [hactive] at hne
        split at hne
        · exact absurd rfl hne
        · rename_i hother
          rw [not_or,Bool.not_eq_false] at hother
          refine ⟨hother.2,?_,hne⟩
          rw [onLoginSuccess,active,active,hactive,if_neg]
          rw [not_or,Bool.not_eq_false]
          exact hother

/-- A client whose jobs are not handed on is not the active one. -/
theorem active_ne {id : ℕ} {s : PoolStrategy} (h : ¬HandsOn id s) : s.active ≠ id := by
  cases s with
  | single s => exact absurd trivial h
  | failover s => exact h

/-- A client of an active strategy whose jobs are handed on is the active one. -/
theorem HandsOn.active {id : ℕ} {s : PoolStrategy} (h : HandsOn id s) (hid : id<s.size)
    (hactive : s.isActive=true) : s.active=id := by
  cases s with
  | single s =>
    have hzero : id=0 := Nat.lt_one_iff.mp hid
    subst hzero
    exact if_pos hactive
  | failover s => exact h

end PoolStrategy

end XmrigCC.PoolStrategies
