import XmrigCC.OrderStatistics
import XmrigCC.PoolMessages

/-!
# Share statistics

`NetworkState` counts the answers to shares, keeps the ten greatest difficulties reached and
the times that the answers took since the pools were last lost. What it shows is compared
with the whole history of its calls.
-/

namespace XmrigCC.NetworkStatistics

open ByteText OrderStatistics

/-- A `SubmitResult` with the time its answer took. -/
structure SubmitResult extends PoolMessages.SubmitResult where
  /-- Milliseconds until the answer. -/
  elapsed : ℕ

/-- The members of `NetworkState`. -/
structure NetworkState where
  /-- The pool in use. -/
  pool : Bytes
  /-- The greatest difficulties reached. -/
  topDiff : List ℕ
  /-- Difficulty of the current job. -/
  diff : UInt32
  /-- Shares accepted. -/
  accepted : UInt64
  /-- Times that there was no pool left. -/
  failures : UInt64
  /-- Shares rejected. -/
  rejected : UInt64
  /-- Difficulties of the jobs whose shares were accepted. -/
  total : UInt64
  /-- There is a pool in use. -/
  m_active : Bool
  /-- Times that answers took. -/
  m_latency : List ℕ
  /-- When the pool came in use. -/
  m_connectionTime : UInt64

namespace NetworkState

/-- The constructor, which leaves `m_connectionTime` as the memory has it. -/
def new (memory : UInt64) : NetworkState :=
  ⟨[],List.replicate 10 0,0,0,0,0,0,false,[],memory⟩

/-- `NetworkState::latency`. -/
def latency (s : NetworkState) (nth_element : NthElement ℕ) : ℕ :=
  let calls := s.m_latency.length
  if calls=0 then 0 else (nth_element.rearrange s.m_latency (calls/2)).getD (calls/2) 0

/-- `topDiff`, after a share that reaches a difficulty. -/
def raiseTop (topDiff : List ℕ) (actualDiff : ℕ) : List ℕ :=
  let ln := topDiff.length-1
  if actualDiff > topDiff.getD ln 0 then descending (topDiff.set ln actualDiff) else topDiff

/-- A time as `m_latency` keeps it. -/
def capped (elapsed : ℕ) : ℕ := if elapsed > 0xFFFF then 0xFFFF else elapsed%2^16

/-- `NetworkState::add`. -/
def add (s : NetworkState) (result : SubmitResult) (error : Option Bytes) : NetworkState :=
  if error.isSome then {s with rejected := s.rejected+1}
  else
    {s with
      accepted := s.accepted+1
      total := s.total+UInt64.ofNat result.diff
      topDiff := raiseTop s.topDiff result.actualDiff
      m_latency := s.m_latency++[capped result.elapsed]}

/-- `NetworkState::setPool`, which does not use the address. -/
def setPool (s : NetworkState) (host : Bytes) (port : ℤ) (_ip : Option Bytes)
    (now : UInt64) : NetworkState :=
  {s with
    pool := (host++[58]++PoolMessages.decimal port).take 254
    m_active := true
    m_connectionTime := now}

/-- `NetworkState::stop`. -/
def stop (s : NetworkState) : NetworkState :=
  {s with m_active := false,diff := 0,failures := s.failures+1,m_latency := []}

end NetworkState

/-- A call on `NetworkState`. -/
inductive Call where
  /-- `add(result, error)`. -/
  | add (result : SubmitResult) (error : Option Bytes)
  /-- `setPool(host, port, ip)`, at a time. -/
  | setPool (host : Bytes) (port : ℤ) (ip : Option Bytes) (now : UInt64)
  /-- `stop()`. -/
  | stop

/-- The state after a call. -/
def call (s : NetworkState) : Call → NetworkState
  | .add result error => s.add result error
  | .setPool host port ip now => s.setPool host port ip now
  | .stop => s.stop

/-- The state after calls on a new one. -/
def run (memory : UInt64) (calls : List Call) : NetworkState :=
  calls.foldl call (NetworkState.new memory)

@[simp] theorem run_append (memory : UInt64) (calls : List Call) (c : Call) :
    run memory (calls++[c])=call (run memory calls) c := by
  simp [run]

section History

/-- What a call reports as accepted. -/
def Call.acceptedResult : Call → Option SubmitResult
  | .add result none => some result
  | _ => none

/-- A call reports a rejected share. -/
def Call.isRejection : Call → Bool
  | .add _ error => error.isSome
  | _ => false

/-- A call is one of `add`. -/
def Call.isAdd : Call → Bool
  | .add _ _ => true
  | _ => false

/-- A call is one of `stop`. -/
def Call.isStop : Call → Bool
  | .stop => true
  | _ => false

/-- The results accepted, in order. -/
def acceptedResults (calls : List Call) : List SubmitResult :=
  calls.filterMap Call.acceptedResult

/-- The calls made since the last `stop`. -/
def sinceStop (calls : List Call) : List Call :=
  (calls.reverse.takeWhile fun c => !c.isStop).reverse

@[simp] theorem acceptedResults_append (calls : List Call) (c : Call) :
    acceptedResults (calls++[c])=acceptedResults calls++c.acceptedResult.toList := by
  rw [acceptedResults,List.filterMap_append,acceptedResults]
  cases h : c.acceptedResult <;> simp [h]

theorem sinceStop_append (calls : List Call) (c : Call) :
    sinceStop (calls++[c])=if c.isStop then [] else sinceStop calls++[c] := by
  cases h : c.isStop <;> simp [sinceStop,h]

/-- Every call of `add` reports a share, accepted or rejected. -/
theorem acceptedResults_length_add (calls : List Call) :
    (acceptedResults calls).length+calls.countP Call.isRejection=calls.countP Call.isAdd := by
  induction calls using List.reverseRecOn with
  | nil => rfl
  | append_singleton calls c ih =>
    rw [acceptedResults_append,List.length_append,List.countP_append,List.countP_append]
    cases c with
    | add result error =>
      cases error <;> simp [Call.acceptedResult,Call.isRejection,Call.isAdd] <;> omega
    | setPool host port ip now =>
      simpa [Call.acceptedResult,Call.isRejection,Call.isAdd] using ih
    | stop => simpa [Call.acceptedResult,Call.isRejection,Call.isAdd] using ih

end History

/-- The greatest difficulties are those of the history. -/
theorem isTop_raiseTop {top history : List ℕ} (h : IsTop top history) (hn : top ≠ [])
    (x : ℕ) : IsTop (NetworkState.raiseTop top x) (history++[x]) := by
  obtain ⟨kept,least,rfl⟩ : ∃ kept least, top=kept++[least] :=
    ⟨_,_,(List.dropLast_append_getLast hn).symm⟩
  have hlast : (kept++[least]).getD ((kept++[least]).length-1) 0=least := by simp
  have hset : (kept++[least]).set ((kept++[least]).length-1) x=kept++[x] := by simp
  unfold NetworkState.raiseTop
  simp only [hlast,hset]
  split
  · rename_i hx
    exact h.replace hx
  · rename_i hx
    exact h.skip (not_lt.mp hx)

@[simp] theorem raiseTop_length (top : List ℕ) (x : ℕ) :
    (NetworkState.raiseTop top x).length=top.length := by
  unfold NetworkState.raiseTop
  dsimp only
  split
  · rw [(descending_perm _).length_eq,List.length_set]
  · rfl

@[simp] theorem capped_eq (elapsed : ℕ) : NetworkState.capped elapsed=min elapsed 65535 := by
  unfold NetworkState.capped
  split <;> omega

/-- How the members come from the calls made. -/
structure Kept (calls : List Call) (s : NetworkState) : Prop where
  /-- Shares accepted, modulo 2^64. -/
  accepted : s.accepted=UInt64.ofNat (acceptedResults calls).length
  /-- Shares rejected, modulo 2^64. -/
  rejected : s.rejected=UInt64.ofNat (calls.countP Call.isRejection)
  /-- Difficulties of the shares accepted, modulo 2^64. -/
  total : s.total=UInt64.ofNat ((acceptedResults calls).map fun r => r.diff).sum
  /-- The greatest of the difficulties reached and ten zeros. -/
  top : IsTop s.topDiff (List.replicate 10 0++(acceptedResults calls).map fun r => r.actualDiff)
  /-- There are ten. -/
  ten : s.topDiff.length=10
  /-- Times since the last `stop`. -/
  times : s.m_latency=(acceptedResults (sinceStop calls)).map fun r => min r.elapsed 65535

theorem kept_new (memory : UInt64) : Kept [] (NetworkState.new memory) := by
  refine ⟨rfl,rfl,rfl,?_,rfl,rfl⟩
  show IsTop (List.replicate 10 0) (List.replicate 10 0++[])
  rw [List.append_nil]
  exact isTop_replicate 10 0

theorem Kept.add {calls : List Call} {s : NetworkState} (h : Kept calls s)
    (result : SubmitResult) (error : Option Bytes) :
    Kept (calls++[.add result error]) (s.add result error) := by
  have hsince : sinceStop (calls++[.add result error])=sinceStop calls++[.add result error] := by
    rw [sinceStop_append,if_neg (by simp [Call.isStop])]
  have hne : s.topDiff ≠ [] := List.ne_nil_of_length_pos (by rw [h.ten]; omega)
  cases error with
  | none =>
    refine ⟨?_,?_,?_,?_,?_,?_⟩
    · simp [NetworkState.add,Call.acceptedResult,h.accepted]
    · simpa [NetworkState.add,Call.isRejection] using h.rejected
    · simp [NetworkState.add,Call.acceptedResult,h.total]
    · have htop := isTop_raiseTop h.top hne result.actualDiff
      simpa [NetworkState.add,Call.acceptedResult] using htop
    · simpa [NetworkState.add] using h.ten
    · rw [hsince]
      simp [NetworkState.add,Call.acceptedResult,h.times]
  | some message =>
    refine ⟨?_,?_,?_,?_,h.ten,?_⟩
    · simpa [NetworkState.add,Call.acceptedResult] using h.accepted
    · simp [NetworkState.add,Call.isRejection,h.rejected]
    · simpa [NetworkState.add,Call.acceptedResult] using h.total
    · simpa [NetworkState.add,Call.acceptedResult] using h.top
    · rw [hsince]
      simpa [NetworkState.add,Call.acceptedResult] using h.times

/-- A pool that comes in use leaves the statistics as they are. -/
theorem Kept.setPool {calls : List Call} {s : NetworkState} (h : Kept calls s) (host : Bytes)
    (port : ℤ) (ip : Option Bytes) (now : UInt64) :
    Kept (calls++[.setPool host port ip now]) (s.setPool host port ip now) := by
  have hsince : sinceStop (calls++[.setPool host port ip now])=
      sinceStop calls++[.setPool host port ip now] := by
    rw [sinceStop_append,if_neg (by simp [Call.isStop])]
  refine ⟨?_,?_,?_,?_,h.ten,?_⟩
  · simpa [NetworkState.setPool,Call.acceptedResult] using h.accepted
  · simpa [NetworkState.setPool,Call.isRejection] using h.rejected
  · simpa [NetworkState.setPool,Call.acceptedResult] using h.total
  · simpa [NetworkState.setPool,Call.acceptedResult] using h.top
  · rw [hsince]
    simpa [NetworkState.setPool,Call.acceptedResult] using h.times

/-- When there is no pool left, only the times are forgotten. -/
theorem Kept.stop {calls : List Call} {s : NetworkState} (h : Kept calls s) :
    Kept (calls++[.stop]) s.stop := by
  have hsince : sinceStop (calls++[.stop])=[] := by
    rw [sinceStop_append,if_pos (by simp [Call.isStop])]
  refine ⟨?_,?_,?_,?_,h.ten,?_⟩
  · simpa [NetworkState.stop,Call.acceptedResult] using h.accepted
  · simpa [NetworkState.stop,Call.isRejection] using h.rejected
  · simpa [NetworkState.stop,Call.acceptedResult] using h.total
  · simpa [NetworkState.stop,Call.acceptedResult] using h.top
  · rw [hsince]
    rfl

theorem Kept.call {calls : List Call} {s : NetworkState} (h : Kept calls s) (c : Call) :
    Kept (calls++[c]) (call s c) := by
  cases c with
  | add result error => exact h.add result error
  | setPool host port ip now => exact h.setPool host port ip now
  | stop => exact h.stop

theorem kept_run (memory : UInt64) (calls : List Call) : Kept calls (run memory calls) := by
  induction calls using List.reverseRecOn with
  | nil => exact kept_new memory
  | append_singleton calls c ih =>
    rw [run_append]
    exact ih.call c

/-- The statistics are those of the history of the calls. -/
structure Faithful (nth_element : NthElement ℕ) (calls : List Call) (s : NetworkState) :
    Prop where
  /-- Every share reported is counted, modulo 2^64. -/
  counted : s.accepted+s.rejected=UInt64.ofNat (calls.countP Call.isAdd)
  /-- While the counters can hold the number, nothing is lost. -/
  exactly : calls.countP Call.isAdd < 2^64 →
    s.accepted.toNat+s.rejected.toNat=calls.countP Call.isAdd
  /-- Difficulties of the shares accepted. -/
  totalled : s.total.toNat=((acceptedResults calls).map fun r => r.diff).sum%2^64
  /-- The greatest difficulty reached comes first. -/
  sorted : s.topDiff.Pairwise fun a b => b ≤ a
  /-- The ten greatest of all difficulties reached and ten zeros. -/
  top : s.topDiff=(descending
    (((acceptedResults calls).map fun r => r.actualDiff)++List.replicate 10 0)).take 10
  /-- The median of the times since the last `stop`. -/
  median : s.latency nth_element=
    let times := (acceptedResults (sinceStop calls)).map fun r => min r.elapsed 65535
    if times.length=0 then 0 else (ascending times).getD (times.length/2) 0

/-- What is selected is the element of that rank. -/
theorem latency_eq (nth_element : NthElement ℕ) (s : NetworkState) :
    s.latency nth_element=if s.m_latency.length=0 then 0
      else (ascending s.m_latency).getD (s.m_latency.length/2) 0 := by
  unfold NetworkState.latency
  dsimp only
  split
  · rfl
  · rename_i hlen
    rw [List.getD_eq_getElem?_getD,List.getD_eq_getElem?_getD,
      nth_element.rearrange_getElem s.m_latency _ (by omega)]

theorem Kept.exactly {calls : List Call} {s : NetworkState} (h : Kept calls s)
    (hn : calls.countP Call.isAdd < 2^64) :
    s.accepted.toNat+s.rejected.toNat=calls.countP Call.isAdd := by
  have hsum := acceptedResults_length_add calls
  rw [h.accepted,h.rejected,UInt64.toNat_ofNat',UInt64.toNat_ofNat',
    Nat.mod_eq_of_lt (by omega),Nat.mod_eq_of_lt (by omega),hsum]

/-- Statistics. Whatever calls a new state has seen, in any order, its counters, its best ten and
its latency are those of the calls. -/
theorem statistics_faithful (nth_element : NthElement ℕ) (memory : UInt64)
    (calls : List Call) : Faithful nth_element calls (run memory calls) := by
  have h := kept_run memory calls
  refine ⟨?_,h.exactly,?_,h.top.sorted,?_,?_⟩
  · rw [h.accepted,h.rejected,← UInt64.ofNat_add,acceptedResults_length_add]
  · rw [h.total]
    exact UInt64.toNat_ofNat
  · rw [h.top.eq_take,h.ten]
    exact congrArg (List.take 10) (eq_descending (descending_pairwise _)
      ((descending_perm _).trans List.perm_append_comm))
  · rw [latency_eq,h.times]

end XmrigCC.NetworkStatistics
