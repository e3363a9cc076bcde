import XmrigCC.NaturalArithmetic
import XmrigCC.NonceRanges
import XmrigCC.PoolMessages
import XmrigCC.TargetTexts

/-!
# Targets and difficulties

A difficulty is the quotient of 2^64-1 by a target. A compact target of 32 bits gives the
quotient first and the target from it; a target of 64 bits gives a difficulty that `Job::diff`
cuts to 32 bits. The difficulty a share reaches is the quotient by the end of its hash.
-/

namespace XmrigCC.TargetDifficulty

open CellMemory MiningJob HexTexts TargetTexts NaturalArithmetic MultiWorker MultiWorkerHashing
open PoolMessages NonceRanges ByteText

/-- `Job::toDiff`, none for a target of 0. -/
def toDiffChecked (target : ℕ) : Option ℕ := quotient 0xFFFFFFFFFFFFFFFF target

/-- `Job::setTarget`, none where it divides by 0. -/
def setTargetChecked (str : Cells UInt8) (job : Job) : Option (List UInt8) → Option (Bool×Job)
  | none => some (false,job)
  | some target =>
    if target.length ≤ 8 then do
      let decoded := fromHex (store str 0 target) 8 (fun _ => 0)
      let tmp := leValue (slice decoded.2 0 4)
      if decoded.1=false ∨ tmp=0 then return (false,job)
      let difficulty ← quotient 0xFFFFFFFF tmp
      let value ← quotient 0xFFFFFFFFFFFFFFFF difficulty
      let diff ← toDiffChecked value
      return (true,{job with m_target := value,m_diff := diff})
    else if target.length ≤ 16 then do
      let decoded := fromHex (store str 0 target) 16 (fun _ => 0)
      let value := leValue (slice decoded.2 0 8)
      if decoded.1=false ∨ value=0 then return (false,{job with m_target := value})
      let diff ← toDiffChecked value
      return (true,{job with m_target := value,m_diff := diff})
    else some (false,job)

/-- `JobResult::actualDiff`, none where it divides by 0. -/
def actualDiffChecked (result : JobResult) : Option ℕ :=
  toDiffChecked (leValue (result.result.drop 24))

section Quotients

/-- The difficulty of a value of 32 bits is one of 32 bits. -/
theorem compact_quotient {value : ℕ} (hpos : 0<value) (hlt : value<2^32) :
    1 ≤ 0xFFFFFFFF/value ∧ 0xFFFFFFFF/value<2^32 := by
  have hone : 1 ≤ 0xFFFFFFFF/value := by
    rw [Nat.le_div_iff_mul_le hpos]
    omega
  have hle : 0xFFFFFFFF/value ≤ 0xFFFFFFFF := Nat.div_le_self _ _
  omega

/-- A difficulty of 32 bits is below the root of 2^64, so its target gives it back. -/
theorem toDiff_of_compact {difficulty : ℕ} (hpos : 1 ≤ difficulty) (hlt : difficulty<2^32) :
    toDiff (0xFFFFFFFFFFFFFFFF/difficulty)=difficulty := by
  apply div_div_of_mul_succ_le hpos
  calc
    difficulty*(difficulty+1) ≤ 0xFFFFFFFF*(0xFFFFFFFF+1) :=
      Nat.mul_le_mul (by omega) (by omega)
    _ ≤ 0xFFFFFFFFFFFFFFFF := by decide

theorem compact_target_pos {difficulty : ℕ} (hpos : 1 ≤ difficulty) (hlt : difficulty<2^32) :
    0<0xFFFFFFFFFFFFFFFF/difficulty := Nat.div_pos (by omega) hpos

/-- The characters of a short text are worth a value of 32 bits. -/
theorem hexValue_lt {s : List UInt8} {n : ℕ} (h : s.length ≤ 2*n) : hexValue s<256^n := by
  calc
    hexValue s<256^(hexBytes s).length := leValue_lt _
    _ ≤ 256^n := Nat.pow_le_pow_right (by decide) (by rw [length_hexBytes]; omega)

end Quotients

theorem toDiffChecked_eq {target : ℕ} (h : 0<target) : toDiffChecked target=some (toDiff target) :=
  quotient_of_pos h

/-- No text makes `setTarget` divide by 0. -/
theorem setTargetChecked_eq (str : Cells UInt8) (job : Job) (target : Option (List UInt8)) :
    setTargetChecked str job target=some (job.setTarget str target) := by
  cases target with
  | none => rfl
  | some target =>
    rw [setTargetChecked,Job.setTarget]
    dsimp only
    split
    · split
      · rfl
      · rename_i hgo
        have hpos := Nat.pos_of_ne_zero fun h => hgo (Or.inr h)
        have hlt := leValue_lt (slice (fromHex (store str 0 target) 8 (fun _ => 0)).2 0 4)
        rw [length_slice] at hlt
        obtain ⟨hone,hbound⟩ := compact_quotient hpos hlt
        rw [quotient_of_pos hpos]
        dsimp only [Option.bind_eq_bind,Option.bind_some]
        rw [quotient_of_pos hone]
        dsimp only [Option.bind_some]
        rw [toDiffChecked_eq (compact_target_pos hone hbound)]
        rfl
    · split
      · split
        · rfl
        · rename_i hgo
          rw [toDiffChecked_eq (Nat.pos_of_ne_zero fun h => hgo (Or.inr h))]
          rfl
      · rfl

/-- A text of 8 hex digits, not all zeros. -/
structure CompactTarget where
  /-- The text. -/
  digits : List UInt8
  /-- It has 8 characters. -/
  length_eq : digits.length=8
  /-- They are digits, not all zeros. -/
  target : IsTarget digits

/-- Its little-endian value of 32 bits. -/
def CompactTarget.value (t : CompactTarget) : ℕ := hexValue t.digits

/-- Difficulty of a compact target. -/
def CompactTarget.difficulty (t : CompactTarget) : ℕ := 0xFFFFFFFF/t.value

/-- `setTarget` of a compact target divides by no 0, keeps the quotient as difficulty, and the
quotient by that, which fits 64 bits, as target. -/
structure SetsExactly (str : Cells UInt8) (job : Job) (t : CompactTarget) : Prop where
  /-- All divisors are positive, and the text is accepted. -/
  divides : setTargetChecked str job (some t.digits)=
    some (true,(job.setTarget str (some t.digits)).2)
  /-- The target. -/
  target_eq : (job.setTarget str (some t.digits)).2.m_target=0xFFFFFFFFFFFFFFFF/t.difficulty
  /-- It fits. -/
  target_lt : (job.setTarget str (some t.digits)).2.m_target<2^64
  /-- The difficulty computed back from the target. -/
  diff_back : (job.setTarget str (some t.digits)).2.m_diff=
    toDiff (job.setTarget str (some t.digits)).2.m_target
  /-- It is the quotient. -/
  diff_eq : (job.setTarget str (some t.digits)).2.m_diff=t.difficulty
  /-- `Job::diff` loses nothing. -/
  reported_eq : (job.setTarget str (some t.digits)).2.diff=t.difficulty

section Compact

variable (str : Cells UInt8) (job : Job) (t : CompactTarget)

theorem CompactTarget.value_pos : 0<t.value := Nat.pos_of_ne_zero t.target.value

theorem CompactTarget.difficulty_bounds : 1 ≤ t.difficulty ∧ t.difficulty<2^32 :=
  compact_quotient t.value_pos (hexValue_lt (n:=4) (Nat.le_of_eq t.length_eq))

theorem CompactTarget.setTarget_eq : job.setTarget str (some t.digits)=(true,{job with
    m_target := 0xFFFFFFFFFFFFFFFF/t.difficulty
    m_diff := toDiff (0xFFFFFFFFFFFFFFFF/t.difficulty)}) := by
  have hread := charsRead_full str (Or.inl t.length_eq)
  have htarget : IsTarget (charsRead str t.digits) := by
    rw [hread]
    exact t.target
  have hvalue : targetValue t.digits (hexValue t.digits)=0xFFFFFFFFFFFFFFFF/t.difficulty :=
    if_pos (Nat.le_of_eq t.length_eq)
  rw [setTarget_short job (Nat.le_of_eq t.length_eq),if_pos htarget,hread,hvalue]

theorem CompactTarget.sets_exactly : SetsExactly str job t := by
  obtain ⟨hone,hlt⟩ := t.difficulty_bounds
  have hback := toDiff_of_compact hone hlt
  have hset := t.setTarget_eq str job
  refine ⟨?_,?_,?_,?_,?_,?_⟩
  · rw [setTargetChecked_eq,hset]
  · rw [hset]
  · rw [hset]
    exact (Nat.div_le_self _ _).trans_lt (by decide)
  · rw [hset]
  · rw [hset]
    exact hback
  · rw [hset,Job.diff]
    dsimp only
    rw [hback,Nat.mod_eq_of_lt hlt]

end Compact

/-- Compact targets. Each sets its difficulty exactly, and a larger value gives a difficulty
that is not larger. -/
theorem compact_target_exact (str : Cells UInt8) (job : Job) (t : CompactTarget) :
    SetsExactly str job t ∧ ∀ u : CompactTarget, t.value ≤ u.value →
      (job.setTarget str (some u.digits)).2.m_diff ≤
        (job.setTarget str (some t.digits)).2.m_diff := by
  refine ⟨t.sets_exactly str job,fun u hle => ?_⟩
  rw [(t.sets_exactly str job).diff_eq,(u.sets_exactly str job).diff_eq]
  exact Nat.div_le_div_left hle t.value_pos

/-- A compact target from its text. -/
theorem one_isTarget : IsTarget (text "01000000") := by decide +kernel

theorem ff_isTarget : IsTarget (text "ffffff00") := by decide +kernel

/-- The smallest value against one with three bytes set. -/
theorem compact_target_exact_one :
    (⟨text "01000000",rfl,one_isTarget⟩ : CompactTarget).value ≤
        (⟨text "ffffff00",rfl,ff_isTarget⟩ : CompactTarget).value ∧
      (zeroJob.setTarget (fun _ => 0) (some (text "ffffff00"))).2.m_diff ≤
        (zeroJob.setTarget (fun _ => 0) (some (text "01000000"))).2.m_diff := by
  have hle : (⟨text "01000000",rfl,one_isTarget⟩ : CompactTarget).value ≤
      (⟨text "ffffff00",rfl,ff_isTarget⟩ : CompactTarget).value := by decide
  exact ⟨hle,(compact_target_exact (fun _ => 0) zeroJob ⟨text "01000000",rfl,one_isTarget⟩).2
    ⟨text "ffffff00",rfl,ff_isTarget⟩ hle⟩

/-- What is reported of a job and of the shares found for it is the quotient of 2^64-1 by its
target. -/
structure DiffReported (job : Job) : Prop where
  /-- `Job::diff`. -/
  job_eq : job.diff=toDiff job.m_target
  /-- `JobResult::diff`. -/
  share_eq : ∀ (cfg : Setup) (w : Worker) (lane : ℕ) (share : JobResult),
    w.state.job=job → shareOf cfg w lane=some share → share.diff=toDiff job.m_target

section Reports

/-- A share reports the difficulty of the job the worker is on. -/
theorem share_of_job {cfg : Setup} {w : Worker} {lane : ℕ} {share : JobResult}
    (h : shareOf cfg w lane=some share) :
    share.diff=w.state.job.diff ∧
    leValue ((share.result.drop 24).take 8)<w.state.job.m_target := by
  rw [shareOf] at h
  split at h
  · rename_i hlt
    obtain rfl := Option.some.inj h
    exact ⟨rfl,hlt⟩
  · cases h

theorem diffReported_iff {job : Job} (hdiff : job.m_diff=toDiff job.m_target) :
    DiffReported job ↔ toDiff job.m_target<2^32 := by
  have hreport : job.diff=toDiff job.m_target%2^32 := congrArg (·%2^32) hdiff
  constructor
  · intro h
    rw [←h.job_eq,hreport]
    exact Nat.mod_lt _ (by decide)
  · intro hlt
    have hjob : job.diff=toDiff job.m_target := hreport.trans (Nat.mod_eq_of_lt hlt)
    refine ⟨hjob,fun cfg w lane share hw hshare => ?_⟩
    rw [(share_of_job hshare).1,hw,hjob]

/-- The difficulty of a target needs 32 bits exactly from 2^32 on. -/
theorem toDiff_lt_iff {target : ℕ} (h : 0<target) : toDiff target<2^32 ↔ 2^32 ≤ target := by
  rw [toDiff,Nat.div_lt_iff_lt_mul h]
  omega

/-- Sixteen digits are worth 2^32 or more when the last eight are not all zeros. -/
theorem long_value_iff {chars : List UInt8} (hlength : chars.length=16)
    (hdigits : ∀ c∈chars, IsHex c) : 2^32 ≤ hexValue chars ↔ ∃ c∈chars.drop 8, c ≠ 48 := by
  have hlow : (chars.take 8).length=8 := by
    rw [List.length_take,hlength]
    rfl
  have hhigh : (chars.drop 8).length=8 := by rw [List.length_drop,hlength]
  have hsplit : hexValue chars=hexValue (chars.take 8)+256^4*hexValue (chars.drop 8) := by
    have hbytes := hexBytes_append (t:=chars.drop 8) (by rw [hlow] : (chars.take 8).length%2=0)
    rw [List.take_append_drop] at hbytes
    rw [hexValue,hbytes,leValue_append,length_hexBytes,hlow]
    rfl
  have hlt := hexValue_lt (n:=4) (Nat.le_of_eq hlow)
  have hzero := hexValue_eq_zero_iff (by rw [hhigh] : (chars.drop 8).length%2=0)
    fun c hc => hdigits c (List.mem_of_mem_drop hc)
  have hsome : (∃ c∈chars.drop 8, c ≠ 48) ↔ hexValue (chars.drop 8) ≠ 0 := by
    rw [Ne,hzero]
    simp only [not_forall,exists_prop]
  rw [hsome,hsplit]
  omega

end Reports

/-- Reported difficulties. For an accepted text the difficulty reported of the job is that of
its target exactly when the text is compact or one of its last eight digits is not 0. -/
theorem diff_reported_iff {str : Cells UInt8} {job : Job} {target : List UInt8}
    (h : (job.setTarget str (some target)).1=true) :
    DiffReported (job.setTarget str (some target)).2 ↔
      target.length ≤ 8 ∨ ∃ c∈(charsRead str target).drop 8, c ≠ 48 := by
  obtain ⟨-,htarget⟩ := (setTarget_accepted_iff job).mp h
  have hlength := length_charsRead str target
  have hpos := Nat.pos_of_ne_zero htarget.value
  rw [setTarget_accepted h,diffReported_iff (by dsimp only)]
  dsimp only
  by_cases hshort : target.length ≤ 8
  · rw [if_pos hshort] at hlength
    obtain ⟨hone,hlt⟩ := compact_quotient hpos (hexValue_lt (n:=4) (Nat.le_of_eq hlength))
    rw [targetValue,if_pos hshort,toDiff_of_compact hone hlt]
    exact iff_of_true hlt (Or.inl hshort)
  · rw [if_neg hshort] at hlength
    rw [targetValue,if_neg hshort,toDiff_lt_iff hpos,long_value_iff hlength htarget.digits,
      or_iff_right hshort]

theorem long_target_accepted :
    (zeroJob.setTarget (fun _ => 0) (some (text "ffffffffffff0000"))).1=true := by
  decide +kernel

/-- A difficulty of 65536 is reported as it is. -/
theorem diff_reported_long :
    DiffReported (zeroJob.setTarget (fun _ => 0) (some (text "ffffffffffff0000"))).2 :=
  (diff_reported_iff long_target_accepted).mpr
    (Or.inr ⟨102,by decide +kernel,by decide⟩)

/-- A difficulty of 2^33-1 is reported as 2^32-1. -/
theorem high_diff_not_reported :
    (zeroJob.setTarget (fun _ => 0) (some (text "0000008000000000"))).1=true ∧
    ¬DiffReported (zeroJob.setTarget (fun _ => 0) (some (text "0000008000000000"))).2 := by
  refine ⟨by decide +kernel,fun h => ?_⟩
  have hdiff := h.job_eq
  exact absurd hdiff (by decide +kernel)

/-- `actualDiff` of a share divides by no 0 and reaches the difficulty of a target. -/
def ReachesTarget (share : JobResult) (target : ℕ) : Prop :=
  ∃ reached, actualDiffChecked share=some reached ∧ toDiff target ≤ reached

theorem actualDiffChecked_eq_some_iff {share : JobResult} {reached : ℕ} :
    actualDiffChecked share=some reached ↔
      0<leValue (share.result.drop 24) ∧ actualDiff share=reached := quotient_eq_some_iff

/-- Shares found. A share whose hash is below the target of the job reaches the difficulty of
that target exactly when its last eight bytes are not all zeros. -/
theorem share_reaches_iff {cfg : Setup} {w : Worker} {lane : ℕ} {share : JobResult}
    (hshare : shareOf cfg w lane=some share) (hhash : share.result.length=32) :
    ReachesTarget share w.state.job.m_target ↔ ∃ b∈share.result.drop 24, b ≠ 0 := by
  have hlast : (share.result.drop 24).length=8 := by rw [List.length_drop,hhash]
  have hlt := (share_of_job hshare).2
  rw [List.take_of_length_le (Nat.le_of_eq hlast)] at hlt
  have hsome : (∃ b∈share.result.drop 24, b ≠ 0) ↔ 0<leValue (share.result.drop 24) := by
    rw [Nat.pos_iff_ne_zero,Ne,leValue_eq_zero_iff]
    simp only [not_forall,exists_prop]
  rw [hsome,ReachesTarget]
  constructor
  · rintro ⟨reached,hreached,-⟩
    exact (actualDiffChecked_eq_some_iff.mp hreached).1
  · intro hpos
    refine ⟨actualDiff share,actualDiffChecked_eq_some_iff.mpr ⟨hpos,rfl⟩,?_⟩
    exact Nat.div_le_div_left (Nat.le_of_lt hlt) hpos

/-- A job with the compact target ffffffff. -/
def easyJob : Job := (zeroJob.setTarget (fun _ => 0) (some (text "ffffffff"))).2

/-- A worker with one lane on that job. -/
def easyWorker : Worker := {newWorker with state := {newWorker.state with job := easyJob}}

/-- Hashes of 31 zero bytes and a last one. -/
def endingIn (last : UInt8) : Setup := ⟨1,0,1,1,fun _ => List.replicate 31 0++[last]⟩

/-- The share found with such a hash. -/
def shareFound (last : UInt8) : JobResult :=
  ⟨easyJob.m_poolId,easyJob.m_id,0,List.replicate 31 0++[last],easyJob.diff⟩

theorem shareOf_endingIn {last : UInt8} (h : last=0 ∨ last=1) :
    shareOf (endingIn last) easyWorker 0=some (shareFound last) := by
  have hlt : leValue (((List.replicate 31 0++[last]).drop 24).take 8)<easyJob.m_target := by
    rcases h with rfl|rfl <;> decide +kernel
  have hjob : easyWorker.state.job=easyJob := rfl
  unfold shareOf
  rw [hjob]
  exact if_pos hlt

/-- A hash whose last byte is 1 reaches the target. -/
theorem share_reaches_one : ReachesTarget (shareFound 1) easyWorker.state.job.m_target :=
  (share_reaches_iff (shareOf_endingIn (Or.inr rfl)) (by decide)).mpr
    ⟨1,by decide,by decide⟩

/-- A hash of zero bytes is below every target, and `actualDiff` divides by 0. -/
theorem zero_hash_not_reaching :
    (zeroJob.setTarget (fun _ => 0) (some (text "ffffffff"))).1=true ∧
    shareOf (endingIn 0) easyWorker 0=some (shareFound 0) ∧
    (shareFound 0).result.length=32 ∧
    ¬ReachesTarget (shareFound 0) easyWorker.state.job.m_target := by
  refine ⟨by decide +kernel,shareOf_endingIn (Or.inl rfl),by decide,?_⟩
  rintro ⟨reached,hreached,-⟩
  exact absurd (actualDiffChecked_eq_some_iff.mp hreached).1 (by decide)

end XmrigCC.TargetDifficulty
