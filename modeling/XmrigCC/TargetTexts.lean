import XmrigCC.HexTexts

/-!
# Target texts

`Job::setTarget` copies a text to a local array of 8 or 16 characters and decodes the
whole array. Of a text of exactly that length nothing else is read; a shorter one is
followed by what the array held before.
-/

namespace XmrigCC.TargetTexts

open CellMemory MiningJob HexTexts

/-- The characters that `setTarget` decodes: the text, then old contents of the array. -/
def charsRead (str : Cells UInt8) (target : List UInt8) : List UInt8 :=
  slice (store str 0 target) 0 (if target.length ≤ 8 then 8 else 16)

/-- Hex digits, not all of them zeros. -/
structure IsTarget (chars : List UInt8) : Prop where
  /-- Every character is a digit. -/
  digits : ∀ c∈chars, IsHex c
  /-- The value is not 0. -/
  value : hexValue chars ≠ 0

/-- The target that a text of this length sets for its value. -/
def targetValue (target : List UInt8) (value : ℕ) : ℕ :=
  if target.length ≤ 8 then 0xFFFFFFFFFFFFFFFF/(0xFFFFFFFF/value) else value

instance (chars : List UInt8) : Decidable (IsTarget chars) :=
  decidable_of_iff ((∀ c∈chars, IsHex c) ∧ hexValue chars ≠ 0)
    ⟨fun h => ⟨h.1,h.2⟩,fun h => ⟨h.digits,h.value⟩⟩

/-- What `setTarget` returns and, when that is true, sets is decided by the text: nothing of
it depends on old contents, and only 8 or 16 digits that are not all zeros are accepted. -/
def TextDecides (target : List UInt8) : Prop :=
  ∀ (str str' : Cells UInt8) (job job' : Job),
    (job.setTarget str (some target)).1=(job'.setTarget str' (some target)).1 ∧
    ((job.setTarget str (some target)).1=true →
      (job.setTarget str (some target)).2.m_target=
          (job'.setTarget str' (some target)).2.m_target ∧
      (job.setTarget str (some target)).2.m_diff=(job'.setTarget str' (some target)).2.m_diff ∧
      (target.length=8 ∨ target.length=16) ∧ IsTarget target)

section Decoding

variable {str : Cells UInt8} {target : List UInt8}

/-- A text that fills the array is all that is read. -/
theorem charsRead_full (str : Cells UInt8) (h : target.length=8 ∨ target.length=16) :
    charsRead str target=target := by
  have hsame := slice_store_same str 0 target
  rcases h with hlength|hlength
  · rw [charsRead,if_pos (by omega),←hlength]
    exact hsame
  · rw [charsRead,if_neg (by omega),←hlength]
    exact hsame

theorem length_charsRead (str : Cells UInt8) (target : List UInt8) :
    (charsRead str target).length=if target.length ≤ 8 then 8 else 16 := length_slice _ _ _

/-- Decoding is refused for characters that are no target. -/
theorem refused_iff (chars : Cells UInt8) (n : ℕ) :
    ((fromHex chars (2*n) fun _ => 0).1=false ∨
        leValue (slice (fromHex chars (2*n) fun _ => 0).2 0 n)=0) ↔
      ¬IsTarget (slice chars 0 (2*n)) := by
  by_cases hdigits : ∀ c∈slice chars 0 (2*n), IsHex c
  · have hvalue : leValue (slice (fromHex chars (2*n) fun _ => 0).2 0 n)=
        hexValue (slice chars 0 (2*n)) := congrArg leValue (fromHex_bytes hdigits).1
    rw [(fromHex_iff n).mpr hdigits,hvalue]
    constructor
    · rintro (hfalse|hzero) h
      · cases hfalse
      · exact h.value hzero
    · intro h
      by_contra hzero
      exact h ⟨hdigits,fun hvalue => hzero (Or.inr hvalue)⟩
  · have hfails : (fromHex chars (2*n) fun _ => 0).1=false :=
      (Bool.not_eq_true _).mp fun h => hdigits ((fromHex_iff n).mp h)
    exact iff_of_true (Or.inl hfails) fun h => hdigits h.digits

/-- Otherwise the value decoded is that of the characters. -/
theorem decoded_value {chars : Cells UInt8} {n : ℕ} (h : IsTarget (slice chars 0 (2*n))) :
    leValue (slice (fromHex chars (2*n) fun _ => 0).2 0 n)=hexValue (slice chars 0 (2*n)) :=
  congrArg leValue (fromHex_bytes h.digits).1

/-- A text of up to 8 characters is decoded to a value of 32 bits. -/
theorem setTarget_short (job : Job) (hshort : target.length ≤ 8) :
    job.setTarget str (some target)=
      if IsTarget (charsRead str target) then
        (true,{job with
          m_target := targetValue target (hexValue (charsRead str target))
          m_diff := toDiff (targetValue target (hexValue (charsRead str target)))})
      else (false,job) := by
  have hrefused := refused_iff (store str 0 target) 4
  rw [Job.setTarget,if_pos hshort,charsRead,targetValue,if_pos hshort,if_pos hshort]
  split
  · rename_i htarget
    have hvalue := decoded_value (n:=4) htarget
    exact (if_neg fun h => hrefused.mp h htarget).trans (by rw [←hvalue])
  · rename_i hno
    exact if_pos (hrefused.mpr hno)

/-- A longer text of up to 16 characters is decoded to the target itself. -/
theorem setTarget_long (job : Job) (hlong : ¬target.length ≤ 8) (hlength : target.length ≤ 16) :
    if IsTarget (charsRead str target) then
      job.setTarget str (some target)=(true,{job with
        m_target := targetValue target (hexValue (charsRead str target))
        m_diff := toDiff (targetValue target (hexValue (charsRead str target)))})
    else (job.setTarget str (some target)).1=false := by
  have hrefused := refused_iff (store str 0 target) 8
  rw [Job.setTarget,if_neg hlong,if_pos hlength,charsRead,targetValue,if_neg hlong,if_neg hlong]
  split
  · rename_i htarget
    have hvalue := decoded_value (n:=8) htarget
    exact (if_neg fun h => hrefused.mp h htarget).trans (by rw [←hvalue])
  · rename_i hno
    exact congrArg Prod.fst (if_pos (hrefused.mpr hno))

/-- A text is accepted when it fits and what is read of it are digits, not all zeros. -/
theorem setTarget_accepted_iff (job : Job) :
    (job.setTarget str (some target)).1=true ↔
      target.length ≤ 16 ∧ IsTarget (charsRead str target) := by
  by_cases hshort : target.length ≤ 8
  · rw [setTarget_short job hshort]
    split
    · rename_i h
      exact iff_of_true rfl ⟨by omega,h⟩
    · rename_i h
      exact iff_of_false Bool.false_ne_true fun hand => h hand.2
  · by_cases hlength : target.length ≤ 16
    · have hlong := @setTarget_long str target job hshort hlength
      split at hlong
      · rename_i h
        rw [hlong]
        exact iff_of_true rfl ⟨hlength,h⟩
      · rename_i h
        rw [hlong]
        exact iff_of_false Bool.false_ne_true fun hand => h hand.2
    · rw [Job.setTarget,if_neg hshort,if_neg hlength]
      exact iff_of_false Bool.false_ne_true fun hand => hlength hand.1

/-- An accepted text sets the target of its value and the difficulty of that. -/
theorem setTarget_accepted {job : Job} (h : (job.setTarget str (some target)).1=true) :
    job.setTarget str (some target)=(true,{job with
      m_target := targetValue target (hexValue (charsRead str target))
      m_diff := toDiff (targetValue target (hexValue (charsRead str target)))}) := by
  obtain ⟨hlength,htarget⟩ := (setTarget_accepted_iff job).mp h
  by_cases hshort : target.length ≤ 8
  · rw [setTarget_short job hshort,if_pos htarget]
  · have hlong := @setTarget_long str target job hshort hlength
    rwa [if_pos htarget] at hlong

end Decoding

section OldContents

variable {target : List UInt8}

/-- A text that leaves room in the array is followed by old contents. -/
theorem charsRead_eq (str : Cells UInt8) (h : target.length ≤ 16) :
    charsRead str target=target++
      slice str target.length ((if target.length ≤ 8 then 8 else 16)-target.length) := by
  have hsplit : (if target.length ≤ 8 then 8 else 16)=
      target.length+((if target.length ≤ 8 then 8 else 16)-target.length) := by
    split <;> omega
  have hafter : ∀ n, slice (store str 0 target) target.length n=slice str target.length n :=
    fun _ => slice_store_apart (Or.inr (by omega))
  rw [charsRead,hsplit,slice_add,slice_store_same,Nat.zero_add,hafter,Nat.add_sub_cancel_left]

/-- The first character that a text leaves in the array. -/
theorem contents_read (str : Cells UInt8)
    (h : target.length<8 ∨ 8<target.length ∧ target.length<16) :
    str target.length∈charsRead str target := by
  obtain ⟨n,hn⟩ : ∃ n, (if target.length ≤ 8 then 8 else 16)-target.length=n+1 := by
    refine ⟨(if target.length ≤ 8 then 8 else 16)-target.length-1,?_⟩
    split <;> omega
  rw [charsRead_eq str (by omega),hn,slice_succ]
  exact List.mem_append_right _ List.mem_cons_self

/-- Digits that leave room are accepted after ones. -/
theorem accepted_after_ones (job : Job) (hdigits : ∀ c∈target, IsHex c)
    (h : target.length<8 ∨ 8<target.length ∧ target.length<16) :
    (job.setTarget (fun _ => 49) (some target)).1=true := by
  have hread : ∀ c∈charsRead (fun _ => 49) target, IsHex c := by
    intro c hc
    rw [charsRead_eq _ (by omega)] at hc
    rcases List.mem_append.mp hc with hc|hc
    · exact hdigits c hc
    · obtain ⟨k,hk,rfl⟩ := List.getElem_of_mem hc
      rw [getElem_slice]
      decide
  have heven : (charsRead (fun _ => 49) target).length%2=0 := by
    rw [length_charsRead]
    split <;> rfl
  refine (setTarget_accepted_iff job).mpr ⟨by omega,hread,fun hzero => ?_⟩
  have hone : (49 : UInt8)=48 :=
    (hexValue_eq_zero_iff heven hread).mp hzero _ (contents_read (fun _ => 49) h)
  cases hone

/-- They are refused after zero bytes. -/
theorem refused_after_zeros (job : Job)
    (h : target.length<8 ∨ 8<target.length ∧ target.length<16) :
    (job.setTarget (fun _ => 0) (some target)).1=false := by
  refine (Bool.not_eq_true _).mp fun haccepted => ?_
  have hread := ((setTarget_accepted_iff job).mp haccepted).2.digits 0
    (contents_read (fun _ => 0) h)
  cases hread

end OldContents

/-- A text that has a character that is no digit is refused whatever the array held. -/
theorem refused_of_not_hex {str : Cells UInt8} {target : List UInt8} (job : Job)
    (h : ∃ c∈target, ¬IsHex c) : (job.setTarget str (some target)).1=false := by
  refine (Bool.not_eq_true _).mp fun haccepted => ?_
  obtain ⟨hlength,htarget⟩ := (setTarget_accepted_iff job).mp haccepted
  obtain ⟨c,hc,hno⟩ := h
  rw [charsRead_eq str hlength] at htarget
  exact hno (htarget.digits c (List.mem_append_left _ hc))

/-- A text that is refused whatever the array held decides its own fate. -/
theorem textDecides_of_refused {target : List UInt8}
    (h : ∀ (str : Cells UInt8) (job : Job), (job.setTarget str (some target)).1=false) :
    TextDecides target := by
  intro str str' job job'
  rw [h str job,h str' job']
  exact ⟨rfl,fun hfalse => Bool.noConfusion hfalse⟩

/-- The text decides unless digits leave room in the array. -/
theorem textDecides_iff (target : List UInt8) :
    TextDecides target ↔
      target.length=8 ∨ target.length=16 ∨ 16<target.length ∨ ∃ c∈target, ¬IsHex c := by
  constructor
  · intro h
    by_contra hnone
    simp only [not_or,not_exists,not_and,not_not] at hnone
    obtain ⟨hnot8,hnot16,hlength,hdigits⟩ := hnone
    have hroom : target.length<8 ∨ 8<target.length ∧ target.length<16 := by omega
    have job := Job.new (fun _ => 0) 0 false
    have hsame := (h (fun _ => 49) (fun _ => 0) job job).1
    rw [accepted_after_ones job hdigits hroom,refused_after_zeros job hroom] at hsame
    cases hsame
  · intro h
    by_cases hfull : target.length=8 ∨ target.length=16
    · intro str str' job job'
      have hiff : ∀ (str : Cells UInt8) (job : Job),
          (job.setTarget str (some target)).1=true ↔ IsTarget target := by
        intro str job
        rw [setTarget_accepted_iff,charsRead_full str hfull,and_iff_right (by omega)]
      refine ⟨Bool.eq_iff_iff.mpr ((hiff str job).trans (hiff str' job').symm),fun haccepted => ?_⟩
      have htarget := (hiff str job).mp haccepted
      rw [setTarget_accepted haccepted,setTarget_accepted ((hiff str' job').mpr htarget),
        charsRead_full str hfull,charsRead_full str' hfull]
      exact ⟨rfl,rfl,hfull,htarget⟩
    · apply textDecides_of_refused
      intro str job
      rcases h with h8|h16|hlong|hno
      · exact (hfull (Or.inl h8)).elim
      · exact (hfull (Or.inr h16)).elim
      · rw [Job.setTarget,if_neg (by omega),if_neg (by omega)]
      · exact refused_of_not_hex job hno

/-- One digit is completed by the seven characters that the array held. -/
theorem one_digit_not_textDecides : ¬TextDecides [49] := by
  intro h
  have hsame := (h (fun _ => 49) (fun _ => 0) (Job.new (fun _ => 0) 0 false)
    (Job.new (fun _ => 0) 0 false)).1
  revert hsame
  decide

end XmrigCC.TargetTexts
