import XmrigCC.HashrateRings

/-!
# Rates over windows

The rate of a thread whose ring starts cleared, told from the history of what was added for
it: the newest of its last 4095 samples against the oldest one in the window, once there is
one behind the window.
-/

namespace XmrigCC.HashrateWindows

open RingHistories HashrateRings

/-- Nothing has been added for a thread, and its ring is cleared. -/
structure Zeroed (s : Hashrate) (threadId : ℕ) : Prop where
  /-- The first entry is written next. -/
  top : s.m_top threadId=0
  /-- There are no counts. -/
  counts : ∀ j, s.m_counts threadId j=0
  /-- There are no times. -/
  timestamps : ∀ j, s.m_timestamps threadId j=0

/-- Thread 0 starts so. -/
theorem new_zeroed (memory : Memory) {threads : ℕ} (h : 0<threads) :
    Zeroed (Hashrate.new memory threads) 0 := by
  have hring := ring_new memory h
  have hcell : ∀ j, ((Hashrate.new memory threads).ring 0).cells j=⟨0,0⟩ := by
    intro j
    rw [hring]
    rfl
  have hnext : ((Hashrate.new memory threads).ring 0).next=0 := by rw [hring]
  exact ⟨UInt32.toNat_inj.mp hnext,fun j => congrArg Sample.count (hcell j),
    fun j => congrArg Sample.timestamp (hcell j)⟩

/-- The times that may be added up to a time: none is missing, none is later, and they do not
go back. -/
structure Timely (now : UInt64) (history : List Sample) : Prop where
  /-- No time is zero. -/
  nonzero : ∀ a∈history, a.timestamp ≠ 0
  /-- No time is later. -/
  past : ∀ a∈history, a.timestamp ≤ now
  /-- No time is earlier than the one before. -/
  monotone : history.Pairwise fun a b => a.timestamp ≤ b.timestamp

section Rates

variable {D : Type} (lib : Doubles D) (now ms : UInt64)

/-- A sample is older than the window. -/
def older (a : Sample) : Bool := decide (now-a.timestamp > ms)

/-- The rate over the window of samples, the newest first: it is that of the newest one and
the oldest one in the window if there is an older one and their times differ. -/
def windowRate (recent : List Sample) : D :=
  match recent.head?,(recent.filter fun a => !older now ms a).getLast? with
  | some newest,some oldest =>
    if recent.any (older now ms) && newest.timestamp ≠ oldest.timestamp then
      lib.rate newest.count oldest.count newest.timestamp oldest.timestamp
    else lib.nan
  | _,_ => lib.nan

variable {now}

/-- What is older than one of the samples that are too old is too old. -/
theorem older_of_le {a b : Sample} (hab : b.timestamp ≤ a.timestamp) (ha : a.timestamp ≤ now)
    (h : older now ms a=true) : older now ms b=true := by
  have hb := UInt64.le_trans hab ha
  rw [older,decide_eq_true_eq,gt_iff_lt,UInt64.lt_iff_toNat_lt,
    UInt64.toNat_sub_of_le _ _ (by assumption)] at h ⊢
  rw [UInt64.le_iff_toNat_le] at hab ha hb
  omega

/-- The samples in the window come first. -/
theorem window_first {recent : List Sample} (hpast : ∀ a∈recent, a.timestamp ≤ now)
    (hsorted : recent.Pairwise fun a b => b.timestamp ≤ a.timestamp) :
    ∃ window behind, recent=window++behind ∧ (∀ a∈window, older now ms a=false) ∧
      ∀ a∈behind, older now ms a=true := by
  induction recent with
  | nil => exact ⟨[],[],rfl,by simp,by simp⟩
  | cons a rest ih =>
    obtain ⟨hfirst,hrest⟩ := List.pairwise_cons.mp hsorted
    cases ha : older now ms a with
    | true =>
      refine ⟨[],a::rest,rfl,by simp,?_⟩
      intro b hb
      rcases List.mem_cons.mp hb with rfl | hb
      · exact ha
      · exact older_of_le ms (hfirst b hb) (hpast a List.mem_cons_self) ha
    | false =>
      obtain ⟨window,behind,rfl,hw,hb⟩ :=
        ih (fun b hb => hpast b (List.mem_cons_of_mem _ hb)) hrest
      exact ⟨a::window,behind,rfl,List.forall_mem_cons.mpr ⟨ha,hw⟩,hb⟩

/-- The search finds the rate over the window. -/
theorem result_eq_windowRate {recent : List Sample} (hzero : ∀ a∈recent, a.timestamp ≠ 0)
    (hpast : ∀ a∈recent, a.timestamp ≤ now)
    (hsorted : recent.Pairwise fun a b => b.timestamp ≤ a.timestamp) :
    (look now ms recent ⟨0,0,0,0,false⟩).result lib=windowRate lib now ms recent := by
  obtain ⟨window,behind,rfl,hw,hb⟩ := window_first ms hpast hsorted
  have hwithin : ∀ a∈window, Within now ms a := by
    intro a ha
    have h := hw a ha
    rw [older,decide_eq_false_iff_not,gt_iff_lt,UInt64.not_lt] at h
    exact ⟨hzero a (List.mem_append_left _ ha),h⟩
  have hfilter : (window++behind).filter (fun a => !older now ms a)=window := by
    rw [List.filter_append,List.filter_eq_self.mpr fun a ha => by rw [hw a ha]; rfl,
      List.filter_eq_nil_iff.mpr fun a ha => by rw [hb a ha]; simp,List.append_nil]
  unfold windowRate
  rw [hfilter]
  cases behind with
  | nil =>
    have hany : window.any (older now ms)=false := by
      rw [List.any_eq_false]
      intro a ha
      rw [hw a ha]
      exact Bool.false_ne_true
    rw [List.append_nil,result_of_within lib hwithin,hany]
    split <;> rfl
  | cons y rest =>
    have hy : now-y.timestamp > ms := by simpa [older] using hb y List.mem_cons_self
    have hyzero : y.timestamp ≠ 0 := hzero y (by simp)
    have hany : (window++y::rest).any (older now ms)=true :=
      List.any_eq_true.mpr ⟨y,by simp,hb y List.mem_cons_self⟩
    cases window with
    | nil =>
      rw [List.nil_append,result_of_old_first lib hyzero hy]
      rfl
    | cons newest window =>
      have hlast : (newest::window).getLast?=some ((newest::window).getLast (by simp)) :=
        List.getLast?_eq_some_getLast _
      rw [result_of_older lib hwithin rfl hlast hyzero hy,hany,hlast]
      by_cases he : newest.timestamp=((newest::window).getLast (by simp)).timestamp <;> simp [he]

end Rates

/-- A cleared ring shows no times. -/
theorem recent_zeroed {s : Hashrate} {threadId : ℕ} (h : Zeroed s threadId) (k : ℕ) :
    (s.ring threadId).recent kBucketSize k=List.replicate k ⟨0,0⟩ := by
  rw [CellRing.recent,List.eq_replicate_iff]
  refine ⟨by simp,?_⟩
  intro a ha
  obtain ⟨j,-,rfl⟩ := List.mem_map.mp ha
  simp [CellRing.back,Hashrate.ring,h.counts,h.timestamps]

/-- For a thread whose ring starts cleared, whatever is added for it and others, with times
that are not zero, do not go back and are not after now: its rate over a window is that of
the newest of its last 4095 samples and the oldest one in the window, if there is an older
one and their times differ, and is not a number otherwise. -/
theorem calcThread_eq_windowRate {D : Type} (lib : Doubles D) (s : Hashrate)
    (adds : List Added) (now ms : UInt64) (threadId : ℕ) (hs : Zeroed s threadId)
    (h : Timely now (samplesOf threadId adds)) :
    (s.run adds).calcThread lib now threadId ms=
      windowRate lib now ms ((samplesOf threadId adds).reverse.take 4095) := by
  have htop : (s.m_top threadId).toNat < kBucketSize := by
    rw [hs.top]
    decide
  have hmem : ∀ a∈(samplesOf threadId adds).reverse.take 4095, a∈samplesOf threadId adds :=
    fun a ha => List.mem_reverse.mp (List.mem_of_mem_take ha)
  rw [calcThread_run lib s adds now ms htop,recent_zeroed hs,List.take_append,
    List.take_replicate,look_replicate]
  refine result_eq_windowRate lib ms (fun a ha => h.nonzero a (hmem a ha))
    (fun a ha => h.past a (hmem a ha)) ?_
  exact (List.pairwise_reverse.mpr h.monotone).sublist (List.take_sublist _ _)

/-- Three reports of one thread, eight seconds between the last two. -/
def threeReports : List Added := [⟨0,⟨0,1000⟩⟩,⟨0,⟨0,2000⟩⟩,⟨0,⟨80,10000⟩⟩]

/-- Ten hashes a second are reported for them. -/
theorem threeReports_rate :
    ((Hashrate.new ⟨fun _ => 0,fun _ _ => 0,fun _ _ => 0⟩ 1).run threeReports).calcThread
        ratios 10000 0 8000=
      windowRate ratios 10000 8000 ((samplesOf 0 threeReports).reverse.take 4095) ∧
    windowRate ratios 10000 8000 ((samplesOf 0 threeReports).reverse.take 4095)=some 10 := by
  refine ⟨calcThread_eq_windowRate ratios _ threeReports 10000 8000 0
    (new_zeroed _ (by decide)) ⟨by decide,by decide,by decide⟩,?_⟩
  decide +kernel

end XmrigCC.HashrateWindows
