import XmrigCC.HashrateRings

/-!
# Rates and what memory held before

The constructor of `Hashrate` means to clear the rings of all threads and clears that of the
first one each time. Which rates depend on what the arrays held before, is told from what has
been added.
-/

namespace XmrigCC.HashrateMemory

open RingHistories HashrateRings

/-- What a thread's ring holds, read back from the start. -/
def held (memory : Memory) (threadId : ℕ) : List Sample :=
  (List.range (kBucketSize-1)).map fun j =>
    ⟨memory.counts threadId (kBucketSize-1-j),memory.timestamps threadId (kBucketSize-1-j)⟩

/-- Memory that holds samples where a ring is read first, and zeros behind them. -/
def memoryOf (samples : List Sample) : Memory where
  top _ := 0
  counts _ j := (samples.getD (kBucketSize-1-j) ⟨0,0⟩).count
  timestamps _ j := (samples.getD (kBucketSize-1-j) ⟨0,0⟩).timestamp

theorem held_memoryOf (threadId : ℕ) {samples : List Sample}
    (h : samples.length ≤ kBucketSize-1) :
    held (memoryOf samples) threadId=
      samples++List.replicate (kBucketSize-1-samples.length) ⟨0,0⟩ := by
  apply List.ext_getElem
  · simp only [held,List.length_map,List.length_range,List.length_append,List.length_replicate]
    omega
  · intro j hj hj'
    have hj : j<kBucketSize-1 := by simpa [held] using hj
    have hback : kBucketSize-1-(kBucketSize-1-j)=j := by omega
    simp only [held,memoryOf,List.getElem_map,List.getElem_range,hback]
    by_cases hlt : j<samples.length
    · simp [List.getElem_append_left hlt,hlt]
    · have hge : samples.length ≤ j := by omega
      simp [List.getElem_append_right hge,List.getElem?_eq_none hge]

section Answers

variable {D : Type} (lib : Doubles D) (adds : List Added) (now ms : UInt64)

/-- Rates of a thread that is not the first one, by what its ring held. -/
theorem calcThread_new (memory : Memory) {threads threadId : ℕ} (ht : threadId<threads)
    (h0 : threadId ≠ 0) :
    ((Hashrate.new memory threads).run adds).calcThread lib now threadId ms=
      (look now ms (((samplesOf threadId adds).reverse++held memory threadId).take
        (kBucketSize-1)) ⟨0,0,0,0,false⟩).result lib := by
  have hring := ring_new memory ht
  have hnext : ((Hashrate.new memory threads).m_top threadId).toNat=0 :=
    congrArg CellRing.next hring
  have hrecent : ((Hashrate.new memory threads).ring threadId).recent kBucketSize
      (kBucketSize-1)=held memory threadId := by
    rw [hring,CellRing.recent,held]
    apply List.map_congr_left
    intro j hj
    have hj : j<kBucketSize-1 := List.mem_range.mp hj
    have hidx : (0+kBucketSize-(j+1))%kBucketSize=kBucketSize-1-j := by
      rw [Nat.mod_eq_of_lt (by omega)]
      omega
    simp only [CellRing.back,hidx,if_neg h0]
  rw [calcThread_run lib _ adds now ms (by rw [hnext]; decide),hrecent]

/-- The first thread's rates do not depend on the memory. -/
theorem calcThread_first (memory memory' : Memory) {threads : ℕ} (ht : 0<threads) :
    ((Hashrate.new memory threads).run adds).calcThread lib now 0 ms=
      ((Hashrate.new memory' threads).run adds).calcThread lib now 0 ms := by
  have hring : ∀ memory, (Hashrate.new memory threads).ring 0=⟨fun _ => ⟨0,0⟩,0⟩ := by
    intro memory
    rw [ring_new memory ht]
    simp
  have hnext : ∀ memory, ((Hashrate.new memory threads).m_top 0).toNat=0 :=
    fun memory => congrArg CellRing.next (hring memory)
  rw [calcThread_run lib _ adds now ms (by rw [hnext]; decide),
    calcThread_run lib _ adds now ms (by rw [hnext]; decide),hring,hring]

/-- With chosen samples in memory a search goes through the history and then through them. -/
theorem calcThread_memoryOf {threads threadId : ℕ} (ht : threadId<threads) (h0 : threadId ≠ 0)
    {samples : List Sample}
    (hlen : (samplesOf threadId adds).length+samples.length ≤ kBucketSize-1) :
    ((Hashrate.new (memoryOf samples) threads).run adds).calcThread lib now threadId ms=
      (look now ms ((samplesOf threadId adds).reverse++samples) ⟨0,0,0,0,false⟩).result
        lib := by
  have hshort : ((samplesOf threadId adds).reverse++samples).length ≤ kBucketSize-1 := by
    simpa using hlen
  rw [calcThread_new lib adds now ms _ ht h0,held_memoryOf threadId (by omega),
    ← List.append_assoc,List.take_append,List.take_of_length_le hshort,List.take_replicate,
    look_replicate]

end Answers

/-- There is a window that takes in all of some samples and leaves out a time. -/
theorem exists_window {w : List Sample} (hlen : w.length<kBucketSize)
    (hw : ∀ a∈w, a.timestamp ≠ 0) :
    ∃ now ms past : UInt64, past ≠ 0 ∧ now-past > ms ∧ ∀ a∈w, Within now ms a := by
  obtain ⟨past,hpast,hfree⟩ : ∃ past∈(Finset.range kBucketSize).image fun j => UInt64.ofNat (j+1),
      past∉(w.map Sample.timestamp).toFinset := by
    apply Finset.exists_mem_notMem_of_card_lt_card
    have hinj : Set.InjOn (fun j => UInt64.ofNat (j+1)) (Finset.range kBucketSize) := by
      intro i hi j hj hij
      have hsize : kBucketSize=4096 := rfl
      simp only [Finset.coe_range,Set.mem_Iio,hsize] at hi hj
      have hnat := congrArg UInt64.toNat hij
      simp only [UInt64.toNat_ofNat'] at hnat
      omega
    rw [Finset.card_image_of_injOn hinj,Finset.card_range]
    calc ((w.map Sample.timestamp).toFinset).card ≤ (w.map Sample.timestamp).length :=
          List.toFinset_card_le _
      _ = w.length := List.length_map _
      _ < kBucketSize := hlen
  rw [List.mem_toFinset] at hfree
  have hzero : past ≠ 0 := by
    obtain ⟨j,hj,rfl⟩ := Finset.mem_image.mp hpast
    have hsize : kBucketSize=4096 := rfl
    rw [Finset.mem_range,hsize] at hj
    intro h0
    have hnat := congrArg UInt64.toNat h0
    rw [UInt64.toNat_ofNat_of_lt' (by show j+1 < 2^64; omega)] at hnat
    exact Nat.succ_ne_zero j hnat
  -- the widest window that still leaves a time out
  refine ⟨past-1,-2,past,hzero,?_,?_⟩
  · rw [sub_sub_cancel_left]
    decide
  · intro a ha
    refine ⟨hw a ha,?_⟩
    by_contra hout
    have hlast : past-1-a.timestamp=-1 := by
      have hbound : (-2 : UInt64).toNat<(past-1-a.timestamp).toNat :=
        UInt64.lt_iff_toNat_lt.mp (UInt64.not_le.mp hout)
      have hmax := (past-1-a.timestamp).toNat_lt
      apply UInt64.toNat_inj.mp
      rw [show (-2 : UInt64).toNat=2^64-2 from rfl] at hbound
      rw [show (-1 : UInt64).toNat=2^64-1 from rfl]
      omega
    have heq : a.timestamp=past := by
      calc a.timestamp=past-1-(past-1-a.timestamp) := (sub_sub_cancel _ _).symm
        _ = past := by rw [hlast,sub_neg_eq_add,sub_add_cancel]
    exact hfree (heq ▸ List.mem_map_of_mem ha)

/-- A thread's rates are the same whatever the memory held. -/
def ThreadIndependent {D : Type} (lib : Doubles D) (threads : ℕ) (adds : List Added)
    (threadId : ℕ) : Prop :=
  ∀ memory memory' now ms,
    ((Hashrate.new memory threads).run adds).calcThread lib now threadId ms=
      ((Hashrate.new memory' threads).run adds).calcThread lib now threadId ms

/-- No rate and no total depends on what the memory held. -/
structure Independent {D : Type} (lib : Doubles D) (threads : ℕ) (adds : List Added) :
    Prop where
  /-- Each thread's rates. -/
  rates : ∀ threadId<threads, ThreadIndependent lib threads adds threadId
  /-- Totals, with the clock read for each thread. -/
  totals : ∀ memory memory' now ms, ((Hashrate.new memory threads).run adds).calc lib now ms=
    ((Hashrate.new memory' threads).run adds).calc lib now ms

/-- What has been added hides what the ring held: there is as much of it as a search goes back,
or a time of zero that ends every search, or one sample less than that while the samples from
first to last give no rate. -/
def Covered {D : Type} (lib : Doubles D) (history : List Sample) : Prop :=
  4095 ≤ history.length ∨ (∃ a∈history, a.timestamp=0) ∨
    history.length=4094 ∧ ∀ newest oldest, history.getLast?=some newest →
      history.head?=some oldest → newest.timestamp=oldest.timestamp ∨
        lib.rate newest.count oldest.count newest.timestamp oldest.timestamp=lib.nan

section Dependence

variable {D : Type} (lib : Doubles D) {threads threadId : ℕ} {adds : List Added}

/-- A rate that is found with an older sample behind what was added, and is missing without
one. -/
theorem not_independent_of_rate (ht : threadId<threads) (h0 : threadId ≠ 0)
    (samples : List Sample) (newest oldest : Sample)
    (hlen : (samplesOf threadId adds).length+samples.length<kBucketSize-1)
    (hzero : ∀ a∈(samplesOf threadId adds).reverse++samples, a.timestamp ≠ 0)
    (hnewest : ((samplesOf threadId adds).reverse++samples).head?=some newest)
    (holdest : ((samplesOf threadId adds).reverse++samples).getLast?=some oldest)
    (hne : newest.timestamp ≠ oldest.timestamp)
    (hrate : lib.rate newest.count oldest.count newest.timestamp oldest.timestamp ≠ lib.nan) :
    ¬ThreadIndependent lib threads adds threadId := by
  intro h
  have hshort : ((samplesOf threadId adds).reverse++samples).length<kBucketSize := by
    simp only [List.length_append,List.length_reverse]
    omega
  obtain ⟨now,ms,past,hpast,hold,hwithin⟩ := exists_window hshort hzero
  have hlong : (samplesOf threadId adds).length+(samples++[(⟨0,past⟩ : Sample)]).length ≤
      kBucketSize-1 := by
    rw [List.length_append,List.length_singleton]
    omega
  -- with the older sample behind the others there is a rate, and without it there is none
  have holder : ((Hashrate.new (memoryOf (samples++[⟨0,past⟩])) threads).run adds).calcThread lib
      now threadId ms=
        lib.rate newest.count oldest.count newest.timestamp oldest.timestamp := by
    rw [calcThread_memoryOf lib adds now ms ht h0 hlong,← List.append_assoc,
      result_of_older lib (y:=⟨0,past⟩) hwithin hnewest holdest hpast hold,if_neg hne]
  have hwithout : ((Hashrate.new (memoryOf samples) threads).run adds).calcThread lib now threadId
      ms=lib.nan := by
    rw [calcThread_memoryOf lib adds now ms ht h0 (by omega),result_of_within lib hwithin]
  exact hrate (holder.symm.trans ((h _ _ now ms).trans hwithout))

/-- There is a time apart from any other. -/
theorem exists_apart (t : UInt64) : ∃ s : UInt64, s ≠ 0 ∧ Apart t s := by
  rcases Nat.lt_or_ge t.toNat (2^63) with h | h
  · refine ⟨-1,by decide,.inr ?_⟩
    rw [show (-1 : UInt64).toNat=2^64-1 from rfl]
    omega
  · refine ⟨1,by decide,.inl ?_⟩
    rw [UInt64.toNat_one]
    omega

/-- Rates depend on the memory unless what was added hides it. -/
theorem covered_of_independent (ht : threadId<threads) (h0 : threadId ≠ 0)
    (h : ThreadIndependent lib threads adds threadId) :
    Covered lib (samplesOf threadId adds) := by
  by_contra hnot
  have hlen : (samplesOf threadId adds).length<4095 := by
    by_contra hfull
    exact hnot (.inl (by omega))
  have hzero : ∀ a∈(samplesOf threadId adds).reverse, a.timestamp ≠ 0 :=
    fun a ha hz => hnot (.inr (.inl ⟨a,List.mem_reverse.mp ha,hz⟩))
  have hsize : kBucketSize=4096 := rfl
  cases hhead : (samplesOf threadId adds).reverse.head? with
  | none =>
    -- nothing was added: the memory gives both samples of a rate
    have hnil : (samplesOf threadId adds).reverse=[] := List.head?_eq_none_iff.mp hhead
    have hnone : samplesOf threadId adds=[] := List.reverse_eq_nil_iff.mp hnil
    have hapart : Apart 1 (-1) := .inr (by decide)
    refine not_independent_of_rate lib ht h0 [⟨0,1⟩,⟨0,-1⟩] ⟨0,1⟩ ⟨0,-1⟩ ?_ ?_ ?_ ?_ hapart.ne
      (lib.rate_ne_nan 0 0 hapart) h
    · rw [hnone]
      decide
    · rw [hnil]
      decide
    · rw [hnil]
      rfl
    · rw [hnil]
      rfl
  | some newest =>
    rcases Nat.lt_or_ge (samplesOf threadId adds).length 4094 with hfew | hmany
    · -- the memory gives the oldest sample of a rate
      obtain ⟨s,hs,hapart⟩ := exists_apart newest.timestamp
      refine not_independent_of_rate lib ht h0 [⟨0,s⟩] newest ⟨0,s⟩ ?_ ?_ ?_ ?_ hapart.ne
        (lib.rate_ne_nan _ _ hapart) h
      · rw [List.length_singleton]
        omega
      · intro a ha
        rcases List.mem_append.mp ha with ha | ha
        · exact hzero a ha
        · exact List.mem_singleton.mp ha ▸ hs
      · rw [List.head?_append,hhead]
        rfl
      · rw [List.getLast?_concat]
    · -- one sample in memory is read, an older one
      refine hnot (.inr (.inr ⟨by omega,?_⟩))
      intro newest' oldest hnewest holdest
      obtain rfl : newest'=newest := by
        rw [List.head?_reverse,hnewest] at hhead
        exact Option.some.inj hhead
      by_contra hrate
      rw [not_or] at hrate
      refine not_independent_of_rate lib ht h0 [] newest' oldest ?_ ?_ ?_ ?_ hrate.1 hrate.2 h
      · rw [List.length_nil]
        omega
      · rwa [List.append_nil]
      · rwa [List.append_nil]
      · rwa [List.append_nil,List.getLast?_reverse]

end Dependence

section Independence

variable {D : Type} (lib : Doubles D)

/-- A search ends at a sample without a time or one that is too old. -/
theorem look_stops {now ms : UInt64} {w : List Sample}
    (hw : ∃ a∈w, a.timestamp=0 ∨ now-a.timestamp > ms) (rest : List Sample) (f : Found) :
    look now ms (w++rest) f=look now ms w f := by
  induction w generalizing f with
  | nil => simp at hw
  | cons a w ih =>
    simp only [List.cons_append,look]
    by_cases hzero : a.timestamp=0
    · rw [if_pos hzero,if_pos hzero]
    · rw [if_neg hzero,if_neg hzero]
      by_cases hold : now-a.timestamp > ms
      · rw [if_pos hold,if_pos hold]
      · rw [if_neg hold,if_neg hold]
        refine ih ?_ _
        simpa [hzero,hold] using hw

/-- One sample of the memory changes nothing when there is no rate to gain by it. -/
theorem result_append_one {now ms : UInt64} {w : List Sample} (hw : ∀ a∈w, a.timestamp ≠ 0)
    (hrate : ∀ newest oldest, w.head?=some newest → w.getLast?=some oldest →
      newest.timestamp=oldest.timestamp ∨
        lib.rate newest.count oldest.count newest.timestamp oldest.timestamp=lib.nan)
    (y : Sample) :
    (look now ms (w++[y]) ⟨0,0,0,0,false⟩).result lib=
      (look now ms w ⟨0,0,0,0,false⟩).result lib := by
  by_cases hstop : ∃ a∈w, a.timestamp=0 ∨ now-a.timestamp > ms
  · rw [look_stops hstop]
  · have hwithin : ∀ a∈w, Within now ms a := by
      intro a ha
      refine ⟨hw a ha,UInt64.not_lt.mp fun hold => hstop ⟨a,ha,.inr hold⟩⟩
    by_cases hzero : y.timestamp=0
    · rw [look_zero w [] hzero]
    · by_cases hold : now-y.timestamp > ms
      · rw [result_of_within lib hwithin]
        cases hlast : w.getLast? with
        | none =>
          obtain rfl := List.getLast?_eq_none_iff.mp hlast
          exact result_of_old_first lib hzero hold []
        | some oldest =>
          obtain ⟨newest,hnewest⟩ := exists_newest hlast
          rw [result_of_older lib hwithin hnewest hlast hzero hold]
          rcases hrate newest oldest hnewest hlast with he | hnan
          · rw [if_pos he]
          · rw [hnan,ite_self]
      · have hboth : ∀ a∈w++[y], Within now ms a := by
          intro a ha
          rcases List.mem_append.mp ha with ha | ha
          · exact hwithin a ha
          · exact List.mem_singleton.mp ha ▸ ⟨hzero,UInt64.not_lt.mp hold⟩
        rw [result_of_within lib hboth,result_of_within lib hwithin]

variable {threads threadId : ℕ} {adds : List Added}

/-- A search ends in what was added, or gains nothing behind it. -/
theorem result_of_covered {history : List Sample} (h : Covered lib history) (now ms : UInt64)
    (rest : List Sample) :
    (look now ms ((history.reverse++rest).take 4095) ⟨0,0,0,0,false⟩).result lib=
      (look now ms (history.reverse.take 4095) ⟨0,0,0,0,false⟩).result lib := by
  rcases Nat.lt_or_ge history.length 4095 with hlt | hge
  · rw [List.take_append,List.take_of_length_le (by rw [List.length_reverse]; omega)]
    by_cases hstop : ∃ a∈history.reverse, a.timestamp=0
    · obtain ⟨a,ha,hzero⟩ := hstop
      rw [look_stops ⟨a,ha,.inl hzero⟩]
    · have hnonzero : ∀ a∈history.reverse, a.timestamp ≠ 0 := fun a ha hz => hstop ⟨a,ha,hz⟩
      rcases h with hfull | ⟨a,ha,hzero⟩ | ⟨hlen,hrate⟩
      · omega
      · exact absurd hzero (hnonzero a (List.mem_reverse.mpr ha))
      · rw [List.length_reverse,hlen]
        cases rest with
        | nil => rw [List.take_nil,List.append_nil]
        | cons y rest =>
          refine result_append_one lib hnonzero ?_ y
          intro newest oldest hnewest holdest
          rw [List.head?_reverse] at hnewest
          rw [List.getLast?_reverse] at holdest
          exact hrate newest oldest hnewest holdest
  · rw [List.take_append_of_le_length (by rw [List.length_reverse]; exact hge)]

/-- What was added hides what the ring held. -/
theorem independent_of_covered (ht : threadId<threads)
    (h : threadId=0 ∨ Covered lib (samplesOf threadId adds)) :
    ThreadIndependent lib threads adds threadId := by
  intro memory memory' now ms
  by_cases h0 : threadId=0
  · subst h0
    exact calcThread_first lib adds now ms memory memory' ht
  · have hcovered := result_of_covered lib (h.resolve_left h0) now ms
    have hsize : kBucketSize-1=4095 := rfl
    rw [calcThread_new lib adds now ms memory ht h0,calcThread_new lib adds now ms memory' ht h0,
      hsize,hcovered,hcovered]

theorem m_threads_run (s : Hashrate) (adds : List Added) :
    (s.run adds).m_threads=s.m_threads := by
  induction adds generalizing s with
  | nil => rfl
  | cons a adds ih => exact ih _

theorem totals_of_rates (h : ∀ threadId<threads, ThreadIndependent lib threads adds threadId) :
    Independent lib threads adds := by
  refine ⟨h,?_⟩
  intro memory memory' now ms
  have hthreads : ∀ memory, ((Hashrate.new memory threads).run adds).m_threads=threads :=
    fun memory => (m_threads_run _ adds).trans (m_threads_construct memory _ threads)
  unfold Hashrate.calc
  rw [hthreads,hthreads]
  apply List.foldl_ext
  intro result i hi
  rw [h i (List.mem_range.mp hi) memory memory' (now i) ms]

end Independence

/-- Whatever the memory held that the constructor gets, for every number of threads and all
that is added: the rates of a thread are the same just when it is the first one or what was
added for it hides what its ring held, and no rate and no total changes just when that is so
of every thread. -/
theorem independent_iff {D : Type} (lib : Doubles D) (threads : ℕ) (adds : List Added) :
    (∀ threadId<threads, ThreadIndependent lib threads adds threadId ↔
      threadId=0 ∨ Covered lib (samplesOf threadId adds)) ∧
    (Independent lib threads adds ↔
      ∀ threadId<threads, threadId=0 ∨ Covered lib (samplesOf threadId adds)) := by
  have hthread : ∀ threadId<threads, ThreadIndependent lib threads adds threadId ↔
      threadId=0 ∨ Covered lib (samplesOf threadId adds) := by
    intro threadId ht
    constructor
    · intro h
      by_cases h0 : threadId=0
      · exact .inl h0
      · exact .inr (covered_of_independent lib ht h0 h)
    · exact independent_of_covered lib ht
  refine ⟨hthread,?_,?_⟩
  · intro h threadId ht
    exact (hthread threadId ht).mp (h.rates threadId ht)
  · intro h
    exact totals_of_rates lib fun threadId ht => (hthread threadId ht).mpr (h threadId ht)

/-- Zeros, as fresh pages hold. -/
def cleared : Memory := ⟨fun _ => 0,fun _ _ => 0,fun _ _ => 0⟩

/-- Left over from three reports of another time. -/
def leftOver : Memory := memoryOf [⟨80,10000⟩,⟨0,2000⟩,⟨0,1000⟩]

/-- Two threads start, and the second one has a rate before anything was added. -/
theorem second_thread_not_independent :
    (Hashrate.new cleared 2).calcThread ratios 10000 1 8000=none ∧
    (Hashrate.new leftOver 2).calcThread ratios 10000 1 8000=some 10 ∧
    (Hashrate.new cleared 2).calc ratios (fun _ => 10000) 8000=some 0 ∧
    (Hashrate.new leftOver 2).calc ratios (fun _ => 10000) 8000=some 10 ∧
    ¬Independent ratios 2 [] := by
  have hcleared : (Hashrate.new cleared 2).calcThread ratios 10000 1 8000=none := by
    decide +kernel
  have hleftOver : (Hashrate.new leftOver 2).calcThread ratios 10000 1 8000=some 10 := by
    decide +kernel
  refine ⟨hcleared,hleftOver,by decide +kernel,by decide +kernel,?_⟩
  intro h
  have hsame : (Hashrate.new cleared 2).calcThread ratios 10000 1 8000=
      (Hashrate.new leftOver 2).calcThread ratios 10000 1 8000 :=
    h.rates 1 (by decide) cleared leftOver 10000 8000
  rw [hcleared,hleftOver] at hsame
  cases hsame

end XmrigCC.HashrateMemory
