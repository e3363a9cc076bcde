import XmrigCC.RingHistories

/-!
# Hashes counted and when

`Hashrate` keeps for every thread a ring of hash counts and of the times they were taken at.
A rate is found by going back from the newest entry to the first one that is older than the
window asked for. Division of doubles is left to a structure that says what is used of it.
-/

namespace XmrigCC.HashrateRings

open RingHistories

/-- Times that are still different when each is rounded to a double, which moves it by less
than 2048. -/
def Apart (late early : UInt64) : Prop :=
  early.toNat+4096 ≤ late.toNat ∨ late.toNat+4096 ≤ early.toNat

theorem Apart.ne {late early : UInt64} (h : Apart late early) : late ≠ early := by
  rintro rfl
  rcases h with h | h <;> omega

/-- Arithmetic of doubles. -/
structure Doubles (D : Type) where
  /-- Conversion. -/
  ofUInt64 : UInt64 → D
  /-- Subtraction. -/
  sub : D → D → D
  /-- Division. -/
  div : D → D → D
  /-- Addition. -/
  add : D → D → D
  /-- 0.0 -/
  zero : D
  /-- 1000.0 -/
  thousand : D
  /-- `nan("")`. -/
  nan : D
  /-- `isnormal`. -/
  isnormal : D → Bool
  /-- A finite number over one that is neither zero nor infinite is a number. -/
  div_ne_nan : ∀ hashes earlier late early, Apart late early →
    div (sub (ofUInt64 hashes) (ofUInt64 earlier))
      (div (sub (ofUInt64 late) (ofUInt64 early)) thousand) ≠ nan

/-- `hashes / time`, as `Hashrate::calc` forms it from the counts and times it has found. -/
def Doubles.rate {D : Type} (lib : Doubles D)
    (lastestHashCnt earliestHashCount lastestStamp earliestStamp : UInt64) : D :=
  let hashes := lib.sub (lib.ofUInt64 lastestHashCnt) (lib.ofUInt64 earliestHashCount)
  let time := lib.sub (lib.ofUInt64 lastestStamp) (lib.ofUInt64 earliestStamp)
  lib.div hashes (lib.div time lib.thousand)

theorem Doubles.rate_ne_nan {D : Type} (lib : Doubles D)
    (lastestHashCnt earliestHashCount : UInt64) {lastestStamp earliestStamp : UInt64}
    (h : Apart lastestStamp earliestStamp) :
    lib.rate lastestHashCnt earliestHashCount lastestStamp earliestStamp ≠ lib.nan :=
  lib.div_ne_nan _ _ _ _ h

/-- Quotients without rounding; there is none by zero. -/
def ratios : Doubles (Option ℚ) where
  ofUInt64 n := some n.toNat
  sub a b := a.bind fun a => b.map fun b => a-b
  div a b := a.bind fun a => b.bind fun b => if b=0 then none else some (a/b)
  add a b := a.bind fun a => b.map fun b => a+b
  zero := some 0
  thousand := some 1000
  nan := none
  isnormal a := a.any fun a => a ≠ 0
  div_ne_nan hashes earlier late early h := by
    have hne : (late.toNat : ℚ)-early.toNat ≠ 0 :=
      sub_ne_zero.mpr (Nat.cast_injective.ne (UInt64.toNat_inj.not.mpr h.ne))
    simp [hne]

/-- `Hashrate::kBucketSize`. -/
def kBucketSize : ℕ := 2 <<< 11

/-- `Hashrate::kBucketMask`. -/
def kBucketMask : UInt64 := UInt64.ofNat (kBucketSize-1)

/-- The members of `Hashrate` that rates come from. -/
structure Hashrate where
  /-- Number of threads. -/
  m_threads : ℕ
  /-- For each thread the entry written next. -/
  m_top : ℕ → UInt32
  /-- For each thread the counts by entry. -/
  m_counts : ℕ → ℕ → UInt64
  /-- For each thread the times by entry. -/
  m_timestamps : ℕ → ℕ → UInt64

/-- What the constructor finds in the arrays it gets from `new[]`. -/
structure Memory where
  /-- Where `m_top` is put. -/
  top : ℕ → UInt32
  /-- Where the counts are put. -/
  counts : ℕ → ℕ → UInt64
  /-- Where the times are put. -/
  timestamps : ℕ → ℕ → UInt64

namespace Hashrate

/-- One pass of the constructor's loop, which clears the arrays of thread 0. -/
def construct (memory : Memory) (s : Hashrate) (i : ℕ) : Hashrate :=
  let m_counts := Function.update s.m_counts i (memory.counts i)
  let m_timestamps := Function.update s.m_timestamps i (memory.timestamps i)
  {s with
    m_top := Function.update s.m_top i 0
    m_counts := Function.update m_counts 0 fun _ => 0
    m_timestamps := Function.update m_timestamps 0 fun _ => 0}

/-- `Hashrate::Hashrate`. -/
def new (memory : Memory) (threads : ℕ) : Hashrate :=
  (List.range threads).foldl (construct memory)
    ⟨threads,memory.top,memory.counts,memory.timestamps⟩

/-- `Hashrate::add`. -/
def add (s : Hashrate) (threadId : ℕ) (count timestamp : UInt64) : Hashrate :=
  let top := (s.m_top threadId).toUInt64
  {s with
    m_counts := Function.update s.m_counts threadId
      (Function.update (s.m_counts threadId) top.toNat count)
    m_timestamps := Function.update s.m_timestamps threadId
      (Function.update (s.m_timestamps threadId) top.toNat timestamp)
    m_top := Function.update s.m_top threadId ((top+1)&&&kBucketMask).toUInt32}

end Hashrate

/-- What `Hashrate::calc` has found on its way back. -/
structure Found where
  /-- Count of the oldest entry in the window so far. -/
  earliestHashCount : UInt64
  /-- Its time, 0 while there is none. -/
  earliestStamp : UInt64
  /-- Time of the newest entry, 0 while there is none. -/
  lastestStamp : UInt64
  /-- Its count. -/
  lastestHashCnt : UInt64
  /-- An entry older than the window was met. -/
  haveFullSet : Bool
  deriving DecidableEq

/-- `(m_top[threadId] - i) & kBucketMask`. -/
def bucket (top : UInt32) (i : ℕ) : ℕ := ((top.toUInt64-UInt64.ofNat i)&&&kBucketMask).toNat

/-- The loop of `Hashrate::calc`, over the distances it goes back. -/
def scan (m_top : UInt32) (m_counts m_timestamps : ℕ → UInt64) (now ms : UInt64) :
    List ℕ → Found → Found
  | [],f => f
  | i::rest,f =>
    let idx := bucket m_top i
    if m_timestamps idx=0 then f
    else
      let f := if f.lastestStamp=0 then
        {f with lastestStamp := m_timestamps idx,lastestHashCnt := m_counts idx} else f
      if now-m_timestamps idx > ms then {f with haveFullSet := true}
      else
        scan m_top m_counts m_timestamps now ms rest
          {f with earliestStamp := m_timestamps idx,earliestHashCount := m_counts idx}

section Calc

variable {D : Type} (lib : Doubles D)

/-- What `Hashrate::calc` returns for what it has found. -/
def Found.result (f : Found) : D :=
  if !f.haveFullSet || f.earliestStamp=0 || f.lastestStamp=0 then lib.nan
  else if f.lastestStamp-f.earliestStamp=0 then lib.nan
  else lib.rate f.lastestHashCnt f.earliestHashCount f.lastestStamp f.earliestStamp

/-- `Hashrate::calc` of a thread, at a time. -/
def Hashrate.calcThread (s : Hashrate) (now : UInt64) (threadId : ℕ) (ms : UInt64) : D :=
  (scan (s.m_top threadId) (s.m_counts threadId) (s.m_timestamps threadId) now ms
    (List.range' 1 (kBucketSize-1)) ⟨0,0,0,0,false⟩).result lib

/-- `Hashrate::calc` of all threads. For each of them the clock is read once more. -/
def Hashrate.calc (s : Hashrate) (now : ℕ → UInt64) (ms : UInt64) : D :=
  (List.range s.m_threads).foldl (fun result i =>
    let data := s.calcThread lib (now i) i ms
    if lib.isnormal data then lib.add result data else result) lib.zero

end Calc

section Samples

/-- A count and when it was taken. -/
structure Sample where
  /-- Hashes counted. -/
  count : UInt64
  /-- Milliseconds. -/
  timestamp : UInt64
  deriving DecidableEq

/-- The ring of a thread. -/
def Hashrate.ring (s : Hashrate) (threadId : ℕ) : CellRing Sample :=
  ⟨fun j => ⟨s.m_counts threadId j,s.m_timestamps threadId j⟩,(s.m_top threadId).toNat⟩

/-- The loop over samples, the newest first. -/
def look (now ms : UInt64) : List Sample → Found → Found
  | [],f => f
  | a::rest,f =>
    if a.timestamp=0 then f
    else
      let f := if f.lastestStamp=0 then
        {f with lastestStamp := a.timestamp,lastestHashCnt := a.count} else f
      if now-a.timestamp > ms then {f with haveFullSet := true}
      else look now ms rest {f with earliestStamp := a.timestamp,earliestHashCount := a.count}

theorem scan_eq_look (m_top : UInt32) (cells : ℕ → Sample) (now ms : UInt64) (is : List ℕ)
    (f : Found) :
    scan m_top (fun j => (cells j).count) (fun j => (cells j).timestamp) now ms is f=
      look now ms (is.map fun i => cells (bucket m_top i)) f := by
  induction is generalizing f with
  | nil => rfl
  | cons i is ih => simp only [scan,List.map_cons,look,ih]

theorem toNat_kBucketMask : kBucketMask.toNat=2^12-1 := rfl

/-- Masking is the remainder by the size of a ring. -/
theorem bucket_eq {top : UInt32} {i : ℕ} (htop : top.toNat < kBucketSize)
    (hi : i ≤ kBucketSize) : bucket top i=(top.toNat+kBucketSize-i)%kBucketSize := by
  have hsize : kBucketSize=4096 := rfl
  rw [hsize] at htop hi ⊢
  have hi' : (UInt64.ofNat i).toNat=i := UInt64.toNat_ofNat_of_lt' (by show i < 2^64; omega)
  rw [bucket,UInt64.toNat_and,toNat_kBucketMask,Nat.and_two_pow_sub_one_eq_mod,UInt64.toNat_sub,
    hi',UInt32.toNat_toUInt64]
  omega

theorem toNat_next (top : UInt32) :
    ((top.toUInt64+1)&&&kBucketMask).toUInt32.toNat=(top.toNat+1)%kBucketSize := by
  have hsize : kBucketSize=4096 := rfl
  rw [hsize,UInt64.toNat_toUInt32,UInt64.toNat_and,toNat_kBucketMask,
    Nat.and_two_pow_sub_one_eq_mod,UInt64.toNat_add,UInt32.toNat_toUInt64,UInt64.toNat_one]
  omega

/-- Rates come from the 4095 newest entries. -/
theorem calcThread_eq_look {D : Type} (lib : Doubles D) (s : Hashrate) (now ms : UInt64)
    {threadId : ℕ} (htop : (s.m_top threadId).toNat < kBucketSize) :
    s.calcThread lib now threadId ms=
      (look now ms ((s.ring threadId).recent kBucketSize (kBucketSize-1))
        ⟨0,0,0,0,false⟩).result lib := by
  have hcells : (List.range' 1 (kBucketSize-1)).map
      (fun i => (s.ring threadId).cells (bucket (s.m_top threadId) i))=
        (s.ring threadId).recent kBucketSize (kBucketSize-1) := by
    rw [CellRing.recent,List.range'_eq_map_range,List.map_map]
    apply List.map_congr_left
    intro j hj
    have hj' : j < kBucketSize-1 := List.mem_range.mp hj
    show (s.ring threadId).cells (bucket (s.m_top threadId) (1+j))=_
    rw [bucket_eq htop (by omega),CellRing.back,Nat.add_comm 1 j]
    rfl
  rw [← hcells,← scan_eq_look]
  rfl

theorem ring_add_self (s : Hashrate) (threadId : ℕ) (count timestamp : UInt64) :
    (s.add threadId count timestamp).ring threadId=
      (s.ring threadId).put kBucketSize ⟨count,timestamp⟩ := by
  unfold Hashrate.ring Hashrate.add CellRing.put
  simp only [Function.update_self,toNat_next,UInt32.toNat_toUInt64]
  congr 1
  funext j
  by_cases hj : j=(s.m_top threadId).toNat
  · subst hj
    simp
  · simp [Function.update_of_ne hj]

theorem ring_add_other (s : Hashrate) {threadId i : ℕ} (h : i ≠ threadId)
    (count timestamp : UInt64) : (s.add threadId count timestamp).ring i=s.ring i := by
  simp [Hashrate.ring,Hashrate.add,Function.update_of_ne h]

/-- A call of `Hashrate::add`. -/
structure Added where
  /-- The thread. -/
  threadId : ℕ
  /-- Its count and the time. -/
  sample : Sample

/-- Calls of `Hashrate::add`, one after another. -/
def Hashrate.run (s : Hashrate) (adds : List Added) : Hashrate :=
  adds.foldl (fun s a => s.add a.threadId a.sample.count a.sample.timestamp) s

/-- What is added for a thread, in order. -/
def samplesOf (threadId : ℕ) (adds : List Added) : List Sample :=
  (adds.filter fun a => a.threadId=threadId).map Added.sample

/-- Every thread's ring has its own history. -/
theorem ring_run (s : Hashrate) (threadId : ℕ) (adds : List Added) :
    (s.run adds).ring threadId=
      (samplesOf threadId adds).foldl (CellRing.put kBucketSize) (s.ring threadId) := by
  induction adds generalizing s with
  | nil => rfl
  | cons a adds ih =>
    have hrun : s.run (a::adds)=
        (s.add a.threadId a.sample.count a.sample.timestamp).run adds := rfl
    rw [hrun,ih,samplesOf,samplesOf]
    by_cases h : a.threadId=threadId
    · subst h
      rw [ring_add_self,List.filter_cons_of_pos (by simp)]
      rfl
    · rw [ring_add_other s (Ne.symm h),List.filter_cons_of_neg (by simpa using h)]

theorem next_foldl_lt (history : List Sample) {r : CellRing Sample} (hr : r.next < kBucketSize) :
    (history.foldl (CellRing.put kBucketSize) r).next < kBucketSize := by
  induction history generalizing r with
  | nil => exact hr
  | cons a history ih => exact ih (put_next_lt (by decide) a)

/-- Rates after calls come from the newest samples, and from what was in the ring before when
there are fewer. -/
theorem calcThread_run {D : Type} (lib : Doubles D) (s : Hashrate) (adds : List Added)
    (now ms : UInt64) {threadId : ℕ} (htop : (s.m_top threadId).toNat < kBucketSize) :
    (s.run adds).calcThread lib now threadId ms=
      (look now ms (((samplesOf threadId adds).reverse++
        (s.ring threadId).recent kBucketSize (kBucketSize-1)).take (kBucketSize-1))
        ⟨0,0,0,0,false⟩).result lib := by
  have hnext : ((s.run adds).m_top threadId).toNat < kBucketSize := by
    have h := next_foldl_lt (samplesOf threadId adds) (r := s.ring threadId) htop
    rwa [← ring_run] at h
  rw [calcThread_eq_look lib _ now ms hnext,ring_run,
    recent_foldl (r := s.ring threadId) htop _ (by decide)]

end Samples

section Construction

variable (memory : Memory) (s : Hashrate)

theorem m_threads_construct (n : ℕ) :
    ((List.range n).foldl (Hashrate.construct memory) s).m_threads=s.m_threads := by
  induction n with
  | zero => rfl
  | succ n ih => rw [List.range_succ,List.foldl_append,List.foldl_cons,List.foldl_nil,← ih]; rfl

theorem m_top_construct (n i : ℕ) :
    ((List.range n).foldl (Hashrate.construct memory) s).m_top i=
      if i<n then 0 else s.m_top i := by
  induction n with
  | zero => simp
  | succ n ih =>
    rw [List.range_succ,List.foldl_append,List.foldl_cons,List.foldl_nil,Hashrate.construct]
    by_cases hi : i=n
    · subst hi
      simp
    · simp only [Function.update_of_ne hi,ih]
      congr 1
      rw [eq_iff_iff]
      omega

/-- The loop clears the counts and times of thread 0, and no others. -/
theorem cells_construct (hc : s.m_counts=memory.counts)
    (ht : s.m_timestamps=memory.timestamps) (n i : ℕ) :
    ((List.range n).foldl (Hashrate.construct memory) s).m_counts i=
        (if i=0 ∧ 0<n then fun _ => 0 else memory.counts i) ∧
      ((List.range n).foldl (Hashrate.construct memory) s).m_timestamps i=
        if i=0 ∧ 0<n then fun _ => 0 else memory.timestamps i := by
  induction n with
  | zero => simp [hc,ht]
  | succ n ih =>
    rw [List.range_succ,List.foldl_append,List.foldl_cons,List.foldl_nil,Hashrate.construct]
    by_cases hi : i=0
    · simp [hi]
    · by_cases hn : i=n
      · subst hn
        simp [hi]
      · simpa [Function.update_of_ne hi,Function.update_of_ne hn,hi] using ih

/-- Contents of a thread's ring after the constructor. -/
theorem ring_new {threads i : ℕ} (hi : i<threads) :
    (Hashrate.new memory threads).ring i=
      ⟨fun j => if i=0 then ⟨0,0⟩ else ⟨memory.counts i j,memory.timestamps i j⟩,0⟩ := by
  have hcells := cells_construct memory ⟨threads,memory.top,memory.counts,memory.timestamps⟩
    rfl rfl threads i
  have htop := m_top_construct memory ⟨threads,memory.top,memory.counts,memory.timestamps⟩
    threads i
  unfold Hashrate.ring Hashrate.new
  rw [hcells.1,hcells.2,htop,if_pos hi]
  have hpos : 0<threads := by omega
  by_cases h0 : i=0
  · simp [h0,hpos]
  · simp [h0]

end Construction

section Windows

variable {now ms : UInt64}

/-- A sample that counts, taken within the window. -/
def Within (now ms : UInt64) (a : Sample) : Prop := a.timestamp ≠ 0 ∧ now-a.timestamp ≤ ms

/-- A sample without a time ends the search. -/
theorem look_zero (w rest : List Sample) {z : Sample} (hz : z.timestamp=0) (f : Found) :
    look now ms (w++z::rest) f=look now ms w f := by
  induction w generalizing f with
  | nil => simp [look,hz]
  | cons a w ih => simp only [List.cons_append,look,ih]

/-- Entries without a time change nothing. -/
theorem look_replicate (w : List Sample) (k : ℕ) (f : Found) :
    look now ms (w++List.replicate k ⟨0,0⟩) f=look now ms w f := by
  cases k with
  | zero => rw [List.replicate_zero,List.append_nil]
  | succ k => exact look_zero w _ rfl f

/-- Samples within the window leave the first and the last of them. -/
theorem look_window {w : List Sample} {newest oldest : Sample} (hw : ∀ a∈w, Within now ms a)
    (hnewest : w.head?=some newest) (holdest : w.getLast?=some oldest) (rest : List Sample) :
    look now ms (w++rest) ⟨0,0,0,0,false⟩=look now ms rest
      ⟨oldest.count,oldest.timestamp,newest.timestamp,newest.count,false⟩ := by
  induction w using List.reverseRecOn generalizing oldest rest with
  | nil => cases hnewest
  | append_singleton w b ih =>
    obtain rfl : b=oldest := by simpa using holdest
    have hb : Within now ms b := hw b (by simp)
    have hb' : ¬now-b.timestamp > ms := UInt64.not_lt.mpr hb.2
    rw [List.append_assoc,List.singleton_append]
    cases hlast : w.getLast? with
    | none =>
      obtain rfl := List.getLast?_eq_none_iff.mp hlast
      obtain rfl : b=newest := by simpa using hnewest
      simp [look,hb.1,hb']
    | some last =>
      have hne : w ≠ [] := by
        rintro rfl
        cases hlast
      have hnewest' : w.head?=some newest := by
        rwa [List.head?_append_of_ne_nil _ hne] at hnewest
      have hzero : newest.timestamp ≠ 0 :=
        (hw newest (List.mem_append_left _ (List.mem_of_head? hnewest'))).1
      rw [ih (fun a ha => hw a (List.mem_append_left _ ha)) hnewest' hlast]
      simp [look,hb.1,hb',hzero]

section Results

variable {D : Type} (lib : Doubles D)

theorem exists_newest {w : List Sample} {oldest : Sample} (h : w.getLast?=some oldest) :
    ∃ newest, w.head?=some newest := by
  cases w with
  | nil => cases h
  | cons a w => exact ⟨a,rfl⟩

/-- Without an older sample there is no rate. -/
theorem result_of_within {w : List Sample} (hw : ∀ a∈w, Within now ms a) :
    (look now ms w ⟨0,0,0,0,false⟩).result lib=lib.nan := by
  cases hlast : w.getLast? with
  | none =>
    obtain rfl := List.getLast?_eq_none_iff.mp hlast
    rfl
  | some oldest =>
    obtain ⟨newest,hnewest⟩ := exists_newest hlast
    have hlook := look_window hw hnewest hlast []
    rw [List.append_nil] at hlook
    rw [hlook]
    rfl

/-- With one the rate is that of the window, unless it has no extent. -/
theorem result_of_older {w : List Sample} {newest oldest y : Sample}
    (hw : ∀ a∈w, Within now ms a) (hnewest : w.head?=some newest)
    (holdest : w.getLast?=some oldest) (hy : y.timestamp ≠ 0) (hold : now-y.timestamp > ms)
    (rest : List Sample) :
    (look now ms (w++y::rest) ⟨0,0,0,0,false⟩).result lib=
      if newest.timestamp=oldest.timestamp then lib.nan
      else lib.rate newest.count oldest.count newest.timestamp oldest.timestamp := by
  have hn : newest.timestamp ≠ 0 := (hw newest (List.mem_of_head? hnewest)).1
  have ho : oldest.timestamp ≠ 0 := (hw oldest (List.mem_of_getLast? holdest)).1
  have hsub : newest.timestamp-oldest.timestamp=0 ↔ newest.timestamp=oldest.timestamp :=
    sub_eq_zero
  rw [look_window hw hnewest holdest,look,if_neg hy,if_neg hn,if_pos hold]
  simp [Found.result,hn,ho,hsub]

/-- A newest sample that is too old leaves no window. -/
theorem result_of_old_first {y : Sample} (hy : y.timestamp ≠ 0) (hold : now-y.timestamp > ms)
    (rest : List Sample) :
    (look now ms (y::rest) ⟨0,0,0,0,false⟩).result lib=lib.nan := by
  rw [look,if_neg hy,if_pos rfl,if_pos hold]
  rfl

end Results

end Windows

end XmrigCC.HashrateRings
