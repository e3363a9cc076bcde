import XmrigCC.MultiWorkerHashing

/-!
# Nonce ranges of lanes

A fresh job gives every lane of every thread the start of a range of its own.
The loop then only counts upwards: nothing tells a lane that its range is used
up. Ranges are apart for as long as each lane stays inside its own, and the
byte that a nicehash pool fixes is kept while the last lane does.
-/

namespace XmrigCC.NonceRanges

open CellMemory MiningJob MultiWorker MultiWorkerHashing TransitionRuns

section Shares

/-- Rows of equal width are numbered without gaps. -/
theorem number_lt {threads lanes id lane : ℕ} (hid : id<threads) (hlane : lane<lanes) :
    id+lane*threads<threads*lanes := by
  calc
    id+lane*threads<threads+lane*threads := Nat.add_lt_add_right hid _
    _ = (lane+1)*threads := by rw [Nat.succ_mul,Nat.add_comm]
    _ ≤ lanes*threads := Nat.mul_le_mul_right threads hlane
    _ = threads*lanes := Nat.mul_comm lanes threads

/-- No number is given twice. -/
theorem number_injective {threads id lane id' lane' : ℕ} (hid : id<threads)
    (hid' : id'<threads) (h : id+lane*threads=id'+lane'*threads) : id=id' ∧ lane=lane' := by
  have hmod := congrArg (· % threads) h
  simp only [Nat.add_mul_mod_self_right,Nat.mod_eq_of_lt hid,Nat.mod_eq_of_lt hid'] at hmod
  subst hmod
  have hmul : lane*threads=lane'*threads := Nat.add_left_cancel h
  exact ⟨rfl,Nat.eq_of_mul_eq_mul_right (by omega) hmul⟩

/-- Equal shares of a range end inside it. -/
theorem share_end_le {whole parts s : ℕ} (hs : s<parts) :
    whole/parts*s+whole/parts ≤ whole := by
  calc
    whole/parts*s+whole/parts=whole/parts*(s+1) := (Nat.mul_succ _ s).symm
    _ ≤ whole/parts*parts := Nat.mul_le_mul_left _ hs
    _ ≤ whole := Nat.div_mul_le_self whole parts

/-- A value lies in the share of one number only. -/
theorem share_unique {size s s' k k' : ℕ} (hk : 1 ≤ k ∧ k ≤ size) (hk' : 1 ≤ k' ∧ k' ≤ size)
    (h : size*s+k=size*s'+k') : s=s' := by
  rcases Nat.lt_trichotomy s s' with hlt|he|hlt
  · have hnext := Nat.mul_le_mul_left size (Nat.succ_le_of_lt hlt)
    rw [Nat.mul_succ] at hnext
    omega
  · exact he
  · have hnext := Nat.mul_le_mul_left size (Nat.succ_le_of_lt hlt)
    rw [Nat.mul_succ] at hnext
    omega

end Shares

section Words

/-- Bits 24 to 31 of a nonce. -/
def topByte (nonce : UInt32) : ℕ := nonce.toNat/2^24

/-- The mask leaves the top byte at its place. -/
theorem mask_toNat (nonce : UInt32) :
    (nonce&&&0xff000000).toNat=topByte nonce*2^24 := by
  have hlt : nonce.toNat<2^32 := nonce.toNat_lt
  have hmask : (0xff000000 : UInt32).toNat=(2^8-1)<<<24 := by decide
  rw [UInt32.toNat_and,hmask,topByte,←Nat.shiftRight_eq_div_pow,←Nat.shiftLeft_eq]
  apply Nat.eq_of_testBit_eq
  intro i
  rw [Nat.testBit_and,Nat.testBit_shiftLeft,Nat.testBit_shiftLeft,Nat.testBit_shiftRight,
    Nat.testBit_two_pow_sub_one]
  by_cases hi : 24 ≤ i
  · by_cases htop : i-24<8
    · simp only [hi,htop,decide_true,Bool.and_self,Bool.and_true,Bool.true_and,
        show 24+(i-24)=i by omega]
    · have hzero : nonce.toNat.testBit i=false := by
        apply Nat.testBit_lt_two_pow
        exact Nat.lt_of_lt_of_le hlt (Nat.pow_le_pow_right (by omega) (by omega))
      simp only [hi,htop,decide_true,decide_false,Bool.and_false,
        show 24+(i-24)=i by omega,hzero]
  · simp only [hi,decide_false,Bool.false_and,Bool.and_false]

/-- A nonce is read back from its bytes. -/
theorem ofNat_leValue_le32 (nonce : UInt32) : UInt32.ofNat (leValue (le32 nonce))=nonce := by
  have hlt : nonce.toNat<2^32 := nonce.toNat_lt
  apply UInt32.toNat_inj.mp
  simp only [le32,leValue,UInt32.toNat_ofNat',UInt32.toNat_toUInt8,UInt32.toNat_shiftRight,
    Nat.shiftRight_eq_div_pow]
  simp only [UInt32.reduceToNat,Nat.reduceMod,Nat.reducePow]
  omega

end Words

/-- Nonces a job leaves to the miner: all of them, or those below the fixed byte. -/
def range (job : Job) : ℕ := if job.m_nicehash then 0xffffff else 0xffffffff

/-- Length of one lane's range. -/
def share (cfg : Setup) (job : Job) : ℕ := range job/(cfg.threads*cfg.hashFactor)

/-- Number of a lane among the lanes of all threads. -/
def number (cfg : Setup) (lane : ℕ) : ℕ := cfg.id+lane*cfg.threads

/-- What the job prescribes of a nonce. -/
def prescribed (job : Job) : ℕ :=
  if job.m_nicehash then topByte (nonceAt job.m_blob 0)*2^24 else 0

/-- `consumeJob` gets to the loop that initialises the nonces. -/
def Initialises (w : Worker) (job : Job) : Prop :=
  w.state.job.same job=false ∧ ¬Resumes w job

/-- An event of a worker that stays on a job: an iteration, or a job taken to be the same. -/
def OnJob (job : Job) : Event → Prop
  | .hash => True
  | .consume other _ => job.same other.job=true

/-- Hashing iterations among the events of a run. -/
def hashes : List Event → ℕ
  | [] => 0
  | .hash::events => hashes events+1
  | .consume _ _::events => hashes events

/-- A worker on a job whose lanes have all been advanced equally often. -/
structure Advanced (cfg : Setup) (job : Job) (n : ℕ) (w : Worker) : Prop where
  /-- The job is the worker's. -/
  job_eq : w.state.job=job
  /-- Each lane counts from its start. -/
  nonce_eq : ∀ lane<cfg.hashMultiplier,
    w.nonces lane=UInt32.ofNat (prescribed job+share cfg job*number cfg lane+n)

section Counting

variable (cfg : Setup)

theorem startNonce_eq (job : Job) (lane : ℕ) :
    startNonce cfg job (nonceAt job.m_blob 0) lane=
      UInt32.ofNat (prescribed job+share cfg job*number cfg lane) := by
  unfold startNonce prescribed share range number
  split
  · rw [mask_toNat]
  · rw [Nat.zero_add]

/-- Filling a lane sets its nonce from the blob just copied, and no other nonce. -/
theorem fillLane_nonces {w : Worker} (hsize : nonceOffset+4 ≤ w.state.job.m_size) (lane : ℕ) :
    (fillLane cfg w lane).nonces=Function.update w.nonces lane
      (startNonce cfg w.state.job (nonceAt w.state.job.m_blob 0) lane) := by
  have hcopy : nonceAt (store w.lanes (lane*w.state.job.m_size)
      (slice w.state.job.m_blob 0 w.state.job.m_size)) (lane*w.state.job.m_size)=
      nonceAt w.state.job.m_blob 0 := by
    have hcells : slice (store w.lanes (lane*w.state.job.m_size)
        (slice w.state.job.m_blob 0 w.state.job.m_size)) (lane*w.state.job.m_size+nonceOffset) 4=
        slice w.state.job.m_blob (0+nonceOffset) 4 := by
      apply slice_congr
      intro i hi
      have hlen : nonceOffset+i<(slice w.state.job.m_blob 0 w.state.job.m_size).length := by
        rw [length_slice]
        omega
      rw [Nat.add_assoc,store_inside hlen,getElem_slice,Nat.add_assoc]
    unfold nonceAt
    rw [hcells]
  have hlanes : (w.setLanes (store w.lanes (lane*w.state.job.m_size)
      (slice w.state.job.m_blob 0 w.state.job.m_size))).lanes=
      store w.lanes (lane*w.state.job.m_size) (slice w.state.job.m_blob 0 w.state.job.m_size) :=
    Function.update_self _ _ _
  rw [fillLane,hlanes,hcopy]
  exact Function.update_self _ _ _

/-- The loop of `consumeJob` gives every lane its start. -/
theorem fillFrom_nonces (lane n : ℕ) {w : Worker} (hsize : nonceOffset+4 ≤ w.state.job.m_size)
    (l : ℕ) :
    (fillFrom cfg lane n w).nonces l=if lane ≤ l ∧ l<lane+n then
      startNonce cfg w.state.job (nonceAt w.state.job.m_blob 0) l else w.nonces l := by
  induction n generalizing lane w with
  | zero => rw [fillFrom,if_neg (by omega)]
  | succ n ih =>
    rw [fillFrom,ih (lane+1) (w:=fillLane cfg w lane) hsize,fillLane_state,
      fillLane_nonces cfg hsize]
    by_cases he : l=lane
    · subst he
      rw [if_neg (by omega),if_pos (by omega),Function.update_self]
    · rw [Function.update_of_ne he]
      by_cases hin : lane ≤ l ∧ l<lane+(n+1)
      · rw [if_pos hin,if_pos (by omega)]
      · rw [if_neg hin,if_neg (by omega)]

/-- The loop of an iteration advances every lane by one. -/
theorem advanceFrom_nonces (lane n : ℕ) (w : Worker) (l : ℕ) :
    (advanceFrom lane n w).nonces l=
      if lane ≤ l ∧ l<lane+n then w.nonces l+1 else w.nonces l := by
  induction n generalizing lane w with
  | zero => rw [advanceFrom,if_neg (by omega)]
  | succ n ih =>
    rw [advanceFrom,ih (lane+1),advanceLane_nonces]
    by_cases he : l=lane
    · subst he
      rw [if_neg (by omega),if_pos (by omega),Function.update_self]
    · rw [Function.update_of_ne he]
      by_cases hin : lane ≤ l ∧ l<lane+(n+1)
      · rw [if_pos hin,if_pos (by omega)]
      · rw [if_neg hin,if_neg (by omega)]

/-- A job that initialises the nonces leaves every lane at its start. -/
theorem advanced_consumeJob {w : Worker} {job : PublishedJob} (h : Initialises w job.job)
    (sequence : UInt64) : Advanced cfg job.job 0 (consumeJob cfg w job.job sequence) := by
  have hge := job.size_ge
  have hsize : nonceOffset+4 ≤ job.job.m_size := by
    simp only [nonceOffset]
    omega
  rcases consumeJob_cases cfg w job.job sequence with ⟨hs,-⟩|⟨-,hr,-⟩|⟨-,-,paused,-,he⟩
  · rw [h.1] at hs
    cases hs
  · exact absurd hr h.2
  · rw [he]
    refine ⟨by rw [(fillFrom_frame _ _ _ _).1],?_⟩
    intro lane hlane
    rw [fillFrom_nonces cfg 0 cfg.hashMultiplier hsize,if_pos (by omega),Nat.add_zero]
    exact startNonce_eq cfg job.job lane

/-- An event on the job advances the lanes by one if it is an iteration. -/
theorem advanced_step {job : Job} {n : ℕ} {w : Worker} (h : Advanced cfg job n w) {e : Event}
    (he : OnJob job e) : Advanced cfg job (n+hashes [e]) (step cfg w e) := by
  cases e with
  | hash =>
    have hstate := (advanceFrom_frame 0 cfg.hashMultiplier w).1
    refine ⟨(congrArg State.job hstate).trans h.job_eq,?_⟩
    intro lane hlane
    have hnonce := advanceFrom_nonces 0 cfg.hashMultiplier w lane
    rw [if_pos (by omega),h.nonce_eq lane hlane] at hnonce
    rw [hashes,hashes,Nat.zero_add,←Nat.add_assoc,UInt32.ofNat_add]
    exact hnonce
  | consume other sequence =>
    have hsame : w.state.job.same other.job=true := by
      rw [h.job_eq]
      exact he
    have heq : step cfg w (.consume other sequence)={w with m_sequence := sequence} := by
      simp only [step,consumeJob,hsame,if_true]
    rw [heq]
    exact ⟨h.job_eq,h.nonce_eq⟩

/-- Along a run on the job the lanes are advanced by its iterations. -/
theorem advanced_runFrom {job : Job} {n : ℕ} {w : Worker} (h : Advanced cfg job n w)
    {events : List Event} (hon : ∀ e∈events, OnJob job e) :
    Advanced cfg job (n+hashes events) (runFrom (step cfg) w events) := by
  induction events generalizing n w with
  | nil => exact h
  | cons e events ih =>
    have hstep := advanced_step cfg h (hon e List.mem_cons_self)
    have hrun := ih hstep (fun e' he' => hon e' (List.mem_cons_of_mem e he'))
    have hcount : hashes (e::events)=hashes [e]+hashes events := by
      cases e with
      | hash => simp only [hashes]; omega
      | consume other sequence => simp only [hashes]; omega
    rw [hcount,←Nat.add_assoc]
    exact hrun

/-- After an iteration every lane's blob holds the lane's nonce. -/
theorem nonceAt_hashOnce {job : Job} {n : ℕ} {w : Worker} (h : Advanced cfg job n w)
    (hsize : nonceOffset+4 ≤ job.m_size) {lane : ℕ} (hlane : lane<cfg.hashMultiplier) :
    nonceAt (hashOnce cfg w).worker.lanes (lane*job.m_size)=
      (hashOnce cfg w).worker.nonces lane := by
  have hroom : nonceOffset+4 ≤ w.state.job.m_size := by rwa [h.job_eq]
  have hcells := advanceFrom_nonce 0 cfg.hashMultiplier w hroom (l:=lane) (by omega)
  rw [h.job_eq] at hcells
  unfold nonceAt
  rw [hashOnce,hcells,ofNat_leValue_le32]

/-- A share names the nonce of one of the lanes. -/
theorem nonce_of_share {w : Worker} {result : JobResult}
    (h : result∈(hashOnce cfg w).results) :
    ∃ lane<cfg.hashMultiplier, result.nonce=(hashOnce cfg w).worker.nonces lane := by
  obtain ⟨lane,hlane,hshare⟩ := List.mem_filterMap.mp h
  refine ⟨lane,List.mem_range.mp hlane,?_⟩
  unfold shareOf at hshare
  dsimp only at hshare
  split at hshare
  · rw [Option.some.injEq] at hshare
    rw [←hshare]
    rfl
  · cases hshare

end Counting

section Bounds

/-- What is prescribed and what is left to the miner fill 32 bits. -/
theorem prescribed_add_range (job : Job) : prescribed job+range job<2^32 := by
  have hlt : (nonceAt job.m_blob 0).toNat<2^32 := (nonceAt job.m_blob 0).toNat_lt
  unfold prescribed range topByte
  split <;> omega

/-- Every lane's range ends inside the nonces left to the miner. -/
theorem lane_end_le_range {cfg : Setup} (job : Job) {lane : ℕ} (hid : cfg.id<cfg.threads)
    (hlane : lane<cfg.hashFactor) :
    share cfg job*number cfg lane+share cfg job ≤ range job :=
  share_end_le (number_lt hid hlane)

/-- A lane that has stayed in the nonces left to the miner has not wrapped. -/
theorem nonce_toNat {cfg : Setup} {job : Job} {n : ℕ} {w : Worker} (h : Advanced cfg job n w)
    {lane : ℕ} (hlane : lane<cfg.hashMultiplier)
    (hn : share cfg job*number cfg lane+n ≤ range job) :
    (w.nonces lane).toNat=prescribed job+share cfg job*number cfg lane+n := by
  have hfit := prescribed_add_range job
  rw [h.nonce_eq lane hlane]
  exact UInt32.toNat_ofNat_of_lt' (show _<2^32 by omega)

/-- In a nicehash job the prescribed byte survives exactly as long as a lane counts
below it. -/
theorem topByte_kept_iff {cfg : Setup} {job : Job} (hnice : job.m_nicehash=true) {n : ℕ}
    {w : Worker} (h : Advanced cfg job (n+1) w) {lane : ℕ} (hlane : lane<cfg.hashMultiplier)
    (hn : share cfg job*number cfg lane+n ≤ range job) :
    topByte (w.nonces lane)=topByte (nonceAt job.m_blob 0) ↔
      share cfg job*number cfg lane+(n+1) ≤ range job := by
  have hlt : (nonceAt job.m_blob 0).toNat<2^32 := (nonceAt job.m_blob 0).toNat_lt
  have hrange : range job=2^24-1 := if_pos hnice
  have hprescribed : prescribed job=topByte (nonceAt job.m_blob 0)*2^24 := by
    rw [prescribed,if_pos hnice]
  rw [hrange] at hn ⊢
  have hvalue : (w.nonces lane).toNat=
      (topByte (nonceAt job.m_blob 0)*2^24+(share cfg job*number cfg lane+(n+1)))%2^32 := by
    rw [h.nonce_eq lane hlane,hprescribed,UInt32.toNat_ofNat',Nat.add_assoc]
  rw [show topByte (w.nonces lane)=(w.nonces lane).toNat/2^24 from rfl,hvalue]
  generalize share cfg job*number cfg lane=start at hn ⊢
  unfold topByte
  omega

end Bounds

/-- The nonces that a lane tries first: those of its iterations until its range is used
up, with any jobs taken to be the same read in between. -/
def firstNonces (cfg : Setup) (w : Worker) (job : PublishedJob) (sequence : UInt64)
    (lane : ℕ) : Set UInt32 :=
  {nonce | ∃ events, (∀ e∈events, OnJob job.job e) ∧ 1 ≤ hashes events ∧
    hashes events ≤ share cfg job.job ∧
    nonce=(runFrom (step cfg) (consumeJob cfg w job.job sequence) events).nonces lane}

/-- The workers of one miner, about to initialise their nonces for one published job. -/
structure Fleet (threads factor : ℕ) (job : PublishedJob) where
  /-- What each thread is constructed with. -/
  cfg : ℕ → Setup
  /-- The worker of each thread. -/
  worker : ℕ → Worker
  /-- The sequence number each thread reads with the job. -/
  sequence : ℕ → UInt64
  /-- Threads are numbered from 0. -/
  id_eq : ∀ id<threads, (cfg id).id=id
  /-- They agree on their number. -/
  threads_eq : ∀ id<threads, (cfg id).threads=threads
  /-- They agree on the hash factor. -/
  factor_eq : ∀ id<threads, (cfg id).hashFactor=factor
  /-- No thread keeps or resumes an earlier job. -/
  initialises : ∀ id<threads, Initialises (worker id) job.job

/-- While its range lasts a lane counts up from its start. -/
theorem firstNonces_toNat {cfg : Setup} {w : Worker} {job : PublishedJob}
    (h : Initialises w job.job) (sequence : UInt64) {lane : ℕ} (hid : cfg.id<cfg.threads)
    (hlane : lane<cfg.hashFactor ∧ lane<cfg.hashMultiplier) {events : List Event}
    (hon : ∀ e∈events, OnJob job.job e) (hn : hashes events ≤ share cfg job.job) :
    share cfg job.job*number cfg lane+hashes events ≤ range job.job ∧
    ((runFrom (step cfg) (consumeJob cfg w job.job sequence) events).nonces lane).toNat=
      prescribed job.job+share cfg job.job*number cfg lane+hashes events := by
  have hrun := advanced_runFrom cfg (advanced_consumeJob cfg h sequence) hon
  have hend := lane_end_le_range job.job hid hlane.1
  rw [Nat.zero_add] at hrun
  exact ⟨by omega,nonce_toNat hrun hlane.2 (by omega)⟩

/-- The setup of a thread of a fleet, seen through its threads and factor. -/
theorem Fleet.share_eq {threads factor : ℕ} {job : PublishedJob} (fleet : Fleet threads factor job)
    {id : ℕ} (hid : id<threads) :
    share (fleet.cfg id) job.job=range job.job/(threads*factor) ∧
    ∀ lane, number (fleet.cfg id) lane=id+lane*threads := by
  unfold share number
  rw [fleet.threads_eq id hid,fleet.factor_eq id hid,fleet.id_eq id hid]
  exact ⟨rfl,fun _ => rfl⟩

/-- The first nonces of a lane of a fleet. -/
theorem Fleet.nonce_toNat {threads factor : ℕ} {job : PublishedJob}
    (fleet : Fleet threads factor job) {id lane : ℕ} (hid : id<threads) (hlane : lane<factor)
    (hmult : lane<(fleet.cfg id).hashMultiplier) {events : List Event}
    (hon : ∀ e∈events, OnJob job.job e)
    (hn : hashes events ≤ range job.job/(threads*factor)) :
    range job.job/(threads*factor)*(id+lane*threads)+hashes events ≤ range job.job ∧
    ((runFrom (step (fleet.cfg id)) (consumeJob (fleet.cfg id) (fleet.worker id) job.job
        (fleet.sequence id)) events).nonces lane).toNat=
      prescribed job.job+range job.job/(threads*factor)*(id+lane*threads)+hashes events := by
  obtain ⟨hshare,hnumber⟩ := fleet.share_eq hid
  have hplace : (fleet.cfg id).id<(fleet.cfg id).threads := by
    rwa [fleet.id_eq id hid,fleet.threads_eq id hid]
  have hfactor : lane<(fleet.cfg id).hashFactor := by rwa [fleet.factor_eq id hid]
  rw [←hshare,←hnumber lane]
  rw [←hshare] at hn
  exact firstNonces_toNat (fleet.initialises id hid) (fleet.sequence id) hplace
    ⟨hfactor,hmult⟩ hon hn

/-- The value of one of the first nonces of a lane of a fleet. -/
theorem Fleet.mem_firstNonces {threads factor : ℕ} {job : PublishedJob}
    (fleet : Fleet threads factor job) {id lane : ℕ} (hid : id<threads) (hlane : lane<factor)
    (hmult : lane<(fleet.cfg id).hashMultiplier) {nonce : UInt32}
    (h : nonce∈firstNonces (fleet.cfg id) (fleet.worker id) job (fleet.sequence id) lane) :
    ∃ k, (1 ≤ k ∧ k ≤ range job.job/(threads*factor)) ∧
      range job.job/(threads*factor)*(id+lane*threads)+k ≤ range job.job ∧
      nonce.toNat=prescribed job.job+(range job.job/(threads*factor)*(id+lane*threads)+k) := by
  obtain ⟨events,hon,hpos,hn,rfl⟩ := h
  rw [(fleet.share_eq hid).1] at hn
  obtain ⟨hle,hvalue⟩ := fleet.nonce_toNat hid hlane hmult hon hn
  rw [Nat.add_assoc] at hvalue
  exact ⟨hashes events,⟨hpos,hn⟩,hle,hvalue⟩

/-- No nonce is among the first of two lanes. -/
theorem Fleet.firstNonces_disjoint {threads factor : ℕ} {job : PublishedJob}
    (fleet : Fleet threads factor job) :
    Set.PairwiseDisjoint
      {place : ℕ×ℕ | place.1<threads ∧ place.2<factor ∧
        place.2<(fleet.cfg place.1).hashMultiplier}
      (fun place => firstNonces (fleet.cfg place.1) (fleet.worker place.1) job
        (fleet.sequence place.1) place.2) := by
  rintro ⟨id,lane⟩ ⟨hid,hlane,hmult⟩ ⟨id',lane'⟩ ⟨hid',hlane',hmult'⟩ hne
  refine Set.disjoint_left.mpr ?_
  intro nonce h h'
  obtain ⟨k,hk,-,hvalue⟩ := fleet.mem_firstNonces hid hlane hmult h
  obtain ⟨k',hk',-,hvalue'⟩ := fleet.mem_firstNonces hid' hlane' hmult' h'
  have hsum := Nat.add_left_cancel (hvalue.symm.trans hvalue')
  have hnumber := share_unique hk hk' hsum
  obtain ⟨rfl,rfl⟩ := number_injective hid hid' hnumber
  exact hne rfl

/-- The first nonces of a nicehash job have the byte of the job. -/
theorem Fleet.firstNonces_topByte {threads factor : ℕ} {job : PublishedJob}
    (fleet : Fleet threads factor job) (hnice : job.job.m_nicehash=true) {id lane : ℕ}
    (hid : id<threads) (hlane : lane<factor) (hmult : lane<(fleet.cfg id).hashMultiplier)
    {nonce : UInt32}
    (h : nonce∈firstNonces (fleet.cfg id) (fleet.worker id) job (fleet.sequence id) lane) :
    topByte nonce=topByte (nonceAt job.job.m_blob 0) := by
  obtain ⟨k,-,hle,hvalue⟩ := fleet.mem_firstNonces hid hlane hmult h
  have hrange : range job.job=2^24-1 := if_pos hnice
  have hprescribed : prescribed job.job=topByte (nonceAt job.job.m_blob 0)*2^24 := if_pos hnice
  have hbelow := hle.trans_eq hrange
  rw [hprescribed] at hvalue
  rw [topByte,hvalue,Nat.mul_comm,Nat.mul_add_div (by decide)]
  exact Nat.add_eq_left.mpr (Nat.div_eq_of_lt (by omega))

/-- Nonce ranges of lanes. Where each lane of each thread can have a nonce at all, its
first nonces count up without wrapping from the start computed for it, inside the
nonces left to the miner; no nonce is among the first of two lanes, and a nicehash
job's byte is in all of them. -/
theorem lane_ranges_disjoint {threads factor : ℕ} {job : PublishedJob}
    (hthreads : 1 ≤ threads) (hfactor : 1 ≤ factor) (hfit : threads*factor ≤ range job.job)
    (fleet : Fleet threads factor job) :
    let size := range job.job/(threads*factor)
    1 ≤ size ∧
    (∀ id<threads, ∀ lane<factor, lane<(fleet.cfg id).hashMultiplier →
      ∀ events, (∀ e∈events, OnJob job.job e) → hashes events ≤ size →
        size*(id+lane*threads)+hashes events ≤ range job.job ∧
        ((runFrom (step (fleet.cfg id)) (consumeJob (fleet.cfg id) (fleet.worker id) job.job
            (fleet.sequence id)) events).nonces lane).toNat=
          prescribed job.job+size*(id+lane*threads)+hashes events) ∧
    Set.PairwiseDisjoint
      {place : ℕ×ℕ | place.1<threads ∧ place.2<factor ∧
        place.2<(fleet.cfg place.1).hashMultiplier}
      (fun place => firstNonces (fleet.cfg place.1) (fleet.worker place.1) job
        (fleet.sequence place.1) place.2) ∧
    (job.job.m_nicehash=true → ∀ id<threads, ∀ lane<factor,
      lane<(fleet.cfg id).hashMultiplier →
      ∀ nonce∈firstNonces (fleet.cfg id) (fleet.worker id) job (fleet.sequence id) lane,
        topByte nonce=topByte (nonceAt job.job.m_blob 0)) := by
  intro size
  have hpos : 0<threads*factor := Nat.mul_pos hthreads hfactor
  refine ⟨(Nat.one_le_div_iff hpos).mpr hfit,?_,?_,?_⟩
  · intro id hid lane hlane hmult events hon hn
    exact fleet.nonce_toNat hid hlane hmult hon hn
  · exact fleet.firstNonces_disjoint
  · intro hnice id hid lane hlane hmult nonce h
    exact fleet.firstNonces_topByte hnice hid hlane hmult h

/-- A job of 76 zero bytes, for a nicehash pool. -/
def zeroJob : Job :=
  {Job.new (fun _ => 0) 0 true with m_id := (JobId.setId (some [1])).2,m_size := 76}

theorem zeroJob_size_ge : 76 ≤ zeroJob.m_size := le_refl 76

theorem zeroJob_size_lt : zeroJob.m_size<84 := by decide

/-- That job as a pool publishes it. -/
def nicehashJob : PublishedJob := ⟨zeroJob,zeroJob_size_ge,zeroJob_size_lt⟩

/-- A worker that has not hashed yet. -/
def newWorker : Worker := Worker.new (fun _ => 0) (fun _ => 0) (fun _ _ => 0)

theorem newWorker_initialises : Initialises newWorker nicehashJob.job := by
  refine ⟨by decide +kernel,?_⟩
  intro h
  have hpool : (-2 : ℤ)=-1 := h.1
  omega

/-- Two threads with two lanes each. -/
def twoByTwo : Fleet 2 2 nicehashJob where
  cfg id := ⟨2,id,2,2,fun _ => List.replicate 32 0⟩
  worker _ := newWorker
  sequence _ := 1
  id_eq _ _ := rfl
  threads_eq _ _ := rfl
  factor_eq _ _ := rfl
  initialises _ _ := newWorker_initialises

/-- The four lanes of two threads with two lanes each have ranges apart. -/
theorem twoByTwo_ranges_disjoint :
    Set.PairwiseDisjoint {place : ℕ×ℕ | place.1<2 ∧ place.2<2 ∧ place.2<2}
      (fun place => firstNonces (twoByTwo.cfg place.1) newWorker nicehashJob 1 place.2) :=
  (lane_ranges_disjoint (by decide) (by decide) (by decide +kernel) twoByTwo).2.2.1

/-- At an iteration, the nonces written and the nonces reported have the top byte of the
job's own nonce. -/
def KeepsByte (cfg : Setup) (job : Job) (w : Worker) : Event → Prop
  | .consume _ _ => True
  | .hash =>
    (∀ lane<cfg.hashMultiplier,
      topByte (nonceAt (hashOnce cfg w).worker.lanes (lane*job.m_size))=
        topByte (nonceAt job.m_blob 0)) ∧
    ∀ result∈(hashOnce cfg w).results, topByte result.nonce=topByte (nonceAt job.m_blob 0)

/-- An iteration keeps the byte exactly when no lane counts past the nonces left to the
miner. -/
theorem keepsByte_hash_iff {cfg : Setup} {job : PublishedJob} (hnice : job.job.m_nicehash=true)
    {n : ℕ} {w : Worker} (h : Advanced cfg job.job n w)
    (hn : ∀ lane<cfg.hashMultiplier, share cfg job.job*number cfg lane+n ≤ range job.job) :
    KeepsByte cfg job.job w .hash ↔
      ∀ lane<cfg.hashMultiplier, share cfg job.job*number cfg lane+(n+1) ≤ range job.job := by
  have hge := job.size_ge
  have hsize : nonceOffset+4 ≤ job.job.m_size := by
    simp only [nonceOffset]
    omega
  have hnext : Advanced cfg job.job (n+1) (hashOnce cfg w).worker :=
    advanced_step cfg h (e:=.hash) trivial
  constructor
  · rintro ⟨hlanes,-⟩ lane hlane
    rw [←topByte_kept_iff hnice hnext hlane (hn lane hlane),
      ←nonceAt_hashOnce cfg h hsize hlane]
    exact hlanes lane hlane
  · intro hle
    have hkept : ∀ lane<cfg.hashMultiplier, topByte ((hashOnce cfg w).worker.nonces lane)=
        topByte (nonceAt job.job.m_blob 0) := fun lane hlane =>
      (topByte_kept_iff hnice hnext hlane (hn lane hlane)).mpr (hle lane hlane)
    refine ⟨?_,?_⟩
    · intro lane hlane
      rw [nonceAt_hashOnce cfg h hsize hlane]
      exact hkept lane hlane
    · intro result hresult
      obtain ⟨lane,hlane,he⟩ := nonce_of_share cfg hresult
      rw [he]
      exact hkept lane hlane

/-- From lanes still inside their nonces, a run on the job keeps the byte exactly when its
iterations leave them inside. -/
theorem keepsByte_run_iff {cfg : Setup} {job : PublishedJob} (hnice : job.job.m_nicehash=true)
    {n : ℕ} {w : Worker} (h : Advanced cfg job.job n w)
    (hn : ∀ lane<cfg.hashMultiplier, share cfg job.job*number cfg lane+n ≤ range job.job)
    {events : List Event} (hon : ∀ e∈events, OnJob job.job e) :
    AlongSteps (step cfg) (KeepsByte cfg job.job) w events ↔
      ∀ lane<cfg.hashMultiplier,
        share cfg job.job*number cfg lane+(n+hashes events) ≤ range job.job := by
  induction events generalizing n w with
  | nil => exact iff_of_true trivial hn
  | cons e events ih =>
    have hrest : ∀ e'∈events, OnJob job.job e' := fun e' he' =>
      hon e' (List.mem_cons_of_mem e he')
    have hstep := advanced_step cfg h (hon e List.mem_cons_self)
    rw [alongSteps_cons]
    cases e with
    | hash =>
      have hnext : Advanced cfg job.job (n+1) (step cfg w .hash) := hstep
      rw [keepsByte_hash_iff hnice h hn,show n+hashes (.hash::events)=n+1+hashes events by
        rw [hashes]; omega]
      constructor
      · rintro ⟨hle,hrun⟩
        exact (ih hnext hle hrest).mp hrun
      · intro hle
        have hle' : ∀ lane<cfg.hashMultiplier,
            share cfg job.job*number cfg lane+(n+1) ≤ range job.job := by
          intro lane hlane
          have hend := hle lane hlane
          omega
        exact ⟨hle',(ih hnext hle' hrest).mpr hle⟩
    | consume other sequence =>
      have hnext : Advanced cfg job.job n (step cfg w (.consume other sequence)) := hstep
      exact (and_iff_right trivial).trans (ih hnext hn hrest)

/-- Nicehash byte. On a nicehash job whose nonces were just initialised, a run keeps the
prescribed byte in every nonce written and reported exactly when the number of its
iterations takes no lane past the low 24 bits; nothing in the loop checks that number. -/
theorem nicehash_byte_kept_iff {cfg : Setup} (hid : cfg.id<cfg.threads)
    (hmult : cfg.hashMultiplier ≤ cfg.hashFactor) {w : Worker}
    {job : PublishedJob} (hnice : job.job.m_nicehash=true) (hfresh : Initialises w job.job)
    (sequence : UInt64) {events : List Event} (hon : ∀ e∈events, OnJob job.job e) :
    AlongSteps (step cfg) (KeepsByte cfg job.job) (consumeJob cfg w job.job sequence) events ↔
      ∀ lane<cfg.hashMultiplier,
        0xffffff/(cfg.threads*cfg.hashFactor)*(cfg.id+lane*cfg.threads)+hashes events
          ≤ 0xffffff := by
  have hrange : range job.job=0xffffff := if_pos hnice
  have hstart : ∀ lane<cfg.hashMultiplier,
      share cfg job.job*number cfg lane+0 ≤ range job.job := by
    intro lane hlane
    have hend := lane_end_le_range job.job hid (hlane.trans_le hmult)
    omega
  have hrun := keepsByte_run_iff hnice (advanced_consumeJob cfg hfresh sequence) hstart hon
  simp only [Nat.zero_add,share,number,hrange] at hrun
  exact hrun

theorem hashes_replicate (n : ℕ) : hashes (List.replicate n .hash)=n := by
  induction n with
  | zero => rfl
  | succ n ih => rw [List.replicate_succ,hashes,ih]

theorem onJob_replicate (job : Job) (n : ℕ) : ∀ e∈List.replicate n Event.hash, OnJob job e := by
  intro e he
  rw [List.eq_of_mem_replicate he]
  trivial

/-- A single lane keeps the byte for as many iterations as there are values below it. -/
theorem nicehash_byte_kept :
    AlongSteps (step oneLane) (KeepsByte oneLane nicehashJob.job)
      (consumeJob oneLane newWorker nicehashJob.job 1) (List.replicate 0xffffff .hash) := by
  rw [nicehash_byte_kept_iff (by decide) (by decide) rfl newWorker_initialises 1
    (onJob_replicate nicehashJob.job 0xffffff),hashes_replicate]
  intro lane hlane
  have hzero : lane=0 := Nat.lt_one_iff.mp hlane
  rw [hzero]
  decide

/-- One iteration more and it does not. -/
theorem nicehash_byte_changed :
    1*1 ≤ 0xffffff ∧ nicehashJob.job.m_nicehash=true ∧ Initialises newWorker nicehashJob.job ∧
    ¬AlongSteps (step oneLane) (KeepsByte oneLane nicehashJob.job)
      (consumeJob oneLane newWorker nicehashJob.job 1) (List.replicate 0x1000000 .hash) := by
  refine ⟨by decide,rfl,newWorker_initialises,?_⟩
  have hstart : ∀ lane<oneLane.hashMultiplier,
      share oneLane nicehashJob.job*number oneLane lane+0 ≤ range nicehashJob.job := by
    intro lane hlane
    have hend : share oneLane nicehashJob.job*number oneLane lane+share oneLane nicehashJob.job ≤
        range nicehashJob.job := lane_end_le_range nicehashJob.job (by decide) hlane
    omega
  rw [keepsByte_run_iff rfl (advanced_consumeJob oneLane newWorker_initialises 1) hstart
    (onJob_replicate nicehashJob.job 0x1000000),hashes_replicate]
  intro hle
  exact absurd (hle 0 (by decide)) (by decide)

end XmrigCC.NonceRanges
