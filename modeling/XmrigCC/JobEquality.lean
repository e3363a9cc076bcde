import XmrigCC.ClientLines
import XmrigCC.HexTexts
import XmrigCC.SubmitText

/-!
# Equality of jobs

`Job::operator==` compares the identifiers and all 84 bytes of the blob arrays. `setBlob`
writes only the bytes it decodes, and how many these are is not compared, so two jobs may
differ in what their memory held, and two blobs of different lengths may look alike.
-/

namespace XmrigCC.JobEquality

open ByteText CellMemory MiningJob HexTexts PoolMessages PoolClient ClientLines SubmitText

/-- What a job is built from: an identifier and a blob that are accepted, and the memory of
its blob array. -/
structure Notice where
  /-- Old contents of the array. -/
  memory : Cells UInt8
  /-- Pool of the client. -/
  poolId : ℤ
  /-- Nicehash flag of its url. -/
  nicehash : Bool
  /-- Identifier. -/
  id : Bytes
  /-- It is a C string. -/
  id_text : 0∉id
  /-- `setId` accepts it. -/
  id_accepted : (JobId.setId (some id)).1=true
  /-- Blob. -/
  blob : Bytes
  /-- `setBlob` accepts it. -/
  blob_accepted : (Job.setBlob {Job.new memory poolId nicehash with
    m_id := (JobId.setId (some id)).2} (some blob)).1=true

/-- The job after `setId` and `setBlob`. -/
def Notice.job (notice : Notice) : Job :=
  (Job.setBlob {Job.new notice.memory notice.poolId notice.nicehash with
    m_id := (JobId.setId (some notice.id)).2} (some notice.blob)).2

/-- The decoded blob. -/
def Notice.bytes (notice : Notice) : Bytes := hexBytes notice.blob

/-- What the blob array holds after the decoded blob. -/
def Notice.rest (notice : Notice) : Bytes :=
  slice notice.memory notice.bytes.length (blobSize-notice.bytes.length)

/-- Identifier and decoded blob are the same. -/
def SameJob (a b : Notice) : Prop := a.id=b.id ∧ a.bytes=b.bytes

instance (a b : Notice) : Decidable (SameJob a b) := inferInstanceAs (Decidable (_ ∧ _))

/-- With one identifier, equal blobs are followed by equal bytes, and a shorter one and its
bytes do not make up a longer one and its. -/
def ToldApart (a b : Notice) : Prop :=
  a.id=b.id → (a.bytes=b.bytes → a.rest=b.rest) ∧
    (a.bytes.length ≠ b.bytes.length → a.bytes++a.rest ≠ b.bytes++b.rest)

/-- A client has a job built from one notice and is sent another, with a valid target. -/
structure Notified (lib : RapidJson) (stale : Stale) (c : Client) (params : Json)
    (held sent : Notice) : Prop where
  /-- The job the client has. -/
  held_eq : ∃ str target, c.m_job=(held.job.setTarget str target).2
  /-- The parameters are an object. -/
  object : params.isObject=true
  /-- Its identifier. -/
  id_eq : lib.getString (params.get (text "job_id"))=some sent.id
  /-- Its blob. -/
  blob_eq : lib.getString (params.get (text "blob"))=some sent.blob
  /-- The job is built for the pool of the client. -/
  poolId_eq : sent.poolId=c.m_id
  /-- With the flag of its url. -/
  nicehash_eq : sent.nicehash=c.m_url.m_nicehash
  /-- In this memory. -/
  memory_eq : sent.memory=stale.blob
  /-- The target is accepted. -/
  target : (sent.job.setTarget stale.target
    (lib.getString (params.get (text "target")))).1=true

/-- Jobs built from two notices compare equal, and a client that has the one takes the other
for a duplicate, exactly when they are the same job. -/
structure JudgedRight (a b : Notice) : Prop where
  /-- `operator==`. -/
  same_iff : a.job.same b.job=true ↔ SameJob a b
  /-- `Client::parseJob`. -/
  parseJob_eq : ∀ (lib : RapidJson) (stale : Stale) (c : Client) (params : Json),
    Notified lib stale c params a b → c.parseJob lib stale params=
      if SameJob a b then (false,c.close)
      else (true,{c with m_job := (b.job.setTarget stale.target
        (lib.getString (params.get (text "target")))).2})

section Building

/-- The array of an accepted blob: its bytes, and old contents after them. -/
theorem setBlob_array {job : Job} {blob : Bytes} (h : (job.setBlob (some blob)).1=true) :
    (hexBytes blob).length<blobSize ∧
    slice (job.setBlob (some blob)).2.m_blob 0 (hexBytes blob).length=hexBytes blob ∧
    ∀ c, (hexBytes blob).length ≤ c → (job.setBlob (some blob)).2.m_blob c=job.m_blob c := by
  obtain ⟨heven,-,hlt,hdecoded,-,harray⟩ := Job.setBlob_of_accepted h
  have htext : slice (cStringCells blob) 0 (2*(blob.length/2))=blob := by
    have hlength : 2*(blob.length/2)=blob.length := by omega
    rw [hlength]
    exact slice_store_same _ 0 blob
  rw [Nat.mul_comm] at hdecoded harray
  have hdigits := (fromHex_iff _).mp hdecoded
  obtain ⟨hbytes,hrest⟩ := @fromHex_bytes _ job.m_blob _ hdigits
  rw [htext] at hbytes
  rw [length_hexBytes,harray]
  exact ⟨hlt,hbytes,hrest⟩

variable (notice : Notice)

/-- The blob array is the decoded blob and the old contents after it. -/
theorem Notice.blob_array : slice notice.job.m_blob 0 blobSize=notice.bytes++notice.rest := by
  obtain ⟨hlength,hbytes,hrest⟩ : notice.bytes.length<blobSize ∧
      slice notice.job.m_blob 0 notice.bytes.length=notice.bytes ∧
      ∀ c, notice.bytes.length ≤ c → notice.job.m_blob c=notice.memory c :=
    setBlob_array notice.blob_accepted
  have hsplit : blobSize=notice.bytes.length+(blobSize-notice.bytes.length) := by omega
  calc
    slice notice.job.m_blob 0 blobSize=notice.bytes++
        slice notice.job.m_blob notice.bytes.length (blobSize-notice.bytes.length) := by
      conv_lhs => rw [hsplit,slice_add,hbytes,Nat.zero_add]
    _ = notice.bytes++notice.rest := by
      rw [Notice.rest]
      congr 1
      exact slice_congr fun i _ => hrest (notice.bytes.length+i) (Nat.le_add_right _ _)

theorem Notice.job_id : notice.job.m_id=(JobId.setId (some notice.id)).2 :=
  (Job.setBlob_frame _ _).2.1

theorem Notice.id_short : notice.id.length<64 := by
  have h := notice.id_accepted
  rw [JobId.setId] at h
  split at h
  · cases h
  · omega

end Building

section Comparing

variable {a b : Notice}

/-- Identifiers are kept apart by what they are padded to. -/
theorem job_id_eq_iff : a.job.m_id=b.job.m_id ↔ a.id=b.id := by
  rw [Notice.job_id,Notice.job_id]
  refine ⟨fun h => ?_,fun h => by rw [h]⟩
  rw [←cStr_setId a.id_short a.id_text,h,cStr_setId b.id_short b.id_text]

/-- Two jobs compare equal when their identifiers and their whole arrays agree. -/
theorem same_job_iff :
    a.job.same b.job=true ↔ a.id=b.id ∧ a.bytes++a.rest=b.bytes++b.rest := by
  rw [Job.same,Bool.and_eq_true,decide_eq_true_eq,decide_eq_true_eq,job_id_eq_iff,a.blob_array,
    b.blob_array]

/-- Setting a target keeps what is compared. -/
theorem same_setTarget (str str' : Cells UInt8) (target target' : Option (List UInt8))
    (held job : Job) :
    (held.setTarget str target).2.same (job.setTarget str' target').2=held.same job := by
  obtain ⟨-,hid,hblob,-⟩ := Job.setTarget_frame str held target
  obtain ⟨-,hid',hblob',-⟩ := Job.setTarget_frame str' job target'
  rw [Job.same,Job.same,hid,hid',hblob,hblob']

/-- `parseJob` takes a notice for a duplicate when the jobs compare equal. -/
theorem parseJob_notified {lib : RapidJson} {stale : Stale} {c : Client} {params : Json}
    (h : Notified lib stale c params a b) : c.parseJob lib stale params=
      if a.job.same b.job=true then (false,c.close)
      else (true,{c with m_job := (b.job.setTarget stale.target
        (lib.getString (params.get (text "target")))).2}) := by
  obtain ⟨str,target,hheld⟩ := h.held_eq
  have hjob : jobOf lib stale c.m_id c.m_url.m_nicehash params=
      some (b.job.setTarget stale.target (lib.getString (params.get (text "target")))).2 := by
    have hblob := b.blob_accepted
    have htarget := h.target
    rw [Notice.job] at htarget ⊢
    rw [h.poolId_eq,h.nicehash_eq,h.memory_eq] at hblob htarget ⊢
    rw [jobOf,h.id_eq,h.blob_eq]
    exact if_pos ⟨h.object,b.id_accepted,hblob,htarget⟩
  rw [parseJob_eq,hjob,hheld]
  simp only [same_setTarget]

end Comparing

/-- Equality of jobs. Two jobs compare equal, and are duplicates to `parseJob`, exactly for one
identifier and one decoded blob if and only if the bytes after the blobs do not interfere. -/
theorem judged_right_iff (a b : Notice) : JudgedRight a b ↔ ToldApart a b := by
  constructor
  · intro h hid
    have hiff := h.same_iff
    rw [same_job_iff,SameJob,and_iff_right hid,and_iff_right hid] at hiff
    refine ⟨fun hbytes => ?_,fun hlength harray => hlength (congrArg _ (hiff.mp harray))⟩
    have harray := hiff.mpr hbytes
    rw [hbytes] at harray
    exact List.append_cancel_left harray
  · intro h
    have hsame : a.job.same b.job=true ↔ SameJob a b := by
      rw [same_job_iff]
      apply and_congr_right
      intro hid
      obtain ⟨hrest,hapart⟩ := h hid
      refine ⟨fun harray => ?_,fun hbytes => by rw [hbytes,hrest hbytes]⟩
      by_cases hlength : a.bytes.length=b.bytes.length
      · exact (List.append_inj harray hlength).1
      · exact absurd harray (hapart hlength)
    refine ⟨hsame,fun lib stale c params hnotified => ?_⟩
    rw [parseJob_notified hnotified]
    simp only [hsame]

/-- A blob of 76 zero bytes. -/
def zeroBlob : Bytes := List.replicate 152 48

theorem one_text : 0∉text "1" := by decide

theorem one_accepted : (JobId.setId (some (text "1"))).1=true := by decide

theorem zeroBlob_accepted (old : Bool) : (Job.setBlob
    {Job.new (fun _ => if old then 1 else 0) 0 false with m_id := (JobId.setId (some (text "1"))).2}
    (some zeroBlob)).1=true := by
  cases old <;> decide +kernel

/-- The notice of that blob, built in memory of ones or of zeros. -/
def zeroNotice (old : Bool) : Notice where
  memory _ := if old then 1 else 0
  poolId := 0
  nicehash := false
  id := text "1"
  id_text := one_text
  id_accepted := one_accepted
  blob := zeroBlob
  blob_accepted := zeroBlob_accepted old

/-- The same notice twice, with different bytes after the blob. -/
theorem zeroNotice_not_judged_right : ¬JudgedRight (zeroNotice false) (zeroNotice true) := by
  intro h
  have hsame := h.same_iff.mpr ⟨rfl,rfl⟩
  exact absurd hsame (by decide +kernel)

end XmrigCC.JobEquality
