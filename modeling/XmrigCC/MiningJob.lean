import XmrigCC.CellMemory

/-!
# Mining jobs

`Job` and `JobId` as the pool client builds them: an identifier in 64 zeroed
bytes, a blob of 76 to 83 bytes in an 84-byte array that is not cleared first,
a target and the difficulty computed from it. C strings are lists without NUL;
a null pointer is `none`.
-/

namespace XmrigCC.MiningJob

open CellMemory

/-- Value of a little-endian byte string. -/
def leValue : List UInt8 → ℕ
  | [] => 0
  | b::bs => b.toNat+256*leValue bs

/-- The four bytes of a 32-bit word in memory order. -/
def le32 (n : UInt32) : List UInt8 :=
  [n.toUInt8,(n>>>8).toUInt8,(n>>>16).toUInt8,(n>>>24).toUInt8]

@[simp] theorem length_le32 (n : UInt32) : (le32 n).length=4 := rfl

/-- `char m_data[64]`. -/
structure JobId where
  /-- The identifier, padded with NUL bytes. -/
  m_data : List UInt8
  /-- The array has 64 bytes. -/
  length_eq : m_data.length=64
  deriving DecidableEq

/-- The identifier after `memset(m_data, 0, sizeof(m_data))`. -/
def JobId.cleared : JobId := ⟨List.replicate 64 0,List.length_replicate⟩

/-- `JobId::setId`: false, and a cleared identifier, without a string or when it does
not leave room for its terminator. -/
def JobId.setId : Option (List UInt8) → Bool×JobId
  | none => (false,JobId.cleared)
  | some id =>
    if h : 64 ≤ id.length then (false,JobId.cleared)
    else (true,⟨id++List.replicate (64-id.length) 0,by
      rw [List.length_append,List.length_replicate]
      omega⟩)

/-- A mining job. -/
structure Job where
  /-- `uint8_t m_blob[84]`; only the first 84 cells belong to the job. -/
  m_blob : Cells UInt8
  /-- Only 24 bits of the nonce are free. -/
  m_nicehash : Bool
  /-- Pool that issued the job, -1 for the donation pool, -2 for none. -/
  m_poolId : ℤ
  /-- Identifier given by the pool. -/
  m_id : JobId
  /-- Bytes of the blob to hash. -/
  m_size : ℕ
  /-- 64-bit difficulty. -/
  m_diff : ℕ
  /-- 64-bit target. -/
  m_target : ℕ

/-- `sizeof(m_blob)`. -/
def blobSize : ℕ := 84

/-- Offset of the nonce in a blob. -/
def nonceOffset : ℕ := 39

/-- `Job::Job(poolId, nicehash)`; the blob keeps what its memory held. -/
def Job.new (blob : Cells UInt8) (poolId : ℤ) (nicehash : Bool) : Job :=
  ⟨blob,nicehash,poolId,JobId.cleared,0,0,0⟩

/-- `Job::diff`: the low 32 bits of the difficulty. -/
def Job.diff (job : Job) : ℕ := job.m_diff%2^32

/-- `Job::operator==`: identifiers and all 84 blob bytes. -/
def Job.same (a b : Job) : Bool :=
  decide (a.m_id=b.m_id) && decide (slice a.m_blob 0 blobSize=slice b.m_blob 0 blobSize)

/-- `Job::toDiff`. -/
def toDiff (target : ℕ) : ℕ := 0xFFFFFFFFFFFFFFFF/target

/-- `hf_hex2bin`: the value of a hex digit, `none` where the source sets its error flag
and returns 0. -/
def hf_hex2bin (c : UInt8) : Option UInt8 :=
  if 48 ≤ c ∧ c ≤ 57 then some (c-48)
  else if 97 ≤ c ∧ c ≤ 102 then some (c-97+10)
  else if 65 ≤ c ∧ c ≤ 70 then some (c-65+10)
  else none

/-- The loop of `Job::fromHex`: pairs from an index on, as many as remain. The byte of
a faulty pair is written before the loop gives up. -/
def fromHexFrom (digits : Cells UInt8) : ℕ → ℕ → Cells UInt8 → Bool×Cells UInt8
  | _,0,out => (true,out)
  | i,n+1,out =>
    let high := hf_hex2bin (digits (2*i))
    let low := hf_hex2bin (digits (2*i+1))
    let out' := store out i [(high.getD 0<<<4)|||low.getD 0]
    if high.isNone ∨ low.isNone then (false,out') else fromHexFrom digits (i+1) n out'

/-- `Job::fromHex`: decode `len` characters, two to a byte. -/
def fromHex (digits : Cells UInt8) (len : ℕ) (out : Cells UInt8) : Bool×Cells UInt8 :=
  fromHexFrom digits 0 ((len+1)/2) out

/-- The 32-bit nonce in a blob at an address. -/
def nonceAt (m : Cells UInt8) (a : ℕ) : UInt32 :=
  UInt32.ofNat (leValue (slice m (a+nonceOffset) 4))

/-- Memory of a C string: its characters and the terminator. -/
def cStringCells (s : List UInt8) : Cells UInt8 := store (fun _ => 0) 0 s

/-- `Job::setBlob`. The size is stored before it is checked. -/
def Job.setBlob (job : Job) : Option (List UInt8) → Bool×Job
  | none => (false,job)
  | some blob =>
    if blob.length%2≠0 then (false,{job with m_size := blob.length})
    else
      let size := blob.length/2
      if size<76 ∨ blobSize ≤ size then (false,{job with m_size := size})
      else
        let decoded := fromHex (cStringCells blob) (size*2) job.m_blob
        if decoded.1=false then (false,{job with m_size := size,m_blob := decoded.2})
        else
          (true,{job with
            m_size := size
            m_blob := decoded.2
            m_nicehash := job.m_nicehash || decide (nonceAt decoded.2 0≠0)})

/-- `Job::setTarget`; `str` is the old content of the local array the string is copied
to, of which `fromHex` reads 8 or 16 characters whatever the length of the string. -/
def Job.setTarget (str : Cells UInt8) (job : Job) : Option (List UInt8) → Bool×Job
  | none => (false,job)
  | some target =>
    if target.length ≤ 8 then
      let decoded := fromHex (store str 0 target) 8 (fun _ => 0)
      let tmp := leValue (slice decoded.2 0 4)
      if decoded.1=false ∨ tmp=0 then (false,job)
      else
        let value := 0xFFFFFFFFFFFFFFFF/(0xFFFFFFFF/tmp)
        (true,{job with m_target := value,m_diff := toDiff value})
    else if target.length ≤ 16 then
      let decoded := fromHex (store str 0 target) 16 (fun _ => 0)
      let value := leValue (slice decoded.2 0 8)
      if decoded.1=false ∨ value=0 then (false,{job with m_target := value})
      else (true,{job with m_target := value,m_diff := toDiff value})
    else (false,job)

/-- A blob that is accepted has an even number of digits and 76 to 83 bytes, which are decoded
to the array. -/
theorem Job.setBlob_of_accepted {job : Job} {blob : List UInt8}
    (h : (job.setBlob (some blob)).1=true) :
    blob.length%2=0 ∧ 76 ≤ blob.length/2 ∧ blob.length/2<blobSize ∧
    (fromHex (cStringCells blob) (blob.length/2*2) job.m_blob).1=true ∧
    (job.setBlob (some blob)).2.m_size=blob.length/2 ∧
    (job.setBlob (some blob)).2.m_blob=
      (fromHex (cStringCells blob) (blob.length/2*2) job.m_blob).2 := by
  simp only [Job.setBlob] at h ⊢
  split at h
  · cases h
  · rename_i heven
    rw [if_neg heven]
    split at h
    · cases h
    · rename_i hsize
      rw [if_neg hsize]
      split at h
      · cases h
      · rename_i hdecoded
        rw [if_neg hdecoded]
        exact ⟨by omega,by omega,by omega,(Bool.not_eq_false _).mp hdecoded,rfl,rfl⟩

/-- A blob that was accepted has 76 to 83 bytes. -/
theorem Job.setBlob_size {job : Job} {blob : Option (List UInt8)}
    (h : (job.setBlob blob).1=true) :
    76 ≤ (job.setBlob blob).2.m_size ∧ (job.setBlob blob).2.m_size<blobSize := by
  cases blob with
  | none => cases h
  | some blob =>
    obtain ⟨-,hge,hlt,-,hsize,-⟩ := Job.setBlob_of_accepted h
    rw [hsize]
    exact ⟨hge,hlt⟩

/-- Setting the blob keeps the pool, the identifier, the target and the difficulty. -/
theorem Job.setBlob_frame (job : Job) (blob : Option (List UInt8)) :
    (job.setBlob blob).2.m_poolId=job.m_poolId ∧ (job.setBlob blob).2.m_id=job.m_id ∧
    (job.setBlob blob).2.m_target=job.m_target ∧ (job.setBlob blob).2.m_diff=job.m_diff := by
  cases blob with
  | none => exact ⟨rfl,rfl,rfl,rfl⟩
  | some blob =>
    simp only [Job.setBlob]
    split
    · exact ⟨rfl,rfl,rfl,rfl⟩
    · split
      · exact ⟨rfl,rfl,rfl,rfl⟩
      · split <;> exact ⟨rfl,rfl,rfl,rfl⟩

/-- Setting the target keeps the pool, the identifier, the blob and its size. -/
theorem Job.setTarget_frame (str : Cells UInt8) (job : Job) (target : Option (List UInt8)) :
    (job.setTarget str target).2.m_poolId=job.m_poolId ∧
    (job.setTarget str target).2.m_id=job.m_id ∧
    (job.setTarget str target).2.m_blob=job.m_blob ∧
    (job.setTarget str target).2.m_size=job.m_size := by
  cases target with
  | none => exact ⟨rfl,rfl,rfl,rfl⟩
  | some target =>
    simp only [Job.setTarget]
    split
    · split <;> exact ⟨rfl,rfl,rfl,rfl⟩
    · split
      · split <;> exact ⟨rfl,rfl,rfl,rfl⟩
      · exact ⟨rfl,rfl,rfl,rfl⟩

end XmrigCC.MiningJob
