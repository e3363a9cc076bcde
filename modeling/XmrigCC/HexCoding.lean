import XmrigCC.HexTexts
import XmrigCC.PoolMessages

/-!
# Hex texts written and read back

`Job::toHex` writes two lower-case digits for a byte and `Job::fromHex` reads two digits of
either case. Lengths and indices are `unsigned int`, so a text has less than 2^32 characters.
-/

namespace XmrigCC.HexCoding

open ByteText CellMemory MiningJob HexTexts
open PoolMessages (hf_bin2hex toHex lower)

/-- The loop of `Job::toHex`, from an index on. -/
def toHexFrom (input : Cells UInt8) : ℕ → ℕ → Cells UInt8 → Cells UInt8
  | _,0,out => out
  | i,n+1,out =>
    let out := store out (i*2%2^32) [hf_bin2hex ((input i&&&0xF0)>>>4)]
    let out := store out ((i*2+1)%2^32) [hf_bin2hex (input i&&&0x0F)]
    toHexFrom input (i+1) n out

/-- `Job::toHex(in, len, out)`. -/
def toHexCells (input : Cells UInt8) (len : UInt32) (out : Cells UInt8) : Cells UInt8 :=
  toHexFrom input 0 len.toNat out

/-- The hex digits of either case. -/
def hexDigits : Bytes := text "0123456789abcdefABCDEF"

section Digits

/-- The digits that are decoded are those of either case. -/
theorem isHex_iff (c : UInt8) : IsHex c ↔ c∈hexDigits := by
  have hdigits : hexDigits=[48,49,50,51,52,53,54,55,56,57,97,98,99,100,101,102,
    65,66,67,68,69,70] := rfl
  rw [hdigits]
  revert c
  exact forall_byte (by decide +kernel)

/-- The value of a digit is written as the digit, in lower case. -/
theorem bin2hex_hex2bin {c v : UInt8} (h : hf_hex2bin c=some v) :
    v.toNat<16 ∧ hf_bin2hex v=lower c := by
  have hall : ∀ c, IsHex c → ((hf_hex2bin c).getD 0).toNat<16 ∧
      hf_bin2hex ((hf_hex2bin c).getD 0)=lower c := forall_byte (by decide +kernel)
  have hc := hall c (Option.isSome_iff_exists.mpr ⟨v,h⟩)
  rwa [h,Option.getD_some] at hc

/-- The digits of a byte are read as the byte. -/
theorem pairByte_digits (b : UInt8) :
    IsHex (hf_bin2hex ((b&&&0xF0)>>>4)) ∧ IsHex (hf_bin2hex (b&&&0x0F)) ∧
    pairByte (hf_bin2hex ((b&&&0xF0)>>>4)) (hf_bin2hex (b&&&0x0F))=b := by
  revert b
  exact forall_byte (by decide +kernel)

/-- The halves of a byte that was put together from them. -/
theorem halves {a b : UInt8} (ha : a.toNat<16) (hb : b.toNat<16) :
    ((a<<<4|||b)&&&0xF0)>>>4=a ∧ (a<<<4|||b)&&&0x0F=b := by
  have hall : ∀ m<16, ∀ n<16,
      ((UInt8.ofNat m<<<4|||UInt8.ofNat n)&&&0xF0)>>>4=UInt8.ofNat m ∧
      (UInt8.ofNat m<<<4|||UInt8.ofNat n)&&&0x0F=UInt8.ofNat n := by decide +kernel
  have hab := hall a.toNat ha b.toNat hb
  rwa [UInt8.ofNat_toNat,UInt8.ofNat_toNat] at hab

/-- The byte of two digits is written as these digits, in lower case. -/
theorem digits_pairByte {high low : UInt8} (hhigh : IsHex high) (hlow : IsHex low) :
    [hf_bin2hex ((pairByte high low&&&0xF0)>>>4),hf_bin2hex (pairByte high low&&&0x0F)]=
      [lower high,lower low] := by
  obtain ⟨a,ha⟩ := Option.isSome_iff_exists.mp hhigh
  obtain ⟨b,hb⟩ := Option.isSome_iff_exists.mp hlow
  obtain ⟨hlta,hwritea⟩ := bin2hex_hex2bin ha
  obtain ⟨hltb,hwriteb⟩ := bin2hex_hex2bin hb
  obtain ⟨hupper,hunder⟩ := halves hlta hltb
  rw [pairByte,ha,hb,Option.getD_some,Option.getD_some,hupper,hunder,hwritea,hwriteb]

end Digits

section Texts

theorem toHex_cons (b : UInt8) (bytes : List UInt8) :
    toHex (b::bytes)=hf_bin2hex ((b&&&0xF0)>>>4)::hf_bin2hex (b&&&0x0F)::toHex bytes := rfl

/-- The text of some bytes has only digits and is read as the bytes. -/
theorem hexBytes_toHex (bytes : List UInt8) :
    (∀ c∈toHex bytes, IsHex c) ∧ hexBytes (toHex bytes)=bytes := by
  induction bytes with
  | nil => exact ⟨fun c hc => (nomatch hc),rfl⟩
  | cons b bytes ih =>
    obtain ⟨hhigh,hlow,hbyte⟩ := pairByte_digits b
    rw [toHex_cons,List.forall_mem_cons,List.forall_mem_cons,hexBytes,hbyte,ih.2]
    exact ⟨⟨hhigh,hlow,ih.1⟩,rfl⟩

/-- The bytes of some digits are written as the digits, in lower case. -/
theorem toHex_hexBytes {s : List UInt8} (heven : s.length%2=0) (h : ∀ c∈s, IsHex c) :
    toHex (hexBytes s)=s.map lower := by
  induction s using hexBytes.induct with
  | case1 high low rest ih =>
    simp only [List.forall_mem_cons] at h
    simp only [List.length_cons] at heven
    have hdigits := digits_pairByte h.1 h.2.1
    rw [List.cons.injEq,List.cons.injEq] at hdigits
    rw [hexBytes,toHex_cons,ih (by omega) h.2.2,hdigits.1,hdigits.2.1,List.map_cons,List.map_cons]
  | case2 s hshort =>
    rw [eq_nil_of_short heven hshort]
    rfl

end Texts

section Cells

variable (input out : Cells UInt8)

/-- Below 2^32 characters the loop writes the text of the bytes, and nothing before it. -/
theorem toHexFrom_spec {i n : ℕ} (h : 2*(i+n) ≤ 2^32) :
    slice (toHexFrom input i n out) (2*i) (2*n)=toHex (slice input i n) ∧
    ∀ c<2*i, toHexFrom input i n out c=out c := by
  induction n generalizing i out with
  | zero => exact ⟨rfl,fun c _ => rfl⟩
  | succ n ih =>
    obtain ⟨htext,hframe⟩ := ih (store (store out (i*2%2^32) [hf_bin2hex ((input i&&&0xF0)>>>4)])
      ((i*2+1)%2^32) [hf_bin2hex (input i&&&0x0F)]) (i:=i+1) (by omega)
    have hfirst : i*2%2^32=2*i := by omega
    have hsecond : (i*2+1)%2^32=2*i+1 := by omega
    rw [hfirst,hsecond] at htext hframe
    have hhigh := hframe (2*i) (by omega)
    have hlow := hframe (2*i+1) (by omega)
    rw [store_outside (.inl (by omega))] at hhigh
    have hone : ∀ (m : Cells UInt8) (a : ℕ) (b : UInt8), store m a [b] a=b :=
      fun m a b => store_inside (i:=0) (by simp)
    rw [hone] at hhigh hlow
    have hlength : 2*(n+1)=2*n+1+1 := by omega
    have hnext : 2*i+1+1=2*(i+1) := by omega
    rw [toHexFrom,hfirst,hsecond]
    refine ⟨?_,?_⟩
    · rw [hlength,slice_succ,slice_succ,hnext,htext,hhigh,hlow,slice_succ,toHex_cons]
    · intro c hc
      rw [hframe c (by omega),store_outside (.inl (by omega)),store_outside (.inl (by omega))]

/-- `toHex` writes the text of the bytes. -/
theorem slice_toHexCells {n : UInt32} (h : 2*n.toNat ≤ 2^32) :
    slice (toHexCells input n out) 0 (2*n.toNat)=toHex (slice input 0 n.toNat) := by
  have hloop := (toHexFrom_spec input out (i:=0) (n:=n.toNat) (by omega)).1
  exact hloop

end Cells

/-- What `toHex` writes for some bytes is accepted by `fromHex` and read as the bytes. -/
def ReadBack (input : Cells UInt8) (n len : UInt32) : Prop :=
  ∀ written out, (fromHex (toHexCells input n written) len.toNat out).1=true ∧
    slice (fromHex (toHexCells input n written) len.toNat out).2 0 n.toNat=slice input 0 n.toNat

/-- `fromHex` accepts the digits of either case, and `toHex` writes what it leaves as the
digits in lower case. -/
def WrittenBack (digits : Cells UInt8) (len : UInt32) : Prop :=
  ∀ out, ((fromHex digits len.toNat out).1=true ↔ ∀ c∈slice digits 0 len.toNat, c∈hexDigits) ∧
    ((fromHex digits len.toNat out).1=true → ∀ written,
      slice (toHexCells (fromHex digits len.toNat out).2 (len/2) written) 0 len.toNat=
        (slice digits 0 len.toNat).map lower)

theorem readBack_of_double {input : Cells UInt8} {n len : UInt32} (h : len.toNat=2*n.toNat) :
    ReadBack input n len := by
  intro written out
  have hbound := len.toNat_lt
  have htext := slice_toHexCells input written (n:=n) (by omega)
  obtain ⟨hdigits,hbytes⟩ := hexBytes_toHex (slice input 0 n.toNat)
  rw [h]
  rw [←htext] at hdigits hbytes
  refine ⟨(fromHex_iff n.toNat).mpr hdigits,?_⟩
  rw [(fromHex_bytes hdigits).1,hbytes]

theorem writtenBack_of_even {digits : Cells UInt8} {len : UInt32} (h : len.toNat%2=0) :
    WrittenBack digits len := by
  intro out
  obtain ⟨n,hn⟩ : ∃ n, len.toNat=2*n := ⟨len.toNat/2,by omega⟩
  have hbound := len.toNat_lt
  have hhalf : (len/2).toNat=n := by
    rw [UInt32.toNat_div]
    change len.toNat/2=n
    omega
  have haccepted := @fromHex_iff digits out n
  rw [←hn] at haccepted
  refine ⟨?_,?_⟩
  · rw [haccepted]
    exact forall₂_congr fun c _ => isHex_iff c
  · intro hread written
    have hdigits := haccepted.mp hread
    have hlength : (slice digits 0 len.toNat).length%2=0 := by rwa [length_slice]
    have hwritten := slice_toHexCells (fromHex digits len.toNat out).2 written (n:=len/2)
      (by omega)
    rw [hhalf,←hn] at hwritten
    rw [hn] at hdigits
    have hbytes := (@fromHex_bytes _ out _ hdigits).1
    rw [←hn] at hbytes hdigits
    rw [hwritten,hbytes,toHex_hexBytes hlength hdigits]

/-- `setBlob` accepts the texts of an even number of digits that are worth 76 to 83 bytes. -/
theorem setBlob_iff (job : Job) (blob : List UInt8) :
    (job.setBlob (some blob)).1=true ↔
      blob.length%2=0 ∧ (∀ c∈blob, c∈hexDigits) ∧ 76 ≤ blob.length/2 ∧ blob.length/2 ≤ 83 := by
  have hsize : blobSize=84 := rfl
  have hslice : slice (cStringCells blob) 0 blob.length=blob := slice_store_same _ 0 blob
  have hdigits : blob.length%2=0 →
      ((fromHex (cStringCells blob) (blob.length/2*2) job.m_blob).1=true ↔
        ∀ c∈blob, c∈hexDigits) := by
    intro heven
    have hlength : 2*(blob.length/2)=blob.length := by omega
    have hiff := @fromHex_iff (cStringCells blob) job.m_blob (blob.length/2)
    rw [hlength,hslice] at hiff
    rw [Nat.mul_comm,hlength,hiff]
    exact forall₂_congr fun c _ => isHex_iff c
  constructor
  · intro h
    obtain ⟨heven,hge,hlt,hread,-⟩ := Job.setBlob_of_accepted h
    exact ⟨heven,(hdigits heven).mp hread,hge,by omega⟩
  · rintro ⟨heven,hall,hge,hle⟩
    have hread := (hdigits heven).mpr hall
    rw [Job.setBlob,if_neg (by omega)]
    dsimp only
    rw [if_neg (by omega),hread,if_neg (by decide)]

/-- Bytes are read back from their text, texts of an even length are written back from their
bytes in lower case, and blobs are accepted by their digits and their size. -/
theorem hex_coding (input digits : Cells UInt8) (n len len' : UInt32) (job : Job)
    (blob : Option (List UInt8)) :
    (len.toNat=2*n.toNat → ReadBack input n len) ∧
    (len'.toNat%2=0 → WrittenBack digits len') ∧
    ((job.setBlob blob).1=true ↔ ∃ s, blob=some s ∧ s.length%2=0 ∧ (∀ c∈s, c∈hexDigits) ∧
      76 ≤ s.length/2 ∧ s.length/2 ≤ 83) := by
  refine ⟨readBack_of_double,writtenBack_of_even,?_⟩
  cases blob with
  | none => exact iff_of_false (fun h => (nomatch h)) fun ⟨s,h,_⟩ => (nomatch h)
  | some s =>
    rw [setBlob_iff]
    constructor
    · exact fun h => ⟨s,rfl,h⟩
    · rintro ⟨s',hs,h⟩
      cases hs
      exact h

/-- Two bytes and their four digits. -/
theorem hex_coding_two :
    ReadBack (cStringCells [0xAB,0x01]) 2 4 ∧ WrittenBack (cStringCells (text "aB01")) 4 := by
  have h := hex_coding (cStringCells [0xAB,0x01]) (cStringCells (text "aB01")) 2 4 4
    (Job.new (fun _ => 0) 0 false) none
  exact ⟨h.1 (by decide),h.2.1 (by decide)⟩

end XmrigCC.HexCoding
