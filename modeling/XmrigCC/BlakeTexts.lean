import XmrigCC.Blake256

/-!
# Texts behind the states of BLAKE-256

A state keeps the chain and the counter of the complete blocks, and the bytes of the last one. The
last block of a text is completed by further updates, with the counter moved back for each.
-/

namespace XmrigCC.Blake256

open BlakeHash BlockStreams ByteWords FixedArrays

section Updates

/-- A block is counted, up to the two words of the counter. -/
theorem total_addBlock {t : FixedArray UInt32 2} {n : ℕ} (h : total t=512*n%2^64) :
    total (addBlock t)=512*(n+1)%2^64 := by
  have hlo := (t 0).toNat_lt
  have hhi := (t 1).toNat_lt
  have hblock : (512 : UInt32).toNat=512 := by decide
  have hsum : (t 0+512).toNat=((t 0).toNat+512)%2^32 := by
    have hadd := UInt32.toNat_add (t 0) 512
    rw [hblock] at hadd
    omega
  rw [total] at h
  have hnone : (0 : UInt32).toNat=0 := by decide
  by_cases hcarry : t 0+512=0
  · -- the lower word was full
    have hzero : ((t 0).toNat+512)%2^32=0 := by rw [←hsum,hcarry,hnone]
    have hadd : addBlock t=(t.set 0 (t 0+512)).set 1 (t 1+1) := by
      delta addBlock
      exact if_pos hcarry
    have hbit : (1 : UInt32).toNat=1 := by decide
    have hone := UInt32.toNat_add (t 1) 1
    rw [hbit] at hone
    rw [hadd,total,set_other _ (by decide),set_same,set_same,hone,hsum]
    omega
  · have hnonzero : ((t 0).toNat+512)%2^32 ≠ 0 := fun hc =>
      hcarry (UInt32.toNat_inj.mp (by rw [hsum,hc,hnone]))
    have hadd : addBlock t=t.set 0 (t 0+512) := by
      delta addBlock
      exact if_neg hcarry
    rw [hadd,total,set_same,set_other _ (by decide),hsum]
    omega

variable {iv : Chain} {last : UInt8} {s : Fin 4 → UInt32}

/-- A state with a number of blocks behind it. -/
structure Chained (s : Fin 4 → UInt32) (S : State) (x : ℕ×Chain) : Prop where
  /-- The salt does not change. -/
  salt : S.s.cell=s
  /-- Bits are counted. -/
  counted : S.nullt=0
  /-- The counter has the bits of the blocks. -/
  bits : total S.t=512*x.1%2^64
  /-- The chain of the blocks. -/
  chain : S.h.cell=x.2
  /-- A block fits the buffer. -/
  room : S.buf.length=64

/-- A block that is counted and compressed. -/
theorem compressed (iv : Chain) (last : UInt8) {S : State} {x : ℕ×Chain} (h : Chained s S x)
    {block : List UInt8} (hblock : 64 ≤ block.length) :
    ∃ S', blake256_compress {S with t := addBlock S.t} block=some S' ∧
      Chained s S' (fullStep (variant iv last) s x (block.take 64)) ∧ S'.buf=S.buf := by
  have hbits := total_addBlock h.bits
  have hstate : Blake256.bits S.nullt (addBlock S.t)=total (addBlock S.t) := if_pos h.counted
  have hchain : compress (variant iv last) S.s S.h (Blake256.bits S.nullt (addBlock S.t))
      (block.take 64)=(fullStep (variant iv last) s x (block.take 64)).2 := by
    rw [hstate,hbits,compress_mod,h.salt,h.chain]
    rfl
  have hcount : (fullStep (variant iv last) s x (block.take 64)).1=x.1+1 := rfl
  exact ⟨_,compress_eq iv last _ hblock,⟨h.salt,h.counted,by rw [hcount,←hbits],hchain,h.room⟩,rfl⟩

/-- The loop over blocks of the input. -/
theorem compressBlocks_eq (iv : Chain) (last : UInt8) {S : State} {x : ℕ×Chain}
    (h : Chained s S x) {n : ℕ} {data : List UInt8} (hdata : 64*n ≤ data.length) :
    ∃ S', compressBlocks n S data=some (S',data.drop (64*n)) ∧
      Chained s S' (absorb (fullStep (variant iv last) s) 64 x (data.take (64*n))) ∧
        S'.buf=S.buf := by
  induction n generalizing S x data with
  | zero => exact ⟨S,rfl,by rwa [Nat.mul_zero,List.take_zero,absorb_nil],rfl⟩
  | succ n ih =>
    have hblock : (data.take 64).length=64 := by rw [List.length_take]; omega
    have hrest : 64*n ≤ (data.drop 64).length := by
      rw [List.length_drop]
      omega
    have hroom : 64 ≤ data.length := by omega
    obtain ⟨S1,hrun,hchained,hbuf⟩ := compressed iv last h hroom
    obtain ⟨S',hloop,hchained',hbuf'⟩ := ih hchained hrest
    have hsplit : data.take (64*(n+1))=data.take 64++(data.drop 64).take (64*n) := by
      rw [Nat.mul_succ,Nat.add_comm,List.take_add]
    refine ⟨S',?_,?_,hbuf'.trans hbuf⟩
    · rw [compressBlocks,hrun]
      change compressBlocks n S1 (data.drop 64)=_
      rw [hloop,List.drop_drop,Nat.mul_succ,Nat.add_comm 64]
    · rwa [hsplit,absorb_append (by rw [hblock]),absorb_block (by decide) hblock]

theorem bytes_of_bits (w : ℕ) : (8*w)>>>3=w := by rw [Nat.shiftRight_eq_div_pow]; omega

theorem bits_of_bytes (w : ℕ) : w<<<3=8*w := by rw [Nat.shiftLeft_eq]; omega

/-- Whole bytes as the number of their bits. -/
theorem toNat_bits {k : ℕ} (h : 8*k<2^64) : (UInt64.ofNat (8*k)).toNat=8*k :=
  UInt64.toNat_ofNat_of_lt' h

/-- What the comparison with the free bytes takes from the number of bits. -/
theorem masked {k : ℕ} (h : 8*k<2^64) : ((UInt64.ofNat (8*k)>>>3)&&&0x3F).toNat=k%64 := by
  have hthree : (3 : UInt64).toNat%64=3 := by decide
  have hmask : (0x3F : UInt64).toNat=2^6-1 := by decide
  rw [UInt64.toNat_and,UInt64.toNat_shiftRight,toNat_bits h,hthree,bytes_of_bits,hmask,
    Nat.and_two_pow_sub_one_eq_mod]

/-- An update that does not complete the block. -/
theorem update_wait {S : State} {w k : ℕ} (data : List UInt8) (hbuflen : S.buflen=8*w)
    (hroom : S.buf.length=64) (hk : 0<k) (hwk : w+k<64) (hdata : k ≤ data.length) :
    ∃ S', blake256_update S data (UInt64.ofNat (8*k))=some S' ∧ S'.h=S.h ∧ S'.s=S.s ∧ S'.t=S.t ∧
      S'.nullt=S.nullt ∧ S'.buflen=8*(w+k) ∧ S'.buf.length=64 ∧
      S'.buf.take (w+k)=S.buf.take w++data.take k := by
  obtain ⟨buf,hcopy,hlength,htake,-⟩ := copyInto_eq S.buf data w k (by omega) hdata
  have hbits : 8*k<2^64 := by omega
  have hguard : ¬(w ≠ 0 ∧ 64-w ≤ ((UInt64.ofNat (8*k)>>>3)&&&0x3F).toNat) := by
    rw [masked hbits]
    omega
  have hcount : 8*k/512=0 := by omega
  have hrest : 8*k%512=8*k := by omega
  rw [blake256_update,hbuflen,bytes_of_bits,if_neg hguard]
  simp only [updateBlocks,Option.bind_eq_bind,Option.pure_def,Option.bind_some,toNat_bits hbits,
    hcount,hrest,compressBlocks,bytes_of_bits,hcopy]
  rw [if_pos (by omega),bits_of_bytes,←Nat.mul_add]
  exact ⟨_,rfl,rfl,rfl,rfl,rfl,rfl,hlength.trans hroom,htake⟩

/-- An update that completes the block and has no bytes left. -/
theorem update_complete (iv : Chain) (last : UInt8) {S : State} {w k : ℕ} (data : List UInt8)
    (hbuflen : S.buflen=8*w) (hroom : S.buf.length=64) (hw : 0<w) (hk : 0<k) (hwk : w+k=64)
    (hdata : k ≤ data.length) :
    ∃ S', blake256_update S data (UInt64.ofNat (8*k))=some S' ∧
      S'.h.cell=compress (variant iv last) S.s S.h (Blake256.bits S.nullt (addBlock S.t))
        (S.buf.take w++data.take k) ∧ S'.s=S.s ∧ S'.t=addBlock S.t ∧ S'.nullt=S.nullt ∧
      S'.buflen=0 ∧ S'.buf.length=64 := by
  have hcopy := copyInto_full S.buf data w k (by omega) hdata
  have hlength : (S.buf.take w++data.take k).length=64 := by
    rw [List.length_append,List.length_take,List.length_take]
    omega
  have hbits : 8*k<2^64 := by omega
  have hguard : w ≠ 0 ∧ 64-w ≤ ((UInt64.ofNat (8*k)>>>3)&&&0x3F).toNat := by
    rw [masked hbits]
    omega
  have hleft : UInt64.ofNat (8*k)-UInt64.ofNat ((64-w)<<<3)=0 := by
    have hfill : (64-w)<<<3=8*k := by rw [bits_of_bytes]; omega
    rw [hfill,UInt64.sub_self]
  have hrun := compress_eq iv last
    {S with buf := S.buf.take w++data.take k,t := addBlock S.t} hlength.ge
  rw [List.take_of_length_le hlength.le] at hrun
  have hfill : 64-w=k := by omega
  have hnone : (0 : UInt64).toNat=0 := by decide
  have hshift : S.buflen>>>3=w := by rw [hbuflen,bytes_of_bits]
  have hzero : 0/512=0 := Nat.zero_div 512
  rw [blake256_update,hshift]
  rw [if_pos hguard,hleft,hfill,hcopy]
  simp only [updateBlocks,Option.bind_eq_bind,Option.pure_def,Option.bind_some,hrun,hnone,hzero,
    compressBlocks,Nat.zero_mod,lt_self_iff_false,if_false]
  exact ⟨_,rfl,rfl,rfl,rfl,rfl,rfl,hlength⟩

/-- What follows the block that an update completes. -/
theorem updateBlocks_eq (iv : Chain) (last : UInt8) {S : State} {x : ℕ×Chain}
    (h : Chained s S x) {w k : ℕ} {data : List UInt8} (hk : 8*k<2^64) (hdata : k ≤ data.length)
    (hw : w+k%64<64) :
    ∃ S', updateBlocks S data (UInt64.ofNat (8*k)) w=some S' ∧
      Chained s S' (absorb (fullStep (variant iv last) s) 64 x (data.take (k-k%64))) ∧
      S'.buflen=(if k%64=0 then 0 else 8*(w+k%64)) ∧
      (k%64 ≠ 0 → S'.buf.take (w+k%64)=S.buf.take w++(data.take k).drop (k-k%64)) := by
  have hwhole : 64*(k/64)=k-k%64 := by omega
  have hcount : 8*k/512=k/64 := by omega
  have hrest : 8*k%512=8*(k%64) := by omega
  have hblocks : 64*(k/64) ≤ data.length := by omega
  obtain ⟨S1,hloop,hchained,hbuf⟩ := compressBlocks_eq iv last h hblocks
  rw [hwhole] at hloop hchained
  have hbytes : (data.drop (k-k%64)).take (k%64)=(data.take k).drop (k-k%64) := by
    rw [List.drop_take]
    congr 1
    omega
  rw [updateBlocks,toNat_bits hk,hcount,hrest,hloop]
  simp only [Option.bind_eq_bind,Option.bind_some,bytes_of_bits]
  by_cases hzero : k%64=0
  · rw [if_neg (by omega),if_pos hzero]
    exact ⟨_,rfl,⟨hchained.salt,hchained.counted,hchained.bits,hchained.chain,hchained.room⟩,
      rfl,fun hc => absurd hzero hc⟩
  · obtain ⟨buf,hcopy,hlength,htake,-⟩ := copyInto_eq S1.buf (data.drop (k-k%64)) w (k%64)
      (by rw [hchained.room]; omega) (by rw [List.length_drop]; omega)
    rw [if_pos (by omega),hcopy,bits_of_bytes,←Nat.mul_add]
    refine ⟨_,rfl,⟨hchained.salt,hchained.counted,hchained.bits,hchained.chain,
      hlength.trans hchained.room⟩,(if_neg hzero).symm,fun _ => ?_⟩
    rw [htake,hbuf,hbytes]

end Updates

section Texts

variable {iv : Chain} {last : UInt8} {s : Fin 4 → UInt32}

/-- A state stands for a text: the chain and the counter for its blocks, the buffer for the rest. -/
def Digests (iv : Chain) (last : UInt8) (s : Fin 4 → UInt32) (S : State) (text : List UInt8) :
    Prop :=
  ∃ x waiting, Chained s S x ∧ Holds (fullStep (variant iv last) s) 64 (0,iv) text x waiting ∧
    waiting.length<64 ∧ S.buflen=8*waiting.length ∧ S.buf.take waiting.length=waiting

/-- The text that a state stands for after an update. When bytes wait and those behind the last
block of the input do not complete their block, the blocks of the input come in front of the bytes
that wait, and without bytes behind the last block those are lost. -/
def received (text data : List UInt8) : List UInt8 :=
  let w := text.length%64
  let k := data.length
  if w=0 ∨ 64-w ≤ k%64 then text++data
  else text.take (text.length-w)++data.take (k-k%64)++
    if k%64=0 then [] else text.drop (text.length-w)++data.drop (k-k%64)

/-- An update without bytes that wait. -/
theorem updateBlocks_digests {S : State} {x : ℕ×Chain} {text : List UInt8} (h : Chained s S x)
    (hholds : Holds (fullStep (variant iv last) s) 64 (0,iv) text x []) {k : ℕ}
    (data : List UInt8) (hk : 8*k<2^64) (hdata : k ≤ data.length) :
    ∃ S', updateBlocks S data (UInt64.ofNat (8*k)) 0=some S' ∧
      Digests iv last s S' (text++data.take k) := by
  obtain ⟨S',hrun,hchained,hbuflen,hbuf⟩ := updateBlocks_eq iv last h (w:=0) hk hdata (by omega)
  have hrest : ((data.take k).drop (k-k%64)).length=k%64 := by
    rw [List.length_drop,List.length_take]
    omega
  have hwhole : (data.take (k-k%64)).length=k-k%64 := by rw [List.length_take]; omega
  have hsplit : []++data.take k=data.take (k-k%64)++(data.take k).drop (k-k%64) := by
    have htake := List.take_append_drop (k-k%64) (data.take k)
    rw [List.take_take,Nat.min_eq_left (by omega)] at htake
    exact htake.symm
  have hwait := hholds.wait (data.take k)
  rw [hsplit] at hwait
  refine ⟨S',hrun,_,_,hchained,hwait.absorb (by rw [hwhole]; omega),by omega,?_,?_⟩
  · rw [hbuflen,hrest]
    split <;> omega
  · rw [hrest]
    by_cases hzero : k%64=0
    · rw [List.eq_nil_of_length_eq_zero (hrest.trans hzero),hzero,List.take_zero]
    · have htake := hbuf hzero
      rw [List.take_zero,Nat.zero_add,List.nil_append] at htake
      exact htake

/-- What a state stands for after an update. -/
theorem update_digests {S : State} {text : List UInt8} (h : Digests iv last s S text) {k : ℕ}
    {data : List UInt8} (hk : 8*k<2^64) (hdata : k ≤ data.length) :
    ∃ S', blake256_update S data (UInt64.ofNat (8*k))=some S' ∧
      Digests iv last s S' (received text (data.take k)) := by
  obtain ⟨x,waiting,hchained,hholds,hlt,hbuflen,hbuf⟩ := h
  have hlength := hholds.length_waiting hlt
  have htaken : (data.take k).length=k := by rw [List.length_take]; omega
  have hshift : S.buflen>>>3=text.length%64 := by rw [hbuflen,bytes_of_bits,hlength]
  have hwaiting := hholds.waiting_eq hlt
  rw [blake256_update,hshift,received,htaken]
  rw [masked hk]
  by_cases hnone : text.length%64=0
  · -- nothing waits
    rw [if_neg fun hc => hc.1 hnone,if_pos (.inl hnone),hnone]
    have hnil : waiting=[] := List.eq_nil_of_length_eq_zero (hlength.trans hnone)
    exact updateBlocks_digests hchained (hnil ▸ hholds) data hk hdata
  by_cases hfill : 64-text.length%64 ≤ k%64
  · -- the block is completed first
    rw [if_pos ⟨hnone,hfill⟩,if_pos (.inr hfill)]
    generalize hf : 64-text.length%64=f at hfill
    have hcopy := copyInto_full S.buf data (text.length%64) f
      (by rw [hchained.room]; omega) (by omega)
    have hblock : (S.buf.take (text.length%64)++data.take f)=waiting++data.take f := by
      rw [←hlength,hbuf]
    have hsize : (waiting++data.take f).length=64 := by
      rw [List.length_append,List.length_take]
      omega
    have hfilled : Chained s {S with buf := waiting++data.take f} x :=
      ⟨hchained.salt,hchained.counted,hchained.bits,hchained.chain,hsize⟩
    obtain ⟨S1,hrun,hchained1,-⟩ := compressed iv last hfilled hsize.ge
    have hall : (waiting++data.take f).take 64=waiting++data.take f :=
      List.take_of_length_le hsize.le
    have hempty := (hholds.wait (data.take f))
    rw [←List.append_nil (waiting++data.take f)] at hempty
    have hholds1 := hempty.process (by decide) hsize
    rw [hall] at hchained1
    have hleft : UInt64.ofNat (8*k)-UInt64.ofNat (f<<<3)=UInt64.ofNat (8*(k-f)) := by
      rw [bits_of_bytes,Nat.mul_sub,UInt64.ofNat_sub (by omega)]
    obtain ⟨S',hrest,hdigests⟩ := updateBlocks_digests hchained1 hholds1 (k:=k-f)
      (data.drop f) (by omega) (by rw [List.length_drop]; omega)
    refine ⟨S',?_,?_⟩
    · rw [hcopy,hblock]
      simp only [Option.bind_eq_bind,Option.bind_some]
      rw [hrun,hleft]
      exact hrest
    · have htext : text++data.take f++(data.drop f).take (k-f)=text++data.take k := by
        rw [List.append_assoc,←List.take_add,Nat.add_sub_cancel' (by omega)]
      rwa [htext] at hdigests
  · -- the bytes stay in the buffer
    rw [if_neg fun hc => hfill hc.2,if_neg (not_or.mpr ⟨hnone,hfill⟩)]
    obtain ⟨S',hrun,hchained',hbuflen',hbuf'⟩ := updateBlocks_eq iv last hchained
      (w:=text.length%64) hk hdata (by omega)
    obtain ⟨whole,htext,hwhole,hx⟩ := hholds
    have hcut : text.length-text.length%64=whole.length := by
      rw [←hlength,htext,List.length_append,Nat.add_sub_cancel]
    have htake : text.take (text.length-text.length%64)=whole := by
      rw [hcut,htext,List.take_left]
    have hfirst : (data.take k).take (k-k%64)=data.take (k-k%64) := by
      rw [List.take_take,Nat.min_eq_left (by omega)]
    have hfirstLength : (data.take (k-k%64)).length=k-k%64 := by rw [List.length_take]; omega
    have hrest : ((data.take k).drop (k-k%64)).length=k%64 := by
      rw [List.length_drop,List.length_take]
      omega
    rw [htake,←hwaiting,hfirst]
    refine ⟨S',hrun,_,if k%64=0 then [] else waiting++(data.take k).drop (k-k%64),hchained',
      ⟨whole++data.take (k-k%64),rfl,?_,?_⟩,?_,?_,?_⟩
    · rw [List.length_append,hfirstLength,Nat.add_mod,hwhole]
      omega
    · rw [absorb_append hwhole,hx]
    · split
      · exact Nat.zero_lt_succ _
      · rw [List.length_append,hrest]
        omega
    · rw [hbuflen']
      split
      · rfl
      · rw [List.length_append,hrest,hlength]
    · by_cases hzero : k%64=0
      · rw [if_pos hzero]
        rfl
      · rw [if_neg hzero,List.length_append,hrest,hlength,hbuf' hzero,←hlength,hbuf]

end Texts

section Final

variable {iv : Chain} {last : UInt8} {s : Fin 4 → UInt32}

/-- A word as bytes, the highest first. -/
theorem U32TO8_eq (v : UInt32) : U32TO8 v=(bytesOf 4 v.toNat).reverse := by
  have hbyte : ∀ n : UInt32, n.toNat<32 → (v>>>n).toUInt8=UInt8.ofNat (v.toNat/2^n.toNat) := by
    intro n hn
    apply UInt8.toNat_inj.mp
    rw [UInt32.toNat_toUInt8,UInt32.toNat_shiftRight,Nat.mod_eq_of_lt hn,
      Nat.shiftRight_eq_div_pow,UInt8.toNat_ofNat']
  have hlast : v.toUInt8=UInt8.ofNat v.toNat := by
    apply UInt8.toNat_inj.mp
    rw [UInt32.toNat_toUInt8,UInt8.toNat_ofNat']
  have hshift : ∀ n k : ℕ, v.toNat/n/k=v.toNat/(n*k) := fun n k => Nat.div_div_eq_div_mul _ _ _
  rw [U32TO8,hbyte 24 (by decide),hbyte 16 (by decide),hbyte 8 (by decide),hlast]
  simp only [bytesOf,hshift]
  rfl

/-- The bytes of a digest. -/
theorem digest_eq (h : FixedArray UInt32 8) : h.toList.flatMap U32TO8=digest h := by
  have hlist : h.toList=(List.finRange 8).map h.cell := List.ofFn_eq_map
  rw [hlist,List.flatMap_map,digest]
  exact congrArg (List.flatMap · (List.finRange 8)) (funext fun i => U32TO8_eq (h i))

/-- A counter that was moved back counts the bits of an incomplete block. -/
theorem total_back {t t' : FixedArray UInt32 2} {n a b : ℕ} (h : total t=512*n%2^64)
    (hlo : t' 0=t 0-UInt32.ofNat a) (hhi : t' 1=t 1) (hab : a+b=512) (ha : 0<a) (hb : 0<b) :
    total (addBlock t')=512*n%2^64+b := by
  have hlt := (t 0).toNat_lt
  have hlt' := (t 1).toNat_lt
  rw [total] at h
  have hsum : t' 0+512=t 0+UInt32.ofNat b := by
    have hblock : (512 : UInt32)=UInt32.ofNat a+UInt32.ofNat b := by
      rw [←UInt32.ofNat_add,hab]
      rfl
    rw [hlo,hblock,←UInt32.add_assoc,UInt32.sub_add_cancel]
  have hb' : (UInt32.ofNat b).toNat=b := UInt32.toNat_ofNat_of_lt' (by rw [UInt32.size]; omega)
  have hvalue : (t 0+UInt32.ofNat b).toNat=(t 0).toNat+b := by
    have hadd := UInt32.toNat_add (t 0) (UInt32.ofNat b)
    rw [hb'] at hadd
    omega
  have hnone : (0 : UInt32).toNat=0 := by decide
  have hcarry : ¬t' 0+512=0 := by
    rw [hsum]
    intro hc
    have hzero := congrArg UInt32.toNat hc
    rw [hvalue,hnone] at hzero
    omega
  have hadd : addBlock t'=t'.set 0 (t' 0+512) := by
    delta addBlock
    exact if_neg hcarry
  rw [hadd,total,set_same,set_other _ (by decide),hsum,hvalue,hhi]
  omega

/-- The length that is put behind a text. -/
theorem msglen_eq {t : FixedArray UInt32 2} {n w : ℕ} (h : total t=512*n%2^64) (hw : w<64) :
    (let lo := t 0+UInt32.ofNat (8*w)
    let hi := if lo.toNat<8*w then t 1+1 else t 1
    U32TO8 hi++U32TO8 lo)=(bytesOf 8 (8*(64*n+w))).reverse := by
  have hlt := (t 0).toNat_lt
  have hlt' := (t 1).toNat_lt
  rw [total] at h
  have hw' : (UInt32.ofNat (8*w)).toNat=8*w :=
    UInt32.toNat_ofNat_of_lt' (by rw [UInt32.size]; omega)
  have hvalue : (t 0+UInt32.ofNat (8*w)).toNat=(t 0).toNat+8*w := by
    have hadd := UInt32.toNat_add (t 0) (UInt32.ofNat (8*w))
    rw [hw'] at hadd
    omega
  have hsplit : bytesOf 8 (8*(64*n+w))=bytesOf 4 ((t 0).toNat+8*w)++bytesOf 4 (t 1).toNat := by
    have hmod : 8*(64*n+w)%256^8=(t 0).toNat+8*w+256^4*(t 1).toNat := by omega
    have hlow : ((t 0).toNat+8*w+256^4*(t 1).toNat)%256^4=(t 0).toNat+8*w := by omega
    have hhigh : ((t 0).toNat+8*w+256^4*(t 1).toNat)/256^4=(t 1).toNat := by omega
    rw [←bytesOf_mod 8,hmod,bytesOf_add 4 4,hhigh,←bytesOf_mod 4,hlow]
  dsimp only
  rw [if_neg (by omega),U32TO8_eq,U32TO8_eq,hvalue,hsplit,List.reverse_append]

/-- The blocks behind a state, and the bits of its text. -/
theorem length_holds {text waiting : List UInt8} {x : ℕ×Chain}
    (h : Holds (fullStep (variant iv last) s) 64 (0,iv) text x waiting) :
    text.length=64*x.1+waiting.length := by
  obtain ⟨whole,htext,hwhole,hx⟩ := h
  have hcount := congrArg Prod.fst hx
  rw [fullStep_count] at hcount
  rw [htext,List.length_append,hcount]
  omega

theorem sub_sub_word (a b c : UInt32) : a-b-c=a-(b+c) := by grind

theorem length_counted (n : ℕ) : (bytesOf 8 n).reverse.length=8 := by
  rw [List.length_reverse,length_bytesOf]

/-- The block that `blake256_final_h` completes at last: eight bytes of the length behind 56. -/
theorem length_update (iv : Chain) (last : UInt8) {S : State} (hbuflen : S.buflen=448)
    (hroom : S.buf.length=64) {msglen : List UInt8} (hmsglen : msglen.length=8) :
    ∃ S', blake256_update (S.back 64) msglen 64=some S' ∧
      S'.h.cell=compress (variant iv last) S.s S.h
        (Blake256.bits S.nullt (addBlock (S.back 64).t)) (S.buf.take 56++msglen) := by
  obtain ⟨S',hrun,hchain,-⟩ := update_complete iv last (S:=S.back 64) (w:=56) (k:=8)
    msglen hbuflen hroom (by decide) (by decide) rfl hmsglen.ge
  rw [List.take_of_length_le hmsglen.le] at hchain
  exact ⟨S',hrun,hchain⟩

/-- A text with one byte free in front of the length. -/
theorem final_full {S : State} {text : List UInt8} {x : ℕ×Chain} {waiting : List UInt8}
    (hchained : Chained s S x)
    (hholds : Holds (fullStep (variant iv last) s) 64 (0,iv) text x waiting)
    (hlength : waiting.length=55) (hbuflen : S.buflen=440) (hbuf : S.buf.take 55=waiting) :
    blake256_final_h S (0x80|||last) last=some (digest (chain (variant iv last) s text)) := by
  have htext := length_holds hholds
  have hmsglen := msglen_eq hchained.bits (w:=55) (by decide)
  have hmarks : marks (variant iv last) text.length=[0x80|||last] := by
    rw [marks,if_pos (by omega)]
    rfl
  obtain ⟨S1,hrun1,hh1,hs1,ht1,hnullt1,hbuflen1,hroom1,hbuf1⟩ := update_wait (S:=S.back 8) (w:=55)
    (k:=1) [0x80|||last] hbuflen hchained.room (by decide) (by decide) (Nat.le_refl 1)
  obtain ⟨S2,hrun2,hchain2⟩ := length_update iv last hbuflen1 hroom1
    (length_counted (8*(64*x.1+55)))
  have htotal : total (addBlock (S1.back 64).t)=512*x.1%2^64+440 := by
    refine total_back hchained.bits (a:=72) ?_ ?_ rfl (by decide) (by decide)
    · rw [State.back,set_same,ht1,State.back,set_same]
      exact sub_sub_word (S.t 0) 8 64
    · rw [State.back,set_other _ (by decide),ht1,State.back,set_other _ (by decide)]
  have hbits : (512*x.1%2^64+440)%2^64=8*text.length%2^64 := by omega
  have hblock : S1.buf.take 56++(bytesOf 8 (8*(64*x.1+55))).reverse=
      waiting++padding (variant iv last) text.length := by
    have hfirst : S1.buf.take 56=waiting++[0x80|||last] := by
      rw [←hbuf]
      exact hbuf1
    rw [hfirst,padding,hmarks,List.append_assoc,htext,hlength]
  have hnonempty : waiting ≠ [] := fun hc => by rw [hc] at hlength; cases hlength
  rw [chain_holds hholds (by omega)]
  dsimp only
  rw [if_pos (by omega),if_neg hnonempty,←compress_mod,←hbits,compress_mod,←hblock]
  have hchain : S2.h.cell=compress (variant iv last) s x.2 (512*x.1%2^64+440)
      (S1.buf.take 56++(bytesOf 8 (8*(64*x.1+55))).reverse) := by
    have hcounted : S1.nullt=0 := hnullt1.trans hchained.counted
    rw [hchain2,hs1,hh1,Blake256.bits,if_pos hcounted,htotal,←hchained.salt,←hchained.chain]
    rfl
  rw [blake256_final_h,hbuflen]
  dsimp only at hmsglen ⊢
  rw [hmsglen,if_pos rfl]
  simp only [Option.bind_eq_bind]
  have hrun1' : blake256_update (S.back 8) [0x80|||last] 8=some S1 := hrun1
  rw [hrun1',Option.bind_some,hrun2,Option.bind_some,digest_eq,hchain]
  rfl

theorem paddingBytes_take {k : ℕ} (h : 0<k) (hk : k ≤ 64) :
    paddingBytes.take k=0x80::List.replicate (k-1) 0 := by
  obtain ⟨j,rfl⟩ := Nat.exists_eq_succ_of_ne_zero h.ne'
  rw [paddingBytes,List.take_succ_cons,List.take_replicate,Nat.min_eq_left (by omega)]
  rfl

/-- A text with room for the padding in its last block. -/
theorem final_fits {S : State} {text : List UInt8} {x : ℕ×Chain} {waiting : List UInt8}
    (hchained : Chained s S x)
    (hholds : Holds (fullStep (variant iv last) s) 64 (0,iv) text x waiting)
    (hlength : waiting.length<55) (hbuflen : S.buflen=8*waiting.length)
    (hbuf : S.buf.take waiting.length=waiting) :
    blake256_final_h S (0x80|||last) last=some (digest (chain (variant iv last) s text)) := by
  have htext := length_holds hholds
  have hmsglen := msglen_eq hchained.bits (w:=waiting.length) (by omega)
  have hmarks : marks (variant iv last) text.length=
      0x80::(List.replicate (54-waiting.length) 0++[last]) := by
    have hcount : (119-text.length%64)%64=55-waiting.length := by omega
    have hzeros : 55-waiting.length-1=54-waiting.length := by omega
    rw [marks,hcount,if_neg (by omega),hzeros]
    rfl
  -- no bit of the text is in the last block when nothing waits
  obtain ⟨S0,hS0,hh0,hs0,ht0,hbuflen0,hbuf0,hnullt0⟩ : ∃ S0,
      (if S.buflen=0 then {S with nullt := 1} else S)=S0 ∧ S0.h=S.h ∧ S0.s=S.s ∧ S0.t=S.t ∧
        S0.buflen=S.buflen ∧ S0.buf=S.buf ∧ S0.nullt=if waiting=[] then 1 else 0 := by
    by_cases hnil : waiting=[]
    · rw [if_pos hnil,if_pos (by rw [hbuflen,hnil]; rfl)]
      exact ⟨_,rfl,rfl,rfl,rfl,rfl,rfl,rfl⟩
    · have hpos := List.length_pos_of_ne_nil hnil
      rw [if_neg hnil,if_neg (by omega)]
      exact ⟨_,rfl,rfl,rfl,rfl,rfl,rfl,hchained.counted⟩
  have hroom0 : (S0.back (440-S0.buflen)).buf.length=64 := by
    rw [State.back,hbuf0,hchained.room]
  obtain ⟨S1,hrun1,hh1,hs1,ht1,hnullt1,hbuflen1,hroom1,hbuf1⟩ := update_wait
    (S:=S0.back (440-S0.buflen)) (w:=waiting.length) (k:=55-waiting.length) paddingBytes
    (hbuflen0.trans hbuflen) hroom0 (by omega) (by omega)
    (by rw [paddingBytes,List.length_cons,List.length_replicate]; omega)
  have hsum : waiting.length+(55-waiting.length)=55 := by omega
  rw [hsum] at hbuflen1 hbuf1
  obtain ⟨S2,hrun2,hh2,hs2,ht2,hnullt2,hbuflen2,hroom2,hbuf2⟩ := update_wait (S:=S1) (w:=55)
    (k:=1) [last] hbuflen1 hroom1 (by decide) (by decide) (Nat.le_refl 1)
  obtain ⟨S3,hrun3,hchain3⟩ := length_update iv last (S:=S2.back 8) hbuflen2 hroom2
    (length_counted (8*(64*x.1+waiting.length)))
  have hblock : S2.buf.take 56++(bytesOf 8 (8*(64*x.1+waiting.length))).reverse=
      waiting++padding (variant iv last) text.length := by
    have hfirst : S2.buf.take 56=
        waiting++(0x80::(List.replicate (54-waiting.length) 0++[last])) := by
      have hpadding := paddingBytes_take (k:=55-waiting.length) (by omega) (by omega)
      have hcount : 55-waiting.length-1=54-waiting.length := by omega
      have hback : (S0.back (440-S0.buflen)).buf=S.buf := hbuf0
      rw [hpadding,hcount,hback,hbuf] at hbuf1
      refine hbuf2.trans ?_
      rw [hbuf1,List.append_assoc,List.cons_append]
      rfl
    rw [hfirst,padding,hmarks,List.append_assoc,htext]
  have hbits : Blake256.bits S2.nullt (addBlock ((S2.back 8).back 64).t)%2^64=
      (if waiting=[] then 0 else 8*text.length)%2^64 := by
    have hnullt : S2.nullt=if waiting=[] then 1 else 0 := hnullt2.trans (hnullt1.trans hnullt0)
    rw [Blake256.bits,hnullt]
    by_cases hnil : waiting=[]
    · rw [if_pos hnil,if_pos hnil,if_neg (by decide)]
    · have hpos := List.length_pos_of_ne_nil hnil
      have htotal : total (addBlock ((S2.back 8).back 64).t)=
          512*x.1%2^64+8*waiting.length := by
        refine total_back hchained.bits (a:=440-8*waiting.length+72) ?_ ?_ (by omega) (by omega)
          (by omega)
        · rw [State.back,set_same,State.back,set_same,ht2,ht1,State.back,set_same,ht0,hbuflen0,
            hbuflen,UInt32.ofNat_add,←sub_sub_word]
          exact sub_sub_word _ 8 64
        · rw [State.back,set_other _ (by decide),State.back,set_other _ (by decide),ht2,ht1,
            State.back,set_other _ (by decide),ht0]
      rw [if_neg hnil,if_neg hnil,if_pos rfl,htotal]
      omega
  rw [chain_holds hholds (by omega)]
  dsimp only
  rw [if_pos (by omega),←compress_mod,←hbits,compress_mod,←hblock]
  have hchain : S3.h.cell=compress (variant iv last) s x.2
      (Blake256.bits S2.nullt (addBlock ((S2.back 8).back 64).t))
      (S2.buf.take 56++(bytesOf 8 (8*(64*x.1+waiting.length))).reverse) := by
    have hh : (S2.back 8).h=S.h := hh2.trans (hh1.trans hh0)
    have hs : (S2.back 8).s=S.s := hs2.trans (hs1.trans hs0)
    rw [hchain3,hs,hh,hchained.salt,hchained.chain]
    rfl
  have hleft : 440-8*waiting.length=8*(55-waiting.length) := by omega
  rw [hbuflen0,hbuflen,hleft] at hrun1
  rw [blake256_final_h,hS0]
  dsimp only at hmsglen ⊢
  rw [hbuflen0,hbuflen,hleft,hmsglen,if_neg (by omega),if_pos (by omega)]
  simp only [Option.bind_eq_bind,Option.pure_def]
  have hrun2' : blake256_update S1 [last] 8=some S2 := hrun2
  rw [hrun1,Option.bind_some,hrun2',Option.bind_some,Option.bind_some,hrun3,Option.bind_some,
    digest_eq,hchain]

/-- A text whose padding takes another block. -/
theorem final_overflows {S : State} {text : List UInt8} {x : ℕ×Chain} {waiting : List UInt8}
    (hchained : Chained s S x)
    (hholds : Holds (fullStep (variant iv last) s) 64 (0,iv) text x waiting)
    (hlength : 55<waiting.length) (hlt : waiting.length<64) (hbuflen : S.buflen=8*waiting.length)
    (hbuf : S.buf.take waiting.length=waiting) :
    blake256_final_h S (0x80|||last) last=some (digest (chain (variant iv last) s text)) := by
  have htext := length_holds hholds
  have hmsglen := msglen_eq hchained.bits (w:=waiting.length) hlt
  have hmarks : marks (variant iv last) text.length=
      0x80::(List.replicate (118-waiting.length) 0++[last]) := by
    have hcount : (119-text.length%64)%64=119-waiting.length := by omega
    have hzeros : 119-waiting.length-1=118-waiting.length := by omega
    rw [marks,hcount,if_neg (by omega),hzeros]
    rfl
  have hpaddingLength : paddingBytes.length=64 := by
    rw [paddingBytes,List.length_cons,List.length_replicate]
  -- the block is completed
  obtain ⟨S1,hrun1,hchain1,hs1,ht1,-,hbuflen1,hroom1⟩ := update_complete iv last
    (S:=S.back (512-S.buflen)) (w:=waiting.length) (k:=64-waiting.length) paddingBytes
    hbuflen hchained.room (by omega) (by omega) (by omega) (by omega)
  -- the next one has no bits of the text
  obtain ⟨S2,hrun2,hh2,hs2,-,-,hbuflen2,hroom2,hbuf2⟩ := update_wait (S:=S1.back 440) (w:=0)
    (k:=55) (paddingBytes.drop 1) hbuflen1 hroom1 (by decide) (by decide)
    (by rw [List.length_drop,hpaddingLength]; decide)
  obtain ⟨S3,hrun3,hh3,hs3,-,hnullt3,hbuflen3,hroom3,hbuf3⟩ := update_wait
    (S:={S2 with nullt := 1}) (w:=55) (k:=1) [last] hbuflen2 hroom2 (by decide)
    (by decide) (Nat.le_refl 1)
  obtain ⟨S4,hrun4,hchain4⟩ := length_update iv last (S:=S3.back 8) hbuflen3 hroom3
    (length_counted (8*(64*x.1+waiting.length)))
  have htotal : Blake256.bits (S.back (512-S.buflen)).nullt
      (addBlock (S.back (512-S.buflen)).t)=512*x.1%2^64+8*waiting.length := by
    have hcounted : (S.back (512-S.buflen)).nullt=0 := hchained.counted
    rw [Blake256.bits,if_pos hcounted]
    refine total_back hchained.bits (a:=512-S.buflen) ?_ ?_ (by omega) (by omega) (by omega)
    · rw [State.back,set_same]
    · rw [State.back,set_other _ (by decide)]
  have hbits : (512*x.1%2^64+8*waiting.length)%2^64=8*text.length%2^64 := by omega
  have hnone : Blake256.bits (S3.back 8).nullt (addBlock ((S3.back 8).back 64).t)=0 := by
    have hnullt : (S3.back 8).nullt=1 := hnullt3
    rw [Blake256.bits,hnullt,if_neg (by decide)]
  have hfront : (S.back (512-S.buflen)).buf.take waiting.length++
      paddingBytes.take (64-waiting.length)=
      waiting++0x80::List.replicate (63-waiting.length) 0 := by
    have hcount : 64-waiting.length-1=63-waiting.length := by omega
    have hback : (S.back (512-S.buflen)).buf=S.buf := rfl
    rw [hback,hbuf,paddingBytes_take (by omega) (by omega),hcount]
  have hfrontLength : (waiting++0x80::List.replicate (63-waiting.length) 0).length=64 := by
    rw [List.length_append,List.length_cons,List.length_replicate]
    omega
  have hlast : (S3.back 8).buf.take 56=List.replicate 55 0++[last] := by
    refine hbuf3.trans ?_
    change S2.buf.take 55++[last]=_
    exact congrArg (·++[last]) (hbuf2.trans rfl)
  have hpadded : waiting++padding (variant iv last) text.length=
      (waiting++0x80::List.replicate (63-waiting.length) 0)++
        ((S3.back 8).buf.take 56++(bytesOf 8 (8*(64*x.1+waiting.length))).reverse) := by
    have hzeros : List.replicate (118-waiting.length) (0 : UInt8)=
        List.replicate (63-waiting.length) 0++List.replicate 55 0 := by
      rw [List.replicate_append_replicate]
      congr 1
      omega
    rw [padding,hmarks,hzeros,hlast,htext]
    simp only [List.append_assoc,List.cons_append]
  have hchain : S4.h.cell=compress (variant iv last) s (compress (variant iv last) s x.2
      (512*x.1%2^64+8*waiting.length) (waiting++0x80::List.replicate (63-waiting.length) 0)) 0
      ((S3.back 8).buf.take 56++(bytesOf 8 (8*(64*x.1+waiting.length))).reverse) := by
    have hh : (S3.back 8).h.cell=S1.h.cell := congrArg FixedArray.cell (hh3.trans hh2)
    have hs' : S1.s.cell=s := (congrArg FixedArray.cell hs1).trans hchained.salt
    have hs : (S3.back 8).s.cell=s :=
      (congrArg FixedArray.cell (hs3.trans hs2)).trans hs'
    have hfirst : S1.h.cell=compress (variant iv last) s x.2
        (512*x.1%2^64+8*waiting.length) (waiting++0x80::List.replicate (63-waiting.length) 0) := by
      rw [hchain1,htotal,hfront,←hchained.salt,←hchained.chain]
      rfl
    rw [hchain4,hnone,hs,hh,hfirst]
  rw [chain_holds hholds hlt,hpadded]
  dsimp only
  rw [if_neg (by omega),List.take_left' hfrontLength,List.drop_left' hfrontLength,
    ←compress_mod (t:=8*text.length),←hbits,compress_mod]
  have hleft : 512-8*waiting.length=8*(64-waiting.length) := by omega
  rw [hbuflen,hleft] at hrun1
  rw [blake256_final_h]
  dsimp only at hmsglen ⊢
  rw [hbuflen,hleft,hmsglen,if_neg (by omega),if_neg (by omega)]
  simp only [Option.bind_eq_bind,Option.pure_def]
  have hrun2' : blake256_update (S1.back 440) (paddingBytes.drop 1) 440=some S2 := hrun2
  have hrun3' : blake256_update {S2 with nullt := 1} [last] 8=some S3 := hrun3
  rw [hrun1,Option.bind_some,hrun2',Option.bind_some,Option.bind_some,hrun3',Option.bind_some,
    Option.bind_some,hrun4,Option.bind_some,digest_eq,hchain]

/-- `blake256_final_h` gives the digest of the text that a state stands for. -/
theorem final_digests {S : State} {text : List UInt8} (h : Digests iv last s S text) :
    blake256_final_h S (0x80|||last) last=some (digest (chain (variant iv last) s text)) := by
  obtain ⟨x,waiting,hchained,hholds,hlt,hbuflen,hbuf⟩ := h
  rcases Nat.lt_trichotomy waiting.length 55 with hless | heq | hmore
  · exact final_fits hchained hholds hless hbuflen hbuf
  · rw [heq] at hbuflen hbuf
    exact final_full hchained hholds heq hbuflen hbuf
  · exact final_overflows hchained hholds hmore hlt hbuflen hbuf

end Final

section Hashes

/-- Updates one after the other, each with all bytes of its input. -/
def updates (S : State) (inputs : List (List UInt8)) : Option State :=
  inputs.foldlM (fun S data => blake256_update S data (UInt64.ofNat (8*data.length))) S

variable {iv : Chain} {last : UInt8} {s : Fin 4 → UInt32}

/-- What a state stands for after updates. -/
theorem updates_digests {S : State} {text : List UInt8} (h : Digests iv last s S text)
    {inputs : List (List UInt8)} (hinputs : ∀ data∈inputs, 8*data.length<2^64) :
    ∃ S', updates S inputs=some S' ∧ Digests iv last s S' (inputs.foldl received text) := by
  induction inputs generalizing S text with
  | nil => exact ⟨S,rfl,h⟩
  | cons data inputs ih =>
    obtain ⟨S1,hrun,hdigests⟩ := update_digests h (hinputs data List.mem_cons_self) (le_refl _)
    rw [List.take_length] at hdigests
    obtain ⟨S',hrest,hdigests'⟩ := ih hdigests
      fun data' hdata' => hinputs data' (List.mem_cons_of_mem data hdata')
    refine ⟨S',?_,hdigests'⟩
    rw [updates,List.foldlM_cons,hrun]
    exact hrest

/-- A state of no text. -/
theorem start_digests {S : State} (hsalt : S.s.cell=s) (hcounted : S.nullt=0)
    (htotal : total S.t=0) (hchain : S.h.cell=iv) (hbuflen : S.buflen=0)
    (hroom : S.buf.length=64) : Digests iv last s S [] :=
  ⟨(0,iv),[],⟨hsalt,hcounted,htotal,hchain,hroom⟩,holds_start _,by decide,hbuflen,rfl⟩

theorem init256_digests {S : State} (hroom : S.buf.length=64) :
    Digests blake256.iv 0x01 (fun _ => 0) (blake256_init S) [] :=
  start_digests rfl rfl rfl (init256_eq S) rfl hroom

theorem init224_digests {S : State} (hroom : S.buf.length=64) :
    Digests blake224.iv 0x00 (fun _ => 0) (blake224_init S) [] :=
  start_digests rfl rfl rfl (init224_eq S) rfl hroom

/-- `blake256_final` gives the hash of a text. -/
theorem blake256_final_hash {S : State} {text : List UInt8}
    (h : Digests blake256.iv 0x01 (fun _ => 0) S text) :
    blake256_final S=some (hash blake256 text) := by
  have hchain : chain (variant blake256.iv 0x01) (fun _ => 0) text=
      chain blake256 (fun _ => 0) text := rfl
  have hall : hash blake256 text=digest (chain blake256 (fun _ => 0) text) :=
    List.take_of_length_le (length_digest _).le
  rw [hall,←hchain]
  exact final_digests h

/-- `blake224_final` gives the hash of a text, and behind it the last word of the chain. -/
theorem blake224_final_hash {S : State} {text : List UInt8}
    (h : Digests blake224.iv 0x00 (fun _ => 0) S text) :
    ∃ more, more.length=4 ∧ blake224_final S=some (hash blake224 text++more) := by
  have hchain : chain (variant blake224.iv 0x00) (fun _ => 0) text=
      chain blake224 (fun _ => 0) text := chain_length _ _ 32 28 _ text
  obtain ⟨more,hlength,hdigest⟩ := digest_eq_hash_append blake224 text
  refine ⟨more,hlength,?_⟩
  rw [←hdigest,←hchain]
  exact final_digests h

/-- An update loses nothing of a text when no bytes wait, or when the input leaves the last block
incomplete, or when it completes the block that waits with the bytes behind its last block. -/
theorem received_eq {text data : List UInt8} (h : text.length%64=0 ∨
    0<data.length ∧ text.length%64+data.length<64 ∨ 64-text.length%64 ≤ data.length%64) :
    received text data=text++data := by
  rw [received]
  by_cases hfirst : text.length%64=0 ∨ 64-text.length%64 ≤ data.length%64
  · rw [if_pos hfirst]
  · obtain ⟨hpos,hfits⟩ : 0<data.length ∧ text.length%64+data.length<64 := by tauto
    have hmod : data.length%64=data.length := Nat.mod_eq_of_lt (by omega)
    rw [if_neg hfirst,hmod,Nat.sub_self,List.take_zero,List.append_nil,if_neg hpos.ne',
      List.drop_zero,←List.append_assoc,List.take_append_drop]

theorem received_nil (data : List UInt8) : received [] data=data :=
  received_eq (.inl rfl)

/-- Updates and the final call give the hash of the text that was received; `blake224_final` writes
four bytes more. -/
theorem updates_exact {S : State} (hS : S.buf.length=64) {inputs : List (List UInt8)}
    (hinputs : ∀ data∈inputs, 8*data.length<2^64) :
    (updates (blake256_init S) inputs).bind blake256_final=
      some (hash blake256 (inputs.foldl received [])) ∧
    ∃ more, more.length=4 ∧ (updates (blake224_init S) inputs).bind blake224_final=
      some (hash blake224 (inputs.foldl received [])++more) := by
  obtain ⟨S1,hrun1,hdigests1⟩ := updates_digests (init256_digests hS) hinputs
  obtain ⟨S2,hrun2,hdigests2⟩ := updates_digests (init224_digests hS) hinputs
  rw [hrun1,hrun2]
  exact ⟨blake256_final_hash hdigests1,blake224_final_hash hdigests2⟩

/-- An input of one block loses the bytes that waited; the next one is kept. -/
theorem updates_exact_three :
    (updates (blake256_init unset) [[1,2,3],List.replicate 64 4,[5]]).bind blake256_final=
      some (hash blake256 (List.replicate 64 4++[5])) := by
  have hinputs : ∀ data∈[[1,2,3],List.replicate 64 4,[5]],
      8*(data : List UInt8).length<2^64 := by decide
  have hreceived : [[1,2,3],List.replicate 64 4,[5]].foldl received []=
      List.replicate 64 4++[5] := by decide +kernel
  have hexact := (updates_exact (S:=unset) rfl hinputs).1
  rwa [hreceived] at hexact

/-- `blake256_hash` and `blake224_hash` give the hash of their input, and the second writes four
bytes more. -/
theorem hash_exact {S : State} (hS : S.buf.length=64) {input : List UInt8}
    (hinput : 8*input.length<2^64) :
    blake256_hash S input (UInt64.ofNat input.length)=some (hash blake256 input) ∧
    ∃ more, more.length=4 ∧
      blake224_hash S input (UInt64.ofNat input.length)=some (hash blake224 input++more) := by
  have hbits : UInt64.ofNat input.length*8=UInt64.ofNat (8*input.length) := by
    rw [UInt64.ofNat_mul,UInt64.mul_comm]
    rfl
  obtain ⟨S1,hrun1,hdigests1⟩ := update_digests (init256_digests hS) hinput (le_refl _)
  obtain ⟨S2,hrun2,hdigests2⟩ := update_digests (init224_digests hS) hinput (le_refl _)
  rw [List.take_length,received_nil] at hdigests1 hdigests2
  rw [blake256_hash,blake224_hash,hbits,hrun1,hrun2]
  exact ⟨blake256_final_hash hdigests1,blake224_final_hash hdigests2⟩

/-- Three blocks, the last one with a part of the input. -/
theorem hash_exact_long : blake256_hash unset (List.replicate 150 7) 150=
    some (hash blake256 (List.replicate 150 7)) := by
  have hinput : 8*(List.replicate 150 (7 : UInt8)).length<2^64 := by
    rw [List.length_replicate]
    decide
  have hexact := (hash_exact (S:=unset) rfl hinput).1
  rwa [List.length_replicate] at hexact

example : blake256_hash unset [0] 1=some [0x0C,0xE8,0xD4,0xEF,0x4D,0xD7,0xCD,0x8D,0x62,0xDF,0xDE,
    0xD9,0xD4,0xED,0xB0,0xA7,0x74,0xAE,0x6A,0x41,0x92,0x9A,0x74,0xDA,0x23,0x10,0x9E,0x8F,0x11,0x13,
    0x9C,0x87] := by
  decide +kernel

end Hashes

end XmrigCC.Blake256
