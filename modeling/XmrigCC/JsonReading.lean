import XmrigCC.JsonWriting

/-!
# Reading back written JSON documents

The reader descends through a text and keeps integers of up to 64 bits exact. It reads what the
writers write as the document they wrote, with the white space of either of them.
-/

namespace XmrigCC.JsonReading

open ByteText JsonValues JsonText JsonWriting MiningJob PoolMessages

variable {D : Type}

section Numbers

/-- The loops over digits of `ParseNumber`: the number, the text behind it, and whether another
digit follows that might not fit. -/
def takeDigits (limit : ℕ) (last : UInt8) : ℕ → Bytes → ℕ×Bytes×Bool
  | i,[] => (i,[],false)
  | i,c::t =>
    if isDigit c then
      if limit ≤ i ∧ (i ≠ limit ∨ last<c) then (i,c::t,true)
      else takeDigits limit last (i*10+(c.toNat-48)) t
    else (i,c::t,false)

/-- The integer in front of a text: its value when it fits, and the text behind it. -/
def integerPart (minus : Bool) (t : Bytes) : Option (Option ℕ×Bytes) :=
  match t with
  | 48::t => some (some 0,t)
  | c::t =>
    if isDigit c then
      let first := takeDigits (if minus then 214748364 else 429496729)
        (if minus then 56 else 53) (c.toNat-48) t
      if first.2.2 then
        let second := takeDigits (if minus then 0x0CCCCCCCCCCCCCCC else 0x1999999999999999)
          (if minus then 56 else 53) first.1 first.2.1
        if second.2.2 then some (none,second.2.1.dropWhile isDigit)
        else some (some second.1,second.2.1)
      else some (some first.1,first.2.1)
    else none
  | [] => none

/-- A fraction, if there is one. -/
def fractionPart (t : Bytes) : Option (Bool×Bytes) :=
  match t with
  | 46::t =>
    match t with
    | c::_ => if isDigit c then some (true,t.dropWhile isDigit) else none
    | [] => none
  | t => some (false,t)

/-- An exponent, if there is one. -/
def exponentPart (t : Bytes) : Option (Bool×Bytes) :=
  match t with
  | c::t =>
    if c=101 ∨ c=69 then
      let t := if t.head?=some 43 ∨ t.head?=some 45 then t.tail else t
      match t with
      | d::_ => if isDigit d then some (true,t.dropWhile isDigit) else none
      | [] => none
    else some (false,c::t)
  | [] => some (false,[])

/-- `ParseNumber`. -/
def ParseNumber (nums : Doubles D) (t : Bytes) : Option (Value D×Bytes) := do
  let minus := t.head?=some 45
  let (whole,behind) ← integerPart minus (if minus then t.tail else t)
  let (fraction,behind) ← fractionPart behind
  let (exponent,behind) ← exponentPart behind
  match whole,fraction || exponent with
  | some i,false => some (.int (if minus then -i else i),behind)
  | _,_ => do
    let d ← nums.strtod (t.take (t.length-behind.length))
    some (.double d,behind)

end Numbers

/-- `ParseNull`, `ParseTrue` and `ParseFalse`. -/
def literal (word : Bytes) (v : Value D) (t : Bytes) : Option (Value D×Bytes) :=
  if startsWith t word then some (v,t.drop word.length) else none

mutual

/-- `ParseValue`, with fuel for the nesting and the members. -/
def ParseValue (nums : Doubles D) : ℕ → Bytes → Option (Value D×Bytes)
  | 0,_ => none
  | n+1,t =>
    match t.head? with
    | some 110 => literal (text "null") .null t
    | some 116 => literal (text "true") (.bool true) t
    | some 102 => literal (text "false") (.bool false) t
    | some 34 => (stringTail (t.length+1) t.tail).map fun r => (.string r.1,r.2)
    | some 123 =>
      let inside := skipSpace t.tail
      if inside.head?=some 125 then some (.object [],inside.tail)
      else (ParseMembers nums n inside).map fun r => (.object r.1,r.2)
    | some 91 =>
      let inside := skipSpace t.tail
      if inside.head?=some 93 then some (.array [],inside.tail)
      else (ParseElements nums n inside).map fun r => (.array r.1,r.2)
    | _ => ParseNumber nums t

/-- The loop of `ParseObject`. -/
def ParseMembers (nums : Doubles D) : ℕ → Bytes → Option (List (Bytes×Value D)×Bytes)
  | 0,_ => none
  | n+1,t => do
    let name ← stringTail (t.length+1) (←expect 34 t)
    let first ← ParseValue nums n (skipSpace (←expect 58 (skipSpace name.2)))
    let behind := skipSpace first.2
    if behind.head?=some 44 then do
      let others ← ParseMembers nums n (skipSpace behind.tail)
      some ((name.1,first.1)::others.1,others.2)
    else if behind.head?=some 125 then some ([(name.1,first.1)],behind.tail)
    else none

/-- The loop of `ParseArray`. -/
def ParseElements (nums : Doubles D) : ℕ → Bytes → Option (List (Value D)×Bytes)
  | 0,_ => none
  | n+1,t => do
    let first ← ParseValue nums n t
    let behind := skipSpace first.2
    if behind.head?=some 44 then do
      let others ← ParseElements nums n (skipSpace behind.tail)
      some (first.1::others.1,others.2)
    else if behind.head?=some 93 then some ([first.1],behind.tail)
    else none

end

/-- `Parse` of a C string. -/
def Parse (nums : Doubles D) (t : Bytes) : Option (Value D) := do
  let (v,behind) ← ParseValue nums (t.length+1) (skipSpace t)
  if skipSpace behind=[] then some v else none

section Integers

/-- A text that does not go on with a number. -/
def Ends (t : Bytes) : Prop :=
  ∀ c, t.head?=some c → isDigit c=false ∧ c ≠ 46 ∧ c ≠ 101 ∧ c ≠ 69

/-- A number with more digits behind it. -/
def digitsFrom (i : ℕ) (ds : Bytes) : ℕ := ds.foldl (fun n c => n*10+(c.toNat-48)) i

theorem le_digitsFrom (i : ℕ) (ds : Bytes) : i ≤ digitsFrom i ds := by
  induction ds generalizing i with
  | nil => exact le_refl i
  | cons c ds ih => exact le_trans (by omega) (ih (i*10+(c.toNat-48)))

theorem takeDigits_end (limit : ℕ) (last : UInt8) (i : ℕ) {rest : Bytes} (hrest : Ends rest) :
    takeDigits limit last i rest=(i,rest,false) := by
  cases rest with
  | nil => rfl
  | cons c rest =>
    rw [takeDigits,if_neg]
    rw [(hrest c rfl).1]
    exact Bool.false_ne_true

/-- The loop reads all digits of a number that fits. -/
theorem takeDigits_fits {limit : ℕ} {last : UInt8} (hlast : isDigit last=true) {rest : Bytes}
    (hrest : Ends rest) {ds : Bytes} (hds : ∀ c∈ds, isDigit c=true) {i : ℕ}
    (hfits : digitsFrom i ds ≤ limit*10+(last.toNat-48)) :
    takeDigits limit last i (ds++rest)=(digitsFrom i ds,rest,false) := by
  induction ds generalizing i with
  | nil => exact takeDigits_end limit last i hrest
  | cons c ds ih =>
    have hc := hds c List.mem_cons_self
    have hle := le_digitsFrom (i*10+(c.toNat-48)) ds
    have hnext : digitsFrom i (c::ds)=digitsFrom (i*10+(c.toNat-48)) ds := rfl
    rw [hnext] at hfits
    have hrange : 48 ≤ last.toNat ∧ last.toNat ≤ 57 := by
      simp only [isDigit,decide_eq_true_eq,UInt8.le_iff_toNat_le] at hlast
      exact hlast
    have hguard : ¬(limit ≤ i ∧ (i ≠ limit ∨ last<c)) := by
      rintro ⟨hlimit,hne | hmore⟩
      · omega
      · rw [UInt8.lt_iff_toNat_lt] at hmore
        omega
    rw [List.cons_append,takeDigits,if_pos hc,if_neg hguard,hnext]
    exact ih (fun b hb => hds b (List.mem_cons_of_mem c hb)) hfits

/-- Or it stops in front of some of them. -/
theorem takeDigits_cases (limit : ℕ) (last : UInt8) {rest : Bytes} (hrest : Ends rest)
    {ds : Bytes} (hds : ∀ c∈ds, isDigit c=true) (i : ℕ) :
    takeDigits limit last i (ds++rest)=(digitsFrom i ds,rest,false) ∨
    ∃ i' ds', takeDigits limit last i (ds++rest)=(i',ds'++rest,true) ∧
      (∀ c∈ds', isDigit c=true) ∧ digitsFrom i' ds'=digitsFrom i ds := by
  induction ds generalizing i with
  | nil => exact .inl (takeDigits_end limit last i hrest)
  | cons c ds ih =>
    rw [List.cons_append,takeDigits,if_pos (hds c List.mem_cons_self)]
    by_cases hguard : limit ≤ i ∧ (i ≠ limit ∨ last<c)
    · rw [if_pos hguard]
      exact .inr ⟨i,c::ds,rfl,hds,rfl⟩
    · rw [if_neg hguard]
      exact ih (fun b hb => hds b (List.mem_cons_of_mem c hb)) _

theorem digitsFrom_decimal {c : UInt8} {ds : Bytes} {k : ℕ} (h : decimal k=c::ds) :
    digitsFrom (c.toNat-48) ds=k := by
  have hvalue := digitsValue_decimal k
  rw [h,digitsValue,List.foldl_cons,Nat.mul_zero,Nat.zero_add] at hvalue
  rw [←hvalue,digitsFrom]
  congr 1
  funext n b
  rw [Nat.mul_comm]

/-- A decimal number of up to 64 bits is read exactly. -/
theorem integerPart_decimal {minus : Bool} {k : ℕ} (hk : k ≤ if minus then 2^63 else 2^64-1)
    {rest : Bytes} (hrest : Ends rest) :
    integerPart minus (decimal k++rest)=some (some k,rest) := by
  by_cases hzero : (decimal k).head?=some 48
  · have hdecimal := decimal_head hzero
    have hvalue := digitsValue_decimal k
    rw [hdecimal] at hvalue ⊢
    rw [←hvalue]
    rfl
  · obtain ⟨c,ds,hcons,hc⟩ := decimal_eq_cons k
    have hdigits : ∀ b∈ds, isDigit b=true := fun b hb =>
      isDigit_of_mem_decimal (k:=k) (by rw [hcons]; exact List.mem_cons_of_mem c hb)
    have hvalue := digitsFrom_decimal hcons
    have hne : c ≠ 48 := fun hc => hzero (by rw [hcons,hc]; rfl)
    rw [hcons,List.cons_append,integerPart]
    · rw [if_pos hc]
      dsimp only
      generalize (if minus=true then 214748364 else 429496729)=limit
      rcases takeDigits_cases limit (if minus=true then 56 else 53) hrest hdigits
        (c.toNat-48) with hfits | ⟨i,ds',hstops,hdigits',hsame⟩
      · rw [hfits,hvalue]
        rfl
      · rw [hstops]
        dsimp only
        rw [if_pos rfl,takeDigits_fits (by cases minus <;> rfl) hrest hdigits']
        · rw [if_neg Bool.false_ne_true,hsame,hvalue]
        · rw [hsame,hvalue]
          cases minus
          · exact hk
          · exact hk
    · exact fun h => hne h

theorem fractionPart_ends {t : Bytes} (h : Ends t) : fractionPart t=some (false,t) := by
  unfold fractionPart
  split
  · exact absurd rfl (h 46 rfl).2.1
  · rfl

theorem exponentPart_ends {t : Bytes} (h : Ends t) : exponentPart t=some (false,t) := by
  cases t with
  | nil => rfl
  | cons c t =>
    have hc := h c rfl
    exact if_neg (not_or.mpr ⟨hc.2.2.1,hc.2.2.2⟩)

theorem decimal_neg {k : ℕ} (h : 0<k) : decimal (-(k : ℤ))=45::decimal k := by
  have hneg : ¬0 ≤ -(k : ℤ) := by omega
  rw [decimal,decimal,Int.toString_eq_repr,Int.toString_eq_repr,Int.repr_eq_if,if_neg hneg,
    Int.repr_eq_if,if_pos (Int.natCast_nonneg k),neg_neg,text,String.toList_append,
    List.map_append]
  rfl

/-- Integers of up to 64 bits. -/
def InRange (i : ℤ) : Prop := -2^63 ≤ i ∧ i<2^64

/-- An integer is read as it was written. -/
theorem ParseNumber_decimal (nums : Doubles D) {i : ℤ} (hi : InRange i) {rest : Bytes}
    (hrest : Ends rest) : ParseNumber nums (decimal i++rest)=some (.int i,rest) := by
  obtain ⟨hlow,hhigh⟩ := hi
  by_cases hsign : 0 ≤ i
  · obtain ⟨k,rfl⟩ := Int.eq_ofNat_of_zero_le hsign
    obtain ⟨c,ds,hcons,hc⟩ := decimal_eq_cons k
    have hminus : ¬(decimal (k : ℤ)++rest).head?=some 45 := by
      rw [hcons]
      intro h
      rw [Option.some.inj h] at hc
      exact absurd hc (by decide)
    have hfits : k ≤ if false=true then 2^63 else 2^64-1 := by
      rw [if_neg Bool.false_ne_true]
      omega
    rw [ParseNumber]
    simp only [hminus,decide_false,if_false,integerPart_decimal hfits hrest,Option.bind_eq_bind,
      Option.bind_some,fractionPart_ends hrest,exponentPart_ends hrest,
      Bool.or_self]
  · obtain ⟨k,hk⟩ := Int.eq_ofNat_of_zero_le (by omega : 0 ≤ -i)
    have hi : i=-(k : ℤ) := by omega
    have hfits : k ≤ if true=true then 2^63 else 2^64-1 := by
      rw [if_pos rfl]
      omega
    rw [hi,decimal_neg (by omega),ParseNumber]
    simp only [List.cons_append,List.head?_cons,decide_true,if_true,List.tail_cons,
      integerPart_decimal hfits hrest,Option.bind_eq_bind,Option.bind_some,
      fractionPart_ends hrest,exponentPart_ends hrest,Bool.or_self]

end Integers

section Strings

/-- The two hexadecimal digits of a byte are read as the byte. -/
theorem hex4_escaped (c : UInt8) (t : Bytes) :
    hex4 (48::48::hexDigits (c>>>4)::hexDigits (c&&&0xF)::t)=some (c.toNat,t) := by
  have hhigh : hf_hex2bin (hexDigits (c>>>4))=some (c>>>4) := by
    revert c
    exact forall_byte (by decide +kernel)
  have hlow : hf_hex2bin (hexDigits (c&&&0xF))=some (c&&&0xF) := by
    revert c
    exact forall_byte (by decide +kernel)
  have hvalue : ((0*16+0)*16+(c>>>4).toNat)*16+(c&&&0xF).toNat=c.toNat := by
    revert c
    exact forall_byte (by decide +kernel)
  have hzero : hf_hex2bin 48=some 0 := rfl
  simp only [hex4,hzero,hhigh,hlow,Option.bind_eq_bind,Option.bind_some,Option.pure_def]
  exact congrArg (fun n => some (n,t)) hvalue

/-- An escaped byte is read as the byte, and does not begin with a quote. -/
theorem character_escaped (c : UInt8) (t : Bytes) :
    character (escaped c++t)=some ([c],t) ∧ (escaped c++t).head? ≠ some 34 := by
  rcases hescape : escapeOf c with _ | e
  · have hc : c ≠ 34 ∧ c ≠ 92 ∧ ¬c<32 := by
      revert hescape
      revert c
      exact forall_byte (by decide +kernel)
    rw [escaped,hescape]
    refine ⟨character_plain ⟨hc.1,hc.2.1,UInt8.not_lt.mp hc.2.2⟩ t,?_⟩
    exact fun h => hc.1 (Option.some.inj h)
  · by_cases hu : e=117
    · have hlow : c.toNat<32 := by
        have hall : ∀ c : UInt8, escapeOf c=some 117 → c.toNat<32 :=
          forall_byte (by decide +kernel)
        exact hall c (by rw [hescape,hu])
      have hletter : letterEscape 117=none := rfl
      rw [escaped,hescape,hu]
      refine ⟨?_,fun h => absurd (Option.some.inj h) (by decide)⟩
      change escape (117::48::48::hexDigits (c>>>4)::hexDigits (c&&&0xF)::t)=_
      rw [escape,hletter]
      dsimp only
      rw [if_pos rfl,unicodeEscape,hex4_escaped]
      simp only [Option.bind_eq_bind,Option.bind_some]
      rw [if_neg (by omega),utf8,if_pos (by omega),UInt8.ofNat_toNat]
    · have hletter : letterEscape e=some c := by
        have hall : ∀ c : UInt8, ∀ e∈escapeOf c, e=117 ∨ letterEscape e=some c :=
          forall_byte (by decide +kernel)
        exact (hall c e hescape).resolve_left hu
      rw [escaped,hescape]
      dsimp only
      rw [if_neg hu]
      refine ⟨?_,fun h => absurd (Option.some.inj h) (by decide)⟩
      change escape (e::t)=_
      rw [escape,hletter]

/-- A string is read as it was written. -/
theorem stringTail_written (str : Bytes) {n : ℕ} (hn : str.length<n) (t : Bytes) :
    stringTail n (str.flatMap escaped++34::t)=some (str,t) := by
  induction str generalizing n with
  | nil =>
    obtain ⟨k,rfl⟩ := Nat.exists_eq_succ_of_ne_zero (Nat.ne_of_gt hn)
    exact stringTail_close k t
  | cons c str ih =>
    obtain ⟨k,rfl⟩ := Nat.exists_eq_succ_of_ne_zero (Nat.ne_of_gt (Nat.zero_lt_of_lt hn))
    obtain ⟨hread,hhead⟩ := character_escaped c (str.flatMap escaped++34::t)
    rw [List.flatMap_cons,List.append_assoc,Nat.succ_eq_add_one,stringTail_character hhead hread,
      ih (Nat.lt_of_succ_lt_succ hn)]
    rfl

theorem length_escaped (c : UInt8) : 1 ≤ (escaped c).length := by
  rw [escaped]
  split
  · rw [List.length_cons]
    omega
  · exact le_refl 1

theorem length_flatMap_escaped (str : Bytes) : str.length ≤ (str.flatMap escaped).length := by
  induction str with
  | nil => exact le_refl 0
  | cons c str ih =>
    have hc := length_escaped c
    rw [List.flatMap_cons,List.length_append,List.length_cons]
    omega

end Strings

section Values

/-- White space only. -/
def Blank (t : Bytes) : Prop := ∀ c∈t, isSpace c=true

/-- A layout of white space. -/
structure Spacing (L : Layout) : Prop where
  /-- In front of an element or a member. -/
  item : ∀ level, Blank (L.item level)
  /-- Behind a colon. -/
  colon : Blank L.colon
  /-- In front of a closing bracket. -/
  close : ∀ level, Blank (L.close level)

theorem plain_spacing : Spacing plainLayout :=
  ⟨fun _ => List.forall_mem_nil _,List.forall_mem_nil _,fun _ => List.forall_mem_nil _⟩

theorem pretty_spacing : Spacing prettyLayout := by
  have hline : ∀ level, Blank (10::List.replicate (level*4) 32) := by
    intro level c hc
    rcases List.mem_cons.mp hc with rfl | hc
    · rfl
    · rw [(List.mem_replicate.mp hc).2]
      rfl
  refine ⟨hline,?_,hline⟩
  intro c hc
  rw [List.mem_singleton.mp hc]
  rfl

theorem skipSpace_blank {b : Bytes} (hb : Blank b) (t : Bytes) : skipSpace (b++t)=skipSpace t := by
  rw [skipSpace,List.dropWhile_append_of_pos hb]
  rfl

/-- What may follow a value: white space and then a comma or a bracket. -/
theorem ends_blank {b : Bytes} (hb : Blank b) {c : UInt8} (hc : c=44 ∨ c=93 ∨ c=125) (t : Bytes) :
    Ends (b++c::t) := by
  intro d hd
  cases b with
  | nil =>
    obtain rfl := Option.some.inj hd
    rcases hc with rfl | rfl | rfl <;> decide
  | cons e b =>
    obtain rfl := Option.some.inj hd
    have hspace := hb e List.mem_cons_self
    simp only [isSpace,decide_eq_true_eq] at hspace
    rcases hspace with rfl | rfl | rfl | rfl <;> decide

variable {nums : Doubles D} {L : Layout}

/-- A double whose text is a number that is read as the same double. -/
def Kept (nums : Doubles D) (d : D) : Prop :=
  ∃ c t, nums.dtoa d=some (c::t) ∧ (isDigit c=true ∨ c=45) ∧ 0∉t ∧
    ∀ rest, Ends rest → ParseNumber nums (c::t++rest)=some (.double d,rest)

/-- A document that can be written and read again. -/
abbrev Sound (nums : Doubles D) : Value D → Prop := Each InRange (Kept nums)

mutual

/-- Fuel that a value takes. -/
def size : Value D → ℕ
  | .array elements => 1+sizeAll elements
  | .object members => 1+sizeMembers members
  | _ => 1

/-- Fuel that elements take. -/
def sizeAll : List (Value D) → ℕ
  | [] => 0
  | v::vs => 1+(size v+sizeAll vs)

/-- Fuel that members take. -/
def sizeMembers : List (Bytes×Value D) → ℕ
  | [] => 0
  | (_,v)::ms => 1+(size v+sizeMembers ms)

end

/-- A text that begins with a digit or a minus is read as a number. -/
theorem ParseValue_number {c : UInt8} (hc : isDigit c=true ∨ c=45) (n : ℕ) (t : Bytes) :
    ParseValue nums (n+1) (c::t)=ParseNumber nums (c::t) := by
  have hother : ∀ d : UInt8, (isDigit d || d=45)=false → c ≠ d := by
    rintro d hd rfl
    rcases hc with hc | rfl
    · rw [hc] at hd
      cases hd
    · cases hd
  rw [ParseValue,List.head?_cons]
  split
  · rename_i h; exact absurd (Option.some.inj h) (hother 110 rfl)
  · rename_i h; exact absurd (Option.some.inj h) (hother 116 rfl)
  · rename_i h; exact absurd (Option.some.inj h) (hother 102 rfl)
  · rename_i h; exact absurd (Option.some.inj h) (hother 34 rfl)
  · rename_i h; exact absurd (Option.some.inj h) (hother 123 rfl)
  · rename_i h; exact absurd (Option.some.inj h) (hother 91 rfl)
  · rfl

theorem decimal_int_cons (i : ℤ) : ∃ c t, decimal i=c::t ∧ (isDigit c=true ∨ c=45) := by
  by_cases hi : 0 ≤ i
  · obtain ⟨k,rfl⟩ := Int.eq_ofNat_of_zero_le hi
    obtain ⟨c,ds,hcons,hc⟩ := decimal_eq_cons k
    exact ⟨c,ds,hcons,.inl hc⟩
  · obtain ⟨k,hk⟩ := Int.eq_ofNat_of_zero_le (by omega : 0 ≤ -i)
    have hi' : i=-(k : ℤ) := by omega
    exact ⟨45,decimal k,by rw [hi',decimal_neg (by omega)],.inr rfl⟩

/-- The first byte of a value is no white space and no closing bracket. -/
theorem render_cons (level : ℕ) {v : Value D} (hv : Sound nums v) :
    ∃ c t, render nums L level v=c::t ∧ isSpace c=false ∧ c ≠ 93 := by
  have hnumber : ∀ c : UInt8, isDigit c=true ∨ c=45 → isSpace c=false ∧ c ≠ 93 :=
    forall_byte (by decide +kernel)
  match v with
  | .null => exact ⟨_,_,rfl,by decide,by decide⟩
  | .bool b => cases b <;> exact ⟨_,_,rfl,by decide,by decide⟩
  | .int i =>
    obtain ⟨c,t,hcons,hc⟩ := decimal_int_cons i
    exact ⟨c,t,hcons,hnumber c hc⟩
  | .double d =>
    obtain ⟨c,t,hdtoa,hc,-,-⟩ := hv
    refine ⟨c,t,?_,hnumber c hc⟩
    rw [render,hdtoa]
    rfl
  | .string str => exact ⟨_,_,rfl,by decide,by decide⟩
  | .array elements => exact ⟨91,_,by rw [render],by decide,by decide⟩
  | .object members => exact ⟨123,_,by rw [render],by decide,by decide⟩

/-- White space in front of a value is skipped. -/
theorem skipSpace_render {b : Bytes} (hb : Blank b) (level : ℕ) {v : Value D}
    (hv : Sound nums v) (t : Bytes) :
    skipSpace (b++(render nums L level v++t))=render nums L level v++t := by
  obtain ⟨c,t',hcons,hspace,-⟩ := render_cons (L:=L) level hv
  rw [skipSpace_blank hb,hcons,List.cons_append,skipSpace_cons hspace]

theorem skipSpace_quote {b : Bytes} (hb : Blank b) (t : Bytes) : skipSpace (b++34::t)=34::t := by
  rw [skipSpace_blank hb]
  exact skipSpace_cons rfl t

/-- What follows an element goes on with a comma or the end of the array. -/
theorem ends_elements (level : ℕ) (vs : List (Value D)) {b : Bytes} (hb : Blank b)
    (t : Bytes) : Ends (renderAll nums L level vs++(b++93::t)) := by
  match vs with
  | [] => exact ends_blank hb (.inr (.inl rfl)) t
  | v::vs => exact ends_blank (b:=[]) (List.forall_mem_nil _) (.inl rfl) _

theorem ends_members (level : ℕ) (ms : List (Bytes×Value D)) {b : Bytes}
    (hb : Blank b) (t : Bytes) : Ends (renderMembers nums L level ms++(b++125::t)) := by
  match ms with
  | [] => exact ends_blank hb (.inr (.inr rfl)) t
  | (name,v)::ms => exact ends_blank (b:=[]) (List.forall_mem_nil _) (.inl rfl) _

/-- An array with elements. -/
theorem ParseValue_array {n : ℕ} {t inside : Bytes} (ht : skipSpace t=inside)
    (h : inside.head? ≠ some 93) : ParseValue nums (n+1) (91::t)=
      (ParseElements nums n inside).map fun r => (.array r.1,r.2) := by
  subst ht
  rw [ParseValue]
  exact if_neg h

/-- An object with members. -/
theorem ParseValue_object {n : ℕ} {t inside : Bytes} (ht : skipSpace t=inside)
    (h : inside.head? ≠ some 125) : ParseValue nums (n+1) (123::t)=
      (ParseMembers nums n inside).map fun r => (.object r.1,r.2) := by
  subst ht
  rw [ParseValue]
  exact if_neg h

/-- A fuel that reads what takes no more. -/
structure Reads (nums : Doubles D) (L : Layout) (n : ℕ) : Prop where
  /-- Values. -/
  value : ∀ (v : Value D) (level : ℕ) (rest : Bytes), Sound nums v → size v ≤ n → Ends rest →
    ParseValue nums n (render nums L level v++rest)=some (v,rest)
  /-- Elements up to the end of their array. -/
  elements : ∀ (v : Value D) (vs : List (Value D)) (level : ℕ) (b rest : Bytes),
    EachOf InRange (Kept nums) (v::vs) → sizeAll (v::vs) ≤ n → Blank b →
    ParseElements nums n (render nums L level v++(renderAll nums L level vs++(b++93::rest)))=
      some (v::vs,rest)
  /-- Members up to the end of their object. -/
  members : ∀ (name : Bytes) (v : Value D) (ms : List (Bytes×Value D)) (level : ℕ)
    (b rest : Bytes), EachMember InRange (Kept nums) ((name,v)::ms) →
    sizeMembers ((name,v)::ms) ≤ n → Blank b →
    ParseMembers nums n (34::(name.flatMap escaped++34::58::(L.colon++
      (render nums L level v++(renderMembers nums L level ms++(b++125::rest))))))=
        some ((name,v)::ms,rest)

theorem size_pos (v : Value D) : 0<size v := by
  match v with
  | .null | .bool _ | .int _ | .double _ | .string _ => exact Nat.zero_lt_one
  | .array _ => rw [size]; omega
  | .object _ => rw [size]; omega

/-- A value is read as it was written, when its parts are. -/
theorem Reads.value_succ {n : ℕ} (hreads : Reads nums L n) (h : Spacing L) (v : Value D)
    (level : ℕ) (rest : Bytes) (hv : Sound nums v) (hn : size v ≤ n+1) (hrest : Ends rest) :
    ParseValue nums (n+1) (render nums L level v++rest)=some (v,rest) := by
  match v with
  | .null => rfl
  | .bool true => rfl
  | .bool false => rfl
  | .int i =>
    obtain ⟨c,t,hcons,hc⟩ := decimal_int_cons i
    have hread := ParseNumber_decimal nums hv hrest
    rw [hcons,List.cons_append] at hread
    rw [render,hcons,List.cons_append,ParseValue_number hc,hread]
  | .double d =>
    obtain ⟨c,t,hdtoa,hc,-,hread⟩ := hv
    rw [render,hdtoa]
    exact (ParseValue_number hc n _).trans (hread rest hrest)
  | .string str =>
    have htext : render nums L level (.string str : Value D)++rest=
        34::(str.flatMap escaped++34::rest) := by
      rw [render,WriteString,List.cons_append,List.append_assoc,List.singleton_append]
    have hfuel := length_flatMap_escaped str
    rw [htext,ParseValue]
    change (stringTail _ (str.flatMap escaped++34::rest)).map _=_
    rw [stringTail_written str (by
      rw [List.length_cons,List.length_append]
      omega)]
    rfl
  | .array [] =>
    have htext : render nums L level (.array [] : Value D)++rest=91::93::rest := rfl
    rw [htext,ParseValue]
    rfl
  | .array (v::vs) =>
    have htext : render nums L level (.array (v::vs))++rest=
        91::(L.item (level+1)++(render nums L (level+1) v++(renderAll nums L (level+1) vs++
          (L.close level++93::rest)))) := by
      rw [render,renderAll]
      simp only [List.tail_cons,List.isEmpty_cons,Bool.false_eq_true,if_false,List.cons_append,
        List.append_assoc,List.nil_append]
    have helements := hreads.elements v vs (level+1) (L.close level) rest hv
      (by rw [size] at hn; omega) (h.close level)
    have hskip := skipSpace_render (L:=L) (h.item (level+1)) (level+1) hv.1
      (renderAll nums L (level+1) vs++(L.close level++93::rest))
    obtain ⟨c,t,hcons,-,hclose⟩ := render_cons (L:=L) (level+1) hv.1
    have hhead : ¬(render nums L (level+1) v++(renderAll nums L (level+1) vs++
        (L.close level++93::rest))).head?=some 93 := by
      rw [hcons]
      exact fun he => hclose (Option.some.inj he)
    rw [htext,ParseValue_array hskip hhead,helements]
    rfl
  | .object [] =>
    have htext : render nums L level (.object [] : Value D)++rest=123::125::rest := rfl
    rw [htext,ParseValue]
    rfl
  | .object ((name,v)::ms) =>
    have htext : render nums L level (.object ((name,v)::ms))++rest=
        123::(L.item (level+1)++34::(name.flatMap escaped++34::58::(L.colon++
          (render nums L (level+1) v++(renderMembers nums L (level+1) ms++
            (L.close level++125::rest)))))) := by
      rw [render,renderMembers,WriteString]
      simp only [List.tail_cons,List.isEmpty_cons,Bool.false_eq_true,if_false,List.cons_append,
        List.append_assoc,List.nil_append]
    have hmembers := hreads.members name v ms (level+1) (L.close level) rest hv
      (by rw [size] at hn; omega) (h.close level)
    have hhead : ∀ t : Bytes, (34::t).head? ≠ some 125 := fun t he =>
      absurd (Option.some.inj he) (by decide)
    rw [htext,ParseValue_object (skipSpace_quote (h.item (level+1)) _) (hhead _),hmembers]
    rfl

theorem Reads.elements_succ {n : ℕ} (hreads : Reads nums L n) (h : Spacing L) (v : Value D)
    (vs : List (Value D)) (level : ℕ) (b rest : Bytes)
    (hvs : EachOf InRange (Kept nums) (v::vs)) (hn : sizeAll (v::vs) ≤ n+1) (hb : Blank b) :
    ParseElements nums (n+1) (render nums L level v++(renderAll nums L level vs++
      (b++93::rest)))=some (v::vs,rest) := by
  rw [sizeAll] at hn
  rw [ParseElements,hreads.value v level _ hvs.1 (by omega) (ends_elements level vs hb rest)]
  simp only [Option.bind_eq_bind,Option.bind_some]
  match vs with
  | [] =>
    have hbehind : skipSpace (renderAll nums L level ([] : List (Value D))++(b++93::rest))=
        93::rest := (skipSpace_blank hb _).trans (skipSpace_cons rfl rest)
    rw [hbehind]
    rfl
  | w::ws =>
    have hbehind : skipSpace (renderAll nums L level (w::ws)++(b++93::rest))=
        44::(L.item level++(render nums L level w++(renderAll nums L level ws++
          (b++93::rest)))) := by
      rw [renderAll]
      simp only [List.cons_append,List.append_assoc]
      exact skipSpace_cons rfl _
    have hothers := hreads.elements w ws level b rest hvs.2 (by omega) hb
    rw [hbehind,if_pos (by rw [List.head?_cons]),List.tail_cons,
      skipSpace_render (h.item level) level hvs.2.1,hothers]
    rfl

theorem Reads.members_succ {n : ℕ} (hreads : Reads nums L n) (h : Spacing L) (name : Bytes)
    (v : Value D) (ms : List (Bytes×Value D)) (level : ℕ) (b rest : Bytes)
    (hms : EachMember InRange (Kept nums) ((name,v)::ms))
    (hn : sizeMembers ((name,v)::ms) ≤ n+1) (hb : Blank b) :
    ParseMembers nums (n+1) (34::(name.flatMap escaped++34::58::(L.colon++
      (render nums L level v++(renderMembers nums L level ms++(b++125::rest))))))=
        some ((name,v)::ms,rest) := by
  rw [sizeMembers] at hn
  have hfuel := length_flatMap_escaped name
  have hquote : ∀ t : Bytes, expect 34 (34::t)=some t := fun t => rfl
  have hcolon : ∀ t : Bytes, expect 58 (skipSpace (58::t))=some t := fun t => by
    rw [skipSpace_cons rfl]
    rfl
  rw [ParseMembers,hquote]
  simp only [Option.bind_eq_bind,Option.bind_some]
  rw [stringTail_written name (by rw [List.length_cons,List.length_append]; omega)]
  simp only [Option.bind_some,hcolon]
  rw [skipSpace_render h.colon level hms.1,hreads.value v level _ hms.1 (by omega)
    (ends_members level ms hb rest)]
  simp only [Option.bind_some]
  match ms with
  | [] =>
    have hbehind : skipSpace (renderMembers nums L level ([] : List (Bytes×Value D))++
        (b++125::rest))=125::rest := (skipSpace_blank hb _).trans (skipSpace_cons rfl rest)
    rw [hbehind]
    rfl
  | (name',w)::ms =>
    have hbehind : skipSpace (renderMembers nums L level ((name',w)::ms)++(b++125::rest))=
        44::(L.item level++34::(name'.flatMap escaped++34::58::(L.colon++
          (render nums L level w++(renderMembers nums L level ms++(b++125::rest)))))) := by
      rw [renderMembers,WriteString]
      simp only [List.cons_append,List.append_assoc,List.nil_append]
      exact skipSpace_cons rfl _
    have hothers := hreads.members name' w ms level b rest hms.2 (by omega) hb
    rw [hbehind,if_pos (by rw [List.head?_cons]),List.tail_cons,
      skipSpace_quote (h.item level),hothers]
    rfl

/-- Every fuel reads what takes no more. -/
theorem reads (nums : Doubles D) (h : Spacing L) (n : ℕ) : Reads nums L n := by
  induction n with
  | zero =>
    refine ⟨fun v _ _ _ hn => ?_,fun v vs _ _ _ _ hn => ?_,fun _ v ms _ _ _ _ hn => ?_⟩
    · exact absurd (size_pos v) (by omega)
    · rw [sizeAll] at hn
      omega
    · rw [sizeMembers] at hn
      omega
  | succ n ih => exact ⟨ih.value_succ h,ih.elements_succ h,ih.members_succ h⟩

mutual

/-- A text is as long as its value takes fuel. -/
theorem size_le (level : ℕ) (v : Value D) (hv : Sound nums v) :
    size v ≤ (render nums L level v).length := by
  match v with
  | .null => exact Nat.le_of_ble_eq_true rfl
  | .bool b => cases b <;> exact Nat.le_of_ble_eq_true rfl
  | .int i =>
    obtain ⟨c,t,hcons,-⟩ := decimal_int_cons i
    rw [render,hcons]
    exact Nat.succ_le_succ (Nat.zero_le _)
  | .double d =>
    obtain ⟨c,t,hdtoa,-⟩ := hv
    rw [render,hdtoa]
    exact Nat.succ_le_succ (Nat.zero_le _)
  | .string str =>
    rw [render,WriteString]
    exact Nat.succ_le_succ (Nat.zero_le _)
  | .array elements =>
    have helements := sizeAll_le (level+1) elements hv
    rw [size,render]
    simp only [List.length_cons,List.length_append,List.length_tail,List.length_nil]
    omega
  | .object members =>
    have hmembers := sizeMembers_le (level+1) members hv
    rw [size,render]
    simp only [List.length_cons,List.length_append,List.length_tail,List.length_nil]
    omega

theorem sizeAll_le (level : ℕ) (vs : List (Value D)) (hvs : EachOf InRange (Kept nums) vs) :
    sizeAll vs ≤ (renderAll nums L level vs).length := by
  match vs with
  | [] => exact le_refl 0
  | v::vs =>
    have hv := size_le level v hvs.1
    have hrest := sizeAll_le level vs hvs.2
    rw [sizeAll,renderAll]
    simp only [List.length_cons,List.length_append]
    omega

theorem sizeMembers_le (level : ℕ) (ms : List (Bytes×Value D))
    (hms : EachMember InRange (Kept nums) ms) :
    sizeMembers ms ≤ (renderMembers nums L level ms).length := by
  match ms with
  | [] => exact le_refl 0
  | (name,v)::ms =>
    have hv := size_le level v hms.1
    have hrest := sizeMembers_le level ms hms.2
    rw [sizeMembers,renderMembers]
    simp only [List.length_cons,List.length_append]
    omega

end

theorem zero_notMem_blank {b : Bytes} (hb : Blank b) : 0∉b := fun h => absurd (hb 0 h) (by decide)

theorem zero_notMem_decimal (i : ℤ) : 0∉decimal i := by
  have hnat : ∀ k : ℕ, 0∉decimal k := fun k h => absurd (isDigit_of_mem_decimal h) (by decide)
  by_cases hi : 0 ≤ i
  · obtain ⟨k,rfl⟩ := Int.eq_ofNat_of_zero_le hi
    exact hnat k
  · obtain ⟨k,hk⟩ := Int.eq_ofNat_of_zero_le (by omega : 0 ≤ -i)
    have hi' : i=-(k : ℤ) := by omega
    rw [hi',decimal_neg (by omega)]
    exact fun h => hnat k ((List.mem_cons.mp h).resolve_left (by decide))

theorem zero_notMem_WriteString (str : Bytes) : 0∉WriteString str := by
  have hescaped : ∀ c : UInt8, 0∉escaped c := forall_byte (by decide +kernel)
  rw [WriteString,List.mem_cons,List.mem_append,List.mem_flatMap]
  rintro (h | ⟨c,-,h⟩ | h)
  · exact absurd h (by decide)
  · exact hescaped c h
  · exact absurd h (by decide)

mutual

/-- A text has no NUL. -/
theorem zero_notMem_render (h : Spacing L) (level : ℕ) (v : Value D) (hv : Sound nums v) :
    0∉render nums L level v := by
  match v with
  | .null => exact of_decide_eq_true rfl
  | .bool b => cases b <;> exact of_decide_eq_true rfl
  | .int i => exact zero_notMem_decimal i
  | .double d =>
    obtain ⟨c,t,hdtoa,hc,ht,-⟩ := hv
    rw [render,hdtoa]
    intro hmem
    rcases List.mem_cons.mp hmem with rfl | hmem
    · exact absurd hc (by decide)
    · exact ht hmem
  | .string str => exact zero_notMem_WriteString str
  | .array elements =>
    have helements := zero_notMem_renderAll h (level+1) elements hv
    have hclose := zero_notMem_blank (h.close level)
    rw [render]
    rw [List.mem_cons,List.mem_append,List.mem_append,List.mem_singleton,not_or,not_or,not_or]
    refine ⟨by decide,fun hmem => helements (List.mem_of_mem_tail hmem),?_,by decide⟩
    split
    · exact List.not_mem_nil
    · exact hclose
  | .object members =>
    have hmembers := zero_notMem_renderMembers h (level+1) members hv
    have hclose := zero_notMem_blank (h.close level)
    rw [render]
    rw [List.mem_cons,List.mem_append,List.mem_append,List.mem_singleton,not_or,not_or,not_or]
    refine ⟨by decide,fun hmem => hmembers (List.mem_of_mem_tail hmem),?_,by decide⟩
    split
    · exact List.not_mem_nil
    · exact hclose

theorem zero_notMem_renderAll (h : Spacing L) (level : ℕ) (vs : List (Value D))
    (hvs : EachOf InRange (Kept nums) vs) : 0∉renderAll nums L level vs := by
  match vs with
  | [] => exact List.not_mem_nil
  | v::vs =>
    have hv := zero_notMem_render h level v hvs.1
    have hrest := zero_notMem_renderAll h level vs hvs.2
    have hitem := zero_notMem_blank (h.item level)
    rw [renderAll]
    simp only [List.mem_cons,List.mem_append,not_or]
    exact ⟨by decide,hitem,hv,hrest⟩

theorem zero_notMem_renderMembers (h : Spacing L) (level : ℕ) (ms : List (Bytes×Value D))
    (hms : EachMember InRange (Kept nums) ms) : 0∉renderMembers nums L level ms := by
  match ms with
  | [] => exact List.not_mem_nil
  | (name,v)::ms =>
    have hv := zero_notMem_render h level v hms.1
    have hrest := zero_notMem_renderMembers h level ms hms.2
    have hitem := zero_notMem_blank (h.item level)
    have hcolon := zero_notMem_blank h.colon
    have hname := zero_notMem_WriteString name
    rw [renderMembers]
    simp only [List.mem_cons,List.mem_append,not_or]
    exact ⟨by decide,hitem,hname,by decide,hcolon,hv,hrest⟩

end

mutual

/-- Conditions on numbers that imply others. -/
theorem Each.imp {I I' : ℤ → Prop} {P P' : D → Prop} (hI : ∀ i, I i → I' i)
    (hP : ∀ d, P d → P' d) (v : Value D) (h : Each I P v) : Each I' P' v := by
  match v with
  | .null | .bool _ | .string _ => trivial
  | .int i => exact hI i h
  | .double d => exact hP d h
  | .array vs => exact EachOf.imp hI hP vs h
  | .object ms => exact EachMember.imp hI hP ms h

theorem EachOf.imp {I I' : ℤ → Prop} {P P' : D → Prop} (hI : ∀ i, I i → I' i)
    (hP : ∀ d, P d → P' d) (vs : List (Value D)) (h : EachOf I P vs) : EachOf I' P' vs := by
  match vs with
  | [] => trivial
  | v::vs => exact ⟨Each.imp hI hP v h.1,EachOf.imp hI hP vs h.2⟩

theorem EachMember.imp {I I' : ℤ → Prop} {P P' : D → Prop} (hI : ∀ i, I i → I' i)
    (hP : ∀ d, P d → P' d) (ms : List (Bytes×Value D)) (h : EachMember I P ms) :
    EachMember I' P' ms := by
  match ms with
  | [] => trivial
  | (_,v)::ms => exact ⟨Each.imp hI hP v h.1,EachMember.imp hI hP ms h.2⟩

end

theorem Kept.finite {d : D} (h : Kept nums d) : Finite nums d := by
  obtain ⟨c,t,hdtoa,-⟩ := h
  rw [JsonWriting.Finite,hdtoa]
  rfl

/-- What a writer of either style leaves has no NUL and is read as the document. -/
theorem Parse_written {style : Style} (hlays : style.Lays L) (h : Spacing L) {v : Value D}
    (hv : Sound nums v) : cStr (written nums style v)=written nums style v ∧
      Parse nums (written nums style v)=some v := by
  have htext := written_eq hlays (Each.imp (fun _ _ => trivial) (fun _ => Kept.finite) v hv)
  rw [htext]
  constructor
  · rw [cStr,List.takeWhile_eq_self_iff]
    intro c hc
    have hne : c ≠ 0 := fun he => zero_notMem_render h 0 v hv (he ▸ hc)
    exact decide_eq_true hne
  · have hread := (reads nums h ((render nums L 0 v).length+1)).value v 0 [] hv
      ((size_le 0 v hv).trans (Nat.le_succ _)) (fun c hc => by cases hc)
    have hskip := skipSpace_render (L:=L) (b:=[]) (List.forall_mem_nil _) 0 hv []
    rw [List.append_nil] at hread hskip
    rw [List.nil_append] at hskip
    rw [Parse,hskip,hread]
    rfl

/-- Documents are kept by either writer and the reader, for all numbers that are. -/
theorem documents_kept (hv : Sound nums (v : Value D)) :
    Parse nums (cStr (written nums plainStyle v))=some v ∧
    Parse nums (cStr (written nums prettyStyle v))=some v := by
  have hplain := Parse_written plain_lays plain_spacing hv
  have hpretty := Parse_written pretty_lays pretty_spacing hv
  exact ⟨by rw [hplain.1,hplain.2],by rw [hpretty.1,hpretty.2]⟩

end Values

/-- Doubles that are counted in tenths: those with one digit have a text. -/
def tenths : Doubles ℤ where
  dtoa d := if 0 ≤ d ∧ d<10 then some [48,46,UInt8.ofNat (48+d.toNat)] else none
  strtod t := ((List.range 10).find? fun k => t=[48,46,UInt8.ofNat (48+k)]).map Int.ofNat

theorem kept_tenth {d : ℤ} (h : 0 ≤ d ∧ d<10) : Kept tenths d := by
  have hdigit : ∀ k<10, isDigit (UInt8.ofNat (48+k))=true ∧ UInt8.ofNat (48+k) ≠ 0 ∧
      tenths.strtod [48,46,UInt8.ofNat (48+k)]=some (k : ℤ) := by decide +kernel
  obtain ⟨k,rfl⟩ := Int.eq_ofNat_of_zero_le h.1
  obtain ⟨hdig,hne,hstrtod⟩ := hdigit k (by omega)
  have htext : tenths.dtoa (k : ℤ)=some [48,46,UInt8.ofNat (48+k)] := if_pos h
  generalize UInt8.ofNat (48+k)=c at hdig hne hstrtod htext
  have hzero : 0∉[46,c] := by
    intro hmem
    rcases List.mem_cons.mp hmem with hdot | hmem
    · exact absurd hdot (by decide)
    · exact hne (List.mem_singleton.mp hmem).symm
  refine ⟨48,[46,c],htext,.inl rfl,hzero,?_⟩
  intro rest hrest
  have hdigits : rest.dropWhile isDigit=rest := by
    cases rest with
    | nil => rfl
    | cons b rest => rw [List.dropWhile_cons,if_neg (by rw [(hrest b rfl).1]; decide)]
  have hlength : (48::46::c::rest).length-rest.length=3 := by
    rw [List.length_cons,List.length_cons,List.length_cons]
    omega
  have hfraction : fractionPart (46::c::rest)=some (true,rest) := by
    rw [fractionPart,if_pos hdig,List.dropWhile_cons,if_pos hdig,hdigits]
  have hminus : ((48::46::c::rest : Bytes).head?=some 45)=False :=
    eq_false fun h => absurd (Option.some.inj h) (by decide)
  have hwhole : integerPart false (48::46::c::rest)=some (some 0,46::c::rest) := rfl
  rw [List.cons_append,List.cons_append,List.cons_append,List.nil_append,ParseNumber]
  simp only [hminus,decide_false,if_false,hwhole,Option.bind_eq_bind,Option.bind_some,hfraction,
    exponentPart_ends hrest,Bool.or_false,hlength,List.take_succ_cons,List.take_zero,hstrtod]

/-- A document with a name to be escaped, an empty object and two doubles is read back. -/
theorem documents_kept_nested :
    let v : Value ℤ := .object [
      ([97,34,10],.array [.int (-7),.double 5,.string [0],.object []]),
      ([98],.object [([],.null),([99],.bool true),([100],.double 2)])]
    Parse tenths (cStr (written tenths plainStyle v))=some v ∧
    Parse tenths (cStr (written tenths prettyStyle v))=some v := by
  intro v
  have hv : Sound tenths v :=
    ⟨⟨⟨by decide,by decide⟩,kept_tenth (by decide),trivial,trivial,trivial⟩,
      ⟨trivial,trivial,kept_tenth (by decide),trivial⟩,trivial⟩
  exact documents_kept hv

end XmrigCC.JsonReading
