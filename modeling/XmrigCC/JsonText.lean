import XmrigCC.PoolMessages

/-!
# Reading JSON text

A decoder of JSON text on bytes: white space, literals, numbers, strings with
their escapes, arrays and objects. Whether the bytes of a string are UTF-8 is
not looked at. Nesting is bounded by fuel; a text denotes the value that some
amount of fuel reads from it, and no two amounts read different values.
-/

namespace XmrigCC.JsonText

open ByteText MiningJob PoolMessages

/-- White space between tokens. -/
def isSpace (c : UInt8) : Bool := decide (c=32 ∨ c=9 ∨ c=10 ∨ c=13)

/-- The text from its next token on. -/
def skipSpace (t : Bytes) : Bytes := t.dropWhile isSpace

/-- A decimal digit. -/
def isDigit (c : UInt8) : Bool := decide (48 ≤ c ∧ c ≤ 57)

/-- The number that digits stand for. -/
def digitsValue (digits : Bytes) : ℕ := digits.foldl (fun n c => 10*n+(c.toNat-48)) 0

/-- A part of a number that begins with a mark and needs digits, with the text behind
it. A number without it is one with an empty part. -/
def markedDigits (marks : Bytes) (signs : Bytes) : Bytes → Option (Bytes×Bytes)
  | [] => some ([],[])
  | c::rest =>
    if c∈marks then
      let sign := rest.takeWhile (decide <| ·∈signs) |>.take 1
      let digits := (rest.drop sign.length).takeWhile isDigit
      if digits=[] then none
      else some (c::(sign++digits),(rest.drop sign.length).dropWhile isDigit)
    else some ([],c::rest)

/-- An integer of 64 bits is known by its value, any other number by its text. -/
def numberValue (sign whole fraction exponent : Bytes) : Json :=
  let value : ℤ := if sign=[] then digitsValue whole else -digitsValue whole
  if fraction=[] ∧ exponent=[] ∧ -0x8000000000000000 ≤ value ∧ value<0x8000000000000000 then
    .int64 value
  else .number (sign++whole++fraction++exponent)

/-- A number, with the text behind it. -/
def number (t : Bytes) : Option (Json×Bytes) :=
  let sign := t.takeWhile (decide <| ·=45) |>.take 1
  let whole := (t.drop sign.length).takeWhile isDigit
  if whole=[] ∨ (whole.head?=some 48 ∧ whole ≠ [48]) then none
  else do
    let fraction ← markedDigits [46] [] ((t.drop sign.length).dropWhile isDigit)
    let exponent ← markedDigits [101,69] [43,45] fraction.2
    return (numberValue sign whole fraction.1 exponent.1,exponent.2)

/-- Four hexadecimal digits. -/
def hex4 : Bytes → Option (ℕ×Bytes)
  | a::b::c::d::rest => do
    let a ← hf_hex2bin a
    let b ← hf_hex2bin b
    let c ← hf_hex2bin c
    let d ← hf_hex2bin d
    return (((a.toNat*16+b.toNat)*16+c.toNat)*16+d.toNat,rest)
  | _ => none

/-- The UTF-8 bytes of a code point. -/
def utf8 (codepoint : ℕ) : Bytes :=
  let tail := fun shift => UInt8.ofNat (0x80+codepoint/2^shift%64)
  if codepoint<0x80 then [UInt8.ofNat codepoint]
  else if codepoint<0x800 then [UInt8.ofNat (0xC0+codepoint/2^6),tail 0]
  else if codepoint<0x10000 then [UInt8.ofNat (0xE0+codepoint/2^12),tail 6,tail 0]
  else [UInt8.ofNat (0xF0+codepoint/2^18),tail 12,tail 6,tail 0]

/-- The escapes of one letter. -/
def letterEscape (c : UInt8) : Option UInt8 :=
  if c=34 ∨ c=47 ∨ c=92 then some c
  else if c=98 then some 8
  else if c=102 then some 12
  else if c=110 then some 10
  else if c=114 then some 13
  else if c=116 then some 9
  else none

/-- A code point by its number, or by the two halves of a surrogate pair. -/
def unicodeEscape (t : Bytes) : Option (Bytes×Bytes) := do
  let high ← hex4 t
  if 0xD800 ≤ high.1 ∧ high.1 ≤ 0xDBFF then
    if high.2.take 2=[92,117] then
      let low ← hex4 (high.2.drop 2)
      if 0xDC00 ≤ low.1 ∧ low.1 ≤ 0xDFFF then
        some (utf8 (0x10000+(high.1-0xD800)*0x400+(low.1-0xDC00)),low.2)
      else none
    else none
  else some (utf8 high.1,high.2)

/-- An escape behind its backslash, with the text behind it. -/
def escape : Bytes → Option (Bytes×Bytes)
  | [] => none
  | c::rest =>
    match letterEscape c with
    | some decoded => some ([decoded],rest)
    | none => if c=117 then unicodeEscape rest else none

/-- One character of a string, with the text behind it. -/
def character : Bytes → Option (Bytes×Bytes)
  | [] => none
  | c::rest =>
    if c=92 then escape rest
    else if c<32 ∨ c=34 then none
    else some ([c],rest)

/-- A string behind its opening quote, with the text behind it. -/
def stringTail : ℕ → Bytes → Option (Bytes×Bytes)
  | 0,_ => none
  | n+1,t =>
    if t.head?=some 34 then some ([],t.tail)
    else do
      let first ← character t
      let others ← stringTail n first.2
      return (first.1++others.1,others.2)

/-- The text behind an expected byte. -/
def expect (c : UInt8) (t : Bytes) : Option Bytes := if t.head?=some c then some t.tail else none

/-- A name, its colon, and the text from the value on. -/
def memberName (n : ℕ) (t : Bytes) : Option (Bytes×Bytes) := do
  let name ← stringTail n (←expect 34 t)
  return (name.1,skipSpace (←expect 58 (skipSpace name.2)))

mutual

/-- A value, with the text behind it. -/
def value : ℕ → Bytes → Option (Json×Bytes)
  | 0,_ => none
  | n+1,t =>
    if t.head?=some 123 then
      let inside := skipSpace t.tail
      if inside.head?=some 125 then some (.object [],inside.tail)
      else (members n inside).map fun r => (.object r.1,r.2)
    else if t.head?=some 91 then
      let inside := skipSpace t.tail
      if inside.head?=some 93 then some (.array [],inside.tail)
      else (elements n inside).map fun r => (.array r.1,r.2)
    else if t.head?=some 34 then (stringTail n t.tail).map fun r => (.string r.1,r.2)
    else if startsWith t (text "null") then some (.null,t.drop 4)
    else if startsWith t (text "true") then some (.bool true,t.drop 4)
    else if startsWith t (text "false") then some (.bool false,t.drop 5)
    else number t

/-- The members of an object up to its closing brace. -/
def members : ℕ → Bytes → Option (List (Bytes×Json)×Bytes)
  | 0,_ => none
  | n+1,t => do
    let name ← memberName n t
    let first ← value n name.2
    let behind := skipSpace first.2
    if behind.head?=some 125 then return ([(name.1,first.1)],behind.tail)
    else do
      let others ← members n (skipSpace (←expect 44 behind))
      return ((name.1,first.1)::others.1,others.2)

/-- The elements of an array up to its closing bracket. -/
def elements : ℕ → Bytes → Option (List Json×Bytes)
  | 0,_ => none
  | n+1,t => do
    let first ← value n t
    let behind := skipSpace first.2
    if behind.head?=some 93 then return ([first.1],behind.tail)
    else do
      let others ← elements n (skipSpace (←expect 44 behind))
      return (first.1::others.1,others.2)

end

/-- A whole text: one value between white space. -/
def decode (n : ℕ) (t : Bytes) : Option Json := do
  let v ← value n (skipSpace t)
  if skipSpace v.2=[] then return v.1 else none

/-- A text denotes a value. -/
def Denotes (t : Bytes) (v : Json) : Prop := ∃ n, decode n t=some v

/-- The value of a text, with fuel for each of its bytes. -/
def parse (t : Bytes) : Option Json := decode (t.length+1) t

/-- A string that needs no escapes. -/
def Plain (s : Bytes) : Prop := ∀ c∈s, c ≠ 34 ∧ c ≠ 92 ∧ 32 ≤ c

instance (s : Bytes) : Decidable (Plain s) :=
  decidable_of_iff (s.all (fun c => decide (c ≠ 34 ∧ c ≠ 92 ∧ 32 ≤ c))=true) (by
    simp only [Plain,List.all_eq_true,decide_eq_true_eq])

theorem plain_cons {c : UInt8} {s : Bytes} :
    Plain (c::s) ↔ (c ≠ 34 ∧ c ≠ 92 ∧ 32 ≤ c) ∧ Plain s := List.forall_mem_cons

@[simp] theorem plain_nil : Plain [] := fun _ h => absurd h List.not_mem_nil

theorem skipSpace_cons {c : UInt8} (h : isSpace c=false) (t : Bytes) :
    skipSpace (c::t)=c::t := by
  rw [skipSpace,List.dropWhile_cons,h]
  rfl

section Strings

/-- A character that needs no escape is read as it stands. -/
theorem character_plain {c : UInt8} (h : c ≠ 34 ∧ c ≠ 92 ∧ 32 ≤ c) (t : Bytes) :
    character (c::t)=some ([c],t) := by
  have hlow : ¬(c<32 ∨ c=34) := by
    rintro (hlt|he)
    · exact absurd h.2.2 (UInt8.not_le.mpr hlt)
    · exact h.1 he
  rw [character,if_neg h.2.1,if_neg hlow]

theorem stringTail_close (n : ℕ) (t : Bytes) : stringTail (n+1) (34::t)=some ([],t) := rfl

/-- A character in front of a string is read before it. -/
theorem stringTail_character {n : ℕ} {t rest x : Bytes} (hhead : t.head? ≠ some 34)
    (h : character t=some (x,rest)) :
    stringTail (n+1) t=(stringTail n rest).map fun r => (x++r.1,r.2) := by
  rw [stringTail,if_neg hhead,h]
  cases hrest : stringTail n rest with
  | none => simp [hrest]
  | some r => simp [hrest]

/-- A string without escapes is read as it stands. -/
theorem stringTail_plain {s : Bytes} (h : Plain s) {n : ℕ} (hn : s.length<n) (t : Bytes) :
    stringTail n (s++34::t)=some (s,t) := by
  induction s generalizing n with
  | nil =>
    obtain ⟨k,rfl⟩ := Nat.exists_eq_succ_of_ne_zero (Nat.ne_of_gt hn)
    exact stringTail_close k t
  | cons c s ih =>
    obtain ⟨hc,hs⟩ := plain_cons.mp h
    obtain ⟨k,rfl⟩ := Nat.exists_eq_succ_of_ne_zero (Nat.ne_of_gt (Nat.zero_lt_of_lt hn))
    have hk : s.length<k := Nat.lt_of_succ_lt_succ hn
    have hhead : (c::(s++34::t)).head? ≠ some 34 := fun he => hc.1 (Option.some.inj he)
    rw [List.cons_append,Nat.succ_eq_add_one,stringTail_character hhead (character_plain hc _),
      ih hs hk]
    rfl

/-- Digits contain no quote, and four of them are read. -/
theorem hex4_some {t rest : Bytes} {k : ℕ} (h : hex4 t=some (k,rest)) :
    ∃ front, t=front++rest ∧ front.length=4 ∧ 34∉front := by
  have hquote : hf_hex2bin 34=none := rfl
  unfold hex4 at h
  split at h
  · rename_i a b c d rest'
    simp only [Option.bind_eq_bind,Option.bind_eq_some_iff,Option.pure_def,Option.some.injEq,
      Prod.mk.injEq] at h
    obtain ⟨a',ha,b',hb,c',hc,d',hd,-,rfl⟩ := h
    refine ⟨[a,b,c,d],rfl,rfl,?_⟩
    simp only [List.mem_cons,List.not_mem_nil,or_false,not_or]
    refine ⟨?_,?_,?_,?_⟩ <;> rintro rfl <;> simp_all only [reduceCtorEq]
  · cases h

theorem length_utf8_le (codepoint : ℕ) : (utf8 codepoint).length ≤ 4 := by
  unfold utf8
  dsimp only
  split_ifs <;> simp

/-- The digits of an escape, with those of the second half of a pair, yield at most one byte
more than they have and hold no quote. -/
theorem unicodeEscape_some {t rest x : Bytes} (h : unicodeEscape t=some (x,rest)) :
    ∃ front, t=front++rest ∧ x.length ≤ front.length+1 ∧ 34∉front := by
  simp only [unicodeEscape,Option.bind_eq_bind,Option.bind_eq_some_iff] at h
  obtain ⟨⟨high,behind⟩,hhigh,h⟩ := h
  obtain ⟨front,rfl,hlength,hquote⟩ := hex4_some hhigh
  dsimp only at h
  split at h
  · split at h
    · rename_i hmark
      obtain ⟨⟨low,behind'⟩,hlow,h⟩ := Option.bind_eq_some_iff.mp h
      obtain ⟨front',hfront',hlength',hquote'⟩ := hex4_some hlow
      have hbehind : behind=[92,117]++(front'++behind') := by
        rw [←hfront',←hmark,List.take_append_drop]
      split at h
      · obtain ⟨rfl,rfl⟩ := Prod.mk.inj (Option.some.inj h)
        refine ⟨front++([92,117]++front'),?_,?_,?_⟩
        · rw [hbehind]
          simp only [List.append_assoc]
        · have hle := length_utf8_le (0x10000+(high-0xD800)*0x400+(low-0xDC00))
          simp only [List.length_cons,List.length_append]
          omega
        · simp only [List.mem_cons,List.mem_append,List.not_mem_nil,or_false,not_or]
          exact ⟨hquote,⟨by decide,by decide⟩,hquote'⟩
      · cases h
    · cases h
  · obtain ⟨rfl,rfl⟩ := Prod.mk.inj (Option.some.inj h)
    have hle := length_utf8_le high
    exact ⟨front,rfl,by omega,hquote⟩

/-- An escape yields no more bytes than it has behind its backslash; a quote is the
escaped letter itself or not part of it. -/
theorem escape_some {t rest x : Bytes} (h : escape t=some (x,rest)) :
    ∃ front, t=front++rest ∧ x.length ≤ front.length ∧
      (34∉front ∨ front=[34] ∧ x=[34]) := by
  cases t with
  | nil => cases h
  | cons e t =>
    rw [escape] at h
    cases hletter : letterEscape e with
    | some decoded =>
      rw [hletter] at h
      obtain ⟨rfl,rfl⟩ := Prod.mk.inj (Option.some.inj h)
      refine ⟨[e],rfl,le_refl 1,?_⟩
      by_cases he : e=34
      · subst he
        obtain rfl := Option.some.inj hletter
        exact Or.inr ⟨rfl,rfl⟩
      · exact Or.inl (fun hm => he (List.mem_singleton.mp hm).symm)
    | none =>
      rw [hletter] at h
      dsimp only at h
      split at h
      · rename_i he
        subst he
        obtain ⟨front,rfl,hlength,hquote⟩ := unicodeEscape_some h
        refine ⟨117::front,rfl,hlength,Or.inl ?_⟩
        simp only [List.mem_cons,not_or]
        exact ⟨by decide,hquote⟩
      · cases h

/-- The letters of an escape lie before the next quote, or it takes that. -/
theorem escape_quoted {s t x behind : Bytes} (h : escape (s++34::t)=some (x,behind)) :
    (∃ front s', s=front++s' ∧ behind=s'++34::t ∧ x.length ≤ front.length) ∨
      s=[] ∧ x=[34] ∧ behind=t := by
  obtain ⟨front,hfront,hlength,hletter⟩ := escape_some h
  rcases List.append_eq_append_iff.mp hfront with ⟨more,rfl,hmore⟩|⟨more,rfl,rfl⟩
  · cases more with
    | nil =>
      rw [List.append_nil] at hlength
      exact Or.inl ⟨s,[],(List.append_nil s).symm,hmore.symm,hlength⟩
    | cons q more =>
      rw [List.cons_append,List.cons.injEq] at hmore
      obtain ⟨rfl,rfl⟩ := hmore
      rcases hletter with hin|⟨hone,rfl⟩
      · exact absurd (List.mem_append_right s List.mem_cons_self) hin
      · have hempty : s=[] ∧ more=[] := by
          have hl := congrArg List.length hone
          simp only [List.length_append,List.length_cons,List.length_nil] at hl
          exact ⟨List.eq_nil_of_length_eq_zero (by omega),
            List.eq_nil_of_length_eq_zero (by omega)⟩
        obtain ⟨rfl,rfl⟩ := hempty
        exact Or.inr ⟨rfl,rfl,rfl⟩
  · exact Or.inl ⟨front,more,rfl,rfl,hlength⟩

/-- Behind a quote that an escape has taken, the comma is read. -/
theorem stringTail_comma {n : ℕ} {t v r : Bytes} (h : stringTail n (44::34::t)=some (v,r)) :
    v=[44] := by
  cases n with
  | zero => cases h
  | succ n =>
    have hhead : (44::34::t).head? ≠ some 34 := fun he =>
      absurd (Option.some.inj he) (by decide)
    rw [stringTail_character hhead (character_plain (by decide) _)] at h
    cases n with
    | zero => cases h
    | succ n =>
      rw [stringTail_close] at h
      exact ((Prod.mk.inj (Option.some.inj h)).1).symm

/-- What is read of a text in quotes that is followed by another string: the text as it
stands, or less, or something that ends in the comma where the text ends in a backslash. -/
def QuotedAs (s v : Bytes) : Prop :=
  (Plain s ∧ v=s) ∨ v.length<s.length ∨ ∃ v' s', v=v'++[44] ∧ s=s'++[92]

/-- An escape yields less than it takes. -/
theorem QuotedAs.escaped {front s x v : Bytes} (h : QuotedAs s v)
    (hlength : x.length ≤ front.length) : QuotedAs (92::(front++s)) (x++v) := by
  rcases h with ⟨-,rfl⟩|hlt|⟨v',s',rfl,rfl⟩
  · refine Or.inr (Or.inl ?_)
    simp only [List.length_append,List.length_cons]
    omega
  · refine Or.inr (Or.inl ?_)
    simp only [List.length_append,List.length_cons]
    omega
  · refine Or.inr (Or.inr ⟨x++v',92::(front++s'),?_,?_⟩)
    · rw [List.append_assoc]
    · rw [List.cons_append,List.append_assoc]

theorem QuotedAs.character {c : UInt8} {s v : Bytes} (h : QuotedAs s v)
    (hc : c ≠ 34 ∧ c ≠ 92 ∧ 32 ≤ c) : QuotedAs (c::s) (c::v) := by
  rcases h with ⟨hs,rfl⟩|hlt|⟨v',s',rfl,rfl⟩
  · exact Or.inl ⟨plain_cons.mpr ⟨hc,hs⟩,rfl⟩
  · exact Or.inr (Or.inl (Nat.succ_lt_succ hlt))
  · exact Or.inr (Or.inr ⟨c::v',c::s',rfl,rfl⟩)

theorem stringTail_quoted {n : ℕ} {s t v r : Bytes}
    (h : stringTail n (s++34::44::34::t)=some (v,r)) : QuotedAs s v := by
  induction n generalizing s v r with
  | zero => cases h
  | succ n ih =>
    cases s with
    | nil =>
      obtain ⟨rfl,-⟩ := Prod.mk.inj (Option.some.inj h)
      exact Or.inl ⟨plain_nil,rfl⟩
    | cons c s =>
      by_cases hquote : c=34
      · subst hquote
        obtain ⟨rfl,-⟩ := Prod.mk.inj (Option.some.inj h)
        exact Or.inr (Or.inl (Nat.zero_lt_succ _))
      have hhead : (c::s++34::44::34::t).head? ≠ some 34 := fun he => hquote (Option.some.inj he)
      rw [stringTail,if_neg hhead] at h
      simp only [Option.bind_eq_bind,Option.bind_eq_some_iff,Option.pure_def,Option.some.injEq,
        Prod.mk.injEq] at h
      obtain ⟨⟨x,behind⟩,hfirst,⟨others,r'⟩,hothers,rfl,rfl⟩ := h
      dsimp only at hothers ⊢
      rw [List.cons_append,JsonText.character] at hfirst
      split at hfirst
      · rename_i hc
        subst hc
        rcases escape_quoted hfirst with ⟨front,s',rfl,rfl,hlength⟩|⟨rfl,rfl,rfl⟩
        · exact (ih hothers).escaped hlength
        · rw [stringTail_comma hothers]
          exact Or.inr (Or.inr ⟨[34],[],rfl,rfl⟩)
      · rename_i hc
        split at hfirst
        · cases hfirst
        · rename_i hlow
          obtain ⟨rfl,rfl⟩ := Prod.mk.inj (Option.some.inj hfirst)
          rw [not_or] at hlow
          exact (ih hothers).character ⟨hquote,hc,UInt8.not_lt.mp hlow.1⟩

/-- A text in quotes that is followed by another string is read as it stands only if it
needs no escapes. -/
theorem plain_of_stringTail {n : ℕ} {s t r : Bytes}
    (h : stringTail n (s++34::44::34::t)=some (s,r)) : Plain s := by
  rcases stringTail_quoted h with ⟨hs,-⟩|hlt|⟨v',s',hv,hs⟩
  · exact hs
  · exact absurd hlt (lt_irrefl _)
  · rw [hv] at hs
    have hlast := (List.append_inj' hs rfl).2
    exact absurd hlast (by decide)

end Strings

section Numbers

/-- The digits of a natural number as bytes. -/
theorem decimal_natCast (k : ℕ) :
    decimal k=(Nat.toDigits 10 k).map fun c => UInt8.ofNat c.toNat := by
  rw [decimal,text,Int.toString_eq_repr,Int.repr_eq_if,if_pos (Int.natCast_nonneg k),
    Int.toNat_natCast,Nat.toList_repr]

/-- A digit as a byte. -/
theorem digit_byte {c : Char} (h : c.isDigit=true) :
    isDigit (UInt8.ofNat c.toNat)=true ∧ (UInt8.ofNat c.toNat).toNat=c.toNat := by
  have hrange : 48 ≤ c.toNat ∧ c.toNat ≤ 57 := by
    simp only [Char.isDigit,Bool.and_eq_true,decide_eq_true_eq] at h
    exact ⟨h.1,h.2⟩
  have hnat : (UInt8.ofNat c.toNat).toNat=c.toNat := by
    rw [UInt8.toNat_ofNat']
    omega
  refine ⟨?_,hnat⟩
  simp only [isDigit,decide_eq_true_eq,UInt8.le_iff_toNat_le,hnat]
  exact hrange

theorem isDigit_of_mem_decimal {k : ℕ} {b : UInt8} (h : b∈decimal k) : isDigit b=true := by
  rw [decimal_natCast] at h
  obtain ⟨c,hc,rfl⟩ := List.mem_map.mp h
  exact (digit_byte (Nat.isDigit_of_mem_toDigits (by decide) (by decide) hc)).1

/-- The digits of a number stand for it. -/
theorem digitsValue_decimal (k : ℕ) : digitsValue (decimal k)=k := by
  have hfold : ∀ (l : List Char) (n : ℕ), (∀ c∈l, c.isDigit=true) →
      (l.map fun c => UInt8.ofNat c.toNat).foldl (fun n c => 10*n+(c.toNat-48)) n=
        Nat.ofDigitChars 10 l n := by
    intro l
    induction l with
    | nil => intro n _; rw [Nat.ofDigitChars_nil]; rfl
    | cons c l ih =>
      intro n hl
      rw [List.map_cons,List.foldl_cons,Nat.ofDigitChars_cons,
        (digit_byte (hl c List.mem_cons_self)).2]
      exact ih _ (fun c' hc' => hl c' (List.mem_cons_of_mem c hc'))
  rw [digitsValue,decimal_natCast,hfold _ _
    (fun c hc => Nat.isDigit_of_mem_toDigits (by decide) (by decide) hc)]
  exact Nat.ofDigitChars_ten_toDigits

/-- Only zero is written with a leading zero. -/
theorem decimal_head {k : ℕ} (h : (decimal k).head?=some 48) : decimal k=[48] := by
  rw [decimal_natCast] at h ⊢
  induction k using Nat.strongRecOn with
  | ind k ih =>
    by_cases hk : k<10
    · rw [Nat.toDigits_of_lt_base hk] at h ⊢
      exact congrArg (fun b => [b]) (Option.some.inj h)
    · exfalso
      have hle : 10 ≤ k := Nat.le_of_not_lt hk
      have hpos : 0<k/10 := Nat.div_pos hle (by decide)
      rw [Nat.toDigits_of_base_le (by decide) hle,List.map_append,List.head?_append_of_ne_nil _
        (by simp)] at h
      have hzero := ih (k/10) (Nat.div_lt_self (by omega) (by decide)) h
      have hvalue := digitsValue_decimal (k/10)
      rw [decimal_natCast,hzero] at hvalue
      have hdigits : digitsValue [48]=0 := rfl
      omega

theorem decimal_ne_nil (k : ℕ) : decimal k ≠ [] := by
  rw [decimal_natCast]
  simp

/-- The text of a number begins with a digit. -/
theorem decimal_eq_cons (k : ℕ) : ∃ d ds, decimal k=d::ds ∧ isDigit d=true := by
  obtain ⟨d,ds,hd⟩ := List.exists_cons_of_ne_nil (decimal_ne_nil k)
  refine ⟨d,ds,hd,isDigit_of_mem_decimal (k:=k) ?_⟩
  rw [hd]
  exact List.mem_cons_self

/-- A number in decimal digits is read as itself, by its text from 2^63 on. -/
theorem number_decimal (k : ℕ) {c : UInt8} (hdigit : isDigit c=false)
    (hmark : c∉([46,101,69] : Bytes)) (t : Bytes) :
    number (decimal k++c::t)=
      some (if k<0x8000000000000000 then .int64 k else .number (decimal k),c::t) := by
  have hsign : ((decimal k++c::t).takeWhile (decide <| ·=45)).take 1=[] := by
    obtain ⟨d,ds,hd,hdigit⟩ := decimal_eq_cons k
    have hne : d ≠ 45 := by
      rintro rfl
      exact absurd hdigit (by decide)
    rw [hd,List.cons_append,List.takeWhile_cons_of_neg (by simpa using hne),List.take_nil]
  have htake : (decimal k++c::t).takeWhile isDigit=decimal k := by
    rw [List.takeWhile_append_of_pos (fun b hb => isDigit_of_mem_decimal hb),
      List.takeWhile_cons_of_neg (by rw [hdigit]; exact Bool.false_ne_true),List.append_nil]
  have hdrop : (decimal k++c::t).dropWhile isDigit=c::t := by
    rw [List.dropWhile_append_of_pos (fun b hb => isDigit_of_mem_decimal hb),
      List.dropWhile_cons_of_neg (by rw [hdigit]; exact Bool.false_ne_true)]
  have hzero : ¬(decimal k=[] ∨ ((decimal k).head?=some 48 ∧ decimal k ≠ [48])) := by
    rintro (h|⟨h,hne⟩)
    · exact decimal_ne_nil k h
    · exact hne (decimal_head h)
  simp only [List.mem_cons,List.not_mem_nil,or_false,not_or] at hmark
  have hfraction : markedDigits [46] [] (c::t)=some ([],c::t) := by
    rw [markedDigits,if_neg (by simpa using hmark.1)]
  have hexponent : markedDigits [101,69] [43,45] (c::t)=some ([],c::t) := by
    rw [markedDigits,if_neg (by simpa using hmark.2)]
  have hvalue : numberValue [] (decimal k) [] []=
      if k<0x8000000000000000 then .int64 k else .number (decimal k) := by
    unfold numberValue
    dsimp only
    rw [if_pos rfl,digitsValue_decimal,List.append_nil,List.append_nil,List.nil_append]
    by_cases hk : k<0x8000000000000000
    · rw [if_pos hk,if_pos ⟨rfl,rfl,by omega,by omega⟩]
    · rw [if_neg hk,if_neg (fun h => hk (by omega))]
  simp only [number,hsign,List.length_nil,List.drop_zero,htake,hdrop,if_neg hzero,hfraction,
    Option.bind_eq_bind,Option.bind_some,hexponent,Option.pure_def,hvalue]

end Numbers

section Members

theorem expect_some_iff {c : UInt8} {t rest : Bytes} :
    expect c t=some rest ↔ t=c::rest := by
  cases t with
  | nil => simp [expect]
  | cons d t => simp only [expect,List.head?_cons,List.tail_cons,Option.some.injEq]; grind

/-- What follows an entry: the closing byte, or a comma and other entries. -/
theorem entries_some_iff {α : Type} {first : α} {close : UInt8} (hclose : close ≠ 44)
    {others : Bytes → Option (List α×Bytes)} {behind : Bytes} {x : List α×Bytes} :
    (if behind.head?=some close then pure ([first],behind.tail)
      else do
        let r ← others (skipSpace (←expect 44 behind))
        return (first::r.1,r.2))=some x ↔
      (∃ rest, behind=close::rest ∧ x=([first],rest)) ∨
      ∃ rest r, behind=44::rest ∧ others (skipSpace rest)=some r ∧ x=(first::r.1,r.2) := by
  by_cases h : behind.head?=some close
  · obtain ⟨rest,rfl⟩ := List.head?_eq_some_iff.mp h
    rw [if_pos h]
    constructor
    · intro hx
      exact Or.inl ⟨rest,rfl,(Option.some.inj hx).symm⟩
    · rintro (⟨rest',hrest,rfl⟩|⟨rest',r,hcomma,-⟩)
      · obtain rfl := (List.cons.inj hrest).2
        rfl
      · exact absurd (List.cons.inj hcomma).1 hclose
  · rw [if_neg h]
    simp only [Option.bind_eq_bind,Option.bind_eq_some_iff,expect_some_iff,Option.pure_def,
      Option.some.injEq]
    constructor
    · rintro ⟨rest,hcomma,r,hr,rfl⟩
      exact Or.inr ⟨rest,r,hcomma,hr,rfl⟩
    · rintro (⟨rest,rfl,-⟩|⟨rest,r,hcomma,hr,rfl⟩)
      · exact absurd rfl h
      · exact ⟨rest,hcomma,r,hr,rfl⟩

/-- Members of an object, the first of them apart. -/
theorem members_some_iff {n : ℕ} {t : Bytes} {x : List (Bytes×Json)×Bytes} :
    members (n+1) t=some x ↔ ∃ name first, memberName n t=some name ∧
      value n name.2=some first ∧
      ((∃ rest, skipSpace first.2=125::rest ∧ x=([(name.1,first.1)],rest)) ∨
        ∃ rest others, skipSpace first.2=44::rest ∧ members n (skipSpace rest)=some others ∧
          x=((name.1,first.1)::others.1,others.2)) := by
  rw [members]
  simp only [Option.bind_eq_bind,Option.bind_eq_some_iff]
  constructor
  · rintro ⟨name,hname,first,hfirst,hrest⟩
    exact ⟨name,first,hname,hfirst,(entries_some_iff (by decide)).mp hrest⟩
  · rintro ⟨name,first,hname,hfirst,hrest⟩
    exact ⟨name,hname,first,hfirst,(entries_some_iff (by decide)).mpr hrest⟩

/-- Elements of an array, the first of them apart. -/
theorem elements_some_iff {n : ℕ} {t : Bytes} {x : List Json×Bytes} :
    elements (n+1) t=some x ↔ ∃ first, value n t=some first ∧
      ((∃ rest, skipSpace first.2=93::rest ∧ x=([first.1],rest)) ∨
        ∃ rest others, skipSpace first.2=44::rest ∧ elements n (skipSpace rest)=some others ∧
          x=(first.1::others.1,others.2)) := by
  rw [elements]
  simp only [Option.bind_eq_bind,Option.bind_eq_some_iff]
  constructor
  · rintro ⟨first,hfirst,hrest⟩
    exact ⟨first,hfirst,(entries_some_iff (by decide)).mp hrest⟩
  · rintro ⟨first,hfirst,hrest⟩
    exact ⟨first,hfirst,(entries_some_iff (by decide)).mpr hrest⟩

end Members

section Fuel

theorem stringTail_mono {n k : ℕ} {t : Bytes} {x : Bytes×Bytes} (h : stringTail n t=some x)
    (hk : n ≤ k) : stringTail k t=some x := by
  induction n generalizing k t x with
  | zero => cases h
  | succ n ih =>
    obtain ⟨k,rfl⟩ := Nat.exists_eq_succ_of_ne_zero (Nat.ne_of_gt (Nat.zero_lt_of_lt hk))
    rw [Nat.succ_eq_add_one]
    by_cases hquote : t.head?=some 34
    · rw [stringTail,if_pos hquote] at h ⊢
      exact h
    · rw [stringTail,if_neg hquote] at h ⊢
      simp only [Option.bind_eq_bind,Option.bind_eq_some_iff] at h ⊢
      obtain ⟨first,hfirst,others,hothers,hx⟩ := h
      exact ⟨first,hfirst,others,ih hothers (Nat.le_of_succ_le_succ hk),hx⟩

theorem memberName_mono {n : ℕ} {t : Bytes} {x : Bytes×Bytes} (h : memberName n t=some x) :
    memberName (n+1) t=some x := by
  simp only [memberName,Option.bind_eq_bind,Option.bind_eq_some_iff] at h ⊢
  obtain ⟨rest,hrest,name,hname,hx⟩ := h
  exact ⟨rest,hrest,name,stringTail_mono hname (Nat.le_succ n),hx⟩

/-- More fuel reads the same. -/
theorem reads_mono (n : ℕ) :
    (∀ t x, value n t=some x → value (n+1) t=some x) ∧
    (∀ t x, members n t=some x → members (n+1) t=some x) ∧
    (∀ t x, elements n t=some x → elements (n+1) t=some x) := by
  induction n with
  | zero =>
    refine ⟨?_,?_,?_⟩
    all_goals
      intro t x h
      cases h
  | succ n ih =>
    obtain ⟨ihv,ihm,ihe⟩ := ih
    refine ⟨?_,?_,?_⟩
    · intro t x h
      rw [value] at h ⊢
      by_cases hobject : t.head?=some 123
      · rw [if_pos hobject] at h ⊢
        by_cases hempty : (skipSpace t.tail).head?=some 125
        · rwa [if_pos hempty] at h ⊢
        · rw [if_neg hempty] at h ⊢
          obtain ⟨r,hr,hx⟩ := Option.map_eq_some_iff.mp h
          exact Option.map_eq_some_iff.mpr ⟨r,ihm _ _ hr,hx⟩
      rw [if_neg hobject] at h ⊢
      by_cases harray : t.head?=some 91
      · rw [if_pos harray] at h ⊢
        by_cases hempty : (skipSpace t.tail).head?=some 93
        · rwa [if_pos hempty] at h ⊢
        · rw [if_neg hempty] at h ⊢
          obtain ⟨r,hr,hx⟩ := Option.map_eq_some_iff.mp h
          exact Option.map_eq_some_iff.mpr ⟨r,ihe _ _ hr,hx⟩
      rw [if_neg harray] at h ⊢
      by_cases hstring : t.head?=some 34
      · rw [if_pos hstring] at h ⊢
        obtain ⟨r,hr,hx⟩ := Option.map_eq_some_iff.mp h
        exact Option.map_eq_some_iff.mpr ⟨r,stringTail_mono hr (Nat.le_succ n),hx⟩
      · rwa [if_neg hstring] at h ⊢
    · intro t x h
      obtain ⟨name,first,hname,hfirst,hrest⟩ := members_some_iff.mp h
      refine members_some_iff.mpr ⟨name,first,memberName_mono hname,ihv _ _ hfirst,?_⟩
      rcases hrest with hlast|⟨rest,others,hcomma,hothers,hx⟩
      · exact Or.inl hlast
      · exact Or.inr ⟨rest,others,hcomma,ihm _ _ hothers,hx⟩
    · intro t x h
      obtain ⟨first,hfirst,hrest⟩ := elements_some_iff.mp h
      refine elements_some_iff.mpr ⟨first,ihv _ _ hfirst,?_⟩
      rcases hrest with hlast|⟨rest,others,hcomma,hothers,hx⟩
      · exact Or.inl hlast
      · exact Or.inr ⟨rest,others,hcomma,ihe _ _ hothers,hx⟩

/-- A whole text begins with its value. -/
theorem decode_some {n : ℕ} {t : Bytes} {v : Json} (h : decode n t=some v) :
    ∃ rest, value n (skipSpace t)=some (v,rest) := by
  simp only [decode,Option.bind_eq_bind,Option.bind_eq_some_iff] at h
  obtain ⟨⟨v',rest⟩,hv,hrest⟩ := h
  split at hrest
  · obtain rfl := Option.some.inj hrest
    exact ⟨rest,hv⟩
  · cases hrest

theorem decode_mono {n k : ℕ} {t : Bytes} {v : Json} (h : decode n t=some v) (hk : n ≤ k) :
    decode k t=some v := by
  induction hk with
  | refl => exact h
  | step _ ih =>
    simp only [decode,Option.bind_eq_bind,Option.bind_eq_some_iff] at ih ⊢
    obtain ⟨x,hx,hv⟩ := ih
    exact ⟨x,(reads_mono _).1 _ _ hx,hv⟩

/-- A text denotes one value at most. -/
theorem denotes_unique {t : Bytes} {v v' : Json} (h : Denotes t v) (h' : Denotes t v') : v=v' := by
  obtain ⟨n,hn⟩ := h
  obtain ⟨n',hn'⟩ := h'
  have heq := (decode_mono hn (Nat.le_max_left n n')).symm.trans
    (decode_mono hn' (Nat.le_max_right n n'))
  exact Option.some.inj heq

end Fuel

section Fields

/-- A string in quotes with the text behind it. -/
def quoted (s rest : Bytes) : Bytes := 34::(s++34::rest)

/-- A member of an object with the text from its value on. -/
def field (name t : Bytes) : Bytes := 34::(name++34::58::t)

variable {n : ℕ}

theorem value_quoted (s t : Bytes) :
    value (n+1) (quoted s t)=(stringTail n (s++34::t)).map fun r => (.string r.1,r.2) := rfl

theorem value_quoted_plain {s : Bytes} (hs : Plain s) (hn : s.length<n) (t : Bytes) :
    value (n+1) (quoted s t)=some (.string s,t) := by
  rw [value_quoted,stringTail_plain hs hn]
  rfl

theorem value_object (name t : Bytes) :
    value (n+1) (123::field name t)=
      (members n (field name t)).map fun r => (.object r.1,r.2) := rfl

/-- A value that begins with a digit is a number. -/
theorem value_decimal (k : ℕ) (t : Bytes) :
    value (n+1) (decimal k++44::t)=
      some (if k<0x8000000000000000 then .int64 k else .number (decimal k),44::t) := by
  have hnumber := number_decimal k (c:=44) rfl (by decide) t
  obtain ⟨d,ds,hd,hdigit⟩ := decimal_eq_cons k
  have hne : ∀ b, isDigit b=false → d ≠ b := by
    rintro b hb rfl
    rw [hb] at hdigit
    cases hdigit
  have hhead : ∀ b, isDigit b=false → (d::(ds++44::t)).head? ≠ some b :=
    fun b hb h => hne b hb (Option.some.inj h)
  have hword : ∀ word b w, word=b::w → isDigit b=false →
      ¬startsWith (d::(ds++44::t)) word=true := by
    rintro word b w rfl hb h
    obtain ⟨rest,hrest⟩ := startsWith_iff.mp h
    exact hne b hb (List.cons.inj hrest).1
  rw [hd,List.cons_append] at hnumber ⊢
  rw [value,if_neg (hhead 123 rfl),if_neg (hhead 91 rfl),if_neg (hhead 34 rfl),
    if_neg (hword (text "null") 110 _ rfl rfl),if_neg (hword (text "true") 116 _ rfl rfl),
    if_neg (hword (text "false") 102 _ rfl rfl),hnumber]

theorem skipSpace_field (name t : Bytes) : skipSpace (field name t)=field name t :=
  skipSpace_cons rfl _

theorem memberName_field {name t : Bytes} (hname : Plain name) (hlength : name.length<n)
    (ht : skipSpace t=t) : memberName n (field name t)=some (name,t) := by
  have hcolon : skipSpace (58::t)=58::t := skipSpace_cons rfl t
  rw [memberName,field]
  simp [expect,stringTail_plain hname hlength,hcolon,ht]

/-- A member is in front of the others that follow its comma. -/
theorem members_field_next {name t name' t' : Bytes} {v : Json} (hname : Plain name)
    (hlength : name.length<n) (ht : skipSpace t=t)
    (hv : value n t=some (v,44::field name' t')) :
    members (n+1) (field name t)=
      (members n (field name' t')).map fun r => ((name,v)::r.1,r.2) := by
  have hcomma : skipSpace (44::field name' t')=44::field name' t' := skipSpace_cons rfl _
  rw [members,memberName_field hname hlength ht]
  simp only [Option.bind_eq_bind,Option.bind_some,hv,hcomma]
  rw [if_neg (by rw [List.head?_cons]; decide)]
  simp only [expect,List.head?_cons,if_true,List.tail_cons,Option.bind_some,skipSpace_field]
  cases members n (field name' t') with
  | none => rfl
  | some r => rfl

/-- A member in front of a closing brace is the last. -/
theorem members_field_last {name t r : Bytes} {v : Json} (hname : Plain name)
    (hlength : name.length<n) (ht : skipSpace t=t) (hv : value n t=some (v,125::r)) :
    members (n+1) (field name t)=some ([(name,v)],r) := by
  have hbrace : skipSpace (125::r)=125::r := skipSpace_cons rfl r
  rw [members,memberName_field hname hlength ht]
  simp only [Option.bind_eq_bind,Option.bind_some,hv,hbrace]
  rfl

/-- The first member read is the first one written. -/
theorem members_field_some {name t : Bytes} {x : List (Bytes×Json)×Bytes} (hname : Plain name)
    (hlength : name.length<n) (ht : skipSpace t=t) (h : members (n+1) (field name t)=some x) :
    ∃ first others, value n t=some first ∧ x.1=(name,first.1)::others := by
  obtain ⟨name',first,hname',hfirst,hrest⟩ := members_some_iff.mp h
  rw [memberName_field hname hlength ht] at hname'
  obtain rfl := Option.some.inj hname'
  rcases hrest with ⟨rest,-,rfl⟩|⟨rest,others,-,-,rfl⟩
  · exact ⟨first,[],hfirst,rfl⟩
  · exact ⟨first,others.1,hfirst,rfl⟩

end Fields

end XmrigCC.JsonText
