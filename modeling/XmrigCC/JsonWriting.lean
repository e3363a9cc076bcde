import XmrigCC.JsonText
import XmrigCC.JsonValues

/-!
# Writing JSON documents

A document sends events to a writer, which keeps a stack of levels to know what to put in front
of a value. The plain writer and the indenting one differ in that alone. What they write is the
text of the value, with white space between the tokens or without.
-/

namespace XmrigCC.JsonWriting

open ByteText JsonValues PoolMessages

/-- `internal::dtoa` with the decimal places of the writer, none for a number that is not finite,
and `StrtodNormalPrecision` on the text of a number, none when it is too big. -/
structure Doubles (D : Type) where
  /-- Text of a double. -/
  dtoa : D → Option Bytes
  /-- Double of a text. -/
  strtod : Bytes → Option D

/-- What a document tells its handler. -/
inductive Event (D : Type) where
  /-- `Null`. -/
  | null
  /-- `Bool`. -/
  | bool (b : Bool)
  /-- `Int`, `Uint`, `Int64` or `Uint64`. -/
  | int (i : ℤ)
  /-- `Double`. -/
  | double (d : D)
  /-- `String`, or `Key` in front of a value of an object. -/
  | string (str : Bytes)
  /-- `StartObject`. -/
  | startObject
  /-- `EndObject`. -/
  | endObject
  /-- `StartArray`. -/
  | startArray
  /-- `EndArray`. -/
  | endArray

variable {D : Type}

mutual

/-- `GenericValue::Accept`. -/
def accept : Value D → List (Event D)
  | .null => [.null]
  | .bool b => [.bool b]
  | .int i => [.int i]
  | .double d => [.double d]
  | .string str => [.string str]
  | .array elements => .startArray::(acceptAll elements++[.endArray])
  | .object members => .startObject::(acceptMembers members++[.endObject])

/-- The elements of an array. -/
def acceptAll : List (Value D) → List (Event D)
  | [] => []
  | v::vs => accept v++acceptAll vs

/-- The members of an object. -/
def acceptMembers : List (Bytes×Value D) → List (Event D)
  | [] => []
  | (name,v)::ms => .string name::(accept v++acceptMembers ms)

end

/-- `hexDigits`. -/
def hexDigits (n : UInt8) : UInt8 := if n<10 then 48+n else 55+n

/-- `escape`, the letter of a byte that is not written as it stands. -/
def escapeOf (c : UInt8) : Option UInt8 :=
  if c=34 then some 34
  else if c=92 then some 92
  else if c=8 then some 98
  else if c=9 then some 116
  else if c=10 then some 110
  else if c=12 then some 102
  else if c=13 then some 114
  else if c<32 then some 117
  else none

/-- The body of the loop of `WriteString`. -/
def escaped (c : UInt8) : Bytes :=
  match escapeOf c with
  | some e => 92::e::(if e=117 then [48,48,hexDigits (c>>>4),hexDigits (c&&&0xF)] else [])
  | none => [c]

/-- `WriteString`. -/
def WriteString (str : Bytes) : Bytes := 34::(str.flatMap escaped++[34])

/-- `Level`. -/
structure Level where
  /-- Values in the level, names of members among them. -/
  valueCount : ℕ
  /-- An array or an object. -/
  inArray : Bool

/-- A writer. -/
structure State where
  /-- The output. -/
  os : Bytes
  /-- `level_stack_`, the top first. -/
  levels : List Level

namespace State

/-- `os_->Put` of some bytes. -/
def put (s : State) (t : Bytes) : State := {s with os := s.os++t}

/-- `valueCount++` on the top of the stack. -/
def count (s : State) : State :=
  match s.levels with
  | [] => s
  | level::levels => {s with levels := {level with valueCount := level.valueCount+1}::levels}

/-- A new level on the stack. -/
def push (s : State) (inArray : Bool) : State := {s with levels := ⟨0,inArray⟩::s.levels}

/-- The stack without its top. -/
def pop (s : State) : State := {s with levels := s.levels.tail}

end State

/-- `Prefix`. -/
def Prefix (s : State) : State :=
  match s.levels with
  | [] => s
  | level::_ =>
    (if 0<level.valueCount then
      if level.inArray then s.put [44]
      else s.put [if level.valueCount%2=0 then 44 else 58]
    else s).count

/-- `WriteIndent`. -/
def WriteIndent (s : State) : State := s.put (List.replicate (s.levels.length*4) 32)

/-- `PrettyPrefix` with `kFormatDefault`. -/
def PrettyPrefix (s : State) : State :=
  match s.levels with
  | [] => s
  | level::_ =>
    (if level.inArray then
      let s := if 0<level.valueCount then s.put [44] else s
      WriteIndent (s.put [10])
    else
      let s :=
        if 0<level.valueCount then
          if level.valueCount%2=0 then (s.put [44]).put [10]
          else (s.put [58]).put [32]
        else s.put [10]
      if level.valueCount%2=0 then WriteIndent s else s).count

/-- The end of an object or an array of the plain writer. -/
def close (s : State) (c : UInt8) : State := s.pop.put [c]

/-- The end of an object or an array of the indenting writer. -/
def prettyClose (s : State) (c : UInt8) : State :=
  let empty := match s.levels with
    | [] => true
    | level::_ => level.valueCount=0
  let s := s.pop
  (if empty then s else WriteIndent (s.put [10])).put [c]

/-- A writer by what it puts in front of a value and at an end. -/
structure Style where
  /-- `Prefix` or `PrettyPrefix`. -/
  front : State → State
  /-- `EndObject` or `EndArray`. -/
  close : State → UInt8 → State

/-- `Writer`. -/
def plainStyle : Style := ⟨Prefix,close⟩

/-- `PrettyWriter`. -/
def prettyStyle : Style := ⟨PrettyPrefix,prettyClose⟩

/-- An event: the writer afterwards, and whether it goes on. -/
def handle (nums : Doubles D) (style : Style) (s : State) : Event D → State×Bool
  | .null => ((style.front s).put (text "null"),true)
  | .bool b => ((style.front s).put (text (if b then "true" else "false")),true)
  | .int i => ((style.front s).put (decimal i),true)
  | .double d =>
    match nums.dtoa d with
    | some t => ((style.front s).put t,true)
    | none => (style.front s,false)
  | .string str => ((style.front s).put (WriteString str),true)
  | .startObject => (((style.front s).push false).put [123],true)
  | .endObject => (style.close s 125,true)
  | .startArray => (((style.front s).push true).put [91],true)
  | .endArray => (style.close s 93,true)

/-- Events one after the other, up to one that fails. -/
def handleAll (nums : Doubles D) (style : Style) : State → List (Event D) → State
  | s,[] => s
  | s,e::es =>
    match handle nums style s e with
    | (s,true) => handleAll nums style s es
    | (s,false) => s

/-- `Accept` with a new writer: what the buffer has. -/
def written (nums : Doubles D) (style : Style) (v : Value D) : Bytes :=
  (handleAll nums style ⟨[],[]⟩ (accept v)).os

/-- White space between the tokens of a text. -/
structure Layout where
  /-- In front of an element or a member, by its level. -/
  item : ℕ → Bytes
  /-- Behind a colon. -/
  colon : Bytes
  /-- In front of a closing bracket, by the level behind it. -/
  close : ℕ → Bytes

mutual

/-- The text of a value that lies in a number of levels. -/
def render (nums : Doubles D) (L : Layout) (level : ℕ) : Value D → Bytes
  | .null => text "null"
  | .bool b => text (if b then "true" else "false")
  | .int i => decimal i
  | .double d => (nums.dtoa d).getD []
  | .string str => WriteString str
  | .array elements => 91::((renderAll nums L (level+1) elements).tail++
      ((if elements.isEmpty then [] else L.close level)++[93]))
  | .object members => 123::((renderMembers nums L (level+1) members).tail++
      ((if members.isEmpty then [] else L.close level)++[125]))

/-- Elements, each with a comma in front. -/
def renderAll (nums : Doubles D) (L : Layout) (level : ℕ) : List (Value D) → Bytes
  | [] => []
  | v::vs => 44::(L.item level++(render nums L level v++renderAll nums L level vs))

/-- Members, each with a comma in front. -/
def renderMembers (nums : Doubles D) (L : Layout) (level : ℕ) : List (Bytes×Value D) → Bytes
  | [] => []
  | (name,v)::ms => 44::(L.item level++(WriteString name++58::(L.colon++
      (render nums L level v++renderMembers nums L level ms))))

end

mutual

/-- Conditions on the numbers in a value. -/
def Each (I : ℤ → Prop) (P : D → Prop) : Value D → Prop
  | .int i => I i
  | .double d => P d
  | .array elements => EachOf I P elements
  | .object members => EachMember I P members
  | _ => True

/-- Conditions on the numbers in elements. -/
def EachOf (I : ℤ → Prop) (P : D → Prop) : List (Value D) → Prop
  | [] => True
  | v::vs => Each I P v ∧ EachOf I P vs

/-- Conditions on the numbers in members. -/
def EachMember (I : ℤ → Prop) (P : D → Prop) : List (Bytes×Value D) → Prop
  | [] => True
  | (_,v)::ms => Each I P v ∧ EachMember I P ms

end

/-- A style of writing puts the white space of a layout. -/
structure Style.Lays (style : Style) (L : Layout) : Prop where
  /-- Nothing in front of the root. -/
  root : ∀ os, style.front ⟨os,[]⟩=⟨os,[]⟩
  /-- A comma in front of all but the first element. -/
  element : ∀ os n levels, style.front ⟨os,⟨n,true⟩::levels⟩=
    ⟨os++((if n=0 then [] else [44])++L.item (levels.length+1)),⟨n+1,true⟩::levels⟩
  /-- A comma in front of all but the first name. -/
  name : ∀ os n levels, style.front ⟨os,⟨2*n,false⟩::levels⟩=
    ⟨os++((if n=0 then [] else [44])++L.item (levels.length+1)),⟨2*n+1,false⟩::levels⟩
  /-- A colon in front of the value of a member. -/
  member : ∀ os n levels, style.front ⟨os,⟨2*n+1,false⟩::levels⟩=
    ⟨os++58::L.colon,⟨2*(n+1),false⟩::levels⟩
  /-- The bracket at the end. -/
  close : ∀ os n inArray levels c, style.close ⟨os,⟨n,inArray⟩::levels⟩ c=
    ⟨os++((if n=0 then [] else L.close levels.length)++[c]),levels⟩

/-- No white space. -/
def plainLayout : Layout := ⟨fun _ => [],[],fun _ => []⟩

/-- A line for each element and each member, indented by four blanks a level. -/
def prettyLayout : Layout :=
  ⟨fun level => 10::List.replicate (level*4) 32,[32],fun level => 10::List.replicate (level*4) 32⟩

theorem plain_lays : plainStyle.Lays plainLayout where
  root os := rfl
  element os n levels := by
    cases n with
    | zero =>
      change State.mk os _=State.mk (os++[]) _
      rw [List.append_nil]
    | succ n => rfl
  name os n levels := by
    cases n with
    | zero =>
      change State.mk os _=State.mk (os++[]) _
      rw [List.append_nil]
    | succ n =>
      have heven : 2*(n+1)%2=0 := Nat.mul_mod_right 2 (n+1)
      simp only [plainStyle,Prefix,heven,Nat.succ_ne_zero,if_true,if_false,
        show 0<2*(n+1) by omega]
      rfl
  member os n levels := by
    have hodd : ¬(2*n+1)%2=0 := by omega
    simp only [plainStyle,Prefix,hodd,Nat.zero_lt_succ,if_true,if_false]
    rfl
  close os n inArray levels c := by
    change State.mk (os++[c]) levels=_
    cases n <;> rfl

theorem pretty_lays : prettyStyle.Lays prettyLayout where
  root os := rfl
  element os n levels := by
    cases n with
    | zero =>
      change State.mk (os++[10]++_) _=State.mk (os++([]++10::_)) _
      rw [List.append_assoc]
      rfl
    | succ n =>
      change State.mk (os++[44]++[10]++_) _=State.mk (os++([44]++10::_)) _
      rw [List.append_assoc,List.append_assoc]
      rfl
  name os n levels := by
    have heven : 2*n%2=0 := Nat.mul_mod_right 2 n
    cases n with
    | zero =>
      change State.mk (os++[10]++_) _=State.mk (os++([]++10::_)) _
      rw [List.append_assoc]
      rfl
    | succ n =>
      simp only [prettyStyle,PrettyPrefix,heven,show 0<2*(n+1) by omega,if_true]
      change State.mk (os++[44]++[10]++_) _=State.mk (os++([44]++10::_)) _
      rw [List.append_assoc,List.append_assoc]
      rfl
  member os n levels := by
    have hodd : ¬(2*n+1)%2=0 := by omega
    simp only [prettyStyle,PrettyPrefix,hodd,Nat.zero_lt_succ,if_true,if_false]
    change State.mk (os++[58]++[32]) _=State.mk (os++[58,32]) _
    rw [List.append_assoc]
    rfl
  close os n inArray levels c := by
    cases n with
    | zero => rfl
    | succ n =>
      change State.mk (os++[10]++_++[c]) levels=State.mk (os++(10::_++[c])) levels
      rw [List.append_assoc,List.append_assoc]
      rfl

section Runs

variable {nums : Doubles D} {style : Style} {L : Layout}

/-- A double that has a text. -/
def Finite (nums : Doubles D) (d : D) : Prop := (nums.dtoa d).isSome=true

/-- The front of a value does not change the number of levels. -/
theorem Style.Lays.length_front (h : style.Lays L) (s : State) :
    (style.front s).levels.length=s.levels.length := by
  obtain ⟨os,levels⟩ := s
  match levels with
  | [] => rw [h.root]
  | ⟨n,true⟩::levels => rw [h.element]; rfl
  | ⟨n,false⟩::levels =>
    rcases Nat.even_or_odd' n with ⟨k,rfl | rfl⟩
    · rw [h.name]; rfl
    · rw [h.member]; rfl

/-- An event that writes some bytes. -/
theorem handleAll_put {s : State} {e : Event D} {t : Bytes} {es : List (Event D)}
    (he : handle nums style s e=((style.front s).put t,true)) :
    handleAll nums style s (e::es)=handleAll nums style ((style.front s).put t) es := by
  rw [handleAll,he]

/-- The end of an array or object of some values. -/
theorem handleAll_close (h : style.Lays L) {e : Event D} {c : UInt8}
    (he : ∀ s, handle nums style s e=(style.close s c,true)) (os : Bytes) (n : ℕ) (inArray : Bool)
    (levels : List Level) (es : List (Event D)) :
    handleAll nums style ⟨os,⟨n,inArray⟩::levels⟩ (e::es)=
      handleAll nums style ⟨os++((if n=0 then [] else L.close levels.length)++[c]),levels⟩ es := by
  rw [handleAll,he,h.close]

theorem isEmpty_eq {α : Type} (xs : List α) (t : Bytes) :
    (if xs.isEmpty then [] else t)=if xs.length=0 then [] else t := by
  cases xs <;> rfl

mutual

/-- The events of a value write its text behind what is put in front of it. -/
theorem handleAll_accept (h : style.Lays L) (v : Value D)
    (hv : Each (fun _ => True) (Finite nums) v) (s : State) (es : List (Event D)) :
    handleAll nums style s (accept v++es)=
      handleAll nums style ((style.front s).put (render nums L s.levels.length v)) es := by
  match v with
  | .null => exact handleAll_put rfl
  | .bool b => exact handleAll_put rfl
  | .int i => exact handleAll_put rfl
  | .string str => exact handleAll_put rfl
  | .double d =>
    obtain ⟨t,ht⟩ := Option.isSome_iff_exists.mp hv
    have hevent : handle nums style s (.double d)=((style.front s).put t,true) := by
      rw [handle,ht]
    rw [render,ht]
    exact handleAll_put hevent
  | .array elements =>
    have hlength := h.length_front s
    rw [accept,List.cons_append,List.append_assoc,List.singleton_append,handleAll,handle]
    generalize style.front s=front at hlength
    obtain ⟨os,levels⟩ := front
    change handleAll nums style ⟨os++[91],⟨0,true⟩::levels⟩ _=_
    rw [handleAll_acceptAll h elements hv,handleAll_close h (fun _ => rfl),if_pos rfl,render,
      isEmpty_eq,Nat.zero_add,←hlength]
    simp only [State.put,List.append_assoc,List.nil_append,List.cons_append]
  | .object members =>
    have hlength := h.length_front s
    rw [accept,List.cons_append,List.append_assoc,List.singleton_append,handleAll,handle]
    generalize style.front s=front at hlength
    obtain ⟨os,levels⟩ := front
    change handleAll nums style ⟨os++[123],⟨2*0,false⟩::levels⟩ _=_
    rw [handleAll_acceptMembers h members hv,handleAll_close h (fun _ => rfl),if_pos rfl,render,
      isEmpty_eq,Nat.zero_add,←hlength]
    simp only [State.put,List.append_assoc,List.nil_append,List.cons_append,
      Nat.mul_eq_zero,OfNat.ofNat_ne_zero,false_or]

/-- The events of elements. -/
theorem handleAll_acceptAll (h : style.Lays L) (vs : List (Value D))
    (hvs : EachOf (fun _ => True) (Finite nums) vs) (os : Bytes) (n : ℕ) (levels : List Level)
    (es : List (Event D)) :
    handleAll nums style ⟨os,⟨n,true⟩::levels⟩ (acceptAll vs++es)=
      handleAll nums style ⟨os++(if n=0 then (renderAll nums L (levels.length+1) vs).tail
        else renderAll nums L (levels.length+1) vs),⟨n+vs.length,true⟩::levels⟩ es := by
  match vs with
  | [] =>
    have hnone : (if n=0 then (renderAll nums L (levels.length+1) ([] : List (Value D))).tail
        else renderAll nums L (levels.length+1) [])=[] := by split <;> rfl
    rw [hnone,List.append_nil]
    rfl
  | v::vs =>
    have htext : (if n=0 then (renderAll nums L (levels.length+1) (v::vs)).tail
        else renderAll nums L (levels.length+1) (v::vs))=(if n=0 then [] else [44])++
          (L.item (levels.length+1)++(render nums L (levels.length+1) v++
            renderAll nums L (levels.length+1) vs)) := by
      rw [renderAll]
      split <;> rfl
    have hcount : n+1+vs.length=n+(v::vs).length := by rw [List.length_cons]; omega
    rw [acceptAll,List.append_assoc,handleAll_accept h v hvs.1,h.element]
    change handleAll nums style ⟨_++render nums L (levels.length+1) v,⟨n+1,true⟩::levels⟩ _=_
    rw [handleAll_acceptAll h vs hvs.2,if_neg (Nat.succ_ne_zero n),hcount,htext]
    simp only [List.append_assoc]

/-- The events of members. -/
theorem handleAll_acceptMembers (h : style.Lays L) (ms : List (Bytes×Value D))
    (hms : EachMember (fun _ => True) (Finite nums) ms) (os : Bytes) (n : ℕ) (levels : List Level)
    (es : List (Event D)) :
    handleAll nums style ⟨os,⟨2*n,false⟩::levels⟩ (acceptMembers ms++es)=
      handleAll nums style ⟨os++(if n=0 then (renderMembers nums L (levels.length+1) ms).tail
        else renderMembers nums L (levels.length+1) ms),⟨2*(n+ms.length),false⟩::levels⟩ es := by
  match ms with
  | [] =>
    have hnone : (if n=0 then
        (renderMembers nums L (levels.length+1) ([] : List (Bytes×Value D))).tail
        else renderMembers nums L (levels.length+1) [])=[] := by split <;> rfl
    rw [hnone,List.append_nil]
    rfl
  | (name,v)::ms =>
    have htext : (if n=0 then (renderMembers nums L (levels.length+1) ((name,v)::ms)).tail
        else renderMembers nums L (levels.length+1) ((name,v)::ms))=(if n=0 then [] else [44])++
          (L.item (levels.length+1)++(WriteString name++58::(L.colon++
            (render nums L (levels.length+1) v++renderMembers nums L (levels.length+1) ms)))) := by
      rw [renderMembers]
      split <;> rfl
    have hcount : n+1+ms.length=n+((name,v)::ms).length := by rw [List.length_cons]; omega
    rw [acceptMembers,List.cons_append,List.append_assoc,handleAll_put (t:=WriteString name) rfl,
      h.name]
    change handleAll nums style ⟨_++WriteString name,⟨2*n+1,false⟩::levels⟩ _=_
    rw [handleAll_accept h v hms.1,h.member]
    change handleAll nums style
      ⟨_++render nums L (levels.length+1) v,⟨2*(n+1),false⟩::levels⟩ _=_
    rw [handleAll_acceptMembers h ms hms.2,if_neg (Nat.succ_ne_zero n),hcount,htext]
    simp only [List.append_assoc,List.cons_append]

end

/-- A writer leaves the text of the document. -/
theorem written_eq (h : style.Lays L) {v : Value D}
    (hv : Each (fun _ => True) (Finite nums) v) : written nums style v=render nums L 0 v := by
  have hrun := handleAll_accept h v hv ⟨[],[]⟩ []
  rw [List.append_nil,h.root] at hrun
  rw [written,hrun]
  rfl

end Runs

end XmrigCC.JsonWriting
