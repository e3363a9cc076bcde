import Mathlib

/-!
# Byte strings, C strings and path names

Texts are byte lists without their terminator. The tests are those a C or C++
program makes on them: prefix, occurrence, and the text up to the first NUL.
-/

namespace XmrigCC.ByteText

/-- Contents of a `std::string`, or of a C string before its terminator. -/
abbrev Bytes := List UInt8

/-- The bytes of an ASCII literal. -/
def text (s : String) : Bytes := s.toList.map fun c => UInt8.ofNat c.toNat

/-- `str.rfind(prefix, 0) == 0`. -/
def startsWith (str front : Bytes) : Bool := front.isPrefixOf str

/-- `strstr(str, needle) != nullptr`. -/
def strstr (str needle : Bytes) : Bool := str.tails.any (startsWith · needle)

/-- What `c_str()` shows of a `std::string` to a reader of C strings. -/
def cStr (str : Bytes) : Bytes := str.takeWhile (· ≠ 0)

/-- What holds of the 256 values of a byte holds of every byte. -/
theorem forall_byte {P : UInt8 → Prop} (h : ∀ n<256, P (UInt8.ofNat n)) (b : UInt8) : P b := by
  have hb := h b.toNat b.toNat_lt
  rwa [UInt8.ofNat_toNat] at hb

theorem startsWith_iff {str front : Bytes} :
    startsWith str front=true ↔ ∃ rest, str=front++rest := by
  rw [startsWith,List.isPrefixOf_iff_prefix]
  exact ⟨fun ⟨rest,h⟩ => ⟨rest,h.symm⟩,fun ⟨rest,h⟩ => ⟨rest,h.symm⟩⟩

theorem startsWith_append (front rest : Bytes) : startsWith (front++rest) front=true :=
  startsWith_iff.mpr ⟨rest,rfl⟩

/-- A text that begins differently has no such prefix, however it goes on. -/
theorem startsWith_apart {front p : Bytes} (h : ¬p<+:front ∧ ¬front<+:p) (rest : Bytes) :
    ¬startsWith (front++rest) p=true := by
  rw [startsWith,List.isPrefixOf_iff_prefix]
  intro hp
  rcases List.prefix_or_prefix_of_prefix hp (List.prefix_append front rest) with hl|hl
  · exact h.1 hl
  · exact h.2 hl

/-- `strstr` looks at the start of a text and then at the rest. -/
theorem strstr_cons (b : UInt8) (str needle : Bytes) :
    strstr (b::str) needle=(startsWith (b::str) needle || strstr str needle) := by
  rw [strstr,List.tails_cons,List.any_cons,strstr]

/-- No occurrence of a needle begins inside this text, however the text goes on. -/
def StartsNone (front needle : Bytes) : Prop :=
  ∀ t∈front.tails, t ≠ [] → ¬t<+:needle ∧ ¬needle<+:t

instance (front needle : Bytes) : Decidable (StartsNone front needle) :=
  inferInstanceAs (Decidable (∀ t∈front.tails, _))

/-- Behind such a text only the rest can hold the needle. -/
theorem strstr_append {front needle : Bytes} (h : StartsNone front needle) (rest : Bytes) :
    strstr (front++rest) needle=strstr rest needle := by
  induction front with
  | nil => rfl
  | cons b front ih =>
    have hhead : startsWith (b::front++rest) needle=false := by
      have hb := h (b::front) (by rw [List.tails_cons]; exact List.mem_cons_self) (by simp)
      exact Bool.eq_false_iff.mpr (startsWith_apart hb.symm rest)
    have hrest : StartsNone front needle := by
      intro t ht
      exact h t (by rw [List.tails_cons]; exact List.mem_cons_of_mem _ ht)
    rw [List.cons_append,strstr_cons,←List.cons_append,hhead,Bool.false_or,ih hrest]

end XmrigCC.ByteText

/-! A pointer into a string is the list of the cells from it to the terminator. The functions of
the C library read cells one by one, and have no result when they read behind the last. -/

namespace XmrigCC.CStrings

open ByteText

/-- A string without NULs, with the terminator behind it. -/
structure CString where
  /-- The characters. -/
  bytes : Bytes
  /-- None of them is the terminator. -/
  no_nul : 0∉bytes

/-- The cells of a string, the terminator included. -/
def CString.cells (s : CString) : List UInt8 := s.bytes++[0]

@[simp] theorem CString.length_cells (s : CString) : s.cells.length=s.bytes.length+1 := by
  rw [cells,List.length_append,List.length_singleton]

/-- The characters are the cells before the terminator. -/
theorem CString.take_cells (s : CString) {n : ℕ} (h : n ≤ s.bytes.length) :
    s.cells.take n=s.bytes.take n := List.take_append_of_le_length h

/-- The string of a literal. -/
def literal (s : String) (h : 0∉text s := by decide) : CString := ⟨text s,h⟩

/-- A string of characters of another one. -/
def CString.part (s : CString) (bytes : Bytes) (h : bytes ⊆ s.bytes) : CString :=
  ⟨bytes,fun hnul => s.no_nul (h hnul)⟩

/-- `strlen`. -/
def strlen : List UInt8 → Option ℕ
  | [] => none
  | x::xs => if x=0 then some 0 else (strlen xs).map (·+1)

/-- `memcmp`, which reads all the cells it compares. -/
def memcmp : List UInt8 → List UInt8 → ℕ → Option ℤ
  | _,_,0 => some 0
  | x::xs,y::ys,n+1 =>
    (memcmp xs ys n).map fun rest => if x=y then rest else (x.toNat : ℤ)-y.toNat
  | _,_,_+1 => none

/-- `strncmp`, which stops at a difference and at a terminator. -/
def strncmp : List UInt8 → List UInt8 → ℕ → Option ℤ
  | _,_,0 => some 0
  | x::xs,y::ys,n+1 =>
    if x ≠ y then some ((x.toNat : ℤ)-y.toNat) else if x=0 then some 0 else strncmp xs ys n
  | _,_,_+1 => none

/-- The length of a string is found, and nothing behind its terminator is read. -/
theorem strlen_cells (s : CString) : strlen s.cells=some s.bytes.length := by
  obtain ⟨bytes,hnul⟩ := s
  rw [CString.cells]
  induction bytes with
  | nil => rfl
  | cons x xs ih =>
    rw [List.mem_cons,not_or] at hnul
    rw [List.cons_append,strlen,if_neg (Ne.symm hnul.1),ih hnul.2,Option.map_some,
      List.length_cons]

/-- Two bytes differ when their difference is not 0. -/
theorem difference_ne_zero {x y : UInt8} (h : x ≠ y) : (x.toNat : ℤ)-y.toNat ≠ 0 := by
  intro hzero
  exact h (UInt8.toNat_inj.mp (by omega))

/-- Cells that are there are compared. -/
theorem memcmp_spec (xs ys : List UInt8) {n : ℕ} (hx : n ≤ xs.length) (hy : n ≤ ys.length) :
    ∃ r, memcmp xs ys n=some r ∧ (r=0 ↔ xs.take n=ys.take n) := by
  induction n generalizing xs ys with
  | zero =>
    have hnone : xs.take 0=ys.take 0 := by rw [List.take_zero,List.take_zero]
    exact ⟨0,by rw [memcmp],iff_of_true rfl hnone⟩
  | succ n ih =>
    cases xs with
    | nil => cases hx
    | cons x xs =>
      cases ys with
      | nil => cases hy
      | cons y ys =>
        rw [List.length_cons] at hx hy
        obtain ⟨r,hr,hzero⟩ := ih xs ys (by omega) (by omega)
        refine ⟨_,by rw [memcmp,hr,Option.map_some],?_⟩
        rw [List.take_succ_cons,List.take_succ_cons,List.cons.injEq,←hzero]
        by_cases he : x=y
        · rw [if_pos he]
          exact ⟨fun h => ⟨he,h⟩,fun h => h.2⟩
        · rw [if_neg he]
          exact iff_of_false (difference_ne_zero he) fun h => he h.1

/-- Of cells that are there as many are compared as there are characters on one side. -/
theorem strncmp_spec (xs ys : List UInt8) {n : ℕ} (hx : n ≤ xs.length) (hy : n ≤ ys.length)
    (hnul : 0∉xs.take n) : ∃ r, strncmp xs ys n=some r ∧ (r=0 ↔ xs.take n=ys.take n) := by
  induction n generalizing xs ys with
  | zero =>
    have hnone : xs.take 0=ys.take 0 := by rw [List.take_zero,List.take_zero]
    exact ⟨0,by rw [strncmp],iff_of_true rfl hnone⟩
  | succ n ih =>
    cases xs with
    | nil => cases hx
    | cons x xs =>
      cases ys with
      | nil => cases hy
      | cons y ys =>
        rw [List.length_cons] at hx hy
        rw [List.take_succ_cons,List.mem_cons,not_or] at hnul
        rw [List.take_succ_cons,List.take_succ_cons,List.cons.injEq,strncmp]
        by_cases he : x=y
        · obtain ⟨r,hr,hzero⟩ := ih xs ys (by omega) (by omega) hnul.2
          refine ⟨r,by rw [if_neg (not_not.mpr he),if_neg (Ne.symm hnul.1),hr],?_⟩
          rw [hzero]
          exact ⟨fun h => ⟨he,h⟩,fun h => h.2⟩
        · exact ⟨_,if_pos he,iff_of_false (difference_ne_zero he) fun h => he h.1⟩

end XmrigCC.CStrings

/-! A path is cut into parts at its separators. An empty part or a single dot stays where it
is, two dots go back, and any other part is entered. What a path names is found without
looking at links. Parts are the same when they are equal letter by letter, as POSIX has it:
where case does not count, or a part such as `C:name` leaves the directory, this is not what a
path names. -/

namespace XmrigCC.PathNames

variable {α : Type*} [DecidableEq α]

/-- Directories entered, innermost first, after one more part of a path. -/
def enter (dot : α) (rooted : Bool) (inside : List (List α)) (part : List α) : List (List α) :=
  if part=[] ∨ part=[dot] then inside
  else if part=[dot,dot] then
    match inside with
    | [] => if rooted then [] else [part]
    | outer::rest => if outer=[dot,dot] then part::inside else rest
  else part::inside

/-- A path begins at the root. -/
def isRooted (sep : α → Bool) (path : List α) : Bool := path.head?.any sep

/-- What a path names: whether it is counted from the root, and the way to it, its last part
first. Case counts, and there are no drives. -/
def resolve (sep : α → Bool) (dot : α) (path : List α) : Bool×List (List α) :=
  (isRooted sep path,(path.splitOnP sep).foldl (enter dot (isRooted sep path)) [])

/-- The name of an entry of a directory. -/
structure IsEntry (sep : α → Bool) (dot : α) (file : List α) : Prop where
  /-- There is no separator in it. -/
  noSep : ∀ c∈file, sep c=false
  /-- It is not empty. -/
  nonempty : file ≠ []
  /-- It does not stand for the directory itself. -/
  notSelf : file ≠ [dot]
  /-- It does not stand for the one around it. -/
  notParent : file ≠ [dot,dot]

section Entries

variable {sep : α → Bool} {dot : α} {file : List α}

theorem enter_entry (h : IsEntry sep dot file) (rooted : Bool) (inside : List (List α)) :
    enter dot rooted inside file=file::inside := by
  unfold enter
  rw [if_neg (not_or.mpr ⟨h.nonempty,h.notSelf⟩),if_neg h.notParent]

/-- A path that is nothing but an entry's name. -/
theorem resolve_entry (h : IsEntry sep dot file) : resolve sep dot file=(false,[file]) := by
  have hrooted : isRooted sep file=false := by
    cases file with
    | nil => rfl
    | cons c rest => exact h.noSep c List.mem_cons_self
  rw [resolve,hrooted,List.splitOnP_eq_singleton h.noSep,List.foldl_cons,List.foldl_nil,
    enter_entry h]

/-- An entry's name behind a path that ends in a separator. -/
theorem resolve_append_entry (h : IsEntry sep dot file) (dir : List α) {s : α}
    (hs : sep s=true) :
    resolve sep dot (dir++s::file)=
      ((resolve sep dot (dir++[s])).1,file::(resolve sep dot (dir++[s])).2) := by
  have hrooted : isRooted sep (dir++s::file)=isRooted sep (dir++[s]) := by
    cases dir <;> rfl
  have hsplit : (dir++s::file).splitOnP sep=dir.splitOnP sep++[file] := by
    rw [List.splitOnP_append_cons dir file hs,List.splitOnP_eq_singleton h.noSep]
  have hdir : (dir++[s]).splitOnP sep=dir.splitOnP sep++[[]] := List.splitOnP_append_cons dir [] hs
  have hstay : ∀ inside : List (List α), enter dot (isRooted sep (dir++[s])) inside []=inside :=
    fun inside => if_pos (Or.inl rfl)
  rw [resolve,resolve,hrooted,hsplit,hdir,List.foldl_append,List.foldl_append,List.foldl_cons,
    List.foldl_nil,List.foldl_cons,List.foldl_nil,hstay,enter_entry h]

end Entries

end XmrigCC.PathNames
