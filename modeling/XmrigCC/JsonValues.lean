import XmrigCC.ByteText

/-!
# JSON values read through typed accessors

Accessors of a document model in the manner of C++ libraries: each is meant for
values of one kind. On a value of another kind it still yields something,
which the library decides, and the read is marked as undefined. A reading
collects the value and whether every accessor so far was used as it may be.
-/

namespace XmrigCC.JsonValues

open ByteText

/-- A parsed value over a type of doubles. -/
inductive Value (D : Type) where
  /-- `null`. -/
  | null
  /-- A Boolean. -/
  | bool (value : Bool)
  /-- A number held as an integer, from -2^63 to 2^64-1. -/
  | int (value : ℤ)
  /-- A number held as a double. -/
  | double (value : D)
  /-- A decoded string. -/
  | string (value : Bytes)
  /-- An array. -/
  | array (elements : List (Value D))
  /-- An object with its members in order. -/
  | object (members : List (Bytes×Value D))

/-- A value read, and whether all accessors used for it were defined. -/
@[ext] structure Read (α : Type) where
  /-- What was read. -/
  value : α
  /-- Every accessor was used on a value it is defined on. -/
  defined : Bool

namespace Read

instance : Monad Read where
  pure a := ⟨a,true⟩
  bind x f := ⟨(f x.value).value,x.defined && (f x.value).defined⟩

@[simp] theorem pure_value {α : Type} (a : α) : (pure a : Read α).value=a := rfl

@[simp] theorem pure_defined {α : Type} (a : α) : (pure a : Read α).defined=true := rfl

@[simp] theorem bind_value {α β : Type} (x : Read α) (f : α → Read β) :
    (x>>=f).value=(f x.value).value := rfl

@[simp] theorem bind_defined {α β : Type} (x : Read α) (f : α → Read β) :
    (x>>=f).defined=(x.defined && (f x.value).defined) := rfl

@[simp] theorem map_value {α β : Type} (f : α → β) (x : Read α) :
    (f <$> x).value=f x.value := rfl

@[simp] theorem map_defined {α β : Type} (f : α → β) (x : Read α) :
    (f <$> x).defined=x.defined := Bool.and_true _

end Read

/-- A JSON library: parser, writers, conversion to doubles, and what its accessors find in
values of another kind. -/
structure Library (D : Type) where
  /-- Parser of a C string, `none` for a parse error. -/
  parse : Bytes → Option (Value D)
  /-- Text of the plain writer. -/
  write : Value D → Bytes
  /-- Text of the indenting writer. -/
  prettyWrite : Value D → Bytes
  /-- Conversion of integers. -/
  ofInt : ℤ → D
  /-- `HasMember` of a value that is no object. -/
  strayHasMember : Value D → Bytes → Bool
  /-- `operator[]` of a value that is no object. -/
  strayMember : Value D → Bytes → Value D
  /-- `GetString` of a value that is no string. -/
  strayString : Value D → Bytes
  /-- The bits a value has where an integer would be. -/
  strayBits : Value D → UInt64

/-- The first member of a name. -/
def find {D : Type} (members : List (Bytes×Value D)) (name : Bytes) : Option (Value D) :=
  (members.find? fun m => m.1=name).map Prod.snd

section Accessors

variable {D : Type} (lib : Library D)

/-- `HasMember`. -/
def hasMember (v : Value D) (name : Bytes) : Read Bool :=
  match v with
  | .object members => ⟨(find members name).isSome,true⟩
  | v => ⟨lib.strayHasMember v name,false⟩

/-- `operator[]` with a member's name, null when it is missing. -/
def member (v : Value D) (name : Bytes) : Read (Value D) :=
  match v with
  | .object members => ⟨(find members name).getD .null,(find members name).isSome⟩
  | v => ⟨lib.strayMember v name,false⟩

/-- `GetObject`, a view of the value itself. -/
def getObject (v : Value D) : Read (Value D) :=
  match v with
  | .object members => ⟨.object members,true⟩
  | v => ⟨v,false⟩

/-- `GetString` as a C string. -/
def getString (v : Value D) : Read Bytes :=
  match v with
  | .string value => ⟨cStr value,true⟩
  | v => ⟨cStr (lib.strayString v),false⟩

/-- `GetBool`, a comparison with true. -/
def getBool (v : Value D) : Read Bool :=
  match v with
  | .bool value => ⟨value,true⟩
  | _ => ⟨false,false⟩

/-- The integer found in a value; it is in the range of an accessor from `low` to below
`high` when that accessor may be used. -/
def getBits (low high : ℤ) (v : Value D) : Read ℤ :=
  match v with
  | .int value => ⟨value,decide (low ≤ value ∧ value<high)⟩
  | v => ⟨(lib.strayBits v).toNat,false⟩

/-- `GetInt`. -/
def getInt (v : Value D) : Read Int32 := Int32.ofInt <$> getBits lib (-2^31) (2^31) v

/-- `GetUint`. -/
def getUint (v : Value D) : Read UInt32 := UInt32.ofInt <$> getBits lib 0 (2^32) v

/-- `GetUint64`. -/
def getUint64 (v : Value D) : Read UInt64 := UInt64.ofInt <$> getBits lib 0 (2^64) v

/-- `GetDouble`, which converts integers. -/
def getDouble (v : Value D) : Read D :=
  match v with
  | .double value => ⟨value,true⟩
  | .int value => ⟨lib.ofInt value,true⟩
  | v => ⟨lib.ofInt (lib.strayBits v).toNat,false⟩

@[simp] theorem hasMember_object (members : List (Bytes×Value D)) (name : Bytes) :
    hasMember lib (.object members) name=⟨(find members name).isSome,true⟩ := rfl

@[simp] theorem member_object (members : List (Bytes×Value D)) (name : Bytes) :
    member lib (.object members) name=
      ⟨(find members name).getD .null,(find members name).isSome⟩ := rfl

@[simp] theorem getObject_object (members : List (Bytes×Value D)) :
    getObject (.object members)=⟨.object members,true⟩ := rfl

@[simp] theorem getString_string (value : Bytes) :
    getString lib (.string value)=⟨cStr value,true⟩ := rfl

end Accessors

end XmrigCC.JsonValues
