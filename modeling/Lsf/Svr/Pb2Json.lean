import Lsf.Svr.ProtoSchema
import Mathlib.Data.List.Forall2

/-!
# Messages and JSON

`Message2Json` writes a message to a JSON value, and `Json2Message` reads one. Both look at the
fields of the message's type one after the other, with a switch for single fields and one for the
elements of repeated fields.

A message has a list of values for each field: those of a repeated field, or at most one. JSON
values are those of `json.hpp`, whose numbers are a 64 bit integer or a floating point number. The
functions here give none where the source throws or a check of the reflection ends the program, as
for a getter on a field of another kind. They run on fuel.

## Main definitions

* `Json`, `Value`, `Message`
* `message2Json`, `json2Message` — the source's functions
* `Typed` — a message is one of a type

## Main results

* `Json.assign_ofEntries` — an object is filled entry by entry
-/

namespace Lsf

open Proto

/-! ### JSON values -/

/-- `nlohmann::json`. An object has its entries in the order in which they came. -/
inductive Json (R : Type)
  | null
  | object (entries : List (Name × Json R))
  | array (elements : List (Json R))
  | string (s : Name)
  | boolean (b : Bool)
  | integer (x : BitVec 64)
  | float (x : R)

namespace Json

variable {R : Type}

/-- The entries with one changed or added. -/
def insertEntry (key : Name) (value : Json R) : List (Name × Json R) → List (Name × Json R)
  | [] => [(key, value)]
  | entry :: entries =>
    if entry.1 = key then (key, value) :: entries else entry :: insertEntry key value entries

/-- `operator[]` of a constant with a key. What is not there is null. -/
def get (json : Json R) (key : Name) : Option (Json R) :=
  match json with
  | object entries => some ((entries.lookup key).getD null)
  | _ => none

/-- `operator[]` with a key, which makes an object of null. -/
def ref (json : Json R) (key : Name) : Option (Json R) :=
  match json with
  | null => some null
  | object entries => some ((entries.lookup key).getD null)
  | _ => none

/-- What is at a key is set. -/
def assign (json : Json R) (key : Name) (value : Json R) : Option (Json R) :=
  match json with
  | null => some (object [(key, value)])
  | object entries => some (object (insertEntry key value entries))
  | _ => none

/-- `operator[]` with an index. -/
def element (json : Json R) (index : ℕ) : Option (Json R) :=
  match json with
  | array elements => elements[index]?
  | _ => none

/-- `operator+=`, which makes an array of null. -/
def append (json value : Json R) : Option (Json R) :=
  match json with
  | null => some (array [value])
  | array elements => some (array (elements ++ [value]))
  | _ => none

/-- How often there is a key. -/
def count (json : Json R) (key : Name) : ℕ :=
  match json with
  | object entries => if (entries.lookup key).isSome then 1 else 0
  | _ => 0

/-- Null, or an object with entries. -/
def ofEntries : List (Name × Json R) → Json R
  | [] => null
  | entries => object entries

theorem ofEntries_of_ne_nil {entries : List (Name × Json R)} (h : entries ≠ []) :
    ofEntries entries = object entries := by
  rcases entries with _ | ⟨entry, rest⟩
  · exact absurd rfl h
  · rfl

section Entries

variable {entries : List (Name × Json R)} {key : Name} (h : entries.lookup key = none)
include h

theorem insertEntry_of_lookup (value : Json R) :
    insertEntry key value entries = entries ++ [(key, value)] := by
  induction entries with
  | nil => rfl
  | cons entry entries ih =>
    rw [List.lookup_cons] at h
    by_cases hkey : entry.1 = key
    · rw [hkey, beq_self_eq_true] at h
      cases h
    · rw [beq_false_of_ne (Ne.symm hkey)] at h
      rw [insertEntry, if_neg hkey, ih h, List.cons_append]

/-- A new entry comes last. -/
theorem assign_ofEntries (value : Json R) :
    (ofEntries entries).assign key value = some (ofEntries (entries ++ [(key, value)])) := by
  have hlast : ofEntries (entries ++ [(key, value)]) = object (entries ++ [(key, value)]) :=
    ofEntries_of_ne_nil (List.append_ne_nil_of_right_ne_nil _ (List.cons_ne_nil _ _))
  by_cases hentries : entries = []
  · rw [hentries]
    rfl
  · rw [hlast, ofEntries_of_ne_nil hentries, assign, insertEntry_of_lookup h]

theorem ref_ofEntries : (ofEntries entries).ref key = some null := by
  by_cases hentries : entries = []
  · rw [hentries]
    rfl
  · rw [ofEntries_of_ne_nil hentries, ref, h, Option.getD_none]

end Entries

end Json

namespace Pb2Json

/-! ### Messages -/

/-- A value of a field. That of an enumeration is its number. -/
inductive Value (R : Type)
  | double (x : R)
  | float (x : R)
  | int64 (x : BitVec 64)
  | uint64 (x : BitVec 64)
  | int32 (x : BitVec 32)
  | uint32 (x : BitVec 32)
  | bool (b : Bool)
  | string (s : Name)
  | enum (number : ℤ)
  | message (fields : List (List (Value R)))

/-- The values of each field, in the order of descriptors. -/
abbrev Message (R : Type) := List (List (Value R))

/-- `ByteSize` is not zero. -/
def isSet {R : Type} (m : Message R) : Bool :=
  m.any (!·.isEmpty)

namespace Value

variable {R : Type}

/-- The number of a value that has one. -/
def getFloat : Value R → Option R
  | float x => some x
  | _ => none

/-- The string of a value that is one. -/
def getString : Value R → Option Name
  | string s => some s
  | _ => none

/-- The number of a value of an enumeration. -/
def getEnum : Value R → Option ℤ
  | enum number => some number
  | _ => none

/-- The message of a value that is one. -/
def getMessage : Value R → Option (Message R)
  | message m => some m
  | _ => none

end Value

section Functions

variable {D E R : Type} (s : Schema D E)

/-- A message in which no field is set. -/
def emptyMessage (d : D) : Message R :=
  (s.fields d).map fun _ => []

/-! ### Writing -/

/-- The cases that the two switches for writing have in common. -/
def scalarJson (t : FieldType D E) (v : Value R) : Option (Json R) :=
  match t, v with
  | .bool, .bool b => some (.boolean b)
  | .int32, .int32 x | .sint32, .int32 x | .sfixed32, .int32 x => some (.integer (x.signExtend 64))
  | .uint32, .uint32 x | .fixed32, .uint32 x => some (.integer (x.setWidth 64))
  | .int64, .int64 x | .sint64, .int64 x | .sfixed64, .int64 x => some (.integer x)
  | .uint64, .uint64 x | .fixed64, .uint64 x => some (.integer x)
  | .string, .string s | .bytes, .string s => some (.string s)
  | _, _ => none

/-- The switch of `Message2Json`. The case of floats goes on into that of strings. -/
def writeField (message2Json : D → Message R → Json R → Option (Json R))
    (f : FieldDescriptor D E) (v : Value R) (json : Json R) : Option (Json R) :=
  match f.type with
  | .message d =>
    v.getMessage.bind fun m =>
      if isSet m then
        (json.ref f.name).bind fun sub => (message2Json d m sub).bind (json.assign f.name)
      else some json
  | .enum _ => v.getEnum.bind fun number => json.assign f.name (.integer (.ofInt 64 number))
  | .float =>
    v.getFloat.bind fun x =>
      (json.assign f.name (.float x)).bind fun json =>
        v.getString.bind fun s => json.assign f.name (.string s)
  | .double | .group _ => some json
  | t => (scalarJson t v).bind (json.assign f.name)

/-- The switch of `RepeatedMessage2Json`: the value and `tmp_json` afterwards. -/
def writeElement (message2Json : D → Message R → Json R → Option (Json R))
    (f : FieldDescriptor D E) (v : Value R) (json : Json R) : Option (Json R × Json R) :=
  match f.type with
  | .message d =>
    v.getMessage.bind fun m =>
      if isSet m then (message2Json d m .null).map (json, ·) else some (json, .null)
  | .enum _ =>
    v.getEnum.bind fun number => (json.assign f.name (.integer (.ofInt 64 number))).map (·, .null)
  | .float => v.getFloat.map fun x => (json, .float x)
  | .double | .group _ => some (json, .null)
  | t => (scalarJson t v).map (json, ·)

/-- `RepeatedMessage2Json`, from the elements that are left. -/
def repeatedMessage2Json (message2Json : D → Message R → Json R → Option (Json R))
    (f : FieldDescriptor D E) : List (Value R) → Json R → Option (Json R)
  | [], json => some json
  | v :: vs, json =>
    (writeElement message2Json f v json).bind fun (json, tmpJson) =>
      (json.append tmpJson).bind (repeatedMessage2Json message2Json f vs)

/-- The loop of `Message2Json`, from the fields that are left. -/
def writeFields (message2Json : D → Message R → Json R → Option (Json R)) :
    List (FieldDescriptor D E) → Message R → Json R → Option (Json R)
  | f :: fs, vs :: m, json =>
    let next :=
      if f.label = .repeated then
        if 0 < vs.length then
          (json.ref f.name).bind fun sub =>
            (repeatedMessage2Json message2Json f vs sub).bind (json.assign f.name)
        else some json
      else
        match vs with
        | [] => some json
        | v :: _ => writeField message2Json f v json
    next.bind fun json => writeFields message2Json fs m json
  | _, _, json => some json

/-- `Message2Json`, of a message of a type. -/
def message2Json : ℕ → D → Message R → Json R → Option (Json R)
  | 0, _, _, _ => none
  | fuel + 1, d, m, json => writeFields (message2Json fuel) (s.fields d) m json

/-! ### Reading -/

/-- Conversions between the types of numbers. -/
structure Conversions (R : Type) where
  toInt64 : R → BitVec 64
  toUInt64 : R → BitVec 64
  toInt32 : R → BitVec 32
  toUInt32 : R → BitVec 32
  ofInteger : BitVec 64 → R

/-- Whole numbers, of which the lower bits are taken. -/
def Conversions.whole : Conversions ℤ where
  toInt64 := .ofInt 64
  toUInt64 := .ofInt 64
  toInt32 := .ofInt 32
  toUInt32 := .ofInt 32
  ofInteger := BitVec.toInt

variable (conversions : Conversions R)

/-- The cases of the two switches for reading, those for messages apart: the value, or none if
nothing is set. -/
def readScalar (t : FieldType D E) (value : Json R) : Option (Value R) :=
  match t, value with
  | .bool, .boolean b => some (.bool b)
  | .bool, .integer x => some (.bool (x.setWidth 32 ≠ 0))
  | .bool, .string s =>
    if s = [116, 114, 117, 101] then some (.bool true)
    else if s = [102, 97, 108, 115, 101] then some (.bool false)
    else none
  | .int32, .integer x | .sint32, .integer x | .sfixed32, .integer x =>
    some (.int32 (x.setWidth 32))
  | .int32, .float x | .sint32, .float x | .sfixed32, .float x =>
    some (.int32 (conversions.toInt32 x))
  | .uint32, .integer x | .fixed32, .integer x => some (.uint32 (x.setWidth 32))
  | .uint32, .float x | .fixed32, .float x => some (.uint32 (conversions.toUInt32 x))
  | .int64, .integer x | .sint64, .integer x | .sfixed64, .integer x => some (.int64 x)
  | .int64, .float x | .sint64, .float x | .sfixed64, .float x =>
    some (.int64 (conversions.toInt64 x))
  | .uint64, .integer x | .fixed64, .integer x => some (.uint64 x)
  | .uint64, .float x | .fixed64, .float x => some (.uint64 (conversions.toUInt64 x))
  | .float, .integer x => some (.float (conversions.ofInteger x))
  | .float, .float x => some (.float x)
  | .double, .integer x => some (.double (conversions.ofInteger x))
  | .double, .float x => some (.double x)
  | .string, .string s | .bytes, .string s => some (.string s)
  | _, _ => none

/-- `MutableMessage`. -/
def mutableMessage (d : D) : List (Value R) → Message R
  | .message m :: _ => m
  | _ => emptyMessage s d

/-- The loop of `Json2RepeatedMessage`, with how often it is still run, `j` and the elements. -/
def readElements (json2Message : D → Json R → Message R → Option (Bool × Message R)) (json : Json R)
    (f : FieldDescriptor D E) : ℕ → ℕ → List (Value R) → Option (List (Value R))
  | 0, _, vs => some vs
  | count + 1, j, vs =>
    match f.type with
    | .enum _ | .group _ => readElements json2Message json f count (j + 1) vs
    | .message d =>
      (json.element j).bind fun value =>
        match value with
        | .object _ =>
          (json2Message d value (emptyMessage s d)).bind fun (_, sub) =>
            readElements json2Message json f count (j + 1) (vs ++ [.message sub])
        | _ => readElements json2Message json f count (j + 1) vs
    | t =>
      (json.element j).bind fun value =>
        readElements json2Message json f count (j + 1)
          (vs ++ (readScalar conversions t value).toList)

/-- `Json2RepeatedMessage`. It asks the array how often it has the name of the field. -/
def json2RepeatedMessage (json2Message : D → Json R → Message R → Option (Bool × Message R))
    (json : Json R) (f : FieldDescriptor D E) (vs : List (Value R)) : Option (List (Value R)) :=
  readElements s conversions json2Message json f (json.count f.name) 0 vs

/-- The body of the loop of `Json2Message`: the values of the field, or none if it returns false. -/
def readField (json2Message : D → Json R → Message R → Option (Bool × Message R))
    (f : FieldDescriptor D E) (value : Json R) (vs : List (Value R)) :
    Option (Option (List (Value R))) :=
  match value with
  | .null => some (some vs)
  | value =>
    if f.label = .repeated then
      match value with
      | .array _ => (json2RepeatedMessage s conversions json2Message value f vs).map some
      | _ => some none
    else
      match f.type, value with
      | .message d, .object _ =>
        (json2Message d value (mutableMessage s d vs)).map fun (_, sub) => some [.message sub]
      | .message _, _ => some (some vs)
      | t, _ =>
        match readScalar conversions t value with
        | none => some (some vs)
        | some v => some (some [v])

/-- The loop of `Json2Message`, from the fields that are left. -/
def readFields (json2Message : D → Json R → Message R → Option (Bool × Message R))
    (json : Json R) : List (FieldDescriptor D E) → Message R → Option (Bool × Message R)
  | f :: fs, vs :: m =>
    (json.get f.name).bind fun value =>
      (readField s conversions json2Message f value vs).bind fun read =>
        match read with
        | none => some (false, vs :: m)
        | some vs => (readFields json2Message json fs m).map fun (ok, m) => (ok, vs :: m)
  | _, m => some (true, m)

/-- `Json2Message`, for a message of a type. -/
def json2Message : ℕ → D → Json R → Message R → Option (Bool × Message R)
  | 0, _, _, _ => none
  | fuel + 1, d, json, m => readFields s conversions (json2Message fuel) json (s.fields d) m

/-! ### Messages of a type -/

/-- A value of a type, where messages in it are not empty. -/
def OfType (typed : D → Message R → Prop) : FieldType D E → Value R → Prop
  | .double, .double _ => True
  | .float, .float _ => True
  | .int64, .int64 _ | .sint64, .int64 _ | .sfixed64, .int64 _ => True
  | .uint64, .uint64 _ | .fixed64, .uint64 _ => True
  | .int32, .int32 _ | .sint32, .int32 _ | .sfixed32, .int32 _ => True
  | .uint32, .uint32 _ | .fixed32, .uint32 _ => True
  | .bool, .bool _ => True
  | .string, .string _ | .bytes, .string _ => True
  | .enum e, .enum number => number ∈ (s.enumValues e).map Prod.snd
  | .message d, .message m => typed d m ∧ isSet m = true
  | _, _ => False

/-- Values that a field can have. -/
def TypedField (typed : D → Message R → Prop) (f : FieldDescriptor D E) (vs : List (Value R)) :
    Prop :=
  (f.label ≠ .repeated → vs.length ≤ 1) ∧ ∀ v ∈ vs, OfType s typed f.type v

/-- A message of a type, with messages in it up to a depth. -/
def Typed : ℕ → D → Message R → Prop
  | 0, _, _ => False
  | depth + 1, d, m => List.Forall₂ (TypedField s (Typed depth)) (s.fields d) m

end Functions

end Pb2Json

end Lsf
