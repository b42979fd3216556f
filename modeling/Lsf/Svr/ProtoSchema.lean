import Lsf.Foundations.StringSearch
import Mathlib.Data.Int.Notation
import Mathlib.Data.List.Nodup

/-!
# Message schemas

The configuration servers and the JSON converter do not know the messages that they handle. They
look at descriptors, which say what fields a message has.

A schema has the descriptors of message types in `D` and of enumerations in `E`. Names are lists of
bytes. That a field's name is an identifier, and no other field of its message has it, is what the
protocol compiler checks; of identifiers it matters here that they are not empty and have no dot.

## Main definitions

* `FieldType`, `Label`, `FieldDescriptor`, `Schema`
* `Schema.findFieldByName`, `Schema.findValueByName`, `Schema.findMessageTypeByName`

## Main results

* `Schema.findFieldByName_nil`, `Schema.name_of_find`
-/

namespace Lsf.Proto

/-- Bytes of a name. -/
abbrev Name := List UInt8

/-- `NAME_DELIMIT`. -/
def nameDelimit : UInt8 := 46

/-- A text of characters that are one byte each. -/
def text (s : String) : Name :=
  s.toList.map fun c => UInt8.ofNat c.toNat

/-- `FieldDescriptor::Type`, with the descriptors of messages and enumerations. -/
inductive FieldType (D E : Type)
  | double
  | float
  | int64
  | uint64
  | int32
  | fixed64
  | fixed32
  | bool
  | string
  | group (d : D)
  | message (d : D)
  | bytes
  | uint32
  | enum (e : E)
  | sfixed32
  | sfixed64
  | sint32
  | sint64

namespace FieldType

variable {D E : Type}

/-- The number of a type. -/
def number : FieldType D E → ℕ
  | double => 1
  | float => 2
  | int64 => 3
  | uint64 => 4
  | int32 => 5
  | fixed64 => 6
  | fixed32 => 7
  | bool => 8
  | string => 9
  | group _ => 10
  | message _ => 11
  | bytes => 12
  | uint32 => 13
  | enum _ => 14
  | sfixed32 => 15
  | sfixed64 => 16
  | sint32 => 17
  | sint64 => 18

/-- `message_type()`, which groups have too. -/
def messageType : FieldType D E → Option D
  | group d => some d
  | message d => some d
  | _ => none

/-- The message type of a field of `TYPE_MESSAGE`. -/
def subMessage : FieldType D E → Option D
  | message d => some d
  | _ => none

end FieldType

/-- `FieldDescriptor::Label`. -/
inductive Label
  | optional
  | required
  | repeated
  deriving DecidableEq

/-- A field of a message type. -/
structure FieldDescriptor (D E : Type) where
  name : Name
  fullName : Name
  label : Label
  type : FieldType D E

/-- The descriptors of message types and of enumerations. `pool` has the message types that
`generated_pool()` knows. -/
structure Schema (D E : Type) where
  fullName : D → Name
  fields : D → List (FieldDescriptor D E)
  enumFullName : E → Name
  enumValues : E → List (Name × ℤ)
  pool : List D
  fullName_inj : ∀ d d', fullName d = fullName d' → d = d'
  name_ne_nil : ∀ d, ∀ f ∈ fields d, f.name ≠ []
  nameDelimit_notMem : ∀ d, ∀ f ∈ fields d, nameDelimit ∉ f.name
  names_nodup : ∀ d, ((fields d).map FieldDescriptor.name).Nodup

namespace Schema

variable {D E : Type} (s : Schema D E)

/-- `FindFieldByName`. -/
def findFieldByName (d : D) (name : Name) : Option (FieldDescriptor D E) :=
  (s.fields d).find? fun f => f.name = name

/-- `FindValueByName`. -/
def findValueByName (e : E) (name : Name) : Option (Name × ℤ) :=
  (s.enumValues e).find? fun value => value.1 = name

/-- `FindMessageTypeByName`. -/
def findMessageTypeByName (name : Name) : Option D :=
  s.pool.find? fun d => s.fullName d = name

theorem mem_of_findFieldByName {d : D} {name : Name} {f : FieldDescriptor D E}
    (h : s.findFieldByName d name = some f) : f ∈ s.fields d :=
  List.mem_of_find?_eq_some h

/-- What is found has the name. -/
theorem name_of_find {d : D} {name : Name} {f : FieldDescriptor D E}
    (h : s.findFieldByName d name = some f) : f.name = name :=
  of_decide_eq_true (List.find?_some (p := fun g : FieldDescriptor D E => g.name = name) h)

theorem fullName_of_find {d : D} {name : Name} (h : s.findMessageTypeByName name = some d) :
    s.fullName d = name :=
  of_decide_eq_true (List.find?_some (p := fun d : D => s.fullName d = name) h)

/-- There is no field without a name. -/
theorem findFieldByName_nil (d : D) : s.findFieldByName d [] = none := by
  rw [findFieldByName, List.find?_eq_none]
  intro f hf hname
  exact s.name_ne_nil d f hf (of_decide_eq_true hname)

/-- A message `r` with repeated fields `a` and `b`, a field `c` and an enumeration `e`. The type of
`a` and `c` is a message with fields `x`, `y` and `z`. -/
def sample : Schema Bool Unit where
  fullName d := if d then [105] else [114]
  fields d :=
    if d then
      [⟨[120], [105, 46, 120], .optional, .string⟩, ⟨[121], [105, 46, 121], .optional, .bytes⟩,
        ⟨[122], [105, 46, 122], .optional, .string⟩]
    else
      [⟨[97], [114, 46, 97], .repeated, .message true⟩,
        ⟨[98], [114, 46, 98], .repeated, .string⟩,
        ⟨[99], [114, 46, 99], .optional, .message true⟩,
        ⟨[101], [114, 46, 101], .optional, .enum ()⟩]
  enumFullName _ := [110]
  enumValues _ := [([118], 1)]
  pool := [false, true]
  fullName_inj d d' h := by
    cases d <;> cases d' <;> simp at h ⊢
  name_ne_nil d := by
    cases d <;> simp
  nameDelimit_notMem d := by
    cases d <;> simp [nameDelimit]
  names_nodup d := by
    cases d <;> decide

end Schema

end Lsf.Proto
