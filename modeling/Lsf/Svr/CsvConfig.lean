import Lsf.Algorithm.TwoDimensionalTable
import Lsf.Foundations.MarkGrouping
import Lsf.Svr.NameTable

/-!
# Configurations in tables

`CSVConfigProcessor` fills messages from a table in a file. The first row has Chinese names of
columns, which are translated, and each other row becomes a new element of a repeated field. A cell
goes where the name of its column says: `ProcessField` takes the name of a field from the front, and
behind that of a repeated field a mark. If the mark is the one remembered and the field has an
element, the cell goes into the last one, and otherwise the mark is remembered and an element is
added.

The message that a row fills is a store. Messages in it are found by addresses, which have the names
of the fields on the way there, from the inside out, and the indices of elements. What `_pdesc`,
`_pref` and `_pfdesc` are set to is not read later, so they are not there.

The processor here also notes which elements cells went to, and how many values were written.

## Main definitions

* `processField`, `processRow`, `processConfig` — the source's functions
* `resolve` — what the components of a name lead to
* `canStore` — a cell can be stored

## Main results

* `processField_none`, `processField_some` — one call, by the field of its first component
-/

namespace Lsf.CsvConfig

open Proto StringExt NameTableMap

/-! ### Messages -/

/-- What a field can have. -/
inductive Value (R : Type)
  | double (x : R)
  | float (x : R)
  | int64 (x : ℤ)
  | int32 (x : ℤ)
  | uint64 (x : ℕ)
  | uint32 (x : ℕ)
  | bool (x : Bool)
  | string (x : Name)
  | enum (x : ℤ)
  | message

/-- A message and all below it: how many elements repeated fields have, and what there is at an
address. -/
structure Store (R : Type) where
  size : ListAddress Name → Name → ℕ
  value : ListAddress Name → Option (Value R)

/-- A message with nothing in it. -/
def Store.empty {R : Type} : Store R where
  size _ _ := 0
  value _ := none

/-- Where a value is put: into a field, into the last element of one, or into a new one. -/
inductive Slot
  | single
  | last
  | added
  deriving DecidableEq

namespace Store

variable {R : Type}

/-- Which element it is put into. -/
def index (store : Store R) (slot : Slot) (address : ListAddress Name) (field : Name) : Option ℕ :=
  match slot with
  | .single => none
  | .last => some (store.size address field - 1)
  | .added => some (store.size address field)

/-- The reflection's setters and adders. -/
def put (store : Store R) (slot : Slot) (address : ListAddress Name) (field : Name)
    (value : Value R) : Store R where
  size address' field' :=
    if slot = .added ∧ address = address' ∧ field = field' then store.size address' field' + 1
    else store.size address' field'
  value address' :=
    if address' = (field, store.index slot address field) :: address then some value
    else store.value address'

end Store

/-- `TypeCast` of a string to the types of numbers. It gives zero where the string is none. -/
structure TypeCasts (R : Type) where
  double : Name → R
  float : Name → R
  int64 : Name → ℤ
  int32 : Name → ℤ
  uint64 : Name → ℕ
  uint32 : Name → ℕ

/-- Every string is zero. -/
def TypeCasts.zero : TypeCasts ℕ where
  double _ := 0
  float _ := 0
  int64 _ := 0
  int32 _ := 0
  uint64 _ := 0
  uint32 _ := 0

/-! ### The processor -/

/-- The element of a repeated field that a cell went to, or none if nothing was stored. -/
structure Placement where
  address : ListAddress Name
  field : Name
  mark : Name
  index : Option ℕ
  deriving DecidableEq

/-- The processor, with the message that it fills, the elements that cells of it went to and the
number of values that it has written. -/
structure Processor (R : Type) where
  name : Name
  field : Name
  repeatedMark : Name
  errString : Name
  store : Store R
  placed : List Placement
  written : ℕ

/-- The processor before it has done anything. -/
def Processor.fresh : Processor ℕ where
  name := []
  field := []
  repeatedMark := []
  errString := []
  store := .empty
  placed := []
  written := 0

section Functions

variable {D E R : Type} (s : Schema D E) (m : NameTableMap) (casts : TypeCasts R)

/-- `GetFirstToken`. -/
def getFirstToken (p : Processor R) : Option (Name × Processor R) :=
  (firstComponent p.name).map fun fieldName =>
    (fieldName, { p with name := eraseFront p.name fieldName.length })

/-- `StringToBool`. -/
def stringToBool (field : Name) : Bool :=
  if field = [230, 152, 175] then true
  else if field = [229, 144, 166] then false
  else casts.int32 field ≠ 0

/-- What is done with a cell in the cases of the three switches, those for messages apart: the cell
and the error afterwards, and the value. -/
def castField (f : FieldDescriptor D E) (field : Name) : Name × Option Name × Option (Value R) :=
  match f.type with
  | .double => (field, none, some (.double (casts.double field)))
  | .float => (field, none, some (.float (casts.float field)))
  | .sfixed64 | .sint64 | .int64 => (field, none, some (.int64 (casts.int64 field)))
  | .sfixed32 | .sint32 | .int32 => (field, none, some (.int32 (casts.int32 field)))
  | .fixed64 | .uint64 => (field, none, some (.uint64 (casts.uint64 field)))
  | .fixed32 | .uint32 => (field, none, some (.uint32 (casts.uint32 field)))
  | .bool => (field, none, some (.bool (stringToBool casts field)))
  | .string => (field, none, some (.string field))
  | .enum e =>
    let (found, field) := m.translateEnumName (s.enumFullName e) field
    if found then
      match s.findValueByName e field with
      | none =>
        (field, some (text "cant enum value: " ++ s.enumFullName e ++ text " " ++ field), none)
      | some value => (field, none, some (.enum value.2))
    else (field, none, none)
  | _ =>
    (field, some (text "unknown field type: " ++ f.fullName ++ text " " ++
      text (toString f.type.number)), none)

/-- What is noted of a cell that is put somewhere, or was not. -/
def Processor.note (p : Processor R) (slot : Slot) (address : ListAddress Name) (field : Name)
    (index : Option ℕ) : List Placement :=
  if slot = .single then p.placed else p.placed ++ [⟨address, field, p.repeatedMark, index⟩]

/-- The processor with a value put into its message. -/
def Processor.put (p : Processor R) (slot : Slot) (address : ListAddress Name) (field : Name)
    (value : Value R) : Processor R :=
  { p with
    store := p.store.put slot address field value
    placed := p.note slot address field (p.store.index slot address field) }

/-- The three functions with switches, from `ProcessField` and where they put the value. -/
def writeField (processField : D → ListAddress Name → Processor R → Option (Bool × Processor R))
    (slot : Slot) (f : FieldDescriptor D E) (address : ListAddress Name) (p : Processor R) :
    Option (Bool × Processor R) :=
  match f.type.subMessage with
  | some d =>
    processField d ((f.name, p.store.index slot address f.name) :: address)
      (p.put slot address f.name .message)
  | none =>
    let (field, error, value) := castField s m casts f p.field
    let p := { p with field := field, errString := error.getD p.errString }
    match value with
    | none => some (false, { p with placed := p.note slot address f.name none })
    | some value =>
      let p := p.put slot address f.name value
      some (true, { p with written := p.written + 1 })

/-- `ProcessSetField`. -/
def processSetField
    (processField : D → ListAddress Name → Processor R → Option (Bool × Processor R))
    (f : FieldDescriptor D E) (address : ListAddress Name) (p : Processor R) :
    Option (Bool × Processor R) :=
  writeField s m casts processField .single f address p

/-- `ProcessSetRepeatedField`. -/
def processSetRepeatedField
    (processField : D → ListAddress Name → Processor R → Option (Bool × Processor R))
    (f : FieldDescriptor D E) (address : ListAddress Name) (p : Processor R) :
    Option (Bool × Processor R) :=
  writeField s m casts processField .last f address p

/-- `ProcessAddRepeatedField`. -/
def processAddRepeatedField
    (processField : D → ListAddress Name → Processor R → Option (Bool × Processor R))
    (f : FieldDescriptor D E) (address : ListAddress Name) (p : Processor R) :
    Option (Bool × Processor R) :=
  writeField s m casts processField .added f address p

/-- `ProcessField`, for the message of a type at an address. What the other functions return is not
looked at. -/
def processField : ℕ → D → ListAddress Name → Processor R → Option (Bool × Processor R)
  | 0, _, _, _ => none
  | fuel + 1, d, address, p =>
    (getFirstToken p).bind fun (fieldName, p) =>
      match s.findFieldByName d fieldName with
      | none =>
        some (false, { p with
          errString := text "cant find field: " ++ s.fullName d ++ text " " ++ p.name ++ text " " ++
            fieldName })
      | some f =>
        if f.label = .repeated then
          let fieldSize := p.store.size address f.name
          (getFirstToken p).bind fun (mark, p) =>
            if mark = p.repeatedMark ∧ fieldSize ≠ 0 then
              (processSetRepeatedField s m casts (processField fuel) f address p).map
                fun (_, p) => (true, p)
            else
              (processAddRepeatedField s m casts (processField fuel) f address
                { p with repeatedMark := mark }).map fun (_, p) => (true, p)
        else
          (processSetField s m casts (processField fuel) f address p).map fun (_, p) => (true, p)

/-- The loop over the fields of a row, with the names of their columns. -/
def processRow (d : D) : List (Name × Name) → Processor R → Option (Bool × Processor R)
  | [], p => some (true, p)
  | (name, field) :: cells, p =>
    let p := { p with name := name, field := field }
    if name = [] then processRow d cells p
    else if field = [] then processRow d cells p
    else
      (processField s m casts (name.length + 1) d [] p).bind fun (ok, p) =>
        if ok then processRow d cells p else some (false, p)

/-- The first loop of `ProcessConfig`, over the fields. It reads the message type of every field
that it comes to. -/
def findDesc (msgName : Name) :
    List (FieldDescriptor D E) → Option (Option (FieldDescriptor D E × D))
  | [] => some none
  | f :: fs =>
    f.type.messageType.bind fun d =>
      if s.fullName d = msgName ∧ f.label = .repeated then some (some (f, d))
      else findDesc msgName fs

/-- The loop over the names of the columns. -/
def nameTable (d : D) : List Name → Option (List Name)
  | [] => some []
  | chName :: tableLine =>
    (m.translateMessageName s (chName.length + 1) d chName []).bind fun (ret, _, enName) =>
      (nameTable d tableLine).map ((if ret then enName else []) :: ·)

/-- What `ProcessConfig` has before it comes to the rows: the field, the type of its messages, the
names of the columns and the rows; or else an error. It throws where the table is empty. -/
def prepare (files : Name → Option (List UInt8)) (desc : D) (fileName msgName : Name) :
    Option (Except Name (FieldDescriptor D E × D × List Name × List (List Name))) :=
  (findDesc s msgName (s.fields desc)).bind fun found =>
    match found with
    | none => some (.error (text "cant find message descriptor: " ++ msgName))
    | some (f, d) =>
      match files fileName with
      | none => some (.error (text "open file failed: " ++ fileName))
      | some content =>
        (TwoDimensionalTable.parseFromFile (content.length + 3) content).bind fun table =>
          match s.findMessageTypeByName msgName with
          | none => some (.error (text "cant find message from pool: " ++ msgName))
          | some pdesc =>
            match table with
            | [] => none
            | tableLine :: rows =>
              (nameTable s m pdesc tableLine).map fun names => .ok (f, d, names, rows)

/-- The cells of a row, with the names of their columns. -/
def cellsOf (names row : List Name) : List (Name × Name) :=
  names.zipIdx.map fun (name, j) => (name, row.getD j [])

/-- A new element is added, and the mark is cleared. -/
def Processor.newRow (p : Processor R) : Processor R :=
  { p with repeatedMark := [], store := .empty, placed := [] }

/-- The loop over the rows, with the elements of the field. -/
def processRows (d : D) (names : List Name) :
    List (List Name) → List (Store R) → Processor R →
      Option (Bool × List (Store R) × Processor R)
  | [], elements, p => some (true, elements, p)
  | row :: rows, elements, p =>
    (processRow s m casts d (cellsOf names row) p.newRow).bind fun (ok, p) =>
      let elements := elements ++ [p.store]
      if ok then processRows d names rows elements p else some (false, elements, p)

/-- `ProcessConfig`, for a message whose repeated fields have these elements, with the elements
afterwards. -/
def processConfig (files : Name → Option (List UInt8)) (desc : D) (fileName msgName : Name)
    (elements : Name → List (Store R)) (p : Processor R) :
    Option (Bool × (Name → List (Store R)) × Processor R) :=
  (prepare s m files desc fileName msgName).bind fun prepared =>
    match prepared with
    | .error error => some (false, elements, { p with errString := error })
    | .ok (f, d, names, rows) =>
      (processRows s m casts d names rows (elements f.name) p).map fun (ok, added, p) =>
        (ok, fun field => if field = f.name then added else elements field, p)

/-! ### What a name leads to -/

/-- The fields on the way that components lead, with marks of repeated ones, and the field at the
end with its mark, if there is one. -/
def resolve : ℕ → D → List Name →
    List (Name × Option Name) × Option (FieldDescriptor D E × Option Name)
  | 0, _, _ => ([], none)
  | fuel + 1, d, components =>
    match s.findFieldByName d (components.headD []) with
    | none => ([], none)
    | some f =>
      let mark := (markIn f components.tail).head?
      match f.type.subMessage with
      | none => ([], some (f, mark))
      | some d' =>
        let (way, last) := resolve fuel d' (afterMark f components.tail)
        ((f.name, mark) :: way, last)

/-- A cell has a value for a field. -/
def castable (f : FieldDescriptor D E) (field : Name) : Bool :=
  (castField s m casts f field).2.2.isSome

/-- A cell can be stored where the name leads. -/
def canStore (fuel : ℕ) (d : D) (components : List Name) (field : Name) : Bool :=
  match (resolve s fuel d components).2 with
  | none => false
  | some (f, _) => castable s m casts f field

namespace Processor

variable (p : Processor R) (slot : Slot) (address : ListAddress Name) (field : Name)
  (value : Value R)

@[simp] theorem put_name : (p.put slot address field value).name = p.name := rfl
@[simp] theorem put_field : (p.put slot address field value).field = p.field := rfl
@[simp] theorem put_written : (p.put slot address field value).written = p.written := rfl

@[simp] theorem put_repeatedMark :
    (p.put slot address field value).repeatedMark = p.repeatedMark := rfl

@[simp] theorem put_store :
    (p.put slot address field value).store = p.store.put slot address field value := rfl

theorem put_placed : (p.put slot address field value).placed =
    p.note slot address field (p.store.index slot address field) := rfl

end Processor

theorem Store.size_put (store : Store R) (slot : Slot) (address : ListAddress Name) (field : Name)
    (value : Value R) (address' : ListAddress Name) (field' : Name) :
    (store.put slot address field value).size address' field' =
      if slot = .added ∧ address = address' ∧ field = field' then store.size address' field' + 1
      else store.size address' field' := rfl

/-! ### One call -/

/-- The processor behind a component and the mark of a repeated field, from what comes after the
component. -/
def Processor.entered (p : Processor R) (f : FieldDescriptor D E) (rest : List Name) :
    Processor R :=
  { p with
    name := joined (afterMark f rest)
    repeatedMark := (markIn f rest).headD p.repeatedMark }

@[simp] theorem Processor.entered_name (p : Processor R) (f : FieldDescriptor D E)
    (rest : List Name) : (p.entered f rest).name = joined (afterMark f rest) := rfl

@[simp] theorem Processor.entered_field (p : Processor R) (f : FieldDescriptor D E)
    (rest : List Name) : (p.entered f rest).field = p.field := rfl

@[simp] theorem Processor.entered_store (p : Processor R) (f : FieldDescriptor D E)
    (rest : List Name) : (p.entered f rest).store = p.store := rfl

@[simp] theorem Processor.entered_placed (p : Processor R) (f : FieldDescriptor D E)
    (rest : List Name) : (p.entered f rest).placed = p.placed := rfl

@[simp] theorem Processor.entered_written (p : Processor R) (f : FieldDescriptor D E)
    (rest : List Name) : (p.entered f rest).written = p.written := rfl

theorem Processor.entered_repeatedMark (p : Processor R) (f : FieldDescriptor D E)
    (rest : List Name) :
    (p.entered f rest).repeatedMark = (markIn f rest).headD p.repeatedMark := rfl

/-- Where a value goes. -/
def Processor.slotFor (p : Processor R) (f : FieldDescriptor D E) (address : ListAddress Name)
    (rest : List Name) : Slot :=
  if f.label = .repeated then
    if rest.headD [] = p.repeatedMark ∧ p.store.size address f.name ≠ 0 then .last else .added
  else .single

/-- What is noted has the mark, if the field is repeated. -/
theorem Processor.note_entered (p : Processor R) (f : FieldDescriptor D E)
    (address : ListAddress Name) (rest : List Name) (index : Option ℕ) :
    (p.entered f rest).note (p.slotFor f address rest) address f.name index =
      p.placed ++ (markIn f rest).map fun mark => ⟨address, f.name, mark, index⟩ := by
  rw [note, slotFor, entered_repeatedMark, entered_placed, markIn]
  by_cases hrep : f.label = .repeated
  · rw [if_pos hrep, if_pos hrep, if_neg, List.headD_cons, List.map_singleton]
    split
    · exact fun hsingle => Slot.noConfusion hsingle
    · exact fun hsingle => Slot.noConfusion hsingle
  · rw [if_neg hrep, if_neg hrep, if_pos rfl, List.map_nil, List.append_nil]

theorem getFirstToken_joined {p : Processor R} {components : List Name}
    (hfree : ∀ c ∈ components, nameDelimit ∉ c) (hname : p.name = joined components) :
    getFirstToken p = some (components.headD [], { p with name := joined components.tail }) := by
  rw [getFirstToken, hname, firstComponent_joined hfree, Option.map_some, eraseFront_joined]

section Call

variable {fuel : ℕ} {d : D} {components : List Name} {p : Processor R}
  (address : ListAddress Name) (hfree : ∀ c ∈ components, nameDelimit ∉ c)
  (hname : p.name = joined components)
include hfree hname

/-- There is no field of the name. Only an error is set. -/
theorem processField_none (hnone : s.findFieldByName d (components.headD []) = none) :
    ∃ errString, processField s m casts (fuel + 1) d address p =
      some (false, { p with name := joined components.tail, errString := errString }) := by
  rw [processField, getFirstToken_joined hfree hname, Option.bind_some]
  dsimp only
  rw [hnone]
  exact ⟨_, rfl⟩

/-- There is one. The value goes to the field, and what comes of it is not looked at. -/
theorem processField_some {f : FieldDescriptor D E}
    (hsome : s.findFieldByName d (components.headD []) = some f) :
    processField s m casts (fuel + 1) d address p =
      (writeField s m casts (processField s m casts fuel)
        (p.slotFor f address components.tail) f address (p.entered f components.tail)).map
          fun result => (true, result.2) := by
  rw [processField, getFirstToken_joined hfree hname, Option.bind_some]
  dsimp only
  rw [hsome]
  dsimp only
  by_cases hrep : f.label = .repeated
  · rw [if_pos hrep, getFirstToken_joined (tail_free hfree) rfl, Option.bind_some,
      Processor.slotFor, if_pos hrep, Processor.entered, afterMark_of_repeated _ hrep,
      markIn_of_repeated _ hrep, List.headD_cons]
    dsimp only
    split
    · next hlast =>
      rw [processSetRepeatedField, ← hlast.1]
    · rw [processAddRepeatedField]
  · rw [if_neg hrep, Processor.slotFor, if_neg hrep, Processor.entered,
      afterMark_of_not_repeated _ hrep, markIn_of_not_repeated _ hrep, List.headD_nil,
      processSetField]

end Call

section Write

variable (processField : D → ListAddress Name → Processor R → Option (Bool × Processor R))
  {f : FieldDescriptor D E} (slot : Slot) (address : ListAddress Name) (p : Processor R)

theorem writeField_sub {d : D} (hsub : f.type.subMessage = some d) :
    writeField s m casts processField slot f address p =
      processField d ((f.name, p.store.index slot address f.name) :: address)
        (p.put slot address f.name .message) := by
  rw [writeField, hsub]

theorem writeField_leaf (hsub : f.type.subMessage = none) :
    ∃ p', writeField s m casts processField slot f address p =
        some (castable s m casts f p.field, p') ∧
      p'.repeatedMark = p.repeatedMark ∧
      (castable s m casts f p.field = true → ∃ value,
        p'.store = p.store.put slot address f.name value ∧
        p'.placed = (p.put slot address f.name value).placed ∧ p'.written = p.written + 1) ∧
      (castable s m casts f p.field = false →
        p'.store = p.store ∧ p'.placed = p.note slot address f.name none ∧
          p'.written = p.written) := by
  rw [writeField, hsub, castable]
  dsimp only
  rcases castField s m casts f p.field with ⟨field, error, _ | value⟩
  · refine ⟨_, rfl, rfl, ?_, ?_⟩
    · intro h
      cases h
    · intro _
      exact ⟨rfl, rfl, rfl⟩
  · refine ⟨_, rfl, rfl, ?_, ?_⟩
    · intro _
      exact ⟨value, rfl, rfl, rfl⟩
    · intro h
      cases h

end Write

end Functions

end Lsf.CsvConfig
