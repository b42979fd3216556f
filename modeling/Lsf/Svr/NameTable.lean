import Lsf.Svr.ProtoSchema
import Lsf.Util.StringExt
import Lsf.Util.Trim

/-!
# The table of names

The columns of a configuration table have Chinese names. `NameTableMap` knows what the fields of
messages and the values of enumerations are called: it reads the comments of the proto files. A
column's name has a component for each field on the way to the value, and behind that of a repeated
field a mark. `TranslateMessageName` takes one component after the other from the front of the name.

It looks for the component without the whitespace around it, but it also erases only as many
characters as are left then. What is not erased is read as another component.

The names in the comments are not empty, as `GetTailComment` gives the empty string where there is
none, and the line is skipped.

## Main definitions

* `NameTableMap`, `translateMessageName`, `translateEnumName` — the source's tables and functions
* `translateComponents` — the translation component by component, given what comes after one
* `Undisturbed` — the erased length does not matter

## Main results

* `translateMessageName_eq` — what the source does, by components
* `not_translateComponents_shifted` — a component too many is never made up for
* `translateMessageName_of_undisturbed`
-/

namespace Lsf

open Proto StringExt

/-- `_message_map` and `_enum_map`. -/
structure NameTableMap where
  messageMap : Name → Option (Name → Option Name)
  enumMap : Name → Option (Name → Option Name)
  messageMap_nil : ∀ name table, messageMap name = some table → table [] = none
  enumMap_nil : ∀ name table, enumMap name = some table → table [] = none

namespace NameTableMap

variable {D E : Type} (m : NameTableMap) (s : Schema D E)

/-- Erases from the front, and a delimiter then. -/
def eraseFront (name : Name) (count : ℕ) : Name :=
  let name := name.drop count
  if name = [] then name else name.drop 1

/-- `SplitGet(name, NAME_DELIMIT, 0)`. -/
def firstComponent (name : Name) : Option Name :=
  splitGet (name.length + 2) name (.char nameDelimit) 0 false

/-- `TranslateMessageName`, with `ch_name` and `en_name` afterwards. -/
def translateMessageName : ℕ → D → Name → Name → Option (Bool × Name × Name)
  | 0, _, _, _ => none
  | fuel + 1, d, chName, enName =>
    match m.messageMap (s.fullName d) with
    | none => some (false, chName, enName)
    | some table =>
      (firstComponent chName).bind fun field =>
        let field := removeTailWhitespace (removeHeadWhitespace field)
        let chName := eraseFront chName field.length
        match table field with
        | none => some (false, chName, enName)
        | some name =>
          match s.findFieldByName d name with
          | none => some (false, chName, enName)
          | some f =>
            let enName := enName ++ if enName = [] then f.name else nameDelimit :: f.name
            let next := if f.label = .repeated then
                (firstComponent chName).map fun nextField =>
                  (eraseFront chName nextField.length, enName ++ nameDelimit :: nextField)
              else some (chName, enName)
            next.bind fun (chName, enName) =>
              match f.type.subMessage with
              | some d' => translateMessageName fuel d' chName enName
              | none => some (decide (chName = []), chName, enName)

/-- `TranslateEnumName`, with `value_name` afterwards. -/
def translateEnumName (enumName valueName : Name) : Bool × Name :=
  match m.enumMap enumName with
  | none => (false, valueName)
  | some table =>
    match table valueName with
    | none => (false, valueName)
    | some name => (true, name)

/-! ### Translating components -/

/-- The field that a Chinese name is for. -/
def fieldNamed (d : D) (chName : Name) : Option (FieldDescriptor D E) :=
  ((m.messageMap (s.fullName d)).bind (· chName)).bind (s.findFieldByName d)

/-- The components after one. -/
def componentsAfter (_ : Name) (rest : List Name) : List Name :=
  rest

/-- The components after one, if only the length without whitespace is erased. -/
def erasedAfter (component : Name) (rest : List Name) : List Name :=
  if trimmed component = component then rest
  else component.drop ((trimmed component).length + 1) :: rest

/-- The mark of a repeated field, that comes first. -/
def markIn (f : FieldDescriptor D E) (rest : List Name) : List Name :=
  if f.label = .repeated then [rest.headD []] else []

/-- What comes after the mark of a repeated field. -/
def afterMark (f : FieldDescriptor D E) (rest : List Name) : List Name :=
  if f.label = .repeated then rest.tail else rest

section Mark

variable {f : FieldDescriptor D E} (rest : List Name)

theorem markIn_of_repeated (h : f.label = .repeated) : markIn f rest = [rest.headD []] :=
  if_pos h

theorem markIn_of_not_repeated (h : f.label ≠ .repeated) : markIn f rest = [] :=
  if_neg h

theorem afterMark_of_repeated (h : f.label = .repeated) : afterMark f rest = rest.tail :=
  if_pos h

theorem afterMark_of_not_repeated (h : f.label ≠ .repeated) : afterMark f rest = rest :=
  if_neg h

end Mark

section Components

variable (after : Name → List Name → List Name)

/-- The names of the fields, each found by a component without the whitespace around it, and the
marks behind those of repeated fields. -/
def translateComponents : ℕ → D → List Name → Option (List Name)
  | 0, _, _ => none
  | fuel + 1, d, components =>
    let component := components.headD []
    (m.fieldNamed s d (trimmed component)).bind fun f =>
      let rest := after component components.tail
      let names := f.name :: markIn f rest
      let rest := afterMark f rest
      match f.type.subMessage with
      | some d' => (translateComponents fuel d' rest).map (names ++ ·)
      | none => if rest = [] ∨ rest = [[]] then some names else none

end Components

/-- No component that a field is found by has whitespace around it. There may be one such character
where the name ends, or has nothing more but an empty mark. -/
def Undisturbed : ℕ → D → List Name → Prop
  | 0, _, _ => True
  | fuel + 1, d, components =>
    let component := components.headD []
    let rest := components.tail
    match m.fieldNamed s d (trimmed component) with
    | none => True
    | some f =>
      match f.type.subMessage with
      | some d' => trimmed component = component ∧ Undisturbed fuel d' (afterMark f rest)
      | none => trimmed component = component ∨
          component.length = (trimmed component).length + 1 ∧
            (rest = [] ∨ f.label = .repeated ∧ rest = [[]])

/-! ### Names and their components -/

/-- The name with these components. -/
def joined (components : List Name) : Name :=
  [nameDelimit].intercalate components

theorem joined_cons (component : Name) (rest : List Name) : joined (component :: rest) =
    component ++ if rest = [] then [] else nameDelimit :: joined rest :=
  intercalate_cons nameDelimit component rest

theorem eraseFront_eq (name : Name) (count : ℕ) :
    eraseFront name count = name.drop (count + 1) := by
  rw [eraseFront, ← List.drop_drop]
  split
  · next hnil => rw [hnil, List.drop_nil]
  · rfl

theorem firstComponent_joined {components : List Name}
    (hfree : ∀ c ∈ components, nameDelimit ∉ c) :
    firstComponent (joined components) = some (components.headD []) :=
  splitGet_first hfree

/-- A whole component and the delimiter are erased. -/
theorem eraseFront_joined (components : List Name) :
    eraseFront (joined components) (components.headD []).length = joined components.tail := by
  rw [eraseFront_eq]
  rcases components with _ | ⟨component, rest⟩
  · rfl
  · rw [List.headD_cons, List.tail_cons, joined_cons, List.drop_append,
      List.drop_of_length_le (Nat.le_succ _), Nat.add_sub_cancel_left, List.nil_append]
    split
    · next hnil =>
      rw [hnil]
      rfl
    · rfl

theorem trimmed_nil : trimmed [] = [] := rfl

theorem length_trimmed_lt {component : Name} (h : trimmed component ≠ component) :
    (trimmed component).length < component.length := by
  have hsublist : (trimmed component).Sublist component :=
    (List.rdropWhile_prefix _ _).sublist.trans (List.dropWhile_sublist _)
  refine Nat.lt_of_le_of_ne hsublist.length_le ?_
  intro hlen
  exact h (hsublist.eq_of_length hlen)

/-- **What the source erases** of a component. -/
theorem eraseFront_trimmed (components : List Name) :
    eraseFront (joined components) (trimmed (components.headD [])).length =
      joined (erasedAfter (components.headD []) components.tail) := by
  rw [erasedAfter]
  split
  · next h => rw [h, eraseFront_joined]
  · next h =>
    rcases components with _ | ⟨component, rest⟩
    · exact absurd trimmed_nil h
    · have hlt := length_trimmed_lt h
      rw [List.headD_cons] at hlt ⊢
      rw [List.tail_cons, eraseFront_eq, joined_cons, joined_cons, List.drop_append,
        Nat.sub_eq_zero_of_le hlt, List.drop_zero]

theorem joined_eq_nil_iff {components : List Name} :
    joined components = [] ↔ components = [] ∨ components = [[]] := by
  rcases components with _ | ⟨component, rest⟩
  · exact iff_of_true rfl (.inl rfl)
  · rw [joined_cons, List.append_eq_nil_iff]
    constructor
    · rintro ⟨rfl, hrest⟩
      split at hrest
      · next hnil => exact .inr (by rw [hnil])
      · cases hrest
    · intro h
      rcases h with h | h
      · cases h
      · obtain ⟨rfl, rfl⟩ := List.cons.inj h
        exact ⟨rfl, if_pos rfl⟩

theorem joined_append {front back : List Name} (hfront : front ≠ []) (hback : back ≠ []) :
    joined (front ++ back) = joined front ++ nameDelimit :: joined back := by
  induction front with
  | nil => exact absurd rfl hfront
  | cons component front ih =>
    rw [List.cons_append, joined_cons, joined_cons, List.append_assoc]
    by_cases hnil : front = []
    · rw [hnil, List.nil_append, if_neg hback, if_pos rfl, List.nil_append]
    · rw [if_neg hnil, if_neg fun h => hnil (List.append_eq_nil_iff.mp h).1, ih hnil,
        List.cons_append]

/-- `en_name` with a path appended. -/
def appendName (enName : Name) (path : List Name) : Name :=
  enName ++ if enName = [] then joined path else nameDelimit :: joined path

theorem appendName_append (enName : Name) {front back : List Name} (hfront : joined front ≠ [])
    (hback : back ≠ []) :
    appendName (appendName enName front) back = appendName enName (front ++ back) := by
  have hne : front ≠ [] := by
    intro hnil
    rw [hnil] at hfront
    exact hfront rfl
  have hname : appendName enName front ≠ [] := by
    rw [appendName]
    intro h
    obtain ⟨rfl, hrest⟩ := List.append_eq_nil_iff.mp h
    rw [if_pos rfl] at hrest
    exact hfront hrest
  rw [appendName, if_neg hname, appendName, appendName, joined_append hne hback]
  by_cases hnil : enName = []
  · rw [if_pos hnil, if_pos hnil, List.append_assoc]
  · rw [if_neg hnil, if_neg hnil, List.append_assoc, List.cons_append]

theorem appendName_single (enName name : Name) : appendName enName [name] =
    enName ++ if enName = [] then name else nameDelimit :: name := by
  rw [appendName, joined_cons, if_pos rfl, List.append_nil]

theorem appendName_mark (enName name mark : Name) : appendName enName [name, mark] =
    (enName ++ if enName = [] then name else nameDelimit :: name) ++ nameDelimit :: mark := by
  rw [appendName, joined_cons, if_neg (List.cons_ne_nil _ _), joined_cons, if_pos rfl,
    List.append_nil]
  by_cases hnil : enName = []
  · rw [if_pos hnil, if_pos hnil, List.append_assoc]
  · rw [if_neg hnil, if_neg hnil, List.append_assoc, List.cons_append]

section Free

variable {components : List Name} (hfree : ∀ c ∈ components, nameDelimit ∉ c)
include hfree

theorem headD_free : nameDelimit ∉ components.headD [] := by
  rcases components with _ | ⟨component, rest⟩
  · exact List.not_mem_nil
  · exact hfree component List.mem_cons_self

theorem tail_free : ∀ c ∈ components.tail, nameDelimit ∉ c := by
  intro c hc
  exact hfree c (List.mem_of_mem_tail hc)

theorem afterMark_free (f : FieldDescriptor D E) :
    ∀ c ∈ afterMark f components, nameDelimit ∉ c := by
  rw [afterMark]
  split
  · exact tail_free hfree
  · exact hfree

end Free

theorem joined_ne_nil {component : Name} {rest : List Name} (h : component ≠ []) :
    joined (component :: rest) ≠ [] := by
  rw [joined_cons]
  intro hnil
  exact h (List.append_eq_nil_iff.mp hnil).1

theorem length_joined_pos {components : List Name} (h : components.headD [] ≠ []) :
    0 < (joined components).length := by
  rcases components with _ | ⟨component, rest⟩
  · exact absurd rfl h
  · exact List.length_pos_iff.mpr (joined_ne_nil h)

theorem length_joined_afterMark (f : FieldDescriptor D E) (rest : List Name) :
    (joined (afterMark f rest)).length ≤ (joined rest).length := by
  rw [afterMark]
  split
  · rw [← eraseFront_joined, eraseFront_eq, List.length_drop]
    exact Nat.sub_le _ _
  · exact Nat.le_refl _

/-! ### What the source does -/

/-- There is no field for an empty name. -/
theorem fieldNamed_nil (d : D) : m.fieldNamed s d [] = none := by
  rw [fieldNamed]
  rcases htable : m.messageMap (s.fullName d) with _ | table
  · rfl
  · rw [Option.bind_some, m.messageMap_nil _ table htable]
    rfl

section Fields

variable {m s} {d : D} {chName : Name} {f : FieldDescriptor D E}

theorem ne_nil_of_fieldNamed (h : m.fieldNamed s d chName = some f) : chName ≠ [] := by
  intro hnil
  rw [hnil, fieldNamed_nil] at h
  cases h

theorem ne_nil_of_fieldNamed_trimmed (h : m.fieldNamed s d (trimmed chName) = some f) :
    chName ≠ [] := by
  intro hnil
  rw [hnil] at h
  exact ne_nil_of_fieldNamed h rfl

theorem findFieldByName_of_fieldNamed (h : m.fieldNamed s d chName = some f) :
    s.findFieldByName d f.name = some f := by
  obtain ⟨name, -, hf⟩ := Option.bind_eq_some_iff.mp h
  rw [s.name_of_find hf, hf]

theorem ne_nil_of_translateComponents {after : Name → List Name → List Name} {fuel : ℕ}
    {components path : List Name}
    (h : m.translateComponents s after fuel d components = some path) : path ≠ [] := by
  rcases fuel with _ | fuel
  · cases h
  rw [translateComponents] at h
  obtain ⟨f, -, h⟩ := Option.bind_eq_some_iff.mp h
  dsimp only at h
  split at h
  · obtain ⟨inner, -, rfl⟩ := Option.map_eq_some_iff.mp h
    exact List.cons_ne_nil _ _
  · split at h
    · rw [← Option.some.inj h]
      exact List.cons_ne_nil _ _
    · cases h

theorem name_ne_nil_of_fieldNamed (h : m.fieldNamed s d chName = some f) : f.name ≠ [] :=
  s.name_ne_nil d f (s.mem_of_findFieldByName (findFieldByName_of_fieldNamed h))

end Fields

theorem erasedAfter_free {component : Name} {rest : List Name}
    (hcomponent : nameDelimit ∉ component) (hrest : ∀ c ∈ rest, nameDelimit ∉ c) :
    ∀ c ∈ erasedAfter component rest, nameDelimit ∉ c := by
  rw [erasedAfter]
  split
  · exact hrest
  · intro c hc hmem
    rcases List.mem_cons.mp hc with rfl | hc
    · exact hcomponent (List.mem_of_mem_drop hmem)
    · exact hrest c hc hmem

theorem length_eraseFront_le (name : Name) (count : ℕ) :
    (eraseFront name count).length ≤ name.length - 1 := by
  rw [eraseFront_eq, List.length_drop]
  omega

/-- One component, for which there is no field. -/
theorem translateMessageName_none {fuel : ℕ} {d : D} {components : List Name} (enName : Name)
    (hfree : ∀ c ∈ components, nameDelimit ∉ c)
    (hnone : m.fieldNamed s d (trimmed (components.headD [])) = none) :
    ∃ chName', m.translateMessageName s (fuel + 1) d (joined components) enName =
      some (false, chName', enName) := by
  rw [translateMessageName]
  rw [fieldNamed] at hnone
  rcases htable : m.messageMap (s.fullName d) with _ | table
  · exact ⟨_, rfl⟩
  dsimp only
  rw [firstComponent_joined hfree, Option.bind_some, removeWhitespace_eq]
  rw [htable, Option.bind_some] at hnone
  rcases hname : table (trimmed (components.headD [])) with _ | name
  · exact ⟨_, rfl⟩
  rw [hname, Option.bind_some] at hnone
  dsimp only
  rw [hnone]
  exact ⟨_, rfl⟩

/-- One component, for which there is a field. The mark of a repeated field is copied. -/
theorem translateMessageName_some {fuel : ℕ} {d : D} {components : List Name} (enName : Name)
    {f : FieldDescriptor D E} (hfree : ∀ c ∈ components, nameDelimit ∉ c)
    (hsome : m.fieldNamed s d (trimmed (components.headD [])) = some f) :
    m.translateMessageName s (fuel + 1) d (joined components) enName =
      let rest := erasedAfter (components.headD []) components.tail
      let chName' := joined (afterMark f rest)
      let enName' := appendName enName (f.name :: markIn f rest)
      match f.type.subMessage with
      | some d' => m.translateMessageName s fuel d' chName' enName'
      | none => some (decide (chName' = []), chName', enName') := by
  obtain ⟨name, htable, hf⟩ := Option.bind_eq_some_iff.mp hsome
  obtain ⟨table, htables, hname⟩ := Option.bind_eq_some_iff.mp htable
  rw [translateMessageName, htables]
  dsimp only
  rw [firstComponent_joined hfree, Option.bind_some, removeWhitespace_eq, eraseFront_trimmed]
  rw [hname]
  dsimp only
  rw [hf]
  dsimp only
  have hfree' := erasedAfter_free (headD_free hfree) (tail_free hfree)
  generalize erasedAfter (components.headD []) components.tail = rest at hfree' ⊢
  by_cases hrep : f.label = .repeated
  · rw [if_pos hrep, firstComponent_joined hfree', Option.map_some, Option.bind_some,
      eraseFront_joined, afterMark_of_repeated _ hrep, markIn_of_repeated _ hrep, appendName_mark]
  · rw [if_neg hrep, Option.bind_some, afterMark_of_not_repeated _ hrep,
      markIn_of_not_repeated _ hrep, appendName_single]

/-- **The source's translation, by components**: what comes after one is what was not erased. -/
theorem translateMessageName_eq (fuel : ℕ) (d : D) (components : List Name) (enName : Name)
    (hfree : ∀ c ∈ components, nameDelimit ∉ c) (hfuel : (joined components).length < fuel) :
    ∃ ok chName' enName',
      m.translateMessageName s fuel d (joined components) enName = some (ok, chName', enName') ∧
      (if ok then some enName' else none) =
        (m.translateComponents s erasedAfter fuel d components).map (appendName enName) := by
  induction fuel generalizing d components enName with
  | zero => exact absurd hfuel (Nat.not_lt_zero _)
  | succ fuel ih =>
    rw [translateComponents]
    dsimp only
    rcases hf : m.fieldNamed s d (trimmed (components.headD [])) with _ | f
    · obtain ⟨chName', h⟩ := translateMessageName_none m s enName hfree hf
      exact ⟨false, chName', enName, h, rfl⟩
    rw [translateMessageName_some m s enName hfree hf, Option.bind_some]
    dsimp only
    have hlength : (joined (erasedAfter (components.headD []) components.tail)).length < fuel := by
      rw [← eraseFront_trimmed]
      refine Nat.lt_of_le_of_lt (length_eraseFront_le _ _) ?_
      have hpos := length_joined_pos (ne_nil_of_fieldNamed_trimmed hf)
      omega
    have hfree' := erasedAfter_free (headD_free hfree) (tail_free hfree)
    generalize erasedAfter (components.headD []) components.tail = rest at hlength hfree' ⊢
    have hjoined : joined (f.name :: markIn f rest) ≠ [] :=
      joined_ne_nil (name_ne_nil_of_fieldNamed hf)
    rcases f.type.subMessage with _ | d'
    · refine ⟨_, _, _, rfl, ?_⟩
      by_cases hend : afterMark f rest = [] ∨ afterMark f rest = [[]]
      · rw [if_pos (decide_eq_true (joined_eq_nil_iff.mpr hend)), if_pos hend, Option.map_some]
      · rw [if_neg fun h => hend (joined_eq_nil_iff.mp (of_decide_eq_true h)), if_neg hend,
          Option.map_none]
    · obtain ⟨ok, chName', enName', hresult, hok⟩ := ih d' (afterMark f rest)
        (appendName enName (f.name :: markIn f rest)) (afterMark_free hfree' f)
        (Nat.lt_of_le_of_lt (length_joined_afterMark f rest) hlength)
      refine ⟨ok, chName', enName', hresult, ?_⟩
      rw [hok]
      dsimp only
      rcases hpath : m.translateComponents s erasedAfter fuel d' (afterMark f rest) with _ | path
      · rfl
      · rw [Option.map_some, Option.map_some, Option.map_some,
          appendName_append enName hjoined (ne_nil_of_translateComponents hpath)]

/-! ### When this is right -/

section Shifted

variable {m s}

/-- What is translated. -/
theorem exists_of_translateComponents {after : Name → List Name → List Name} {fuel : ℕ} {d : D}
    {components path : List Name}
    (h : m.translateComponents s after (fuel + 1) d components = some path) :
    ∃ f inner, m.fieldNamed s d (trimmed (components.headD [])) = some f ∧
      path = f.name :: (markIn f (after (components.headD []) components.tail) ++ inner) ∧
      match f.type.subMessage with
      | some d' => m.translateComponents s after fuel d'
          (afterMark f (after (components.headD []) components.tail)) = some inner
      | none => (afterMark f (after (components.headD []) components.tail) = [] ∨
          afterMark f (after (components.headD []) components.tail) = [[]]) ∧ inner = [] := by
  rw [translateComponents] at h
  obtain ⟨f, hf, h⟩ := Option.bind_eq_some_iff.mp h
  dsimp only at h
  rcases hsub : f.type.subMessage with _ | d'
  · rw [hsub] at h
    dsimp only at h
    split at h
    · next hend =>
      refine ⟨f, [], hf, ?_⟩
      rw [hsub, List.append_nil]
      exact ⟨(Option.some.inj h).symm, hend, rfl⟩
    · cases h
  · rw [hsub] at h
    obtain ⟨inner, hinner, hpath⟩ := Option.map_eq_some_iff.mp h
    refine ⟨f, inner, hf, ?_⟩
    rw [hsub]
    exact ⟨hpath.symm, hinner⟩

theorem exists_erasedAfter (component : Name) (rest : List Name) :
    ∃ extra, erasedAfter component rest = extra ++ rest := by
  rw [erasedAfter]
  split
  · exact ⟨[], rfl⟩
  · exact ⟨[_], rfl⟩

theorem length_markIn (f : FieldDescriptor D E) (rest rest' : List Name) :
    (markIn f rest).length = (markIn f rest').length := by
  rw [markIn, markIn]
  split
  · rfl
  · rfl

/-- Behind the same mark there are still components too many, and one of them has characters. -/
theorem afterMark_shifted {f : FieldDescriptor D E} {front back : List Name}
    (htext : ∃ c ∈ front, c ≠ []) (hmark : markIn f (front ++ back) = markIn f back) :
    ∃ front', (∃ c ∈ front', c ≠ []) ∧
      afterMark f (front ++ back) = front' ++ afterMark f back := by
  obtain ⟨c, hc, hne⟩ := htext
  by_cases hrep : f.label = .repeated
  · rw [markIn_of_repeated _ hrep, markIn_of_repeated _ hrep] at hmark
    rw [afterMark_of_repeated _ hrep, afterMark_of_repeated _ hrep]
    rcases front with _ | ⟨first, front⟩
    · cases hc
    obtain ⟨hmark, -⟩ := List.cons.inj hmark
    rw [List.cons_append, List.headD_cons] at hmark
    rcases back with _ | ⟨mark, back⟩
    · refine ⟨front, ⟨c, ?_, hne⟩, rfl⟩
      rcases List.mem_cons.mp hc with rfl | hc
      · exact absurd hmark hne
      · exact hc
    · refine ⟨front ++ [mark], ⟨c, ?_, hne⟩, by simp⟩
      rw [List.headD_cons] at hmark
      rw [← hmark, List.mem_append, List.mem_singleton, Or.comm]
      exact List.mem_cons.mp hc
  · refine ⟨front, ⟨c, hc, hne⟩, ?_⟩
    rw [afterMark_of_not_repeated _ hrep, afterMark_of_not_repeated _ hrep]

/-- **With components too many, the translation is not the same.** -/
theorem not_translateComponents_shifted {fuel fuel' : ℕ} {d : D} {front back path : List Name}
    (htext : ∃ c ∈ front, c ≠ [])
    (h : m.translateComponents s erasedAfter fuel d (front ++ back) = some path) :
    m.translateComponents s componentsAfter fuel' d back ≠ some path := by
  induction fuel generalizing fuel' d front back path with
  | zero => cases h
  | succ fuel ih =>
    intro h'
    rcases fuel' with _ | fuel'
    · cases h'
    obtain ⟨f, inner, hf, hpath, hrest⟩ := exists_of_translateComponents h
    obtain ⟨f', inner', hf', hpath', hrest'⟩ := exists_of_translateComponents h'
    obtain ⟨hname, hnames⟩ := List.cons.inj (hpath.symm.trans hpath')
    obtain rfl : f = f' := by
      have hfind := findFieldByName_of_fieldNamed hf
      rw [hname, findFieldByName_of_fieldNamed hf'] at hfind
      exact (Option.some.inj hfind).symm
    -- The component that is next has characters, and is one too many behind this one.
    rcases back with _ | ⟨component, back⟩
    · exact ne_nil_of_fieldNamed_trimmed hf' rfl
    have hcomponent : component ≠ [] := ne_nil_of_fieldNamed_trimmed hf'
    rcases front with _ | ⟨first, front⟩
    · obtain ⟨c, hc, -⟩ := htext
      cases hc
    obtain ⟨extra, hextra⟩ := exists_erasedAfter first (front ++ component :: back)
    have hshift : erasedAfter ((first :: front ++ component :: back).headD [])
        (first :: front ++ component :: back).tail = (extra ++ front ++ [component]) ++ back := by
      rw [List.cons_append, List.headD_cons, List.tail_cons, hextra, List.append_assoc,
        List.append_assoc, List.singleton_append]
    rw [hshift] at hnames hrest
    rw [componentsAfter, List.tail_cons] at hnames hrest'
    obtain ⟨hmark, rfl⟩ := List.append_inj hnames (length_markIn f _ _)
    obtain ⟨front', htext', hafter⟩ := afterMark_shifted
      ⟨component, List.mem_append_right _ (List.mem_singleton_self _), hcomponent⟩ hmark
    rw [hafter] at hrest
    rcases hsub : f.type.subMessage with _ | d'
    · rw [hsub] at hrest
      obtain ⟨c, hc, hne⟩ := htext'
      have hmem : c ∈ front' ++ afterMark f back := List.mem_append_left _ hc
      rcases hrest.1 with hend | hend
      · rw [hend] at hmem
        cases hmem
      · rw [hend] at hmem
        exact hne (List.mem_singleton.mp hmem)
    · rw [hsub] at hrest hrest'
      exact ih htext' hrest hrest'

theorem headD_ne_nil_of_translateComponents {after : Name → List Name → List Name} {fuel : ℕ}
    {d : D} {components path : List Name}
    (h : m.translateComponents s after fuel d components = some path) :
    components.headD [] ≠ [] := by
  rcases fuel with _ | fuel
  · cases h
  obtain ⟨f, inner, hf, -⟩ := exists_of_translateComponents h
  exact ne_nil_of_fieldNamed_trimmed hf

/-- One component too many, behind that of a field without fields of its own. -/
theorem last_shifted_iff {f : FieldDescriptor D E} {left : Name} {rest : List Name} :
    (if afterMark f (left :: rest) = [] ∨ afterMark f (left :: rest) = [[]]
      then some (f.name :: markIn f (left :: rest)) else none) = some (f.name :: markIn f rest) ↔
    left = [] ∧ (rest = [] ∨ f.label = .repeated ∧ rest = [[]]) := by
  by_cases hrep : f.label = .repeated
  · rw [afterMark_of_repeated _ hrep, List.tail_cons, markIn_of_repeated _ hrep,
      markIn_of_repeated _ hrep, List.headD_cons, and_iff_right hrep]
    have hhead : rest = [] ∨ rest = [[]] → rest.headD [] = [] := by
      rintro (rfl | rfl)
      · rfl
      · rfl
    split
    · next hend =>
      rw [hhead hend, and_iff_left hend, Option.some_inj, List.cons.injEq, and_iff_right rfl,
        List.cons.injEq, and_iff_left rfl]
    · next hend => exact iff_of_false (fun h => by cases h) fun h => hend h.2
  · have hend : (left :: rest = [] ∨ left :: rest = [[]]) ↔
        left = [] ∧ (rest = [] ∨ f.label = .repeated ∧ rest = [[]]) := by
      rw [or_iff_right (List.cons_ne_nil _ _), List.cons.injEq,
        or_iff_left fun h : f.label = .repeated ∧ rest = [[]] => hrep h.1]
    rw [afterMark_of_not_repeated _ hrep, markIn_of_not_repeated _ hrep,
      markIn_of_not_repeated _ hrep, ← hend]
    split
    · next h => exact iff_of_true rfl h
    · next h => exact iff_of_false (fun heq => by cases heq) h

/-- One component too many, behind that of a field with fields of its own. -/
theorem tail_afterMark_cons (f : FieldDescriptor D E) (left : Name) (rest : List Name) :
    (afterMark f (left :: rest)).tail = afterMark f rest := by
  rw [afterMark, afterMark]
  split
  · rfl
  · rfl

/-- With one component too many behind that of a field, the translation of the rest is not the
same. -/
theorem not_translateComponents_cons {f : FieldDescriptor D E} {fuel fuel' : ℕ} {d : D}
    {left : Name} {rest path : List Name}
    (h : m.translateComponents s erasedAfter fuel d (afterMark f (left :: rest)) = some path) :
    m.translateComponents s componentsAfter fuel' d (afterMark f rest) ≠ some path := by
  have hnext := headD_ne_nil_of_translateComponents h
  have htail := tail_afterMark_cons f left rest
  rcases hafter : afterMark f (left :: rest) with _ | ⟨next, after⟩
  · rw [hafter] at hnext
    exact absurd rfl hnext
  rw [hafter] at hnext htail h
  rw [List.tail_cons] at htail
  rw [htail, ← List.singleton_append] at h
  exact not_translateComponents_shifted ⟨next, List.mem_singleton_self _, hnext⟩ h

/-- What is translated component by component is translated so by the source if and only if it is
not disturbed. -/
theorem translateComponents_erased_iff {fuel : ℕ} {d : D} {components path : List Name}
    (h : m.translateComponents s componentsAfter fuel d components = some path) :
    m.translateComponents s erasedAfter fuel d components = some path ↔
      m.Undisturbed s fuel d components := by
  induction fuel generalizing d components path with
  | zero => cases h
  | succ fuel ih =>
    obtain ⟨f, inner, hf, rfl, hrest⟩ := exists_of_translateComponents h
    have hne := ne_nil_of_fieldNamed_trimmed hf
    rw [componentsAfter] at hrest ⊢
    rw [translateComponents, Undisturbed]
    dsimp only
    rw [hf, Option.bind_some]
    dsimp only
    generalize components.headD [] = component at hf hne ⊢
    generalize components.tail = rest at hrest ⊢
    by_cases htrimmed : trimmed component = component
    · rw [erasedAfter, if_pos htrimmed]
      rcases hsub : f.type.subMessage with _ | d'
      · rw [hsub] at hrest
        dsimp only at hrest ⊢
        rw [if_pos hrest.1, hrest.2, List.append_nil]
        exact iff_of_true rfl (.inl htrimmed)
      · rw [hsub] at hrest
        dsimp only at hrest ⊢
        rw [and_iff_right htrimmed, ← ih hrest, Option.map_eq_some_iff]
        constructor
        · rintro ⟨inner', hinner', heq⟩
          rw [hinner', List.append_cancel_left ((List.cons.inj heq).2)]
        · intro hinner
          exact ⟨inner, hinner, rfl⟩
    · rw [erasedAfter, if_neg htrimmed]
      have hlt := length_trimmed_lt htrimmed
      generalize hleft : component.drop ((trimmed component).length + 1) = left
      have hnil : left = [] ↔ component.length = (trimmed component).length + 1 := by
        rw [← hleft, List.drop_eq_nil_iff]
        omega
      rcases hsub : f.type.subMessage with _ | d'
      · rw [hsub] at hrest
        obtain ⟨hend, rfl⟩ := hrest
        dsimp only
        rw [List.append_nil, or_iff_right htrimmed, ← hnil, last_shifted_iff]
      · rw [hsub] at hrest
        dsimp only at hrest ⊢
        refine iff_of_false ?_ fun hund => htrimmed hund.1
        intro herased
        obtain ⟨inner', hinner', heq⟩ := Option.map_eq_some_iff.mp herased
        obtain ⟨-, rfl⟩ := List.append_inj (List.cons.inj heq).2 (length_markIn f _ _)
        exact not_translateComponents_cons hinner' hrest

end Shifted

/-! ### Names -/

section Paths

variable {m s}

/-- The same but for whitespace around components that fields are found by. -/
def SameTrimmed (m : NameTableMap) (s : Schema D E) : ℕ → D → List Name → List Name → Prop
  | 0, _, _, _ => True
  | fuel + 1, d, components, components' =>
    trimmed (components.headD []) = trimmed (components'.headD []) ∧
    ∀ f, m.fieldNamed s d (trimmed (components.headD [])) = some f →
      markIn f components.tail = markIn f components'.tail ∧
      match f.type.subMessage with
      | some d' => SameTrimmed m s fuel d' (afterMark f components.tail)
          (afterMark f components'.tail)
      | none => afterMark f components.tail = afterMark f components'.tail

/-- **Whitespace does not matter** for the translation component by component. -/
theorem translateComponents_of_sameTrimmed {fuel : ℕ} {d : D} {components components' : List Name}
    (h : SameTrimmed m s fuel d components components') :
    m.translateComponents s componentsAfter fuel d components =
      m.translateComponents s componentsAfter fuel d components' := by
  induction fuel generalizing d components components' with
  | zero => rfl
  | succ fuel ih =>
    obtain ⟨htrimmed, hfield⟩ := h
    rw [translateComponents, translateComponents]
    dsimp only
    rw [← htrimmed]
    rcases hf : m.fieldNamed s d (trimmed (components.headD [])) with _ | f
    · rfl
    obtain ⟨hmark, hrest⟩ := hfield f hf
    rw [Option.bind_some, Option.bind_some, componentsAfter, componentsAfter, hmark]
    rcases hsub : f.type.subMessage with _ | d'
    · rw [hsub] at hrest
      dsimp only at hrest ⊢
      rw [hrest]
    · rw [hsub] at hrest
      dsimp only at hrest ⊢
      rw [ih hrest]

/-- A path has no delimiters in its names and marks. -/
theorem translateComponents_free {after : Name → List Name → List Name}
    (hafter : ∀ component rest, nameDelimit ∉ component → (∀ c ∈ rest, nameDelimit ∉ c) →
      ∀ c ∈ after component rest, nameDelimit ∉ c)
    {fuel : ℕ} {d : D} {components path : List Name} (hfree : ∀ c ∈ components, nameDelimit ∉ c)
    (h : m.translateComponents s after fuel d components = some path) :
    ∀ c ∈ path, nameDelimit ∉ c := by
  induction fuel generalizing d components path with
  | zero => cases h
  | succ fuel ih =>
    obtain ⟨f, inner, hf, rfl, hrest⟩ := exists_of_translateComponents h
    have hfree' := hafter _ _ (headD_free hfree) (tail_free hfree)
    generalize after (components.headD []) components.tail = rest at hrest hfree' ⊢
    have hname : nameDelimit ∉ f.name :=
      s.nameDelimit_notMem d f (s.mem_of_findFieldByName (findFieldByName_of_fieldNamed hf))
    have hmark : ∀ c ∈ markIn f rest, nameDelimit ∉ c := by
      rw [markIn]
      split
      · intro c hc
        rw [List.mem_singleton.mp hc]
        exact headD_free hfree'
      · intro c hc
        cases hc
    have hinner : ∀ c ∈ inner, nameDelimit ∉ c := by
      rcases hsub : f.type.subMessage with _ | d'
      · rw [hsub] at hrest
        intro c hc
        rw [hrest.2] at hc
        cases hc
      · rw [hsub] at hrest
        exact ih (afterMark_free hfree' f) hrest
    intro c hc
    rcases List.mem_cons.mp hc with rfl | hc
    · exact hname
    rcases List.mem_append.mp hc with hc | hc
    · exact hmark c hc
    · exact hinner c hc

theorem joined_inj {path path' : List Name} (hfree : ∀ c ∈ path, nameDelimit ∉ c)
    (hfree' : ∀ c ∈ path', nameDelimit ∉ c) (hne : path ≠ []) (hne' : path' ≠ [])
    (h : joined path = joined path') : path = path' := by
  rw [← List.splitOn_intercalate nameDelimit hfree hne,
    ← List.splitOn_intercalate nameDelimit hfree' hne']
  exact congrArg (List.splitOn nameDelimit) h

end Paths

theorem splitOn_free (chName : Name) : ∀ c ∈ chName.splitOn nameDelimit, nameDelimit ∉ c := by
  intro c hc
  exact notMem_of_mem_splitOn hc

/-- What the source does with a whole name, by its components. -/
theorem translateMessageName_splitOn (d : D) (chName : Name) (fuel : ℕ)
    (hfuel : chName.length < fuel) :
    ∃ ok chName' enName,
      m.translateMessageName s fuel d chName [] = some (ok, chName', enName) ∧
      (if ok then some enName else none) =
        (m.translateComponents s erasedAfter fuel d (chName.splitOn nameDelimit)).map joined := by
  have hjoined : joined (chName.splitOn nameDelimit) = chName := List.intercalate_splitOn _
  obtain ⟨ok, chName', enName, hresult, hok⟩ := m.translateMessageName_eq s fuel d
    (chName.splitOn nameDelimit) [] (splitOn_free chName) (by rwa [hjoined])
  rw [hjoined] at hresult
  exact ⟨ok, chName', enName, hresult, hok⟩

/-- A translated name begins with the name of a field. -/
theorem exists_first_of_translateMessageName (d : D) (chName : Name) (fuel : ℕ)
    (hfuel : chName.length < fuel) :
    ∃ ok chName' enName,
      m.translateMessageName s fuel d chName [] = some (ok, chName', enName) ∧
      (ok = true → ∃ f, s.findFieldByName d ((enName.splitOn nameDelimit).headD []) = some f) := by
  obtain ⟨ok, chName', enName, hresult, hok⟩ :=
    m.translateMessageName_splitOn s d chName fuel hfuel
  refine ⟨ok, chName', enName, hresult, ?_⟩
  rintro rfl
  rw [if_pos rfl] at hok
  obtain ⟨path, hpath, rfl⟩ := Option.map_eq_some_iff.mp hok.symm
  have hpathfree :=
    translateComponents_free (fun _ _ => erasedAfter_free) (splitOn_free chName) hpath
  rcases fuel with _ | fuel
  · cases hpath
  obtain ⟨f, inner, hf, rfl, -⟩ := exists_of_translateComponents hpath
  refine ⟨f, ?_⟩
  rw [joined, List.splitOn_intercalate nameDelimit hpathfree (List.cons_ne_nil _ _),
    List.headD_cons]
  exact findFieldByName_of_fieldNamed hf

/-- Where nothing is disturbed it does not matter which length is erased, also for names that cannot
be translated. -/
theorem translateComponents_erased_of_undisturbed {fuel : ℕ} {d : D} {components : List Name}
    (h : m.Undisturbed s fuel d components) :
    m.translateComponents s erasedAfter fuel d components =
      m.translateComponents s componentsAfter fuel d components := by
  induction fuel generalizing d components with
  | zero => rfl
  | succ fuel ih =>
    rw [Undisturbed] at h
    rw [translateComponents, translateComponents]
    dsimp only at h ⊢
    rcases hf : m.fieldNamed s d (trimmed (components.headD [])) with _ | f
    · rfl
    rw [hf] at h
    rw [Option.bind_some, Option.bind_some, componentsAfter]
    dsimp only at h
    generalize components.headD [] = component at h ⊢
    generalize components.tail = rest at h ⊢
    rcases hsub : f.type.subMessage with _ | d'
    · rw [hsub] at h
      dsimp only at h ⊢
      by_cases htrimmed : trimmed component = component
      · rw [erasedAfter, if_pos htrimmed]
      · -- one character too many, and nothing but an empty mark behind it
        obtain ⟨hlength, hrest⟩ := h.resolve_left htrimmed
        have hleft : component.drop ((trimmed component).length + 1) = [] := by
          rw [← hlength, List.drop_length]
        have hend : afterMark f rest = [] ∨ afterMark f rest = [[]] := by
          obtain rfl | ⟨hrep, rfl⟩ := hrest
          · rw [afterMark, List.tail_nil, ite_self]
            exact .inl rfl
          · exact .inl (afterMark_of_repeated _ hrep)
        rw [erasedAfter, if_neg htrimmed, hleft, if_pos hend]
        exact last_shifted_iff.mpr ⟨rfl, hrest⟩
    · rw [hsub] at h
      dsimp only at h ⊢
      rw [erasedAfter, if_pos h.1, ih h.2]

/-- **`TranslateMessageName` translates component by component**, and ends, if no whitespace
disturbs it; and for a name that can be translated only then. The translation component by component
does not depend on whitespace. -/
theorem translateMessageName_of_undisturbed (d : D) (chName : Name) (fuel : ℕ)
    (hfuel : chName.length < fuel) :
    (∀ components, SameTrimmed m s fuel d (chName.splitOn nameDelimit) components →
      m.translateComponents s componentsAfter fuel d (chName.splitOn nameDelimit) =
        m.translateComponents s componentsAfter fuel d components) ∧
    ∃ ok chName' enName,
      m.translateMessageName s fuel d chName [] = some (ok, chName', enName) ∧
      (m.Undisturbed s fuel d (chName.splitOn nameDelimit) →
        (if ok then some enName else none) =
          (m.translateComponents s componentsAfter fuel d (chName.splitOn nameDelimit)).map
            joined) ∧
      (m.translateComponents s componentsAfter fuel d (chName.splitOn nameDelimit) ≠ none →
        (if ok then some enName else none) =
          (m.translateComponents s componentsAfter fuel d (chName.splitOn nameDelimit)).map joined →
        m.Undisturbed s fuel d (chName.splitOn nameDelimit)) := by
  have hfree := splitOn_free chName
  obtain ⟨ok, chName', enName, hresult, hok⟩ :=
    m.translateMessageName_splitOn s d chName fuel hfuel
  refine ⟨fun components h => translateComponents_of_sameTrimmed h, ok, chName', enName, hresult,
    fun hund => ?_, fun hspec heq => ?_⟩
  · rw [hok, m.translateComponents_erased_of_undisturbed s hund]
  · obtain ⟨path, hpath⟩ := Option.ne_none_iff_exists'.mp hspec
    rw [hok, hpath, Option.map_some, Option.map_eq_some_iff] at heq
    obtain ⟨path', hpath', heq⟩ := heq
    have hpathfree := translateComponents_free (fun _ _ _ hrest => hrest) hfree hpath
    have hpathfree' := translateComponents_free (fun _ _ => erasedAfter_free) hfree hpath'
    rw [← translateComponents_erased_iff hpath, hpath',
      joined_inj hpathfree' hpathfree (ne_nil_of_translateComponents hpath')
        (ne_nil_of_translateComponents hpath) heq]

/-- The names of the sample schema are translated by themselves. -/
def sample : NameTableMap where
  messageMap name :=
    if name = [114] then some fun ch => if ch ∈ [[97], [98], [99], [101]] then some ch else none
    else if name = [105] then some fun ch => if ch ∈ [[120], [121], [122]] then some ch else none
    else none
  enumMap name :=
    if name = [110] then some fun ch => if ch = [118] then some ch else none else none
  messageMap_nil name table h := by
    split at h
    · rw [← Option.some.inj h]
      rfl
    · split at h
      · rw [← Option.some.inj h]
        rfl
      · cases h
  enumMap_nil name table h := by
    split at h
    · rw [← Option.some.inj h]
      rfl
    · cases h

/-- The name `c.x ` is translated to `c.x`: one whitespace character behind the last component does
not disturb. -/
theorem translateMessageName_of_trailing_space : ∃ ok chName' enName,
    sample.translateMessageName Schema.sample 5 false [99, 46, 120, 32] [] =
      some (ok, chName', enName) ∧ (if ok then some enName else none) = some [99, 46, 120] := by
  obtain ⟨-, ok, chName', enName, hresult, heq, -⟩ :=
    translateMessageName_of_undisturbed sample Schema.sample false [99, 46, 120, 32] 5 (by decide)
  have hplain : sample.Undisturbed Schema.sample 5 false ([99, 46, 120, 32].splitOn nameDelimit) :=
    And.intro rfl (Or.inr ⟨rfl, .inl rfl⟩)
  exact ⟨ok, chName', enName, hresult, heq hplain⟩

/-- The name `c .x` is not translated, while `c` and `x` are. -/
theorem not_translateMessageName_componentwise : ¬ ∀ (m : NameTableMap) (s : Schema Bool Unit)
    (d : Bool) (chName : Name) (fuel : ℕ), chName.length < fuel → ∀ ok chName' enName,
      m.translateMessageName s fuel d chName [] = some (ok, chName', enName) →
      (if ok then some enName else none) =
        (m.translateComponents s componentsAfter fuel d (chName.splitOn nameDelimit)).map
          joined := by
  intro h
  have hfail := h sample Schema.sample false [99, 32, 46, 120] 5 (by decide) false [120] [99]
    (by decide)
  revert hfail
  decide

end NameTableMap

end Lsf
