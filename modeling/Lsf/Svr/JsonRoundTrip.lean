import Lsf.Svr.Pb2Json

/-!
# Messages written to JSON and read again

What is written of a message is an object with an entry for each field of which something is
written, or null if there is none. So the round trip is looked at field by field.

Of an enumeration the number is written, and nothing read. A field of type double is not written,
and for one of type float a getter of strings is called, which ends the program. An array is asked
how often it has a key, so nothing is read of a repeated field. And a message in which nothing is
set becomes null, which has no fields to read.

## Main definitions

* `fieldEntry`, `entriesOf` — what is written of a field and of a message
* `Plain` — what is read again
* `RoundTrip` — what both functions do with messages of a type

## Main results

* `writeFields_eq` — what is written
* `readField_fieldEntry` — the round trip of a field
* `roundTrip` — the round trip of messages, by their depth
* `json2Message_message2Json_iff`
-/

namespace Lsf.Pb2Json

open Proto

variable {D E R : Type} (s : Schema D E) (conversions : Conversions R)

/-! ### What is written -/

section Write

variable (message2Json : D → Message R → Json R → Option (Json R))

/-- What is written of the value of a single field. -/
def valueEntry (f : FieldDescriptor D E) (v : Value R) : Option (Option (Json R)) :=
  match f.type with
  | .message d =>
    v.getMessage.bind fun m => if isSet m then (message2Json d m .null).map some else some none
  | .enum _ => v.getEnum.map fun number => some (.integer (.ofInt 64 number))
  | .float => none
  | .double | .group _ => some none
  | t => (scalarJson t v).map some

/-- What is written of a field. -/
def fieldEntry (f : FieldDescriptor D E) (vs : List (Value R)) : Option (Option (Json R)) :=
  if f.label = .repeated then
    if 0 < vs.length then (repeatedMessage2Json message2Json f vs .null).map some else some none
  else
    match vs with
    | [] => some none
    | v :: _ => valueEntry message2Json f v

/-- What is written of fields. -/
def entriesOf : List (FieldDescriptor D E) → Message R → Option (List (Name × Json R))
  | f :: fs, vs :: m =>
    (fieldEntry message2Json f vs).bind fun entry =>
      (entriesOf fs m).map (entry.toList.map (f.name, ·) ++ ·)
  | _, _ => some []

variable {message2Json} {entries : List (Name × Json R)}

theorem bind_assign {key : Name} (h : entries.lookup key = none) (value : Option (Json R)) :
    value.bind ((Json.ofEntries entries).assign key) =
      (value.map some).map fun entry => .ofEntries (entries ++ entry.toList.map (key, ·)) := by
  rcases value with _ | value
  · rfl
  · exact Json.assign_ofEntries h value

theorem getString_of_getFloat {v : Value R} {x : R} (h : v.getFloat = some x) :
    v.getString = none := by
  rcases v with x | x | x | x | x | x | b | s | number | m
  case string => cases h
  all_goals rfl

theorem writeField_eq {f : FieldDescriptor D E} (v : Value R)
    (h : entries.lookup f.name = none) :
    writeField message2Json f v (.ofEntries entries) =
      (valueEntry message2Json f v).map fun entry =>
        .ofEntries (entries ++ entry.toList.map (f.name, ·)) := by
  have hnone : some (Json.ofEntries entries) = (some (none : Option (Json R))).map fun entry =>
      .ofEntries (entries ++ entry.toList.map (f.name, ·)) := by
    rw [Option.map_some, Option.toList_none, List.map_nil, List.append_nil]
  rw [writeField, valueEntry]
  cases f.type with
  | message d =>
    dsimp only
    rcases v.getMessage with _ | m
    · rfl
    rw [Option.bind_some, Option.bind_some]
    split
    · rw [Json.ref_ofEntries h, Option.bind_some]
      exact bind_assign h _
    · exact hnone
  | enum e =>
    dsimp only
    rcases v.getEnum with _ | number
    · rfl
    · exact Json.assign_ofEntries h _
  | float =>
    -- A getter of strings is called on a float.
    dsimp only
    rcases hx : v.getFloat with _ | x
    · rfl
    · rw [Option.bind_some, Json.assign_ofEntries h, Option.bind_some, getString_of_getFloat hx]
      rfl
  | double => exact hnone
  | group d => exact hnone
  | _ => exact bind_assign h _

/-- What is written of one field. -/
theorem writeNext_eq {f : FieldDescriptor D E} (vs : List (Value R))
    (h : entries.lookup f.name = none) :
    (if f.label = .repeated then
      if 0 < vs.length then
        ((Json.ofEntries entries).ref f.name).bind fun sub =>
          (repeatedMessage2Json message2Json f vs sub).bind
            ((Json.ofEntries entries).assign f.name)
      else some (.ofEntries entries)
    else
      match vs with
      | [] => some (.ofEntries entries)
      | v :: _ => writeField message2Json f v (.ofEntries entries)) =
    (fieldEntry message2Json f vs).map fun entry =>
      .ofEntries (entries ++ entry.toList.map (f.name, ·)) := by
  have hnone : some (Json.ofEntries entries) = (some (none : Option (Json R))).map fun entry =>
      .ofEntries (entries ++ entry.toList.map (f.name, ·)) := by
    rw [Option.map_some, Option.toList_none, List.map_nil, List.append_nil]
  unfold fieldEntry
  by_cases hrep : f.label = .repeated
  · rw [if_pos hrep, if_pos hrep]
    split
    · rw [Json.ref_ofEntries h, Option.bind_some]
      exact bind_assign h _
    · exact hnone
  · rw [if_neg hrep, if_neg hrep]
    rcases vs with _ | ⟨v, vs⟩
    · exact hnone
    · exact writeField_eq v h

theorem lookup_entry_of_ne {key name : Name} (entry : Option (Json R)) (h : name ≠ key) :
    (entry.toList.map fun value => (key, value)).lookup name = none := by
  rcases entry with _ | value
  · rfl
  · rw [Option.toList_some, List.map_singleton, List.lookup_cons, beq_false_of_ne h]
    rfl

/-- The next names are new, too. -/
theorem lookup_next {f : FieldDescriptor D E} {fs : List (FieldDescriptor D E)}
    (hnodup : ((f :: fs).map FieldDescriptor.name).Nodup)
    (h : ∀ g ∈ fs, entries.lookup g.name = none) (entry : Option (Json R)) :
    ∀ g ∈ fs, (entries ++ entry.toList.map fun value => (f.name, value)).lookup g.name = none := by
  intro g hg
  rw [List.lookup_append, h g hg, Option.none_or]
  refine lookup_entry_of_ne entry ?_
  intro heq
  exact (List.nodup_cons.mp hnodup).1 (heq ▸ List.mem_map_of_mem hg)

variable (entries) in
/-- **What is written of fields** is added to the entries. -/
theorem writeFields_eq {fs : List (FieldDescriptor D E)}
    (hnodup : (fs.map FieldDescriptor.name).Nodup) (m : Message R)
    (h : ∀ f ∈ fs, entries.lookup f.name = none) :
    writeFields message2Json fs m (.ofEntries entries) =
      (entriesOf message2Json fs m).map fun new => .ofEntries (entries ++ new) := by
  induction fs generalizing m entries with
  | nil => rw [writeFields, entriesOf, Option.map_some, List.append_nil] <;> simp
  | cons f fs ih =>
    rcases m with _ | ⟨vs, m⟩
    · rw [writeFields, entriesOf, Option.map_some, List.append_nil] <;> simp
    obtain ⟨hf, hfs⟩ := List.forall_mem_cons.mp h
    refine (congrArg (Option.bind · (writeFields message2Json fs m)) (writeNext_eq vs hf)).trans ?_
    rw [entriesOf]
    rcases fieldEntry message2Json f vs with _ | entry
    · rfl
    rw [Option.map_some, Option.bind_some, Option.bind_some,
      ih _ (List.nodup_cons.mp hnodup).2 m (lookup_next hnodup hfs entry), Option.map_map]
    refine congrFun (congrArg Option.map ?_) _
    funext new
    rw [Function.comp_apply, List.append_assoc]

theorem lookup_entriesOf_of_notMem {fs : List (FieldDescriptor D E)} {name : Name}
    (hname : name ∉ fs.map FieldDescriptor.name) {m : Message R} {new : List (Name × Json R)}
    (hnew : entriesOf message2Json fs m = some new) : new.lookup name = none := by
  induction fs generalizing m new with
  | nil =>
    rw [entriesOf, Option.some.injEq] at hnew
    · rw [← hnew, List.lookup_nil]
    · simp
  | cons f fs ih =>
    rcases m with _ | ⟨vs, m⟩
    · rw [entriesOf, Option.some.injEq] at hnew
      · rw [← hnew, List.lookup_nil]
      · simp
    obtain ⟨hne, hname⟩ := not_or.mp (List.mem_cons.not.mp hname)
    obtain ⟨entry, -, hnew⟩ := Option.bind_eq_some_iff.mp hnew
    obtain ⟨rest, hrest, rfl⟩ := Option.map_eq_some_iff.mp hnew
    rw [List.lookup_append, lookup_entry_of_ne entry hne, Option.none_or, ih hname hrest]

variable (entries) in
/-- What is written of a field is found again. -/
theorem lookup_entriesOf {fs : List (FieldDescriptor D E)}
    (hnodup : (fs.map FieldDescriptor.name).Nodup) {m : Message R} (hm : fs.length = m.length)
    (h : ∀ f ∈ fs, entries.lookup f.name = none) {new : List (Name × Json R)}
    (hnew : entriesOf message2Json fs m = some new) :
    List.Forall₂ (fun f vs => fieldEntry message2Json f vs =
      some ((entries ++ new).lookup f.name)) fs m := by
  induction fs generalizing m entries new with
  | nil =>
    rw [List.length_eq_zero_iff.mp hm.symm]
    exact .nil
  | cons f fs ih =>
    rcases m with _ | ⟨vs, m⟩
    · cases hm
    obtain ⟨hf, hfs⟩ := List.forall_mem_cons.mp h
    obtain ⟨entry, hentry, hnew⟩ := Option.bind_eq_some_iff.mp hnew
    obtain ⟨rest, hrest, rfl⟩ := Option.map_eq_some_iff.mp hnew
    have hlater := ih _ (List.nodup_cons.mp hnodup).2 (Nat.succ.inj hm)
      (lookup_next hnodup hfs entry) hrest
    rw [List.append_assoc] at hlater
    refine .cons ?_ hlater
    rw [hentry, List.lookup_append, hf, Option.none_or]
    rcases entry with _ | value
    · rw [Option.toList_none, List.map_nil, List.nil_append,
        lookup_entriesOf_of_notMem (List.nodup_cons.mp hnodup).1 hrest]
    · rw [Option.toList_some, List.map_singleton, List.singleton_append, List.lookup_cons_self]

theorem fieldEntry_nil (f : FieldDescriptor D E) : fieldEntry message2Json f [] = some none := by
  unfold fieldEntry
  split <;> rfl

/-- Of a message in which nothing is set nothing is written. -/
theorem entriesOf_of_not_isSet {fs : List (FieldDescriptor D E)} {m : Message R}
    (hset : isSet m = false) : entriesOf message2Json fs m = some [] := by
  induction fs generalizing m with
  | nil => rw [entriesOf]; simp
  | cons f fs ih =>
    rcases m with _ | ⟨vs, m⟩
    · rw [entriesOf]; simp
    obtain ⟨hvs, hm⟩ := Bool.or_eq_false_iff.mp hset
    rw [Bool.not_eq_false', List.isEmpty_iff] at hvs
    rw [entriesOf, hvs, fieldEntry_nil, Option.bind_some, ih hm]
    rfl

/-! ### Repeated fields -/

/-- The value that the elements are appended to changes for those of an enumeration. -/
theorem writeElement_fst {f : FieldDescriptor D E} {v : Value R} {json json' tmpJson : Json R}
    (h : writeElement message2Json f v json = some (json', tmpJson)) :
    json' = json ∨ ∃ value, json.assign f.name value = some json' := by
  unfold writeElement at h
  split at h
  · obtain ⟨m, -, h⟩ := Option.bind_eq_some_iff.mp h
    split at h
    · obtain ⟨sub, -, h⟩ := Option.map_eq_some_iff.mp h
      exact .inl (Prod.mk.inj h).1.symm
    · exact .inl (Prod.mk.inj (Option.some.inj h)).1.symm
  · obtain ⟨number, -, h⟩ := Option.bind_eq_some_iff.mp h
    obtain ⟨object, hassign, h⟩ := Option.map_eq_some_iff.mp h
    exact .inr ⟨_, hassign.trans (congrArg some (Prod.mk.inj h).1)⟩
  · obtain ⟨x, -, h⟩ := Option.map_eq_some_iff.mp h
    exact .inl (Prod.mk.inj h).1.symm
  · exact .inl (Prod.mk.inj (Option.some.inj h)).1.symm
  · exact .inl (Prod.mk.inj (Option.some.inj h)).1.symm
  · obtain ⟨value, -, h⟩ := Option.map_eq_some_iff.mp h
    exact .inl (Prod.mk.inj h).1.symm

/-- **Elements are written to an array**, as nothing can be appended to the object that one of an
enumeration would make of it. -/
theorem array_of_repeatedMessage2Json {f : FieldDescriptor D E} {vs : List (Value R)}
    {json result : Json R} (hjson : (json = .null ∧ vs ≠ []) ∨ ∃ elements, json = .array elements)
    (h : repeatedMessage2Json message2Json f vs json = some result) :
    ∃ elements, result = .array elements := by
  induction vs generalizing json with
  | nil =>
    obtain ⟨elements, hjson⟩ := hjson.resolve_left fun hnull => hnull.2 rfl
    exact ⟨elements, (Option.some.inj h).symm.trans hjson⟩
  | cons v vs ih =>
    obtain ⟨⟨json', tmpJson⟩, hwrite, h⟩ := Option.bind_eq_some_iff.mp h
    obtain ⟨next, happend, h⟩ := Option.bind_eq_some_iff.mp h
    refine ih (.inr ?_) h
    rcases writeElement_fst hwrite with rfl | ⟨value, hassign⟩
    · rcases hjson with ⟨rfl, -⟩ | ⟨elements, rfl⟩ <;> exact ⟨_, (Option.some.inj happend).symm⟩
    · rcases hjson with ⟨rfl, -⟩ | ⟨elements, rfl⟩
      · rw [← Option.some.inj hassign] at happend
        cases happend
      · cases hassign

end Write

/-! ### What is read -/

/-- A value that is read as it was. -/
def PlainValue (plain : D → Message R → Prop) : FieldType D E → Value R → Prop
  | .double, _ | .float, _ | .enum _, _ => False
  | .message d, .message m => plain d m
  | _, _ => True

/-- A field is not repeated, or has no elements. -/
def PlainField (plain : D → Message R → Prop) (f : FieldDescriptor D E) (vs : List (Value R)) :
    Prop :=
  (f.label = .repeated → vs = []) ∧ ∀ v ∈ vs, PlainValue plain f.type v

/-- No repeated field has elements, and no field of an enumeration or with a floating point number
is set, up to a depth. -/
def Plain : ℕ → D → Message R → Prop
  | 0, _, _ => False
  | depth + 1, d, m => List.Forall₂ (PlainField (Plain depth)) (s.fields d) m

theorem setWidth_signExtend (x : BitVec 32) : (x.signExtend 64).setWidth 32 = x := by
  ext i hi
  rw [BitVec.getElem_setWidth, BitVec.getLsbD_signExtend, if_pos hi, decide_eq_true (by omega),
    Bool.true_and, BitVec.getLsbD_eq_getElem hi]

/-- Booleans, integers and texts are read as they were. -/
theorem readScalar_scalarJson {t : FieldType D E} {v : Value R} {json : Json R}
    (h : scalarJson t v = some json) : readScalar conversions t json = some v := by
  unfold scalarJson at h
  split at h
  all_goals cases h
  all_goals simp [readScalar, setWidth_signExtend]

theorem scalarJson_ne_null {t : FieldType D E} {v : Value R} {json : Json R}
    (h : scalarJson t v = some json) : json ≠ .null := by
  rintro rfl
  unfold scalarJson at h
  split at h <;> cases h

section Read

variable {s} {typed plain : D → Message R → Prop}
  {json2Message : D → Json R → Message R → Option (Bool × Message R)}
  {message2Json : D → Message R → Json R → Option (Json R)} {f : FieldDescriptor D E}

/-- What both functions do with messages of a type. -/
structure RoundTrip (s : Schema D E) (typed plain : D → Message R → Prop)
    (message2Json : D → Message R → Json R → Option (Json R))
    (json2Message : D → Json R → Message R → Option (Bool × Message R)) : Prop where
  null_or_object : ∀ {d m json}, typed d m → message2Json d m .null = some json →
    json = .null ∨ ∃ entries, json = .object entries
  read : ∀ {d m entries}, typed d m → message2Json d m .null = some (.object entries) →
    ∃ m', json2Message d (.object entries) (emptyMessage s d) = some (true, m') ∧
      (m' = m ↔ plain d m)
  written : ∀ {d m}, typed d m → plain d m →
    ∃ json, message2Json d m .null = some json ∧ (isSet m = true → json ≠ .null)

/-- A value of a single field is set, when it can be read. -/
theorem readField_of_ne_null {value : Json R} (hvalue : value ≠ .null)
    (hlabel : f.label ≠ .repeated) (htype : f.type.subMessage = none) (vs : List (Value R)) :
    readField s conversions json2Message f value vs =
      some (some ((readScalar conversions f.type value).elim vs ([·]))) := by
  unfold readField
  split
  · exact absurd rfl hvalue
  rw [if_neg hlabel]
  split
  · rw [‹f.type = .message _›] at htype
    cases htype
  · rw [‹f.type = .message _›] at htype
    cases htype
  · rcases readScalar conversions f.type _ <;> rfl

/-- An array does not have the name of the field, and nothing is read of it. -/
theorem readField_array (hlabel : f.label = .repeated) (elements : List (Json R))
    (vs : List (Value R)) :
    readField s conversions json2Message f (.array elements) vs = some (some vs) := by
  rw [readField, if_pos hlabel]
  rfl

theorem readField_object (hlabel : f.label ≠ .repeated) {d : D} (htype : f.type = .message d)
    (entries : List (Name × Json R)) :
    readField s conversions json2Message f (.object entries) [] =
      (json2Message d (.object entries) (emptyMessage s d)).map fun (_, sub) =>
        some [.message sub] := by
  change (if f.label = .repeated then _ else _) = _
  rw [if_neg hlabel, htype]
  rfl

theorem exists_message {d : D} {v : Value R} (hv : OfType s typed (.message d) v) :
    ∃ m, v = .message m ∧ typed d m ∧ isSet m = true := by
  rcases v with x | x | x | x | x | x | b | s | number | m
  case message => exact ⟨m, rfl, hv⟩
  all_goals exact hv.elim

/-- A message is read as it was if it is plain. If nothing was written of its fields, it is null,
and not read. -/
theorem readField_message (h : RoundTrip s typed plain message2Json json2Message)
    (hlabel : f.label ≠ .repeated) {d : D} (htype : f.type = .message d) {m : Message R}
    (hm : typed d m) (hset : isSet m = true) {json : Json R}
    (hjson : message2Json d m .null = some json) :
    ∃ vs, readField s conversions json2Message f json [] = some (some vs) ∧
      (vs = [.message m] ↔ plain d m) := by
  rcases h.null_or_object hm hjson with rfl | ⟨entries, rfl⟩
  · refine ⟨[], rfl, iff_of_false (List.cons_ne_nil _ _).symm ?_⟩
    intro hplain
    obtain ⟨json, hjson', hne⟩ := h.written hm hplain
    rw [hjson, Option.some.injEq] at hjson'
    exact hne hset hjson'.symm
  · obtain ⟨m', hread, hiff⟩ := h.read hm hjson
    refine ⟨[.message m'], ?_, ?_⟩
    · rw [readField_object conversions hlabel htype, hread]
      rfl
    · rw [List.cons.injEq, Value.message.injEq, and_iff_left rfl]
      exact hiff

/-- **A value of a single field** is read as it was if it is plain. -/
theorem readField_valueEntry (h : RoundTrip s typed plain message2Json json2Message)
    (hlabel : f.label ≠ .repeated) {v : Value R} (hv : OfType s typed f.type v)
    {entry : Option (Json R)} (hentry : valueEntry message2Json f v = some entry) :
    ∃ vs, readField s conversions json2Message f (entry.getD .null) [] = some (some vs) ∧
      (vs = [v] ↔ PlainValue plain f.type v) := by
  unfold valueEntry at hentry
  cases htype : f.type with
  | message d =>
    rw [htype] at hentry hv
    obtain ⟨m, rfl, htyped, hset⟩ := exists_message hv
    dsimp only at hentry
    rw [Value.getMessage, Option.bind_some, if_pos hset] at hentry
    obtain ⟨json, hjson, rfl⟩ := Option.map_eq_some_iff.mp hentry
    exact readField_message conversions h hlabel htype htyped hset hjson
  | enum e =>
    rw [htype] at hentry
    obtain ⟨number, -, rfl⟩ := Option.map_eq_some_iff.mp hentry
    refine ⟨[], ?_, iff_of_false (List.cons_ne_nil _ _).symm not_false⟩
    rw [Option.getD_some, readField_of_ne_null conversions _ hlabel (htype ▸ rfl), htype]
    · rfl
    · rintro ⟨⟩
  | float =>
    rw [htype] at hentry
    cases hentry
  | double =>
    rw [htype] at hentry
    rw [← Option.some.inj hentry]
    exact ⟨[], rfl, iff_of_false (List.cons_ne_nil _ _).symm not_false⟩
  | group d =>
    rw [htype] at hv
    exact hv.elim
  | _ =>
    rw [htype] at hentry
    obtain ⟨json, hjson, rfl⟩ := Option.map_eq_some_iff.mp hentry
    refine ⟨[v], ?_, iff_of_true rfl trivial⟩
    rw [Option.getD_some, readField_of_ne_null conversions (scalarJson_ne_null hjson) hlabel
      (htype ▸ rfl), htype, readScalar_scalarJson conversions hjson]
    rfl

theorem scalarJson_of_plain {t : FieldType D E} {v : Value R} (hv : OfType s typed t v)
    (hplain : PlainValue plain t v) (ht : t.subMessage = none) :
    ∃ json, scalarJson t v = some json := by
  unfold OfType at hv
  split at hv
  all_goals first | exact ⟨_, rfl⟩ | exact hplain.elim | cases ht | exact hv.elim

/-- What is written of a plain value. -/
theorem valueEntry_of_plain (h : RoundTrip s typed plain message2Json json2Message) {v : Value R}
    (hv : OfType s typed f.type v) (hplain : PlainValue plain f.type v) :
    ∃ json, valueEntry message2Json f v = some (some json) := by
  unfold valueEntry
  cases htype : f.type with
  | message d =>
    rw [htype] at hv hplain
    obtain ⟨m, rfl, htyped, hset⟩ := exists_message hv
    obtain ⟨json, hjson, -⟩ := h.written htyped hplain
    refine ⟨json, ?_⟩
    dsimp only
    rw [Value.getMessage, Option.bind_some, if_pos hset, hjson, Option.map_some]
  | enum | float | double =>
    rw [htype] at hplain
    exact hplain.elim
  | group d =>
    rw [htype] at hv
    exact hv.elim
  | _ =>
    obtain ⟨json, hjson⟩ := scalarJson_of_plain hv hplain (htype ▸ rfl)
    exact ⟨json, congrArg (Option.map some) (htype ▸ hjson)⟩

/-- **What is written of a field** is read again if the field is plain. -/
theorem readField_fieldEntry (h : RoundTrip s typed plain message2Json json2Message)
    {vs : List (Value R)} (hvs : TypedField s typed f vs) {entry : Option (Json R)}
    (hentry : fieldEntry message2Json f vs = some entry) :
    ∃ vs', readField s conversions json2Message f (entry.getD .null) [] = some (some vs') ∧
      (vs' = vs ↔ PlainField plain f vs) := by
  rcases vs with _ | ⟨v, vs⟩
  · rw [fieldEntry_nil, Option.some.injEq] at hentry
    rw [← hentry]
    exact ⟨[], rfl, iff_of_true rfl ⟨fun _ => rfl, List.forall_mem_nil _⟩⟩
  have hne := List.cons_ne_nil v vs
  unfold fieldEntry at hentry
  by_cases hlabel : f.label = .repeated
  · rw [if_pos hlabel, if_pos (List.length_pos_of_ne_nil hne)] at hentry
    obtain ⟨json, hjson, rfl⟩ := Option.map_eq_some_iff.mp hentry
    obtain ⟨elements, rfl⟩ := array_of_repeatedMessage2Json (.inl ⟨rfl, hne⟩) hjson
    refine ⟨[], readField_array conversions hlabel elements [], iff_of_false hne.symm ?_⟩
    intro hplain
    exact hne (hplain.1 hlabel)
  · rw [if_neg hlabel] at hentry
    obtain rfl : vs = [] :=
      List.length_eq_zero_iff.mp (Nat.le_zero.mp (Nat.le_of_succ_le_succ (hvs.1 hlabel)))
    obtain ⟨vs', hread, hiff⟩ :=
      readField_valueEntry conversions h hlabel (hvs.2 v (List.mem_singleton_self v)) hentry
    refine ⟨vs', hread, hiff.trans ?_⟩
    rw [PlainField, List.forall_mem_singleton, and_iff_right fun hrep => absurd hrep hlabel]

/-- Something is written of a plain field that is set. -/
theorem fieldEntry_of_plain (h : RoundTrip s typed plain message2Json json2Message)
    {vs : List (Value R)} (hvs : TypedField s typed f vs) (hplain : PlainField plain f vs) :
    ∃ entry, fieldEntry message2Json f vs = some entry ∧ (vs ≠ [] → entry ≠ none) := by
  rcases vs with _ | ⟨v, vs⟩
  · exact ⟨none, fieldEntry_nil f, fun hne => absurd rfl hne⟩
  have hlabel : f.label ≠ .repeated := fun hrep => List.cons_ne_nil v vs (hplain.1 hrep)
  obtain ⟨json, hjson⟩ :=
    valueEntry_of_plain h (hvs.2 v List.mem_cons_self) (hplain.2 v List.mem_cons_self)
  refine ⟨some json, ?_, fun _ => Option.some_ne_none json⟩
  unfold fieldEntry
  rw [if_neg hlabel]
  exact hjson

/-- The round trip of fields. -/
theorem readFields_object (h : RoundTrip s typed plain message2Json json2Message)
    {fs : List (FieldDescriptor D E)} {m : Message R} {entries : List (Name × Json R)}
    (hm : List.Forall₂ (TypedField s typed) fs m)
    (hentries : List.Forall₂ (fun f vs => fieldEntry message2Json f vs =
      some (entries.lookup f.name)) fs m) :
    ∃ m', readFields s conversions json2Message (.object entries) fs (fs.map fun _ => []) =
      some (true, m') ∧ (m' = m ↔ List.Forall₂ (PlainField plain) fs m) := by
  induction hm with
  | nil => exact ⟨[], rfl, iff_of_true rfl .nil⟩
  | @cons f vs fs m hvs hm ih =>
    obtain ⟨hentry, hentries⟩ := List.forall₂_cons.mp hentries
    obtain ⟨vs', hread, hvs'⟩ := readField_fieldEntry conversions h hvs hentry
    obtain ⟨m', hreads, hm'⟩ := ih hentries
    refine ⟨vs' :: m', ?_, ?_⟩
    · rw [List.map_cons, readFields, Json.get, Option.bind_some, hread, Option.bind_some]
      dsimp only
      rw [hreads, Option.map_some]
    · rw [List.cons.injEq, hvs', hm', List.forall₂_cons]

/-- Something is written of plain fields when one of them is set. -/
theorem entriesOf_of_plain (h : RoundTrip s typed plain message2Json json2Message)
    {fs : List (FieldDescriptor D E)} {m : Message R}
    (hm : List.Forall₂ (TypedField s typed) fs m)
    (hplain : List.Forall₂ (PlainField plain) fs m) :
    ∃ entries, entriesOf message2Json fs m = some entries ∧ (isSet m = true → entries ≠ []) := by
  induction hm with
  | nil => exact ⟨[], rfl, fun hset => by cases hset⟩
  | @cons f vs fs m hvs hm ih =>
    obtain ⟨hf, hfs⟩ := List.forall₂_cons.mp hplain
    obtain ⟨entry, hentry, hne⟩ := fieldEntry_of_plain h hvs hf
    obtain ⟨entries, hentries, hnes⟩ := ih hfs
    refine ⟨entry.toList.map (f.name, ·) ++ entries, ?_, ?_⟩
    · rw [entriesOf, hentry, Option.bind_some, hentries, Option.map_some]
    · intro hset
      by_cases hnil : vs = []
      · rw [hnil] at hset
        exact List.append_ne_nil_of_right_ne_nil _ (hnes hset)
      · obtain ⟨value, rfl⟩ := Option.ne_none_iff_exists'.mp (hne hnil)
        exact List.cons_ne_nil _ _

end Read

/-! ### Messages -/

/-- **What is written of the fields of a message** is an object, or null. -/
theorem writeFields_null {message2Json : D → Message R → Json R → Option (Json R)} (d : D)
    (m : Message R) : writeFields message2Json (s.fields d) m .null =
      (entriesOf message2Json (s.fields d) m).map .ofEntries :=
  writeFields_eq [] (s.names_nodup d) m fun _ _ => rfl

section Message

variable {s} {typed plain : D → Message R → Prop}
  {json2Message : D → Json R → Message R → Option (Bool × Message R)}
  {message2Json : D → Message R → Json R → Option (Json R)}

/-- The round trip of messages one level deeper. -/
theorem RoundTrip.succ (h : RoundTrip s typed plain message2Json json2Message) :
    RoundTrip s (fun d => List.Forall₂ (TypedField s typed) (s.fields d))
      (fun d => List.Forall₂ (PlainField plain) (s.fields d))
      (fun d => writeFields message2Json (s.fields d))
      fun d json => readFields s conversions json2Message json (s.fields d) where
  null_or_object {d m json} _ hjson := by
    rw [writeFields_null] at hjson
    obtain ⟨entries, -, rfl⟩ := Option.map_eq_some_iff.mp hjson
    rcases entries with _ | ⟨entry, entries⟩
    · exact .inl rfl
    · exact .inr ⟨entry :: entries, rfl⟩
  read {d m entries} hm hjson := by
    rw [writeFields_null] at hjson
    obtain ⟨entries', hentries, hobject⟩ := Option.map_eq_some_iff.mp hjson
    obtain rfl : entries' = entries := by
      rcases entries' with _ | ⟨entry, entries'⟩
      · cases hobject
      · exact Json.object.inj hobject
    refine readFields_object conversions h hm ?_
    exact lookup_entriesOf [] (s.names_nodup d) hm.length_eq (fun _ _ => rfl) hentries
  written {d m} hm hplain := by
    obtain ⟨entries, hentries, hne⟩ := entriesOf_of_plain h hm hplain
    refine ⟨.ofEntries entries, ?_, ?_⟩
    · rw [writeFields_null, hentries, Option.map_some]
    · intro hset
      rw [Json.ofEntries_of_ne_nil (hne hset)]
      rintro ⟨⟩

end Message

/-- **The round trip of messages**, by induction on their depth. -/
theorem roundTrip (depth fuel : ℕ) (h : depth ≤ fuel) :
    RoundTrip s (Typed s depth) (Plain s depth) (message2Json s fuel)
      (json2Message s conversions fuel) := by
  induction depth generalizing fuel with
  | zero => exact ⟨fun hm => hm.elim, fun hm => hm.elim, fun hm => hm.elim⟩
  | succ depth ih =>
    obtain ⟨fuel, rfl⟩ := Nat.exists_eq_add_of_le' (Nat.zero_lt_of_lt h)
    exact (ih fuel (Nat.le_of_succ_le_succ h)).succ conversions

/-- Null is not read into a message of a type with fields. -/
theorem json2Message_null {d : D} (hfields : s.fields d ≠ []) (fuel : ℕ) :
    json2Message s conversions fuel d .null (emptyMessage s d) = none := by
  rcases fuel with _ | fuel
  · rfl
  obtain ⟨f, fs, hfs⟩ := List.exists_cons_of_ne_nil hfields
  rw [json2Message, emptyMessage, hfs]
  rfl

theorem message2Json_of_not_isSet {d : D} {m : Message R} (hset : isSet m = false) (fuel : ℕ) :
    message2Json s (fuel + 1) d m .null = some .null := by
  rw [message2Json, writeFields_null, entriesOf_of_not_isSet hset]
  rfl

/-- A message of a type without fields is plain. -/
theorem plain_of_fields_eq_nil {depth : ℕ} {d : D} {m : Message R} (hm : Typed s depth d m)
    (hfields : s.fields d = []) : m = [] ∧ Plain s depth d m := by
  rcases depth with _ | depth
  · exact hm.elim
  rw [Typed, hfields] at hm
  obtain rfl := List.forall₂_nil_left_iff.mp hm
  refine ⟨rfl, ?_⟩
  rw [Plain, hfields]
  exact .nil

/-- **A message is read back from its JSON** if and only if it is plain and either something is set
in it, or its type has no fields. -/
theorem json2Message_message2Json_iff {depth fuel : ℕ} {d : D} {m : Message R}
    (hm : Typed s depth d m) (hfuel : depth ≤ fuel) :
    ((message2Json s fuel d m .null).bind fun json =>
        json2Message s conversions fuel d json (emptyMessage s d)).map Prod.snd = some m ↔
      Plain s depth d m ∧ (isSet m = true ∨ s.fields d = []) := by
  have h := roundTrip s conversions depth fuel hfuel
  obtain ⟨depth, rfl⟩ : ∃ k, depth = k + 1 := by
    rcases depth with _ | depth
    · exact hm.elim
    · exact ⟨depth, rfl⟩
  obtain ⟨fuel, rfl⟩ := Nat.exists_eq_add_of_le' (Nat.zero_lt_of_lt hfuel)
  constructor
  · intro hback
    obtain ⟨result, hresult, hback'⟩ := Option.map_eq_some_iff.mp hback
    obtain ⟨json, hjson, hread⟩ := Option.bind_eq_some_iff.mp hresult
    rcases h.null_or_object hm hjson with rfl | ⟨entries, rfl⟩
    · -- The constant null has nothing at a name.
      have hfields : s.fields d = [] := by
        by_contra hfields
        rw [json2Message_null s conversions hfields] at hread
        cases hread
      exact ⟨(plain_of_fields_eq_nil s hm hfields).2, .inr hfields⟩
    · obtain ⟨m', hm', hiff⟩ := h.read hm hjson
      obtain rfl : (true, m') = result := Option.some.inj (hm'.symm.trans hread)
      refine ⟨hiff.mp hback', .inl ?_⟩
      by_contra hset
      rw [Bool.not_eq_true] at hset
      rw [message2Json_of_not_isSet s hset] at hjson
      cases hjson
  · rintro ⟨hplain, hset | hfields⟩
    · obtain ⟨json, hjson, hne⟩ := h.written hm hplain
      obtain ⟨entries, rfl⟩ := (h.null_or_object hm hjson).resolve_left (hne hset)
      obtain ⟨m', hread, hiff⟩ := h.read hm hjson
      rw [hjson, Option.bind_some, hread, Option.map_some, hiff.mpr hplain]
    · obtain ⟨rfl, -⟩ := plain_of_fields_eq_nil s hm hfields
      rw [message2Json_of_not_isSet s rfl, Option.bind_some, json2Message, emptyMessage, hfields]
      rfl

/-- A text in a message in a message. -/
theorem json2Message_message2Json_iff_nested :
    ((message2Json Schema.sample 2 false
        [[], [], [.message [[.string [118]], [], []]], []] .null).bind fun json =>
      json2Message Schema.sample .whole 2 false json (emptyMessage Schema.sample false)).map
        Prod.snd = some [[], [], [.message [[.string [118]], [], []]], []] := by
  refine (json2Message_message2Json_iff Schema.sample .whole ?_ (le_refl 2)).mpr
    ⟨?_, .inl rfl⟩
  · simp [Typed, TypedField, OfType, Schema.sample, isSet]
  · simp [Plain, PlainField, PlainValue, Schema.sample]

/-- The number of an enumeration is written and not read. -/
theorem not_json2Message_message2Json :
    ¬ ∀ (d : Bool) (m : Message ℤ), Typed Schema.sample 1 d m → isSet m = true →
      ((message2Json Schema.sample 1 d m .null).bind fun json =>
        json2Message Schema.sample .whole 1 d json (emptyMessage Schema.sample d)).map
          Prod.snd = some m := by
  intro h
  have hm : Typed Schema.sample 1 false ([[], [], [], [.enum 1]] : Message ℤ) := by
    simp [Typed, TypedField, OfType, Schema.sample]
  have hback : some [[], [], [], []] = some ([[], [], [], [.enum 1]] : Message ℤ) :=
    h false _ hm rfl
  simp at hback

end Lsf.Pb2Json
