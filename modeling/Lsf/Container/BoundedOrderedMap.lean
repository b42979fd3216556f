import Lsf.Container.StoredElements
import Lsf.Foundations.Refinement

/-!
# Map and Set as bounded ordered maps

What the containers are for is a sorted table of at most `n` elements. `Models` relates a state to
the table it stands for; every operation refines the operation of the table, but for a removal whose
destructor call harms an element that stays, and so do the runs from `Init` on in which there is no
such removal. In the others the elements that a loop meets are not those of the table.

## Main definitions

* `Models` — the state stands for a sorted table
* `Shows` — what calls observe of a state is as in a sorted table
* `MapOp`, `SetOp` — the operations, executed by `mapStep` and `setStep`
* `mapSpec`, `setSpec` — the operations on tables

## Main results

* `mapStep_of_spares`, `mapStep_of_harms`, and the same for `setStep`
* `containers_are_bounded_ordered_maps_iff_no_removal_harms`
* `containers_of_plain_elements_are_bounded_ordered_maps` — where destructors are trivial
-/

namespace Lsf.RBTree

open ColorTree

variable {α κ υ : Type} [LinearOrder κ]

/-- The state stands for the table. -/
def Models (key : α → κ) {n : ℕ} (s : State α) (T : SortedTable key n) : Prop :=
  ∃ t free d, Stores key s n t free d ∧ T.items = elems d t

namespace Models

variable {key : α → κ} {dtor : α → α} {n : ℕ} {s : State α} {T : SortedTable key n} {k : κ}

theorem slots (h : Models key s T) : s.slots = n + 1 := by
  obtain ⟨t, free, d, h, -⟩ := h
  exact h.rep.slots

theorem size (h : Models key s T) : s.size = T.items.length := by
  obtain ⟨t, free, d, h, hT⟩ := h
  rw [h.rep.size, hT, elems, List.length_map]

/-- **`Insert` is the insertion of the table**, and a refused one changes nothing. -/
theorem insertElem (h : Models key s T) (x : α) :
    Ensures (RBTree.insertElem key x) s fun r s' =>
      r = (T.insert x).1 ∧ Models key s' (T.insert x).2 ∧ (r = false → s' = s) := by
  have h₀ := h
  obtain ⟨t, free, d, h, hT⟩ := h
  have hlen : T.items.length = t.toList.length := by rw [hT, elems, List.length_map]
  have hadd := h.length_add
  by_cases hfound : ∃ y ∈ t.toList, key (d y) = key x
  · refine (h.insertElem_of_found x hfound).mono ?_
    rintro _ _ ⟨rfl, rfl⟩
    have hlookup : T.lookup (key x) ≠ none := by
      rw [SortedTable.lookup, hT]
      exact exists_key_iff.mp hfound
    rw [SortedTable.insert, dif_neg fun hc => hlookup hc.2]
    exact ⟨rfl, h₀, fun _ => rfl⟩
  cases free with
  | nil =>
    refine (h.insertElem_of_full x).mono ?_
    rintro _ _ ⟨rfl, rfl⟩
    have hfull : ¬ T.items.length < n := by
      rw [List.length_nil] at hadd
      omega
    rw [SortedTable.insert, dif_neg fun hc => hfull hc.1]
    exact ⟨rfl, h₀, fun _ => rfl⟩
  | cons p free =>
    refine (h.insertElem_of_new x hfound).mono ?_
    rintro _ s' ⟨rfl, ctx, t', d', -, -, -, -, h', helems⟩
    have hroom : T.items.length < n := by
      rw [List.length_cons] at hadd
      omega
    have hlookup : T.lookup (key x) = none := by
      rw [exists_key_iff, not_not] at hfound
      rw [SortedTable.lookup, hT, hfound]
    rw [SortedTable.insert, dif_pos ⟨hroom, hlookup⟩]
    refine ⟨rfl, ⟨t', free, d', h', ?_⟩, fun hr => by cases hr⟩
    show insertBy key x T.items = _
    rw [hT, helems]

/-- A key is found in the tree if and only if the table has it. -/
theorem exists_key_iff_lookup {t : ColorTree ℕ} {d : ℕ → α} (hT : T.items = elems d t) :
    (∃ y ∈ t.toList, key (d y) = k) ↔ T.lookup k ≠ none := by
  rw [exists_key_iff, SortedTable.lookup, hT]

/-- An `Erase` without the key changes nothing. -/
theorem eraseElem_of_absent (h : Models key s T) (hk : T.lookup k = none) :
    Ensures (RBTree.eraseElem key dtor k) s fun r s' => r = false ∧ s' = s := by
  obtain ⟨t, free, d, h, hT⟩ := h
  exact h.eraseElem_of_absent fun hfound => (exists_key_iff_lookup hT).mp hfound hk

/-- **`Erase` is the removal of the table**, if it harms no element. -/
theorem eraseElem (h : Models key s T) (k : κ) (hspares : ¬ Harms key dtor s k) :
    Ensures (RBTree.eraseElem key dtor k) s fun r s' =>
      r = (T.erase k).1 ∧ Models key s' (T.erase k).2 := by
  by_cases hk : T.lookup k = none
  · have hsame : (T.erase k).2 = T := by
      apply SortedTable.ext
      show eraseBy key k T.items = T.items
      rw [eraseBy, List.filter_eq_self]
      simpa using lookupBy_eq_none.mp hk
    refine (h.eraseElem_of_absent hk).mono ?_
    rintro _ _ ⟨rfl, rfl⟩
    rw [hsame]
    exact ⟨by simp [SortedTable.erase, hk], h⟩
  · obtain ⟨t, free, d, h, hT⟩ := h
    refine (h.eraseElem_of_found ((exists_key_iff_lookup hT).mpr hk) hspares).mono ?_
    rintro _ s' ⟨rfl, t', free', d', h', helems, -⟩
    refine ⟨(Option.isSome_iff_ne_none.mpr hk).symm, t', free', d', h', ?_⟩
    show eraseBy key k T.items = _
    rw [hT, helems]

/-- Only the removal of a stored key harms an element. -/
theorem lookup_of_harms (h : Models key s T) (hharms : Harms key dtor s k) :
    T.lookup k ≠ none := by
  obtain ⟨t, free, d, h, hT⟩ := h
  rw [← exists_key_iff_lookup hT]
  by_contra hk
  obtain ⟨⟨pos, parentPos⟩, _, hrun, hleft, -⟩ := hharms
  obtain ⟨rfl, rfl⟩ : _ = s ∧ pos = NPOS := (h.findNode_of_absent hk).elim hrun
  exact hleft rfl

/-- After an `Erase` that harms an element the loop over the elements does not meet those of the
table. -/
theorem eraseElem_of_harms (h : Models key s T) (hharms : Harms key dtor s k) :
    Ensures (RBTree.eraseElem key dtor k) s fun _ s' => ∃ xs,
      RBTree.walkForward.run s' = some (xs, s') ∧ xs ≠ (T.erase k).2.items := by
  have hk := h.lookup_of_harms hharms
  obtain ⟨t, free, d, h, hT⟩ := h
  refine (h.eraseElem_at ((exists_key_iff_lookup hT).mpr hk)).mono ?_
  rintro _ s' ⟨-, pre, p, post, ht, rfl, -, hlost⟩
  obtain ⟨y, hy, t', free', d', h', hne⟩ := hlost hharms
  obtain ⟨_, _, hrun, rfl, rfl⟩ := h'.walkForward
  refine ⟨_, hrun, fun heq => hne ?_⟩
  rw [heq]
  show y ∈ eraseBy key (key (d p)) T.items
  rw [hT, h.eraseBy_elems ht]
  exact List.mem_append_left _ hy

/-- `Erase` returns false exactly for the keys that are not stored. -/
theorem eraseElem_eq_iff (h : Models key s T) (k : κ) :
    (RBTree.eraseElem key dtor k).run s = some (false, s) ↔ T.lookup k = none := by
  by_cases hk : T.lookup k = none
  · obtain ⟨_, _, hrun, rfl, rfl⟩ := @eraseElem_of_absent _ _ _ _ dtor _ _ _ _ h hk
    exact iff_of_true hrun hk
  · refine iff_of_false (fun hrun => ?_) hk
    obtain ⟨t, free, d, h, hT⟩ := h
    have htrue := (@Stores.eraseElem_at _ _ _ _ _ _ _ _ _ _ dtor h
      ((exists_key_iff_lookup hT).mpr hk)).elim hrun
    exact Bool.false_ne_true htrue.1

/-- **`Find` reaches the element with the key**, which may then be assigned. -/
theorem findElem (h : Models key s T) (k : κ) :
    Ensures (RBTree.findElem key k) s fun q s' => s' = s ∧
      ((q = NPOS ∧ T.lookup k = none) ∨
        (q ≠ NPOS ∧ q < s.slots ∧ T.lookup k = some (s.data q) ∧
          ∀ (f : α → α) (hf : ∀ x, key (f x) = key x),
            Models key (s.withData q (f (s.data q))) (T.modify k f hf))) := by
  obtain ⟨t, free, d, h, hT⟩ := h
  refine (h.findElem k).mono ?_
  rintro q _ ⟨rfl, ⟨rfl, hnone⟩ | ⟨pre, post, hlist, hne, hlt, hpre, hq, hpost⟩⟩
  · exact ⟨rfl, .inl ⟨rfl, by rw [SortedTable.lookup, hT, hnone]⟩⟩
  have helems : elems d t = pre.map d ++ d q :: post.map d := by simp [elems, hlist]
  refine ⟨rfl, .inr ⟨hne, hlt, ?_, fun f hf => ?_⟩⟩
  · rw [SortedTable.lookup, hT, helems, lookupBy_split hpre hq, h.rep.data]
  · have hnodup : q ∉ pre ∧ q ∉ post := by
      have hpart := @Rep.nodup _ _ _ _ _ [] _ _ _ h.rep
      simp only [List.nodup_append, hlist] at hpart
      grind
    have hmod : elems (Function.update d q (f (d q))) t = modifyBy key k f (elems d t) := by
      rw [helems, modifyBy_split hpre hq hpost, elems, hlist, List.map_append, List.map_cons,
        Function.update_self, map_update_of_notMem hnodup.1, map_update_of_notMem hnodup.2]
    rw [h.rep.data]
    refine ⟨t, free, _, ⟨h.rep.withData q (f (d q)), h.root_black, ?_⟩, ?_⟩
    · rw [← sortedBy_elems, hmod, ← hT]
      exact (T.modify k f hf).sorted
    · show modifyBy key k f T.items = _
      rw [hT, hmod]

theorem walkForward (h : Models key s T) :
    Ensures RBTree.walkForward s fun xs s' => s' = s ∧ xs = T.items := by
  obtain ⟨t, free, d, h, hT⟩ := h
  rw [hT]
  exact h.shapes.walkForward

theorem walkBackward (h : Models key s T) :
    Ensures RBTree.walkBackward s fun xs s' => s' = s ∧ xs = T.items.reverse := by
  obtain ⟨t, free, d, h, hT⟩ := h
  rw [hT]
  exact h.shapes.walkBackward

theorem getSize (h : Models key s T) :
    Ensures RBTree.getSize s fun m s' => s' = s ∧ m = T.items.length := by
  rw [RBTree.getSize, ensures_bind, ensures_get, ensures_pure, h.size]
  exact ⟨rfl, rfl⟩

end Models

/-- `Init` makes an empty table. -/
theorem exists_init_models (key : α → κ) (L : Layout) (mem : ℕ → Node α) {n : ℕ} (hn : 1 ≤ n) :
    ∃ s, init L mem (calcByteSize L n) = some s ∧
      Models key s (SortedTable.empty : SortedTable key n) := by
  obtain ⟨s, d, hinit, hrep⟩ := exists_init L mem hn
  exact ⟨s, hinit, nil, List.range' 1 n, d, ⟨hrep, rfl, List.Pairwise.nil⟩, rfl⟩

/-! ### Operations and answers -/

/-- What a call returns: whether it did something, the element an iterator reaches, the value of a
reference, the elements of a loop, the size, or nothing where it throws. -/
inductive Answer (α υ : Type)
  | flag (b : Bool)
  | element (x : Option α)
  | value (v : υ)
  | elements (l : List α)
  | number (m : ℕ)
  | thrown
  deriving DecidableEq, Repr

/-- The element at the position of an iterator. -/
def deref (pos : ℕ) : Prog α (Option α) :=
  if pos = NPOS then pure none else do
    return some (← getData pos)

/-! ### Map -/

/-- The operations of a `Map`. `index` reads `map[key]` and `assign` writes it. -/
inductive MapOp (κ υ : Type)
  | insert (key : κ) (val : υ)
  | erase (key : κ)
  | find (key : κ)
  | index (key : κ)
  | assign (key : κ) (val : υ)
  | forward
  | backward
  | size
  deriving Repr

/-- Read `map[key]`. -/
def readIndex [Inhabited υ] (key : κ) : Prog (MapData κ υ) (Answer (MapData κ υ) υ) := do
  match ← Map.index key with
  | none => return .thrown
  | some pos => return .value (← getData pos).value

/-- `map[key] = val`. -/
def writeIndex [Inhabited υ] (key : κ) (val : υ) :
    Prog (MapData κ υ) (Answer (MapData κ υ) υ) := do
  match ← Map.index key with
  | none => return .thrown
  | some pos => do
    let data ← getData pos
    setData pos { data with value := val }
    return .value val

/-- A call of an operation of a `Map`, whose elements are destroyed as `dtor` says. -/
def mapStep [Inhabited υ] (dtor : MapData κ υ → MapData κ υ) :
    MapOp κ υ → Prog (MapData κ υ) (Answer (MapData κ υ) υ)
  | .insert key val => do return .flag (← Map.insert key val)
  | .erase key => do return .flag (← Map.erase dtor key)
  | .find key => do return .element (← deref (← Map.find key))
  | .index key => readIndex key
  | .assign key val => writeIndex key val
  | .forward => do return .elements (← walkForward)
  | .backward => do return .elements (← walkBackward)
  | .size => do return .number (← getSize)

/-- The operation is not a removal that harms an element. -/
def MapOp.Spares (dtor : MapData κ υ → MapData κ υ) (op : MapOp κ υ) (s : State (MapData κ υ)) :
    Prop :=
  match op with
  | .erase key => ¬ Harms MapData.key dtor s key
  | _ => True

instance [DecidableEq υ] (dtor : MapData κ υ → MapData κ υ) (op : MapOp κ υ)
    (s : State (MapData κ υ)) : Decidable (op.Spares dtor s) :=
  match op with
  | .erase key => inferInstanceAs (Decidable (¬ Harms MapData.key dtor s key))
  | .insert .. | .find _ | .index _ | .assign .. | .forward | .backward | .size => isTrue trivial

/-- The tables a `Map` of capacity `n` stands for. -/
abbrev MapTable (κ υ : Type) [LinearOrder κ] (n : ℕ) :=
  SortedTable (MapData.key : MapData κ υ → κ) n

/-- The table in which `map[key]` looks: a missing key is inserted with the default value. -/
def MapTable.withKey [Inhabited υ] {n : ℕ} (T : MapTable κ υ n) (key : κ) : MapTable κ υ n :=
  (T.insert ⟨key, default⟩).2

/-- What `map[key]` reads. -/
def readSpec [Inhabited υ] {n : ℕ} (key : κ) (T : MapTable κ υ n) :
    Answer (MapData κ υ) υ × MapTable κ υ n :=
  match (MapTable.withKey T key).lookup key with
  | none => (.thrown, MapTable.withKey T key)
  | some x => (.value x.value, MapTable.withKey T key)

/-- What `map[key] = val` makes of the table. -/
def writeSpec [Inhabited υ] {n : ℕ} (key : κ) (val : υ) (T : MapTable κ υ n) :
    Answer (MapData κ υ) υ × MapTable κ υ n :=
  match (MapTable.withKey T key).lookup key with
  | none => (.thrown, MapTable.withKey T key)
  | some _ => (.value val,
      (MapTable.withKey T key).modify key (fun x => { x with value := val }) fun _ => rfl)

/-- The operations of a `Map` on its tables. -/
def mapSpec [Inhabited υ] {n : ℕ} :
    MapOp κ υ → MapTable κ υ n → Answer (MapData κ υ) υ × MapTable κ υ n
  | .insert key val, T => (.flag (T.insert ⟨key, val⟩).1, (T.insert ⟨key, val⟩).2)
  | .erase key, T => (.flag (T.erase key).1, (T.erase key).2)
  | .find key, T => (.element (T.lookup key), T)
  | .index key, T => readSpec key T
  | .assign key val, T => writeSpec key val T
  | .forward, T => (.elements T.items, T)
  | .backward, T => (.elements T.items.reverse, T)
  | .size, T => (.number T.items.length, T)

section Map

variable [Inhabited υ] {n : ℕ} {s : State (MapData κ υ)} {T : MapTable κ υ n}

/-- **`operator[]` reaches the value of its key**, after it inserted a missing one, and throws
exactly when there is none after that. -/
theorem Models.index (h : Models MapData.key s T) (key : κ) :
    Ensures (Map.index key) s fun r s' => Models MapData.key s' (MapTable.withKey T key) ∧
      ((r = none ∧ (MapTable.withKey T key).lookup key = none) ∨
        ∃ pos, r = some pos ∧ pos < s'.slots ∧
          (MapTable.withKey T key).lookup key = some (s'.data pos) ∧
            ∀ (f : MapData κ υ → MapData κ υ) (hf : ∀ x, (f x).key = x.key),
              Models MapData.key (s'.withData pos (f (s'.data pos)))
                ((MapTable.withKey T key).modify key f hf)) := by
  have hdefault : ((⟨key, default⟩ : MapData κ υ)).key = key := rfl
  rw [Map.index]
  refine (h.findElem key).bind ?_
  rintro q s ⟨rfl, ⟨rfl, hnone⟩ | ⟨hne, hlt, hsome, hmod⟩⟩
  · rw [endPos, ensures_bind, ensures_pure, if_pos rfl]
    refine (h.insertElem ⟨key, default⟩).bind ?_
    rintro r s₁ ⟨hr, h₁, -⟩
    cases r with
    | false =>
      rw [if_pos (by simp), ensures_pure]
      refine ⟨h₁, .inl ⟨rfl, ?_⟩⟩
      rw [MapTable.withKey, SortedTable.insert_snd_of_false hr.symm, hnone]
    | true =>
      rw [if_neg (by simp)]
      have hlookup := SortedTable.lookup_insert hr.symm
      refine (h₁.findElem key).bind ?_
      rintro q s ⟨rfl, ⟨rfl, hnone'⟩ | ⟨hne, hlt, hsome, hmod⟩⟩
      · rw [hdefault, hnone'] at hlookup
        cases hlookup
      · rw [ensures_pure]
        exact ⟨h₁, .inr ⟨q, rfl, hlt, hsome, hmod⟩⟩
  · have hsame : MapTable.withKey T key = T := by
      refine SortedTable.insert_snd_of_false ?_
      rw [← Bool.not_eq_true, SortedTable.insert_fst, hdefault, hsome]
      simp
    rw [endPos, ensures_bind, ensures_pure, if_neg hne, ensures_pure, hsame]
    exact ⟨h, .inr ⟨q, rfl, hlt, hsome, hmod⟩⟩

theorem Models.readIndex (h : Models MapData.key s T) (key : κ) :
    Ensures (RBTree.readIndex key) s fun r s' => r = (readSpec key T).1 ∧
      Models MapData.key s' (readSpec key T).2 := by
  rw [RBTree.readIndex, readSpec]
  refine (h.index key).bind ?_
  rintro r s' ⟨h', ⟨rfl, hnone⟩ | ⟨pos, rfl, hlt, hsome, -⟩⟩
  · rw [hnone, ensures_pure]
    exact ⟨rfl, h'⟩
  · rw [hsome, ensures_bind, ensures_getData hlt, ensures_pure]
    exact ⟨rfl, h'⟩

theorem Models.writeIndex (h : Models MapData.key s T) (key : κ) (val : υ) :
    Ensures (RBTree.writeIndex key val) s fun r s' => r = (writeSpec key val T).1 ∧
      Models MapData.key s' (writeSpec key val T).2 := by
  rw [RBTree.writeIndex, writeSpec]
  refine (h.index key).bind ?_
  rintro r s' ⟨h', ⟨rfl, hnone⟩ | ⟨pos, rfl, hlt, hsome, hmod⟩⟩
  · rw [hnone, ensures_pure]
    exact ⟨rfl, h'⟩
  · rw [hsome, ensures_bind, ensures_getData hlt, ensures_bind, ensures_setData hlt, ensures_pure]
    exact ⟨rfl, hmod (fun x => { x with value := val }) fun _ => rfl⟩

end Map

/-- What a search returns, read back. -/
theorem Models.deref {key : α → κ} {n : ℕ} {s : State α} {T : SortedTable key n}
    (h : Models key s T) (k : κ) :
    Ensures (RBTree.findElem key k >>= RBTree.deref) s fun r s' => s' = s ∧ r = T.lookup k := by
  refine (h.findElem k).bind ?_
  rintro q s ⟨rfl, ⟨rfl, hnone⟩ | ⟨hne, hlt, hsome, -⟩⟩
  · rw [RBTree.deref, if_pos rfl, ensures_pure]
    exact ⟨rfl, hnone.symm⟩
  · rw [RBTree.deref, if_neg hne, ensures_bind, ensures_getData hlt, ensures_pure]
    exact ⟨rfl, hsome.symm⟩

/-- **Every operation of a `Map` that harms no element is the operation on tables.** -/
theorem mapStep_of_spares [Inhabited υ] {n : ℕ} {dtor : MapData κ υ → MapData κ υ} (op : MapOp κ υ)
    (s : State (MapData κ υ)) (T : MapTable κ υ n) (h : Models MapData.key s T)
    (hspares : op.Spares dtor s) :
    Ensures (mapStep dtor op) s fun r s' => r = (mapSpec op T).1 ∧
      Models MapData.key s' (mapSpec op T).2 := by
  cases op with
  | insert key val =>
    refine (h.insertElem ⟨key, val⟩).bind ?_
    rintro _ s' ⟨rfl, h', -⟩
    exact ensures_pure.mpr ⟨rfl, h'⟩
  | erase key =>
    refine (h.eraseElem key hspares).bind ?_
    rintro _ s' ⟨rfl, h'⟩
    exact ensures_pure.mpr ⟨rfl, h'⟩
  | find key =>
    rw [mapStep, ← bind_assoc]
    refine (h.deref key).bind ?_
    rintro _ s ⟨rfl, rfl⟩
    exact ensures_pure.mpr ⟨rfl, h⟩
  | index key => exact h.readIndex key
  | assign key val => exact h.writeIndex key val
  | forward =>
    refine h.walkForward.bind ?_
    rintro _ s ⟨rfl, rfl⟩
    exact ensures_pure.mpr ⟨rfl, h⟩
  | backward =>
    refine h.walkBackward.bind ?_
    rintro _ s ⟨rfl, rfl⟩
    exact ensures_pure.mpr ⟨rfl, h⟩
  | size =>
    refine h.getSize.bind ?_
    rintro _ s ⟨rfl, rfl⟩
    exact ensures_pure.mpr ⟨rfl, h⟩

/-! ### Set -/

/-- The operations of a `Set`. -/
inductive SetOp (κ : Type)
  | insert (val : κ)
  | erase (val : κ)
  | find (val : κ)
  | forward
  | backward
  | size
  deriving Repr

/-- A call of an operation of a `Set`, whose elements are destroyed as `dtor` says. -/
def setStep (dtor : κ → κ) : SetOp κ → Prog κ (Answer κ κ)
  | .insert val => do return .flag (← Set.insert val)
  | .erase val => do return .flag (← Set.erase dtor val)
  | .find val => do return .element (← deref (← Set.find val))
  | .forward => do return .elements (← walkForward)
  | .backward => do return .elements (← walkBackward)
  | .size => do return .number (← getSize)

/-- The operation is not a removal that harms an element. -/
def SetOp.Spares (dtor : κ → κ) (op : SetOp κ) (s : State κ) : Prop :=
  match op with
  | .erase val => ¬ Harms id dtor s val
  | _ => True

instance (dtor : κ → κ) (op : SetOp κ) (s : State κ) : Decidable (op.Spares dtor s) :=
  match op with
  | .erase val => inferInstanceAs (Decidable (¬ Harms id dtor s val))
  | .insert _ | .find _ | .forward | .backward | .size => isTrue trivial

/-- The tables a `Set` of capacity `n` stands for. -/
abbrev SetTable (κ : Type) [LinearOrder κ] (n : ℕ) := SortedTable (id : κ → κ) n

/-- The operations of a `Set` on its tables. -/
def setSpec {n : ℕ} : SetOp κ → SetTable κ n → Answer κ κ × SetTable κ n
  | .insert val, T => (.flag (T.insert val).1, (T.insert val).2)
  | .erase val, T => (.flag (T.erase val).1, (T.erase val).2)
  | .find val, T => (.element (T.lookup val), T)
  | .forward, T => (.elements T.items, T)
  | .backward, T => (.elements T.items.reverse, T)
  | .size, T => (.number T.items.length, T)

/-- **Every operation of a `Set` that harms no element is the operation on tables.** -/
theorem setStep_of_spares {n : ℕ} {dtor : κ → κ} (op : SetOp κ) (s : State κ) (T : SetTable κ n)
    (h : Models id s T) (hspares : op.Spares dtor s) :
    Ensures (setStep dtor op) s fun r s' => r = (setSpec op T).1 ∧
      Models id s' (setSpec op T).2 := by
  cases op with
  | insert val =>
    refine (h.insertElem val).bind ?_
    rintro _ s' ⟨rfl, h', -⟩
    exact ensures_pure.mpr ⟨rfl, h'⟩
  | erase val =>
    refine (h.eraseElem val hspares).bind ?_
    rintro _ s' ⟨rfl, h'⟩
    exact ensures_pure.mpr ⟨rfl, h'⟩
  | find val =>
    rw [setStep, ← bind_assoc]
    refine (h.deref val).bind ?_
    rintro _ s ⟨rfl, rfl⟩
    exact ensures_pure.mpr ⟨rfl, h⟩
  | forward =>
    refine h.walkForward.bind ?_
    rintro _ s ⟨rfl, rfl⟩
    exact ensures_pure.mpr ⟨rfl, h⟩
  | backward =>
    refine h.walkBackward.bind ?_
    rintro _ s ⟨rfl, rfl⟩
    exact ensures_pure.mpr ⟨rfl, h⟩
  | size =>
    refine h.getSize.bind ?_
    rintro _ s ⟨rfl, rfl⟩
    exact ensures_pure.mpr ⟨rfl, h⟩

/-! ### Whole runs -/

/-- What calls observe of a state is as in the table: the block has its `n + 1` slots, `size()` is
the number of keys, the loops in both directions meet the elements in their order, `Find` reaches
the element of its key; and an insertion and a removal are refused exactly when they should be, and
leave the whole state as it was then. -/
structure Shows (key : α → κ) (dtor : α → α) {n : ℕ} (s : State α) (T : SortedTable key n) :
    Prop where
  slots : s.slots = n + 1
  size : s.size = T.items.length
  forward : walkForward.run s = some (T.items, s)
  backward : walkBackward.run s = some (T.items.reverse, s)
  found : ∀ k, (findElem key k >>= deref).run s = some (T.lookup k, s)
  insert_refused : ∀ x, (insertElem key x).run s = some (false, s) ↔
    T.lookup (key x) ≠ none ∨ T.items.length = n
  erase_refused : ∀ k, (eraseElem key dtor k).run s = some (false, s) ↔ T.lookup k = none

/-- The operations run inside the block, each answers as the table does, and all states on the way
show the table. -/
def BehavesAsTable {ι ρ : Type} (key : α → κ) (dtor : α → α) (n : ℕ) (step : ι → Prog α ρ)
    (spec : ι → SortedTable key n → ρ × SortedTable key n) (ops : List ι) (s₀ : State α) : Prop :=
  Meets step spec (Shows key dtor) ops s₀ SortedTable.empty

namespace Models

variable {key : α → κ} {dtor : α → α} {n : ℕ} {s : State α} {T : SortedTable key n}

theorem insertElem_eq_iff (h : Models key s T) (x : α) :
    (RBTree.insertElem key x).run s = some (false, s) ↔
      T.lookup (key x) ≠ none ∨ T.items.length = n := by
  have hbound := T.bounded
  have hfst := SortedTable.insert_fst (t := T) (x := x)
  obtain ⟨r, s', hrun, hr, -, hsame⟩ := h.insertElem x
  have hiff : r = false ↔ T.lookup (key x) ≠ none ∨ T.items.length = n := by
    rw [hr, ← Bool.not_eq_true, hfst, not_and_or, or_comm]
    refine or_congr_right ?_
    omega
  rw [hrun, ← hiff]
  constructor
  · intro heq
    exact congrArg Prod.fst (Option.some.inj heq)
  · intro hr
    rw [hr, hsame hr]

/-- A state shows the table it stands for. -/
theorem shows (h : Models key s T) : Shows key dtor s T := by
  have run_eq : ∀ {β : Type} {m : Prog α β} {b : β},
      Ensures m s (fun r s' => s' = s ∧ r = b) → m.run s = some (b, s) := by
    rintro β m b ⟨_, _, hrun, rfl, rfl⟩
    exact hrun
  exact ⟨h.slots, h.size, run_eq h.walkForward, run_eq h.walkBackward,
    fun k => run_eq (h.deref k), h.insertElem_eq_iff, h.eraseElem_eq_iff⟩

/-- After an `Erase` that harms an element the state does not show the table. -/
theorem not_shows_of_harms {k : κ} (h : Models key s T) (hharms : Harms key dtor s k) :
    Ensures (RBTree.eraseElem key dtor k) s fun _ s' => ¬ Shows key dtor s' (T.erase k).2 := by
  refine (h.eraseElem_of_harms hharms).mono ?_
  rintro _ s' ⟨xs, hrun, hne⟩ hshows
  rw [hshows.forward] at hrun
  exact hne (Prod.mk.inj (Option.some.inj hrun)).1.symm

/-- Where exactly the operations that are spared refine those of the table, exactly the runs of such
operations behave as a table. -/
theorem behavesAsTable_iff {ι ρ : Type} {step : ι → Prog α ρ}
    {spec : ι → SortedTable key n → ρ × SortedTable key n} {G : ι → State α → Prop}
    (hkeep : ∀ i s T, Models key s T → G i s →
      Ensures (step i) s fun r s' => r = (spec i T).1 ∧ Models key s' (spec i T).2)
    (hbreak : ∀ i s T, Models key s T → ¬ G i s →
      Ensures (step i) s fun r s' => ¬ (r = (spec i T).1 ∧ Shows key dtor s' (spec i T).2))
    (h : Models key s (SortedTable.empty : SortedTable key n)) (ops : List ι) :
    BehavesAsTable key dtor n step spec ops s ↔ Guarded step G ops s :=
  meets_iff_guarded (fun _ _ h' => h'.shows) hkeep hbreak h

end Models

theorem mapStep_of_harms [Inhabited υ] {n : ℕ} {dtor : MapData κ υ → MapData κ υ} (op : MapOp κ υ)
    (s : State (MapData κ υ)) (T : MapTable κ υ n) (h : Models MapData.key s T)
    (hharms : ¬ op.Spares dtor s) :
    Ensures (mapStep dtor op) s fun r s' =>
      ¬ (r = (mapSpec op T).1 ∧ Shows MapData.key dtor s' (mapSpec op T).2) := by
  cases op with
  | erase key =>
    refine (h.not_shows_of_harms (not_not.mp hharms)).bind ?_
    exact fun _ s' hne => ensures_pure.mpr fun hs => hne hs.2
  | _ => exact absurd trivial hharms

theorem setStep_of_harms {n : ℕ} {dtor : κ → κ} (op : SetOp κ) (s : State κ) (T : SetTable κ n)
    (h : Models id s T) (hharms : ¬ op.Spares dtor s) :
    Ensures (setStep dtor op) s fun r s' =>
      ¬ (r = (setSpec op T).1 ∧ Shows id dtor s' (setSpec op T).2) := by
  cases op with
  | erase val =>
    refine (h.not_shows_of_harms (not_not.mp hharms)).bind ?_
    exact fun _ s' hne => ensures_pure.mpr fun hs => hne hs.2
  | _ => exact absurd trivial hharms

/-- **`Map` and `Set` are ordered maps bounded by their capacity**, from `Init` on
`CalcByteSize(n)` bytes, in exactly the runs in which no removal harms an element. -/
theorem containers_are_bounded_ordered_maps_iff_no_removal_harms [Inhabited υ] {n : ℕ} (hn : 1 ≤ n)
    (Lm Ls : Layout) (mem : ℕ → Node (MapData κ υ)) (mem' : ℕ → Node κ)
    (dm : MapData κ υ → MapData κ υ) (ds : κ → κ) :
    (∃ s₀, init Lm mem (calcByteSize Lm n) = some s₀ ∧ ∀ ops,
      BehavesAsTable MapData.key dm n (mapStep dm) mapSpec ops s₀ ↔
        Guarded (mapStep dm) (MapOp.Spares dm) ops s₀) ∧
    (∃ s₀, init Ls mem' (calcByteSize Ls n) = some s₀ ∧ ∀ ops,
      BehavesAsTable id ds n (setStep ds) setSpec ops s₀ ↔
        Guarded (setStep ds) (SetOp.Spares ds) ops s₀) := by
  obtain ⟨s, hinit, h⟩ := exists_init_models MapData.key Lm mem hn
  obtain ⟨s', hinit', h'⟩ := exists_init_models id Ls mem' hn
  exact ⟨⟨s, hinit, h.behavesAsTable_iff mapStep_of_spares mapStep_of_harms⟩,
    ⟨s', hinit', h'.behavesAsTable_iff setStep_of_spares setStep_of_harms⟩⟩

/-- A map and a set of three elements, whose destructors leave nothing of a value. All removals are
of nodes with at most one child. -/
theorem containers_of_three_behave_as_tables :
    (∃ s₀, init ⟨8, 32, by decide⟩ (fun _ => ⟨0, 0, 0, ⟨0, []⟩, .empty⟩)
        (calcByteSize ⟨8, 32, by decide⟩ 3) = some s₀ ∧
      BehavesAsTable MapData.key (fun x => ⟨x.key, []⟩) 3 (mapStep fun x => ⟨x.key, []⟩) mapSpec
        [.insert 2 ['b'], .insert 1 ['a'], .insert 3 ['c'], .erase 1, .assign 2 ['d'], .erase 2,
          .index 5, .insert 7 ['e'], .insert 8 ['f'], .forward, .size] s₀) ∧
    (∃ s₀, init ⟨8, 4, by decide⟩ (fun _ => ⟨0, 0, 0, 0, .empty⟩)
        (calcByteSize ⟨8, 4, by decide⟩ 3) = some s₀ ∧
      BehavesAsTable (id : ℕ → ℕ) (fun _ => 0) 3 (setStep fun _ => 0) setSpec
        [.insert 2, .insert 1, .insert 3, .insert 4, .erase 3, .erase 2, .insert 2, .find 1,
          .backward] s₀) := by
  obtain ⟨⟨s, hinit, hmap⟩, ⟨s', hinit', hset⟩⟩ :=
    containers_are_bounded_ordered_maps_iff_no_removal_harms (n := 3) (by decide)
      ⟨8, 32, by decide⟩ ⟨8, 4, by decide⟩ (fun _ => ⟨0, 0, 0, ⟨0, []⟩, .empty⟩)
      (fun _ => ⟨0, 0, 0, 0, .empty⟩) (fun x : MapData ℕ (List Char) => ⟨x.key, []⟩) fun _ : ℕ => 0
  refine ⟨⟨s, hinit, (hmap _).mpr ?_⟩, ⟨s', hinit', (hset _).mpr ?_⟩⟩
  · exact of_all_eq_true (by decide +kernel) hinit
  · exact of_all_eq_true (by decide +kernel) hinit'

/-- A map has the strings of 2, 1 and 3, and 2 is erased: the destructor is called for the string of
1, which has been moved into the place of 2, and `Find` then reaches what it left. -/
theorem moved_string_is_destroyed : ¬ ∀ (n : ℕ) (L : Layout)
    (mem : ℕ → Node (MapData ℕ (List Char)))
    (dtor : MapData ℕ (List Char) → MapData ℕ (List Char)) (s₀ : State (MapData ℕ (List Char)))
    (ops : List (MapOp ℕ (List Char))), 1 ≤ n → init L mem (calcByteSize L n) = some s₀ →
      BehavesAsTable MapData.key dtor n (mapStep dtor) mapSpec ops s₀ := by
  intro hall
  let s₀ : Option (State (MapData ℕ (List Char))) := init ⟨8, 32, by decide⟩
    (fun _ => ⟨0, 0, 0, ⟨0, []⟩, .empty⟩) (calcByteSize ⟨8, 32, by decide⟩ 3)
  have hrun : (s₀.bind fun s => ((runAll (mapStep fun x => ⟨x.key, []⟩) [.insert 2 ['b'],
      .insert 1 ['a'], .insert 3 ['c'], .erase 2, .find 1]).run s).map Prod.fst) =
      some [.flag true, .flag true, .flag true, .flag true, .element (some ⟨1, []⟩)] := by
    decide +kernel
  have hspec : (traceAll (mapSpec (n := 3)) [.insert 2 ['b'], .insert 1 ['a'], .insert 3 ['c'],
      .erase 2, .find 1] SortedTable.empty).1 =
      [.flag true, .flag true, .flag true, .flag true, .element (some ⟨1, ['a']⟩)] := by
    decide +kernel
  obtain ⟨s, hinit, hrun⟩ := Option.bind_eq_some_iff.mp hrun
  obtain ⟨⟨answers, s'⟩, hrun, rfl⟩ := Option.map_eq_some_iff.mp hrun
  have hanswers := ((hall 3 _ _ (fun x => ⟨x.key, []⟩) s _ (by decide) hinit).run.elim hrun).1
  exact absurd (hanswers.trans hspec) (by decide +kernel)

/-! ### Trivial destructors -/

/-- **Where destructors leave the elements alone, all runs behave as a table.** -/
theorem containers_of_plain_elements_are_bounded_ordered_maps [Inhabited υ] {n : ℕ} (hn : 1 ≤ n)
    (Lm Ls : Layout) (mem : ℕ → Node (MapData κ υ)) (mem' : ℕ → Node κ)
    {dm : MapData κ υ → MapData κ υ} {ds : κ → κ} (hm : ∀ x, dm x = x) (hs : ∀ x, ds x = x) :
    (∃ s₀, init Lm mem (calcByteSize Lm n) = some s₀ ∧ ∀ ops,
      BehavesAsTable MapData.key dm n (mapStep dm) mapSpec ops s₀) ∧
    (∃ s₀, init Ls mem' (calcByteSize Ls n) = some s₀ ∧ ∀ ops,
      BehavesAsTable id ds n (setStep ds) setSpec ops s₀) := by
  obtain ⟨s, hinit, h⟩ := exists_init_models MapData.key Lm mem hn
  obtain ⟨s', hinit', h'⟩ := exists_init_models id Ls mem' hn
  have hmap : ∀ (op : MapOp κ υ) (s : State (MapData κ υ)), op.Spares dm s := by
    rintro (_ | key | _ | _ | _ | _ | _ | _) s
    case erase => exact not_harms_of_trivial hm
    all_goals trivial
  have hset : ∀ (op : SetOp κ) (s : State κ), op.Spares ds s := by
    rintro (_ | val | _ | _ | _ | _) s
    case erase => exact not_harms_of_trivial hs
    all_goals trivial
  exact ⟨⟨s, hinit, fun _ => meets_of_keeps (fun _ _ h => h.shows)
      (fun op s T h => mapStep_of_spares op s T h (hmap op s)) h⟩,
    ⟨s', hinit', fun _ => meets_of_keeps (fun _ _ h => h.shows)
      (fun op s T h => setStep_of_spares op s T h (hset op s)) h'⟩⟩

end Lsf.RBTree
