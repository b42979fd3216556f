import Lsf.Svr.CsvConfig

/-!
# The elements that cells go to

Cells of a row with one mark at a repeated field should go into one element of it, and cells with
different marks into different ones. The processor remembers one mark for all repeated fields, of
the row's message and of those below it, so this depends on the order of the columns.

A row is a walk: what the processor does with a cell is known, up to elements, from the name of its
column and from whether it can be stored.

## Main definitions

* `fieldMoves`, `rowMoves` — the walk of a row
* `Sim` — the processor is where the walk is
* `GroupedByMark` — elements and marks of the cells of a row

## Main results

* `processField_sim`, `processRow_sim` — the processor takes the walk
* `processRow_groupedByMark_iff`
-/

namespace Lsf.CsvConfig

open Proto StringExt NameTableMap

variable {D E R : Type} (s : Schema D E) (m : NameTableMap) (casts : TypeCasts R)

/-! ### The walk of a row -/

/-- A step to a message. -/
def moveTo : Name × Option Name → Move Name Name
  | (field, none) => .single field
  | (field, some mark) => .repeated field mark true

/-- The walk of a cell. At its end nothing is stored if the cell has no value for the field. -/
def fieldMoves (fuel : ℕ) (d : D) (components : List Name) (field : Name) :
    List (Move Name Name) :=
  let (way, last) := resolve s fuel d components
  way.map moveTo ++
    match last with
    | some (f, some mark) => [.repeated f.name mark (castable s m casts f field)]
    | _ => []

/-- The first component of a name is that of a field. -/
def hasField (d : D) (name : Name) : Bool :=
  (s.findFieldByName d ((name.splitOn nameDelimit).headD [])).isSome

/-- The walk of a row. It ends where a first component is not that of a field. -/
def rowMoves (d : D) : List (Name × Name) → List (Move Name Name)
  | [] => []
  | (name, field) :: cells =>
    if name = [] ∨ field = [] then rowMoves d cells
    else
      .start :: fieldMoves s m casts (name.length + 1) d (name.splitOn nameDelimit) field ++
        if hasField s d name then rowMoves d cells else []

/-! ### Taking the walk -/

/-- A visit as the processor notes it. -/
def placementOf (v : Visit Name Name) : Placement :=
  ⟨v.address, v.field, v.mark, if v.stored then some v.index else none⟩

/-- The processor is where the walk is: it remembers the same mark, the fields have as many elements
and the cells went to the same ones. -/
structure Sim (w : MarkWalk Name Name) (p : Processor R) : Prop where
  last : w.last = p.repeatedMark
  size : ∀ address field, p.store.size address field = (w.marks address field).length
  placed : p.placed = w.visits.map placementOf

variable {s m casts} {w : MarkWalk Name Name} {p : Processor R}

theorem Sim.congr {w' : MarkWalk Name Name} {p' : Processor R} (h : Sim w p)
    (hlast : w'.last = w.last) (hmarks : w'.marks = w.marks) (hvisits : w'.visits = w.visits)
    (hmark : p'.repeatedMark = p.repeatedMark) (hstore : p'.store.size = p.store.size)
    (hplaced : p'.placed = p.placed) : Sim w' p' where
  last := by rw [hlast, hmark, h.last]
  size address field := by rw [hstore, hmarks, h.size]
  placed := by rw [hplaced, hvisits, h.placed]

theorem Sim.joins_iff (h : Sim w p) (field mark : Name) : w.Joins field mark ↔
    mark = p.repeatedMark ∧ p.store.size w.address field ≠ 0 := by
  rw [MarkWalk.Joins, h.last, h.size, ne_eq, ne_eq, List.length_eq_zero_iff]

/-- Where a value goes at a repeated field. -/
theorem Sim.slotFor_repeated (h : Sim w p) {f : FieldDescriptor D E} (hrep : f.label = .repeated)
    (rest : List Name) : p.slotFor f w.address rest =
      if w.Joins f.name (rest.headD []) then .last else .added := by
  rw [Processor.slotFor, if_pos hrep]
  simp only [h.joins_iff]

/-- **A step of the walk**: a value is put where the walk goes. -/
theorem Sim.put (h : Sim w p) (f : FieldDescriptor D E) (rest : List Name) (value : Value R) :
    Sim (w.step (moveTo (f.name, (markIn f rest).head?)))
      ((p.entered f rest).put (p.slotFor f w.address rest) w.address f.name value) ∧
    (w.step (moveTo (f.name, (markIn f rest).head?))).address =
      (f.name, p.store.index (p.slotFor f w.address rest) w.address f.name) :: w.address := by
  by_cases hrep : f.label = .repeated
  · have hmarks := markIn_of_repeated rest hrep
    have hslot := h.slotFor_repeated hrep rest
    generalize rest.headD [] = mark at hmarks hslot
    have hmark : (p.entered f rest).repeatedMark = mark := by
      rw [Processor.entered_repeatedMark, hmarks, List.headD_cons]
    have hindex : p.store.index (p.slotFor f w.address rest) w.address f.name =
        some (w.index f.name mark) := by
      rw [hslot, MarkWalk.index, ← h.size]
      split
      · rfl
      · rfl
    rw [hmarks, List.head?_cons, moveTo, MarkWalk.step]
    refine ⟨⟨?_, ?_, ?_⟩, ?_⟩
    · rw [Processor.put_repeatedMark, hmark]
    · intro address' field'
      rw [Processor.put_store, Store.size_put, Processor.entered_store, h.size, hslot]
      by_cases hjoins : w.Joins f.name mark
      · simp [hjoins]
      · simp only [hjoins, if_false, not_false_eq_true, and_self, if_true, true_and,
          MarkWalk.addMark]
        split
        · rw [List.length_append, List.length_singleton]
        · rfl
    · rw [Processor.put_placed, Processor.entered_store, hindex, Processor.note_entered, hmarks,
        h.placed, List.map_append]
      rfl
    · rw [hindex, if_pos rfl]
  · have hmarks := markIn_of_not_repeated rest hrep
    have hslot : p.slotFor f w.address rest = .single := if_neg hrep
    rw [hmarks, List.head?_nil, moveTo, hslot]
    refine ⟨⟨?_, ?_, ?_⟩, rfl⟩
    · rw [Processor.put_repeatedMark, Processor.entered_repeatedMark, hmarks, List.headD_nil,
        ← h.last]
      rfl
    · intro address' field'
      rw [Processor.put_store, Store.size_put, if_neg fun hadded => Slot.noConfusion hadded.1,
        Processor.entered_store, h.size]
      rfl
    · rw [← hslot, Processor.put_placed, Processor.note_entered, hmarks, h.placed]
      exact List.append_nil _

/-- A step to a repeated field where nothing is stored. -/
theorem Sim.not_stored (h : Sim w p) {p' : Processor R} (field mark : Name)
    (hmark : p'.repeatedMark = mark) (hstore : p'.store = p.store)
    (hplaced : p'.placed = p.placed ++ [⟨w.address, field, mark, none⟩]) :
    Sim (w.step (.repeated field mark false)) p' where
  last := hmark.symm
  size address field := by
    rw [hstore, h.size]
    simp only [MarkWalk.step, Bool.false_eq_true, false_and, if_false]
  placed := by
    rw [hplaced, h.placed, MarkWalk.step, List.map_append]
    rfl

/-- A field with a value of its own: the walk ends there. -/
theorem Sim.writeField_leaf (h : Sim w p)
    (processField : D → ListAddress Name → Processor R → Option (Bool × Processor R))
    {f : FieldDescriptor D E} (rest : List Name) (hsub : f.type.subMessage = none) :
    ∃ p', writeField s m casts processField (p.slotFor f w.address rest) f w.address
        (p.entered f rest) = some (castable s m casts f p.field, p') ∧
      Sim (w.run ((markIn f rest).map fun mark =>
        .repeated f.name mark (castable s m casts f p.field))) p' ∧
      p'.written = p.written + if castable s m casts f p.field then 1 else 0 := by
  obtain ⟨p', hwrite, hmark, hyes, hno⟩ := CsvConfig.writeField_leaf s m casts processField
    (p.slotFor f w.address rest) w.address (p.entered f rest) hsub
  rw [Processor.entered_field] at hwrite hyes hno
  refine ⟨p', hwrite, ?_⟩
  rcases hcast : castable s m casts f p.field with _ | _
  · obtain ⟨hstore, hplaced, hwritten⟩ := hno hcast
    refine ⟨?_, hwritten⟩
    rw [Processor.entered_repeatedMark] at hmark
    rw [Processor.note_entered] at hplaced
    by_cases hrep : f.label = .repeated
    · have hmarks := markIn_of_repeated rest hrep
      rw [hmarks] at hmark hplaced ⊢
      exact h.not_stored f.name _ hmark hstore hplaced
    · have hmarks := markIn_of_not_repeated rest hrep
      rw [hmarks, List.map_nil, List.append_nil] at hplaced
      rw [hmarks] at hmark ⊢
      exact h.congr rfl rfl rfl hmark (congrArg Store.size hstore) hplaced
  · obtain ⟨value, hstore, hplaced, hwritten⟩ := hyes hcast
    refine ⟨?_, hwritten⟩
    have hput : Sim (w.step (moveTo (f.name, (markIn f rest).head?))) p' :=
      (h.put f rest value).1.congr rfl rfl rfl
        (hmark.trans (Processor.put_repeatedMark _ _ _ _ _).symm) (congrArg Store.size hstore)
        hplaced
    by_cases hrep : f.label = .repeated
    · have hmarks := markIn_of_repeated rest hrep
      rw [hmarks] at hput ⊢
      exact hput
    · have hmarks := markIn_of_not_repeated rest hrep
      rw [hmarks] at hput ⊢
      exact hput.congr rfl rfl rfl rfl rfl rfl

section Field

variable {fuel : ℕ} {d : D} {components : List Name} {f : FieldDescriptor D E}

section Moves

variable (m casts fuel) (field : Name)

theorem fieldMoves_none (hnone : s.findFieldByName d (components.headD []) = none) :
    fieldMoves s m casts (fuel + 1) d components field = [] ∧
      canStore s m casts (fuel + 1) d components field = false := by
  rw [fieldMoves, canStore, resolve, hnone]
  exact ⟨rfl, rfl⟩

theorem fieldMoves_leaf
    (hsome : s.findFieldByName d (components.headD []) = some f)
    (hsub : f.type.subMessage = none) :
    fieldMoves s m casts (fuel + 1) d components field =
        ((markIn f components.tail).map fun mark =>
          .repeated f.name mark (castable s m casts f field)) ∧
      canStore s m casts (fuel + 1) d components field = castable s m casts f field := by
  rw [fieldMoves, canStore, resolve, hsome]
  dsimp only
  rw [hsub]
  refine ⟨?_, rfl⟩
  by_cases hrep : f.label = .repeated
  · have hmarks := markIn_of_repeated components.tail hrep
    rw [hmarks]
    rfl
  · have hmarks := markIn_of_not_repeated components.tail hrep
    rw [hmarks]
    rfl

theorem fieldMoves_sub {d' : D}
    (hsome : s.findFieldByName d (components.headD []) = some f)
    (hsub : f.type.subMessage = some d') :
    fieldMoves s m casts (fuel + 1) d components field =
        moveTo (f.name, (markIn f components.tail).head?) ::
          fieldMoves s m casts fuel d' (afterMark f components.tail) field ∧
      canStore s m casts (fuel + 1) d components field =
        canStore s m casts fuel d' (afterMark f components.tail) field := by
  rw [fieldMoves, canStore, resolve, hsome]
  dsimp only
  rw [hsub]
  exact ⟨rfl, rfl⟩

end Moves

theorem length_joined_tail_lt (hsome : s.findFieldByName d (components.headD []) = some f) :
    (joined (afterMark f components.tail)).length < (joined components).length := by
  have hne : components.headD [] ≠ [] := by
    intro hnil
    rw [hnil, s.findFieldByName_nil] at hsome
    cases hsome
  have hpos := length_joined_pos hne
  have hle := length_eraseFront_le (joined components) (components.headD []).length
  have hmark := length_joined_afterMark f components.tail
  rw [eraseFront_joined] at hle
  omega

variable (s m casts d)

/-- **The processor takes the walk of a cell.** It writes a value if the cell can be stored, and
what it returns only says whether the first component is that of a field. -/
theorem processField_sim (hfree : ∀ c ∈ components, nameDelimit ∉ c)
    (hfuel : (joined components).length < fuel) (hname : p.name = joined components)
    (hsim : Sim w p) :
    ∃ p', processField s m casts fuel d w.address p =
        some ((s.findFieldByName d (components.headD [])).isSome, p') ∧
      Sim (w.run (fieldMoves s m casts fuel d components p.field)) p' ∧
      p'.written = p.written + if canStore s m casts fuel d components p.field then 1 else 0 := by
  induction fuel generalizing d components w p with
  | zero => exact absurd hfuel (Nat.not_lt_zero _)
  | succ fuel ih =>
    rcases hf : s.findFieldByName d (components.headD []) with _ | f
    · obtain ⟨errString, hresult⟩ := processField_none s m casts w.address hfree hname hf
      obtain ⟨hmoves, hstore⟩ := fieldMoves_none m casts fuel p.field hf
      rw [hmoves, hstore]
      exact ⟨_, hresult, hsim.congr rfl rfl rfl rfl rfl rfl, rfl⟩
    rw [processField_some s m casts w.address hfree hname hf]
    rcases hsub : f.type.subMessage with _ | d'
    · obtain ⟨hmoves, hstore⟩ := fieldMoves_leaf m casts fuel p.field hf hsub
      obtain ⟨p', hwrite, hsim', hwritten⟩ := hsim.writeField_leaf
        (processField s m casts fuel) components.tail hsub
      rw [hmoves, hstore, hwrite]
      exact ⟨p', rfl, hsim', hwritten⟩
    · obtain ⟨hput, haddress⟩ := hsim.put f components.tail (Value.message : Value R)
      obtain ⟨hmoves, hstore⟩ := fieldMoves_sub m casts fuel p.field hf hsub
      rw [hmoves, hstore, writeField_sub s m casts _ _ _ _ hsub, MarkWalk.run_cons,
        Processor.entered_store, ← haddress]
      have hlength := length_joined_tail_lt hf
      obtain ⟨p', hresult, hsim', hwritten⟩ := ih d' (afterMark_free (tail_free hfree) f)
        (by omega) rfl hput
      rw [hresult]
      exact ⟨p', rfl, hsim', hwritten⟩

end Field

/-! ### A row -/

section Row

variable (s m casts)

/-- Whether the loop over the fields of a row goes on to the end. -/
def rowDone (d : D) : List (Name × Name) → Bool
  | [] => true
  | (name, field) :: cells =>
    if name = [] ∨ field = [] then rowDone d cells else hasField s d name && rowDone d cells

/-- How many cells of a row can be stored. -/
def countStored (d : D) : List (Name × Name) → ℕ
  | [] => 0
  | (name, field) :: cells =>
    if name = [] ∨ field = [] then countStored d cells
    else
      (if canStore s m casts (name.length + 1) d (name.splitOn nameDelimit) field then 1 else 0) +
        countStored d cells

/-- **The processor takes the walk of a row.** -/
theorem processRow_sim (d : D) (cells : List (Name × Name)) (hsim : Sim w p) :
    ∃ p', processRow s m casts d cells p = some (rowDone s d cells, p') ∧
      Sim (w.run (rowMoves s m casts d cells)) p' ∧
      (rowDone s d cells = true →
        p'.written = p.written + countStored s m casts d cells) := by
  induction cells generalizing w p with
  | nil => exact ⟨p, rfl, hsim, fun _ => rfl⟩
  | cons cell cells ih =>
    obtain ⟨name, field⟩ := cell
    have hentered : Sim w { p with name := name, field := field } :=
      hsim.congr rfl rfl rfl rfl rfl rfl
    rw [processRow, rowMoves, rowDone, countStored]
    dsimp only
    by_cases hskip : name = [] ∨ field = []
    · rw [if_pos hskip, if_pos hskip, if_pos hskip]
      obtain ⟨p', hrow, hrest⟩ := ih hentered
      refine ⟨p', ?_, hrest⟩
      rw [hrow]
      rcases hskip with hname | hfield
      · rw [if_pos hname]
      · rw [if_pos hfield, ite_self]
    · obtain ⟨hname, hfield⟩ := not_or.mp hskip
      rw [if_neg hskip, if_neg hskip, if_neg hskip, if_neg hname, if_neg hfield]
      have hjoined : joined (name.splitOn nameDelimit) = name := List.intercalate_splitOn _
      have hfuel : (joined (name.splitOn nameDelimit)).length < name.length + 1 := by
        rw [hjoined]
        exact Nat.lt_succ_self _
      have hstart : Sim (w.step .start) { p with name := name, field := field } :=
        hentered.congr rfl rfl rfl rfl rfl rfl
      obtain ⟨p₁, hresult, hsim₁, hwritten⟩ := processField_sim s m casts d
        (fun c hc => notMem_of_mem_splitOn hc) hfuel hjoined.symm hstart
      have hroot : (w.step .start).address = [] := rfl
      rw [← hasField, hroot] at hresult
      rw [hresult, Option.bind_some]
      dsimp only
      rcases hhas : hasField s d name with _ | _
      · refine ⟨p₁, rfl, ?_, fun h => by cases h⟩
        rw [if_neg Bool.false_ne_true, List.append_nil, MarkWalk.run_cons]
        exact hsim₁
      · obtain ⟨p', hrow, hsim', hwritten'⟩ := ih hsim₁
        refine ⟨p', ?_, ?_, ?_⟩
        · rw [if_pos rfl, hrow, Bool.true_and]
        · rw [if_pos rfl, MarkWalk.run_append, MarkWalk.run_cons]
          exact hsim'
        · intro hdone
          rw [hwritten' hdone, hwritten, Nat.add_assoc]

end Row

/-! ### Elements and marks -/

/-- Two cells at a repeated field of one message went to the same element if and only if they have
the same mark, and the field has as many elements as there are marks. -/
def GroupedByMark (p : Processor R) : Prop :=
  (∀ x ∈ p.placed, ∀ y ∈ p.placed, x.address = y.address → x.field = y.field →
    ((∃ index, x.index = some index ∧ y.index = some index) ↔ x.mark = y.mark)) ∧
  ∀ address field, p.store.size address field =
    ((p.placed.filter fun x => x.address = address ∧ x.field = field).map
      Placement.mark).toFinset.card

theorem index_placementOf_iff {v : Visit Name Name} {index : ℕ} :
    (placementOf v).index = some index ↔ v.stored = true ∧ v.index = index := by
  rw [placementOf]
  dsimp only
  split
  · next hstored => rw [Option.some_inj, and_iff_right hstored]
  · next hstored => exact iff_of_false (fun h => by cases h) fun h => hstored h.1

theorem sameElement_iff {v u : Visit Name Name} (hv : v.stored = true) (hu : u.stored = true) :
    (∃ index, (placementOf v).index = some index ∧ (placementOf u).index = some index) ↔
      v.index = u.index := by
  simp only [index_placementOf_iff, hv, hu, true_and]
  constructor
  · rintro ⟨index, rfl, hindex⟩
    exact hindex.symm
  · intro hindex
    exact ⟨v.index, rfl, hindex.symm⟩

/-- Cells are at elements as the visits of the walk, if all is stored. -/
theorem Sim.placed_iff (h : Sim w p) :
    (∀ x ∈ p.placed, ∀ y ∈ p.placed, x.address = y.address → x.field = y.field →
      ((∃ index, x.index = some index ∧ y.index = some index) ↔ x.mark = y.mark)) ↔
    Grouped w.visits ∧ ∀ v ∈ w.visits, v.stored = true := by
  rw [h.placed]
  constructor
  · intro hplaced
    have hstored : ∀ v ∈ w.visits, v.stored = true := by
      intro v hv
      have hmem := List.mem_map_of_mem (f := placementOf) hv
      obtain ⟨index, hindex, -⟩ := (hplaced _ hmem _ hmem rfl rfl).mpr rfl
      exact (index_placementOf_iff.mp hindex).1
    refine ⟨?_, hstored⟩
    intro v hv u hu hvs hus haddress hfield
    exact (sameElement_iff hvs hus).symm.trans
      (hplaced _ (List.mem_map_of_mem hv) _ (List.mem_map_of_mem hu) haddress hfield)
  · rintro ⟨hgrouped, hstored⟩ x hx y hy
    obtain ⟨v, hv, rfl⟩ := List.mem_map.mp hx
    obtain ⟨u, hu, rfl⟩ := List.mem_map.mp hy
    intro haddress hfield
    exact (sameElement_iff (hstored v hv) (hstored u hu)).trans
      (hgrouped v hv u hu (hstored v hv) (hstored u hu) haddress hfield)

theorem Sim.size_eq (h : Sim w p) (hinv : MarkWalk.Inv w)
    (hstored : ∀ v ∈ w.visits, v.stored = true) (address : ListAddress Name) (field : Name) :
    p.store.size address field =
      ((p.placed.filter fun x => x.address = address ∧ x.field = field).map
        Placement.mark).toFinset.card := by
  rw [h.size, hinv.length_marks, h.placed, MarkWalk.visitsAt, List.filter_map, List.map_map]
  have hfilter : (w.visits.filter fun v => v.stored && (v.address = address ∧ v.field = field)) =
      w.visits.filter fun v => v.address = address ∧ v.field = field := by
    refine List.filter_congr ?_
    intro v hv
    rw [hstored v hv, Bool.true_and]
  rw [hfilter]
  rfl

variable (s m casts)

/-- **Cells are grouped by mark** in a row of a new message, if and only if all cells of repeated
fields are stored and the steps to repeated fields are in order. -/
theorem processRow_groupedByMark (d : D) (cells : List (Name × Name)) (p : Processor R) :
    ∃ p', processRow s m casts d cells p.newRow = some (rowDone s d cells, p') ∧
      (GroupedByMark p' ↔ InOrder [] (markSteps [] (rowMoves s m casts d cells)) ∧
        ∀ step ∈ markSteps [] (rowMoves s m casts d cells), step.stored = true) := by
  have hsim : Sim (MarkWalk.init []) p.newRow := ⟨rfl, fun _ _ => rfl, rfl⟩
  obtain ⟨p', hrow, hsim', -⟩ := processRow_sim s m casts d cells hsim
  obtain ⟨hgrouped, hinv⟩ :=
    MarkWalk.grouped_iff (MarkWalk.Inv.init ([] : Name)) (rowMoves s m casts d cells)
  have hvisits := MarkWalk.map_visits_run (MarkWalk.init ([] : Name)) (rowMoves s m casts d cells)
  have hstored : (∀ v ∈ ((MarkWalk.init []).run (rowMoves s m casts d cells)).visits,
      v.stored = true) ↔
      ∀ step ∈ markSteps [] (rowMoves s m casts d cells), step.stored = true := by
    have hsteps : markSteps [] (rowMoves s m casts d cells) =
        ((MarkWalk.init []).run (rowMoves s m casts d cells)).visits.map Visit.toMarkStep :=
      hvisits.symm
    rw [hsteps, List.forall_mem_map]
  refine ⟨p', hrow, ?_⟩
  rw [GroupedByMark, hsim'.placed_iff, hgrouped, hstored]
  constructor
  · exact And.left
  · rintro ⟨horder, hall⟩
    exact ⟨⟨horder, hall⟩, hsim'.size_eq (hinv horder) (hstored.mpr hall)⟩

/-! ### Columns -/

/-- All names of columns are translated or left empty, and begin with a field then. -/
theorem exists_nameTable (d : D) (tableLine : List Name) :
    ∃ names, nameTable s m d tableLine = some names ∧
      ∀ name ∈ names, name ≠ [] → hasField s d name = true := by
  induction tableLine with
  | nil => exact ⟨[], rfl, fun name hname => absurd hname List.not_mem_nil⟩
  | cons chName tableLine ih =>
    obtain ⟨names, hnames, hfields⟩ := ih
    obtain ⟨ok, chName', enName, hresult, hfirst⟩ :=
      m.exists_first_of_translateMessageName s d chName _ (Nat.lt_succ_self _)
    refine ⟨(if ok then enName else []) :: names, ?_, ?_⟩
    · rw [nameTable, hresult, Option.bind_some, hnames]
      rfl
    · intro name hname hne
      rcases List.mem_cons.mp hname with rfl | hname
      · rcases ok with _ | _
        · exact absurd rfl hne
        · exact Option.isSome_iff_exists.mpr (hfirst rfl)
      · exact hfields name hname hne

theorem rowDone_of_forall {d : D} {cells : List (Name × Name)}
    (h : ∀ cell ∈ cells, cell.1 ≠ [] → hasField s d cell.1 = true) : rowDone s d cells = true := by
  induction cells with
  | nil => rfl
  | cons cell cells ih =>
    obtain ⟨hcell, hcells⟩ := List.forall_mem_cons.mp h
    rw [rowDone]
    split
    · exact ih hcells
    · next hskip => rw [hcell (not_or.mp hskip).1, ih hcells, Bool.and_self]

theorem fst_mem_of_mem_cellsOf {names row : List Name} {cell : Name × Name}
    (h : cell ∈ cellsOf names row) : cell.1 ∈ names := by
  obtain ⟨⟨name, j⟩, hmem, rfl⟩ := List.mem_map.mp h
  exact List.fst_mem_of_mem_zipIdx hmem

/-- **Repeated fields are filled by mark** in the message of a row, if and only if all cells of
repeated fields are stored and the steps to repeated fields are in order. -/
theorem processRow_groupedByMark_iff (d : D) (tableLine row : List Name) (p : Processor R) :
    ∃ names p', nameTable s m d tableLine = some names ∧
      processRow s m casts d (cellsOf names row) p.newRow = some (true, p') ∧
      (GroupedByMark p' ↔
        InOrder [] (markSteps [] (rowMoves s m casts d (cellsOf names row))) ∧
        ∀ step ∈ markSteps [] (rowMoves s m casts d (cellsOf names row)), step.stored = true) := by
  obtain ⟨names, hnames, hfields⟩ := exists_nameTable s m d tableLine
  have hdone : rowDone s d (cellsOf names row) = true :=
    rowDone_of_forall s fun cell hcell => hfields cell.1 (fst_mem_of_mem_cellsOf hcell)
  obtain ⟨p', hrow, hiff⟩ := processRow_groupedByMark s m casts d (cellsOf names row) p
  rw [hdone] at hrow
  exact ⟨names, p', hnames, hrow, hiff⟩

/-- The cells of `a.1.x` and `a.1.z`, with `b.2` between them, go to two elements of `a`. -/
theorem not_processRow_groupedByMark : ¬ ∀ (s : Schema Bool Unit) (m : NameTableMap)
    (casts : TypeCasts ℕ) (d : Bool) (tableLine row names : List Name) (p : Processor ℕ)
    (ok : Bool) (p' : Processor ℕ), nameTable s m d tableLine = some names →
      processRow s m casts d (cellsOf names row) p.newRow = some (ok, p') → GroupedByMark p' := by
  intro h
  have hplaced : (processRow Schema.sample NameTableMap.sample .zero false
      (cellsOf [[97, 46, 49, 46, 120], [98, 46, 50], [97, 46, 49, 46, 122]] [[118], [118], [118]])
      Processor.fresh.newRow).map (fun result => result.2.placed) =
        some [⟨[], [97], [49], some 0⟩, ⟨[], [98], [50], some 0⟩, ⟨[], [97], [49], some 1⟩] := by
    decide
  obtain ⟨⟨ok, p'⟩, hrow, hplaced⟩ := Option.map_eq_some_iff.mp hplaced
  have hgrouped := (h _ _ _ _ [[97, 46, 49, 46, 120], [98, 46, 50], [97, 46, 49, 46, 122]] _ _ _
    ok p' (by decide) hrow).1
  dsimp only at hplaced
  rw [hplaced] at hgrouped
  obtain ⟨index, hfirst, hlast⟩ := (hgrouped ⟨[], [97], [49], some 0⟩ (by decide)
    ⟨[], [97], [49], some 1⟩ (by decide) rfl rfl).mpr rfl
  cases hfirst
  cases hlast

end Lsf.CsvConfig
