import Lsf.Svr.CsvMarks

/-!
# Cells that cannot be stored

A cell cannot be stored if the name of its column leads to no field, if there is no value of the
field's enumeration with its text, or if nothing of the field's type can be read from a cell. The
functions that store a cell return false then, but `ProcessField` does not look at what they return.
It only returns false itself if it finds no field, and no translated name begins so.

## Main definitions

* `cellsToStore` — the cells that have something in them, of columns that have a name
* `isStorable` — a cell can be stored

## Main results

* `processRows_eq` — the rows are always processed, and as many values written as can be
* `processConfig_reports_iff`
-/

namespace Lsf.CsvConfig

open Proto StringExt NameTableMap

variable {D E R : Type} (s : Schema D E) (m : NameTableMap) (casts : TypeCasts R)

/-- The cells of the rows that are not empty, in translated columns. -/
def cellsToStore (names : List Name) (rows : List (List Name)) : List (Name × Name) :=
  rows.flatMap fun row => (cellsOf names row).filter fun cell => cell.1 ≠ [] ∧ cell.2 ≠ []

/-- A cell can be stored in a message of a type. -/
def isStorable (d : D) (cell : Name × Name) : Bool :=
  canStore s m casts (cell.1.length + 1) d (cell.1.splitOn nameDelimit) cell.2

theorem countStored_eq (d : D) (cells : List (Name × Name)) :
    countStored s m casts d cells =
      (cells.filter fun cell => cell.1 ≠ [] ∧ cell.2 ≠ []).countP (isStorable s m casts d) := by
  induction cells with
  | nil => rfl
  | cons cell cells ih =>
    obtain ⟨name, field⟩ := cell
    rw [countStored, ih, List.filter_cons]
    dsimp only
    by_cases hskip : name = [] ∨ field = []
    · rw [if_pos hskip, if_neg]
      intro h
      exact (not_or.mpr (of_decide_eq_true h)) hskip
    · rw [if_neg hskip, if_pos (decide_eq_true (not_or.mp hskip)), List.countP_cons, Nat.add_comm]
      rfl

/-- **All rows are processed**, whatever the cells are. As many values are written as cells can be
stored. -/
theorem processRows_eq {d : D} {names : List Name}
    (hnames : ∀ name ∈ names, name ≠ [] → hasField s d name = true) (rows : List (List Name))
    (elements : List (Store R)) (p : Processor R) :
    ∃ elements' p', processRows s m casts d names rows elements p = some (true, elements', p') ∧
      p'.written = p.written + (cellsToStore names rows).countP (isStorable s m casts d) := by
  induction rows generalizing elements p with
  | nil => exact ⟨elements, p, rfl, rfl⟩
  | cons row rows ih =>
    have hdone : rowDone s d (cellsOf names row) = true :=
      rowDone_of_forall s fun cell hcell => hnames cell.1 (fst_mem_of_mem_cellsOf hcell)
    have hsim : Sim (MarkWalk.init []) p.newRow := ⟨rfl, fun _ _ => rfl, rfl⟩
    obtain ⟨p₁, hrow, -, hwritten⟩ := processRow_sim s m casts d (cellsOf names row) hsim
    obtain ⟨elements', p', hrows, hwritten'⟩ := ih (elements ++ [p₁.store]) p₁
    refine ⟨elements', p', ?_, ?_⟩
    · rw [processRows, hrow, hdone, Option.bind_some]
      exact hrows
    · rw [hwritten', hwritten hdone, countStored_eq, cellsToStore, cellsToStore,
        List.flatMap_cons, List.countP_append, Nat.add_assoc]
      rfl

theorem fullName_of_findDesc {msgName : Name} {fs : List (FieldDescriptor D E)}
    {f : FieldDescriptor D E} {d : D} (h : findDesc s msgName fs = some (some (f, d))) :
    s.fullName d = msgName := by
  induction fs with
  | nil => cases h
  | cons f' fs ih =>
    rw [findDesc] at h
    obtain ⟨d', -, h⟩ := Option.bind_eq_some_iff.mp h
    split at h
    · next hfound =>
      cases h
      exact hfound.1
    · exact ih h

section Config

variable {files : Name → Option (List UInt8)} {desc : D} {fileName msgName : Name}
  {f : FieldDescriptor D E} {d : D} {names : List Name} {rows : List (List Name)}

/-- The names of columns begin with fields of the messages that the rows become. -/
theorem hasField_of_prepare
    (h : prepare s m files desc fileName msgName = some (.ok (f, d, names, rows))) :
    ∀ name ∈ names, name ≠ [] → hasField s d name = true := by
  rw [prepare] at h
  obtain ⟨found, hfound, h⟩ := Option.bind_eq_some_iff.mp h
  rcases found with _ | ⟨f', d'⟩
  · cases h
  dsimp only at h
  rcases hfile : files fileName with _ | content
  · rw [hfile] at h
    cases h
  rw [hfile] at h
  obtain ⟨table, -, h⟩ := Option.bind_eq_some_iff.mp h
  rcases hpool : s.findMessageTypeByName msgName with _ | pdesc
  · rw [hpool] at h
    cases h
  rw [hpool] at h
  rcases table with _ | ⟨tableLine, rows'⟩
  · cases h
  obtain ⟨names', hnames, h⟩ := Option.map_eq_some_iff.mp h
  cases h
  -- The pool's type has the same name, so it is the same.
  obtain rfl : d = pdesc :=
    s.fullName_inj _ _ ((fullName_of_findDesc s hfound).trans (s.fullName_of_find hpool).symm)
  obtain ⟨names'', hnames', hfields⟩ := exists_nameTable s m d tableLine
  rw [hnames] at hnames'
  rw [Option.some.inj hnames']
  exact hfields

/-- **`ProcessConfig` returns true** once it comes to the rows. -/
theorem processConfig_of_prepare
    (h : prepare s m files desc fileName msgName = some (.ok (f, d, names, rows)))
    (elements : Name → List (Store R)) (p : Processor R) :
    ∃ elements' p',
      processConfig s m casts files desc fileName msgName elements p = some (true, elements', p') ∧
      p'.written = p.written + (cellsToStore names rows).countP (isStorable s m casts d) := by
  obtain ⟨added, p', hrows, hwritten⟩ :=
    processRows_eq s m casts (hasField_of_prepare s m h) rows (elements f.name) p
  refine ⟨fun field => if field = f.name then added else elements field, p', ?_, hwritten⟩
  rw [processConfig, h, Option.bind_some]
  dsimp only
  rw [hrows, Option.map_some]

end Config

/-- **`ProcessConfig` returns false where a cell cannot be stored**, and true only where all are, if
and only if it does not come to the rows or all cells can be stored. -/
theorem processConfig_reports_iff (files : Name → Option (List UInt8)) (desc : D)
    (fileName msgName : Name) (elements : Name → List (Store R)) (p : Processor R) :
    (∀ ok elements' p',
      processConfig s m casts files desc fileName msgName elements p = some (ok, elements', p') →
      ∀ f d names rows,
        prepare s m files desc fileName msgName = some (.ok (f, d, names, rows)) →
        ((∃ cell ∈ cellsToStore names rows, isStorable s m casts d cell = false) → ok = false) ∧
        (ok = true → p'.written = p.written + (cellsToStore names rows).length)) ↔
    ∀ f d names rows, prepare s m files desc fileName msgName = some (.ok (f, d, names, rows)) →
      ∀ cell ∈ cellsToStore names rows, isStorable s m casts d cell = true := by
  constructor
  · intro h f d names rows hprepare cell hcell
    obtain ⟨elements', p', hconfig, -⟩ :=
      processConfig_of_prepare s m casts hprepare elements p
    by_contra hstorable
    have hfalse := (h _ _ _ hconfig f d names rows hprepare).1
      ⟨cell, hcell, Bool.eq_false_iff.mpr hstorable⟩
    cases hfalse
  · intro h ok elements' p' hconfig f d names rows hprepare
    have hall := h f d names rows hprepare
    obtain ⟨elements₁, p₁, hconfig', hwritten⟩ :=
      processConfig_of_prepare s m casts hprepare elements p
    rw [hconfig] at hconfig'
    cases hconfig'
    rw [List.countP_eq_length.mpr hall] at hwritten
    refine ⟨?_, fun _ => hwritten⟩
    rintro ⟨cell, hcell, hstorable⟩
    exact absurd ((hall cell hcell).symm.trans hstorable) Bool.true_eq_false.mp

/-- A table with one column `y`, of bytes, and one cell, which cannot be stored. -/
theorem not_processConfig_reports : ¬ ∀ (s : Schema Bool Unit) (m : NameTableMap)
    (casts : TypeCasts ℕ) (files : Name → Option (List UInt8)) (desc : Bool)
    (fileName msgName : Name) (elements : Name → List (Store ℕ)) (p : Processor ℕ) (ok : Bool)
    (elements' : Name → List (Store ℕ)) (p' : Processor ℕ),
      processConfig s m casts files desc fileName msgName elements p = some (ok, elements', p') →
      ∀ f d names rows,
        prepare s m files desc fileName msgName = some (.ok (f, d, names, rows)) →
        (∃ cell ∈ cellsToStore names rows, isStorable s m casts d cell = false) → ok = false := by
  intro h
  have hprepare : prepare Schema.sample NameTableMap.sample
      (fun _ => some [121, 10, 118, 10]) false [102] [105] =
        some (.ok (⟨[97], [114, 46, 97], .repeated, .message true⟩, true, [[121]], [[[118]]])) := by
    rfl
  have hok : (processConfig Schema.sample NameTableMap.sample .zero
      (fun _ => some [121, 10, 118, 10]) false [102] [105] (fun _ => [])
      Processor.fresh).map Prod.fst = some true := by
    rfl
  obtain ⟨⟨ok, elements', p'⟩, hconfig, hok⟩ := Option.map_eq_some_iff.mp hok
  have hfalse := h _ _ _ _ _ _ _ _ _ ok elements' p' hconfig _ _ _ _ hprepare
    ⟨([121], [118]), by decide, by decide⟩
  cases hok
  cases hfalse

end Lsf.CsvConfig
