import Lsf.Foundations.InputStream
import Lsf.Util.StringExt
import Lsf.Util.Trim

/-!
# Tables in files

`TwoDimensionalTable::ParseFromFile` reads a table from a file, a row from each line. The lines come
from `SafeGetLine`, which takes the characters from the buffer of the stream: a newline, a carriage
return or both end a line, and the end of the file is only noted when there is no character before
it. The fields come from `SplitGetNext`. A row without a field that has anything in it is erased
again.

The elements are strings, where `TypeCast` is the identity. The loops run on fuel.

## Main definitions

* `safeGetLine`, `parseFromFile` — the source's functions, the latter from what the file contains
* `tableOf` — the rows of some lines

## Main results

* `safeGetLine_cases` — the next line, and what is left of the file
* `parseLoop_eq` — the rows are those of the lines
* `parseFromFile_table`
-/

namespace Lsf.TwoDimensionalTable

open StringExt

/-! ### Lines -/

/-- The loop of `SafeGetLine`, with what is left, `t` and whether the end has come. -/
def safeGetLineLoop : List UInt8 → List UInt8 → List UInt8 × List UInt8 × Bool
  | [], t => ([], t, true)
  | c :: rest, t =>
    if c = newline then (rest, t, false)
    else if c = carriageReturn then
      (if rest.head? = some newline then rest.tail else rest, t, false)
    else safeGetLineLoop rest (t ++ [c])

/-- `SafeGetLine`. The sentry makes it fail where one of the bits is set, and the characters are
taken all the same. -/
def safeGetLine (is : IStream) : IStream × List UInt8 :=
  let fail := is.eof || is.fail
  let (rest, t, atEnd) := safeGetLineLoop is.rest []
  ({ rest := rest, eof := is.eof || (atEnd && t.isEmpty), fail := fail }, t)

/-! ### The table -/

/-- `FIELD_DELIMIT`. -/
def fieldDelimit : UInt8 := 44

/-- The loop over the fields of a line, with `pos`, `table_line` and `has_real_field`. -/
def fieldLoop (line : List UInt8) :
    ℕ → Option ℕ → List (List UInt8) → Bool → Option (List (List UInt8) × Bool)
  | 0, _, _, _ => none
  | fuel + 1, pos, tableLine, hasRealField =>
    (splitGetNext line (.char fieldDelimit) pos false).bind fun (field, pos) =>
      let field := removeTailWhitespace (removeHeadWhitespace field)
      let tableLine := tableLine ++ [field]
      let hasRealField := hasRealField || !field.isEmpty
      if pos = none then some (tableLine, hasRealField)
      else fieldLoop line fuel pos tableLine hasRealField

/-- The loop over the lines, with the table. -/
def parseLoop : ℕ → IStream → List (List (List UInt8)) → Option (List (List (List UInt8)))
  | 0, _, _ => none
  | fuel + 1, is, table =>
    let (is, line) := safeGetLine is
    if is.fail then some table
    else if line = [] then parseLoop fuel is table
    else
      (fieldLoop line fuel (some 0) [] false).bind fun (tableLine, hasRealField) =>
        let table := table ++ [tableLine]
        parseLoop fuel is (if hasRealField then table else table.dropLast)

/-- `ParseFromFile`, of a file that can be opened. -/
def parseFromFile (fuel : ℕ) (content : List UInt8) : Option (List (List (List UInt8))) :=
  parseLoop fuel { rest := content, eof := false, fail := false } []

/-- A line's fields without whitespace around them. -/
def fieldsOf (line : List UInt8) : List (List UInt8) :=
  (line.splitOn fieldDelimit).map trimmed

/-- A field of the line has a character that is no whitespace. -/
def HasRealField (line : List UInt8) : Prop :=
  ∃ field ∈ line.splitOn fieldDelimit, ∃ c ∈ field, isSpace c = false

instance (line : List UInt8) : Decidable (HasRealField line) :=
  inferInstanceAs (Decidable (∃ field ∈ line.splitOn fieldDelimit, ∃ c ∈ field, isSpace c = false))

/-- A row for each line that has a real field. -/
def tableOf (lines : List (List UInt8)) : List (List (List UInt8)) :=
  lines.filterMap fun line => if HasRealField line then some (fieldsOf line) else none

/-! ### What is read -/

/-- **The next line**: it ends in the file, and the other lines are those of what is left, or the
file ends. -/
theorem safeGetLineLoop_cases (rest t : List UInt8) :
    (safeGetLineLoop rest t = ([], t ++ rest, true) ∧ linesFrom t rest = [t ++ rest]) ∨
    ∃ rest' line, safeGetLineLoop rest t = (rest', line, false) ∧
      linesFrom t rest = line :: linesFrom [] rest' ∧ rest'.length < rest.length ∧
      line.length ≤ t.length + rest.length := by
  induction rest generalizing t with
  | nil => exact .inl ⟨by rw [List.append_nil]; rfl, by rw [List.append_nil]; rfl⟩
  | cons c rest ih =>
    rw [safeGetLineLoop, List.length_cons]
    by_cases hlf : c = newline
    · subst hlf
      exact .inr ⟨rest, t, if_pos rfl, rfl, Nat.lt_succ_self _, Nat.le_add_right _ _⟩
    rw [if_neg hlf]
    by_cases hcr : c = carriageReturn
    · subst hcr
      rw [if_pos rfl]
      cases rest with
      | nil => exact .inr ⟨[], t, rfl, rfl, Nat.zero_lt_one, Nat.le_add_right _ _⟩
      | cons d rest =>
        rw [List.head?_cons, List.tail_cons, List.length_cons]
        by_cases hd : d = newline
        · subst hd
          exact .inr ⟨rest, t, by rw [if_pos rfl], rfl, by omega, Nat.le_add_right _ _⟩
        · refine .inr ⟨d :: rest, t, ?_, ?_, Nat.lt_succ_self _, Nat.le_add_right _ _⟩
          · rw [if_neg fun h => hd (Option.some.inj h)]
          · rw [carriageReturn, linesFrom]
            rintro _ ⟨rfl, -⟩
            exact hd rfl
    · rw [if_neg hcr, linesFrom_cons hlf hcr, List.append_cons t c rest]
      obtain h | ⟨rest', line, hloop, hlines, hlt, hle⟩ := ih (t ++ [c])
      · exact .inl h
      · rw [List.length_append, List.length_singleton] at hle
        exact .inr ⟨rest', line, hloop, hlines, by omega, by omega⟩

section Fields

variable {line : List UInt8}

/-- The loop adds all fields from its position on. -/
theorem fieldLoop_eq {fuel start : ℕ} (tableLine : List (List UInt8)) (hasRealField : Bool)
    (hstart : start ≤ line.length) (hfuel : needed line (some start) ≤ fuel) :
    fieldLoop line fuel (some start) tableLine hasRealField =
      let fields := (piecesFrom line (.char fieldDelimit) false (some start)).map trimmed
      some (tableLine ++ fields, hasRealField || fields.any (!·.isEmpty)) := by
  induction fuel generalizing start tableLine hasRealField with
  | zero => simp [needed] at hfuel
  | succ fuel ih =>
    rw [fieldLoop]
    obtain ⟨hnone, hlast⟩ | ⟨stop, piece, hsome, hpiece, hbounds, hnext⟩ :=
      piecesFrom_cases line (.char fieldDelimit) false start
    · rw [splitGetNext_last hnone, hlast, substr_none hstart, Option.map_some, Option.bind_some]
      dsimp only
      rw [if_pos rfl, removeWhitespace_eq]
      simp only [List.map_cons, List.map_nil, List.any_cons, List.any_nil, Bool.or_false]
    · obtain ⟨hfuel', hstart'⟩ := needed_nextBegin hstart hbounds hfuel
      rw [splitGetNext_piece hsome, hnext, hpiece, Option.map_some, Option.bind_some]
      dsimp only
      rw [removeWhitespace_eq]
      cases hbegin : nextBegin line (.char fieldDelimit) false stop with
      | none => cases hbegin
      | some next =>
        rw [hbegin] at hfuel' hstart'
        rw [if_neg (Option.some_ne_none next), ih _ _ (hstart' next rfl) hfuel']
        simp only [List.map_cons, List.any_cons, List.append_assoc, List.singleton_append,
          Bool.or_assoc]

theorem any_fieldsOf_iff : (fieldsOf line).any (!·.isEmpty) = true ↔ HasRealField line := by
  rw [fieldsOf, List.any_map, List.any_eq_true, HasRealField]
  refine exists_congr fun field => and_congr_right fun _ => ?_
  rw [Function.comp_apply, Bool.not_eq_true', List.isEmpty_eq_false_iff, ne_eq, trimmed_eq_nil_iff]
  simp only [not_forall, Bool.not_eq_true, exists_prop]

end Fields

/-- What a line adds to the table. -/
def rowOf (line : List UInt8) : Option (List (List UInt8)) :=
  if HasRealField line then some (fieldsOf line) else none

theorem rowOf_nil : rowOf [] = none :=
  if_neg (by decide)

theorem tableOf_eq (lines : List (List UInt8)) : tableOf lines = lines.filterMap rowOf :=
  rfl

theorem tableOf_cons (line : List UInt8) (lines : List (List UInt8)) :
    tableOf (line :: lines) = (rowOf line).toList ++ tableOf lines := by
  rw [tableOf_eq, List.filterMap_cons, tableOf_eq]
  cases rowOf line with
  | none => rfl
  | some row => rfl

/-- A file without characters has no rows. -/
theorem tableOf_linesOf_nil : tableOf (linesOf []) = [] := by
  rw [linesOf, linesFrom, tableOf_cons, rowOf_nil]
  rfl

/-- The next line is read where characters are left, and fewer of them are left then. -/
theorem safeGetLine_cases {rest : List UInt8} (hrest : rest ≠ []) :
    ∃ rest' line, safeGetLine { rest := rest, eof := false, fail := false } =
        ({ rest := rest', eof := false, fail := false }, line) ∧
      rest'.length < rest.length ∧ line.length ≤ rest.length ∧
      tableOf (linesOf rest) = (rowOf line).toList ++ tableOf (linesOf rest') := by
  obtain ⟨hloop, hlines⟩ | ⟨rest', line, hloop, hlines, hlt, hle⟩ :=
    safeGetLineLoop_cases rest []
  · refine ⟨[], rest, ?_, List.length_pos_iff.mpr hrest, Nat.le_refl _, ?_⟩
    · have hempty : rest.isEmpty = false := List.isEmpty_eq_false_iff.mpr hrest
      simp only [safeGetLine, hloop, List.nil_append, hempty, Bool.and_false, Bool.or_false]
    · rw [tableOf_linesOf_nil, linesOf, hlines, List.nil_append, tableOf_cons]
      rfl
  · refine ⟨rest', line, ?_, hlt, by simpa using hle, ?_⟩
    · simp only [safeGetLine, hloop, Bool.false_and, Bool.or_false]
    · rw [linesOf, hlines, tableOf_cons, linesOf]

/-- **The loop adds the rows of the lines** that are left. -/
theorem parseLoop_eq (fuel : ℕ) (rest : List UInt8) (table : List (List (List UInt8)))
    (hfuel : rest.length + 3 ≤ fuel) :
    parseLoop fuel { rest := rest, eof := false, fail := false } table =
      some (table ++ tableOf (linesOf rest)) := by
  induction fuel generalizing rest table with
  | zero => exact absurd hfuel (Nat.not_succ_le_zero _)
  | succ fuel ih =>
    -- Without a character the end is noted, and the next call fails.
    by_cases hrest : rest = []
    · subst hrest
      obtain ⟨fuel, rfl⟩ := Nat.exists_eq_succ_of_ne_zero (show fuel ≠ 0 by omega)
      rw [tableOf_linesOf_nil, List.append_nil]
      rfl
    obtain ⟨rest', line, hread, hlt, hle, hrows⟩ := safeGetLine_cases hrest
    rw [parseLoop, hread, hrows]
    dsimp only
    rw [if_neg Bool.false_ne_true]
    by_cases hline : line = []
    · rw [if_pos hline, hline, rowOf_nil]
      exact ih rest' table (by omega)
    · have hneeded : needed line (some 0) ≤ fuel := by
        rw [needed]
        omega
      rw [if_neg hline, fieldLoop_eq [] false (Nat.zero_le _) hneeded, piecesFrom_char,
        Option.bind_some]
      dsimp only
      rw [ih rest' _ (by omega), List.nil_append, Bool.false_or, ← fieldsOf]
      by_cases hreal : HasRealField line
      · rw [if_pos (any_fieldsOf_iff.mpr hreal), rowOf, if_pos hreal, Option.toList_some,
          List.append_assoc]
      · rw [if_neg (mt any_fieldsOf_iff.mp hreal), rowOf, if_neg hreal, List.dropLast_concat,
          Option.toList_none, List.nil_append]

/-- The rows are those of the lines, with whatever ends the text has them. -/
theorem parseFromFile_of_consistsOf {content : List UInt8} {lines : List (List UInt8)} {fuel : ℕ}
    (hfuel : content.length + 3 ≤ fuel) (h : ConsistsOf content lines) :
    parseFromFile fuel content = some (tableOf lines) := by
  obtain ⟨ended, last, rfl, hended, hlast, rfl⟩ := h
  rw [parseFromFile, parseLoop_eq fuel _ [] hfuel, List.nil_append, tableOf_eq,
    filterMap_linesOf_render rowOf_nil ended last hended hlast, tableOf_eq]

/-- **A table in a file**: its rows are those of the lines. They are the same for every text of the
same lines, however these end and whether the last does. -/
theorem parseFromFile_table (content : List UInt8) (fuel : ℕ) (hfuel : content.length + 3 ≤ fuel) :
    ConsistsOf content (linesOf content) ∧
    parseFromFile fuel content = some (tableOf (linesOf content)) ∧
    ∀ lines, ConsistsOf content lines → parseFromFile fuel content = some (tableOf lines) ∧
      ∀ content' fuel', content'.length + 3 ≤ fuel' →
        ConsistsOf content' lines ∨ ConsistsOf content' (lines ++ [[]]) →
        parseFromFile fuel' content' = parseFromFile fuel content := by
  have hlines := consistsOf_linesOf content
  refine ⟨hlines, parseFromFile_of_consistsOf hfuel hlines, fun lines h => ?_⟩
  have htable := parseFromFile_of_consistsOf hfuel h
  refine ⟨htable, fun content' fuel' hfuel' hsame => ?_⟩
  rw [htable]
  obtain hsame | hsame := hsame
  · exact parseFromFile_of_consistsOf hfuel' hsame
  · have hend : tableOf (lines ++ [[]]) = tableOf lines := by
      rw [tableOf_eq, List.filterMap_append, List.filterMap_cons, rowOf_nil, List.filterMap_nil,
        List.append_nil, tableOf_eq]
    rw [parseFromFile_of_consistsOf hfuel' hsame, hend]

/-- `a, b` and `,`, ended by a carriage return, and `c` without an end. -/
theorem parseFromFile_table_mixed : parseFromFile 20 [97, 44, 32, 98, 13, 44, 13, 99] =
    some [[[97], [98]], [[99]]] := by
  have hcontent := parseFromFile_table [97, 44, 32, 98, 13, 44, 13, 99] 20 (by decide)
  rw [hcontent.2.1]
  decide

end Lsf.TwoDimensionalTable
