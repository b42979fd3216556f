import Lsf.Foundations.InputStream
import Lsf.Foundations.Substitution
import Lsf.Util.Trim
import Mathlib.Logic.Function.Basic

/-!
# Configuration files

A configuration is read from a stream, line after line: `ParseFromFile` opens a file, and
`ParseFromString` puts a newline behind a string and makes a stream of it. The loop tests for the
end of the stream before it looks at the line that it has read last.

The end is seen when a line is read that no newline ends. So that line is left out, and it is only
the newline that `ParseFromString` appends that keeps it from happening there.

## Main definitions

* `readLine` — what a line says
* `parseFromFile`, `parseFromString` — the source's functions, from what the file contains
* `LastLineRepeats` — the text behind the last newline says nothing new

## Main results

* `parseLoop_eq` — the loop stores the lines that are ended by a newline
* `lookup_foldl_processLine` — what is stored, by the entries of the lines
* `parse_agree_iff`
-/

namespace Lsf

/-- A map of maps, from modules and keys. -/
abbrev ConfigData := List UInt8 → Option (List UInt8 → Option (List UInt8))

/-- A configuration and how it is written. -/
structure Config where
  size : ℕ
  delimit : List UInt8
  comment : List UInt8
  data : ConfigData

namespace Config

open StringExt

/-- `DEF_MODULE_NAME`. -/
def defModuleName : List UInt8 := [95, 95, 97, 110, 111, 110, 121, 109, 111, 117, 115, 95, 95]

/-- A configuration that has not read anything, with `DEF_DELIMIT` and `DEF_COMMENT`. -/
def fresh : Config where
  size := 0
  delimit := [32, 9, 61]
  comment := [35]
  data := fun _ => none

/-! ### Lines -/

/-- What a line says. -/
inductive Item
  | nothing
  | moduleLine (name : List UInt8)
  | entry (key value : List UInt8)

/-- The line without a comment. -/
def removeComment (comment line : List UInt8) : List UInt8 :=
  match findPattern line comment 0 with
  | some pos1 => line.take pos1
  | none => line

/-- The body of the loop of `operator>>`, up to what it does with the line. -/
def readLine (delimit comment line : List UInt8) : Item :=
  let line := removeComment comment line
  let line := removeTailWhitespace (removeHeadWhitespace line)
  if line = [] then .nothing
  else if line.head? = some 91 ∧ line.getLast? = some 93 then .moduleLine (line.drop 1).dropLast
  else
    match findFrom delimit.elem line 0, findLast delimit.elem line with
    | some pos1, some pos2 =>
      if pos1 = 0 ∨ pos2 + 1 = line.length then .nothing
      else .entry (line.take pos1) (line.drop (pos2 + 1))
    | _, _ => .nothing

/-- `_data[module][key] = value`. -/
def assign (data : ConfigData) (module key value : List UInt8) : ConfigData :=
  Function.update data module
    (some (Function.update ((data module).getD fun _ => none) key (some value)))

/-- The rest of the body, with `module` and the configuration. -/
def processLine (state : List UInt8 × Config) (line : List UInt8) : List UInt8 × Config :=
  match readLine state.2.delimit state.2.comment line with
  | .nothing => state
  | .moduleLine name => (name, state.2)
  | .entry key value =>
    (state.1, { state.2 with
      data := assign state.2.data state.1 key value
      size := state.2.size + 1 })

/-- The loop of `operator>>`. -/
def parseLoop : ℕ → IStream → List UInt8 → List UInt8 × Config → Option Config
  | 0, _, _, _ => none
  | fuel + 1, is, line, state =>
    if is.eof then some state.2
    else
      let state := processLine state line
      let (is, line) := getline is line
      parseLoop fuel is line state

/-- `operator>>`, from a stream that nothing was read from. -/
def parse (fuel : ℕ) (input : List UInt8) (cf : Config) : Option Config :=
  parseLoop fuel { rest := input, eof := false, fail := false } [] (defModuleName, cf)

/-- `ParseFromFile`, of a file that can be opened. -/
def parseFromFile (fuel : ℕ) (content : List UInt8) (cf : Config) : Option Config :=
  parse fuel content cf

/-- `ParseFromString`. -/
def parseFromString (fuel : ℕ) (input : List UInt8) (cf : Config) : Option Config :=
  parse fuel (input ++ [newline]) cf

/-! ### What the loop reads -/

/-- The lines of a text. The last is what stands behind the last newline. -/
def textLines (s : List UInt8) : List (List UInt8) :=
  pieces (· == newline) false (some []) s

/-- **Lines that a newline ends are processed**, after an empty one. -/
theorem parseLoop_eq (fuel : ℕ) (rest line : List UInt8) (state : List UInt8 × Config)
    (hfuel : rest.length + 2 ≤ fuel) :
    parseLoop fuel { rest := rest, eof := false, fail := false } line state =
      some ((line :: (textLines rest).dropLast).foldl processLine state).2 := by
  induction fuel generalizing rest line state with
  | zero => exact absurd hfuel (Nat.not_succ_le_zero _)
  | succ fuel ih =>
    rw [parseLoop, if_neg Bool.false_ne_true, textLines]
    dsimp only
    obtain hforall | ⟨front, x, rest, rfl, hfront, hx⟩ := exists_cut (· == newline) rest
    · obtain ⟨fuel, rfl⟩ := Nat.exists_eq_succ_of_ne_zero (show fuel ≠ 0 by omega)
      rw [getline_of_forall hforall, pieces_of_forall hforall]
      rfl
    · obtain rfl := beq_iff_eq.mp hx
      rw [List.length_append, List.length_cons] at hfuel
      rw [getline_of_cut hfront, pieces_of_cut hfront hx, List.nil_append,
        if_neg Bool.false_ne_true, List.dropLast_cons_of_ne_nil (pieces_ne_nil rest [])]
      exact ih rest front _ (by omega)

/-! ### What is stored -/

/-- The value of a key in a module. -/
def lookup (data : ConfigData) (module key : List UInt8) : Option (List UInt8) :=
  (data module).bind (· key)

theorem lookup_assign (data : ConfigData) (module key value module' key' : List UInt8) :
    lookup (assign data module key value) module' key' =
      if (module, key) = (module', key') then some value else lookup data module' key' := by
  rw [lookup, assign]
  by_cases hmodule : module = module'
  · subst hmodule
    rw [Function.update_self, Option.bind_some]
    by_cases hkey : key = key'
    · subst hkey
      rw [Function.update_self, if_pos rfl]
    · rw [Function.update_of_ne (Ne.symm hkey), if_neg fun h => hkey (Prod.mk.inj h).2, lookup]
      cases data module with
      | none => rfl
      | some keys => rfl
  · rw [Function.update_of_ne (Ne.symm hmodule), if_neg fun h => hmodule (Prod.mk.inj h).1, lookup]

/-- What is there already is not changed, and nothing else. -/
theorem assign_eq_self_iff {data : ConfigData} {module key value : List UInt8} :
    assign data module key value = data ↔ lookup data module key = some value := by
  constructor
  · intro h
    rw [← h, lookup_assign, if_pos rfl]
  · intro h
    obtain ⟨keys, hkeys, hvalue⟩ := Option.bind_eq_some_iff.mp h
    have hkey : Function.update keys key (some value) = keys :=
      Function.update_eq_self_iff.mpr hvalue.symm
    rw [assign, hkeys, Option.getD_some, hkey, ← hkeys, Function.update_eq_self]

section Entries

variable (delimit comment : List UInt8)

/-- The entries of some lines, with their modules. -/
def entriesOf : List UInt8 → List (List UInt8) → List ((List UInt8 × List UInt8) × List UInt8)
  | _, [] => []
  | module, line :: lines =>
    match readLine delimit comment line with
    | .nothing => entriesOf module lines
    | .moduleLine name => entriesOf name lines
    | .entry key value => ((module, key), value) :: entriesOf module lines

/-- The module that some lines end in. -/
def moduleAfter : List UInt8 → List (List UInt8) → List UInt8
  | module, [] => module
  | module, line :: lines =>
    match readLine delimit comment line with
    | .moduleLine name => moduleAfter name lines
    | _ => moduleAfter module lines

/-- The value of the last entry for a module and a key. -/
def lastValue (name : List UInt8 × List UInt8) :
    List ((List UInt8 × List UInt8) × List UInt8) → Option (List UInt8)
  | [] => none
  | entry :: entries => (lastValue name entries).or (if entry.1 = name then some entry.2 else none)

end Entries

/-- The text behind the last newline is no entry, or one whose value the entries before it or the
configuration give already. -/
def LastLineRepeats (cf : Config) (s : List UInt8) : Prop :=
  ∀ key value, readLine cf.delimit cf.comment ((textLines s).getLastD []) = .entry key value →
    let before := (textLines s).dropLast
    let module := moduleAfter cf.delimit cf.comment defModuleName before
    (lastValue (module, key) (entriesOf cf.delimit cf.comment defModuleName before)).or
      (lookup cf.data module key) = some value

theorem removeComment_nil (comment : List UInt8) : removeComment comment [] = [] := by
  rw [removeComment]
  split
  · exact List.take_nil
  · rfl

theorem readLine_nil (delimit comment : List UInt8) : readLine delimit comment [] = .nothing := by
  simp only [readLine, removeComment_nil]
  rfl

theorem processLine_nil (state : List UInt8 × Config) : processLine state [] = state := by
  rw [processLine, readLine_nil]

theorem processLine_delimit (state : List UInt8 × Config) (line : List UInt8) :
    (processLine state line).2.delimit = state.2.delimit ∧
      (processLine state line).2.comment = state.2.comment := by
  rw [processLine]
  split <;> exact ⟨rfl, rfl⟩

theorem foldl_processLine_delimit (lines : List (List UInt8)) (state : List UInt8 × Config) :
    (lines.foldl processLine state).2.delimit = state.2.delimit ∧
      (lines.foldl processLine state).2.comment = state.2.comment := by
  induction lines generalizing state with
  | nil => exact ⟨rfl, rfl⟩
  | cons line lines ih =>
    obtain ⟨hdelimit, hcomment⟩ := processLine_delimit state line
    rw [List.foldl_cons, ← hdelimit, ← hcomment]
    exact ih (processLine state line)

/-- **What is stored is what the entries say last**, in the module that the lines end in. -/
theorem lookup_foldl_processLine (lines : List (List UInt8)) (module : List UInt8) (cf : Config) :
    (lines.foldl processLine (module, cf)).1 = moduleAfter cf.delimit cf.comment module lines ∧
      ∀ module' key, lookup (lines.foldl processLine (module, cf)).2.data module' key =
        (lastValue (module', key) (entriesOf cf.delimit cf.comment module lines)).or
          (lookup cf.data module' key) := by
  induction lines generalizing module cf with
  | nil => exact ⟨rfl, fun _ _ => rfl⟩
  | cons line lines ih =>
    rw [List.foldl_cons, processLine, moduleAfter, entriesOf]
    dsimp only
    cases readLine cf.delimit cf.comment line with
    | nothing => exact ih module cf
    | moduleLine name => exact ih name cf
    | entry key value =>
      obtain ⟨hmodule, hlookup⟩ := ih module { cf with
        data := assign cf.data module key value
        size := cf.size + 1 }
      refine ⟨hmodule, fun module' key' => ?_⟩
      dsimp only
      rw [hlookup, lastValue, lookup_assign, Option.or_assoc]
      split <;> rfl

/-- **The two ways of parsing agree** if and only if the text behind the last newline says nothing
new. -/
theorem parse_agree_iff (cf : Config) (s : List UInt8) (fuel : ℕ) (hfuel : s.length + 3 ≤ fuel) :
    ∃ fromFile fromString, parseFromFile fuel s cf = some fromFile ∧
      parseFromString fuel s cf = some fromString ∧
      (fromFile.data = fromString.data ↔ LastLineRepeats cf s) := by
  have hne : textLines s ≠ [] := pieces_ne_nil s []
  have hlines : textLines (s ++ [newline]) = textLines s ++ [[]] := pieces_concat rfl s []
  have hlast : textLines s = (textLines s).dropLast ++ [(textLines s).getLastD []] := by
    rw [List.getLastD_eq_getLast?, List.getLast?_eq_some_getLast hne, Option.getD_some,
      List.dropLast_append_getLast]
  refine ⟨_, _, parseLoop_eq fuel s [] _ (by omega),
    parseLoop_eq fuel (s ++ [newline]) [] _ (by rw [List.length_append]; exact hfuel), ?_⟩
  rw [hlines, List.dropLast_concat, List.foldl_cons, List.foldl_cons, processLine_nil,
    LastLineRepeats]
  generalize (textLines s).getLastD [] = last at hlast ⊢
  generalize (textLines s).dropLast = before at hlast ⊢
  obtain ⟨hmodule, hlookup⟩ := lookup_foldl_processLine before defModuleName cf
  obtain ⟨hdelimit, hcomment⟩ := foldl_processLine_delimit before (defModuleName, cf)
  rw [hlast, List.foldl_append, List.foldl_cons, List.foldl_nil]
  generalize before.foldl processLine (defModuleName, cf) = state
    at hmodule hlookup hdelimit hcomment ⊢
  rw [processLine, hdelimit, hcomment]
  dsimp only
  cases readLine cf.delimit cf.comment last with
  | nothing => exact iff_of_true rfl fun key value hitem => by cases hitem
  | moduleLine name => exact iff_of_true rfl fun key value hitem => by cases hitem
  | entry key value =>
    dsimp only
    rw [eq_comm, assign_eq_self_iff, hlookup, hmodule]
    constructor
    · rintro h _ _ ⟨⟩
      exact h
    · exact fun h => h key value rfl

/-- The line `a=1` and its newline, where both store the entry. -/
theorem parse_agree_iff_terminated : ∃ fromFile fromString,
    parseFromFile 7 [97, 61, 49, 10] fresh = some fromFile ∧
      parseFromString 7 [97, 61, 49, 10] fresh = some fromString ∧
      (fromFile.data = fromString.data ↔ LastLineRepeats fresh [97, 61, 49, 10]) :=
  parse_agree_iff fresh [97, 61, 49, 10] 7 (by decide)

/-- Of `a=1` without a newline, the file's parser stores nothing. -/
theorem not_parse_agree : ¬ ∀ (cf : Config) (s : List UInt8) (fuel : ℕ),
    s.length + 3 ≤ fuel → ∀ fromFile fromString, parseFromFile fuel s cf = some fromFile →
      parseFromString fuel s cf = some fromString → fromFile.data = fromString.data := by
  intro h
  have hdata : fresh.data = assign fresh.data defModuleName [97] [49] :=
    h fresh [97, 61, 49] 6 (by decide) fresh
      { fresh with size := 1, data := assign fresh.data defModuleName [97] [49] } rfl rfl
  have hlookup := lookup_assign fresh.data defModuleName [97] [49] defModuleName [97]
  rw [← hdata, if_pos rfl] at hlookup
  cases hlookup

end Config

end Lsf
