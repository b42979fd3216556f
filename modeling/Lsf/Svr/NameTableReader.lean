import Lsf.Foundations.DelimitedStack
import Lsf.Foundations.Substitution
import Lsf.Svr.NameTable

/-!
# Reading the table of names

`ProcessMessage` and `ProcessEnum` read a block of a proto file line by line, up to the line that
ends it. A message may have more blocks in it, an enumeration may not. `_block_name` is the name of
the block that is read: the names of the blocks around it and its own, with dots between them. A
block's name is appended where the block begins, and where it ends `RemoveBlockName` erases what
comes after the last dot. That is the block's own name if it has no dot in it.

The readers share the file, the line and the name. The line is changed before it is looked at: it
has no whitespace around it, and no options in brackets.

The loops run on fuel, one unit for each line.

## Main definitions

* `Reader` — the source's members while a file is read
* `processMessage`, `processEnum` — the source's functions
* `lineKind`, `opened` — what a line is for the readers and which blocks are open after it

## Main results

* `processEnumLoop_succ`, `processMessageLoop_succ` — one line
* `closes_processEnumLoop`, `closes_processMessageLoop` — a whole block
* `process_keeps_blockName`
-/

namespace Lsf.NameTableReader

open Proto StringExt NameTableMap

/-- The start of a comment. -/
def commentToken : Name := text "//"

/-- The keyword of a message. -/
def messageToken : Name := text "message"

/-- The keyword of an enumeration. -/
def enumToken : Name := text "enum"

/-- The keyword of an option. -/
def optionToken : Name := text "option"

/-- A closing brace. -/
def blockEndToken : Name := text "\x7d"

/-! ### Functions on a line -/

/-- `SplitGet`. There is enough fuel for the whole line. -/
def splitLine (line delimit : Name) (index : ℕ) (ignoreRepeated : Bool) : Name :=
  (splitGet (line.length + 2) line (.string delimit) index ignoreRepeated).getD []

theorem splitGet_line (line delimit : Name) (index : ℕ) (ignoreRepeated : Bool) :
    splitGet (line.length + 2) line (.string delimit) index ignoreRepeated =
      some (splitLine line delimit index ignoreRepeated) := by
  have hget := splitGet_eq line (.string delimit) index ignoreRepeated 0
  rw [Nat.add_zero] at hget
  rw [splitLine, hget, Option.getD_some]

/-- `IsStartWith`. -/
def isStartWith (line token : Name) : Bool :=
  splitLine line (whiteSpaces ++ text "\x7b") 0 true == token

/-- What `PreProcessLine` returns, and makes of the line. -/
def preProcess (line : Name) : Bool × Name :=
  let line := removeTailWhitespace (removeHeadWhitespace line)
  if line.take 2 = commentToken then (false, line)
  else if isStartWith line optionToken then (false, line)
  else (true, findAndTrimBlock line (.char 91) (.char 93) false)

/-- `msg_name` of `ProcessBlockName`. -/
def msgName (line : Name) : Name :=
  splitLine line (whiteSpaces ++ text "\x7b") 1 false

/-- `GetTailComment`. -/
def getTailComment (line : Name) : Name :=
  let delimit := Delimit.string (whiteSpaces ++ text "/")
  match findPattern line commentToken 0 with
  | none => []
  | some commentBegin =>
    match findFirstNotOf line delimit (some commentBegin) with
    | none => []
    | some contentBegin =>
      let contentEnd := findFirstOf line delimit (some contentBegin)
      -- The content begins in the line, so there is such a part.
      (substr line contentBegin (contentEnd.map (· - contentBegin))).getD []

/-! ### The readers -/

/-- A kind of block, with a map of tables for each. -/
inductive BlockKind
  | message
  | enum

/-- Which piece of an item line is the name. -/
def BlockKind.valueIndex : BlockKind → ℕ
  | .message => 2
  | .enum => 0

/-- `message_type` and `enum_type`, without an empty name. -/
abbrev Table := { table : Name → Option Name // table [] = none }

/-- A table without names. -/
def Table.empty : Table := ⟨fun _ => none, rfl⟩

/-- `name_table[ch_name] = value`. -/
def Table.insert (table : Table) (chName value : Name) (h : chName ≠ []) : Table :=
  ⟨Function.update table.1 chName (some value), by rw [Function.update_of_ne h.symm, table.2]⟩

/-- `_message_map[_block_name]` or `_enum_map[_block_name]`. -/
def nameTable (tables : NameTableMap) (blockName : Name) : BlockKind → Table
  | .message =>
    match h : tables.messageMap blockName with
    | none => Table.empty
    | some table => ⟨table, tables.messageMap_nil blockName table h⟩
  | .enum =>
    match h : tables.enumMap blockName with
    | none => Table.empty
    | some table => ⟨table, tables.enumMap_nil blockName table h⟩

/-- A table in a map has no empty name if none had before. -/
theorem update_nil {tables : Name → Option (Name → Option Name)}
    (htables : ∀ name table, tables name = some table → table [] = none) (blockName : Name)
    (new : Table) (name : Name) (table : Name → Option Name)
    (h : Function.update tables blockName (some new.1) name = some table) : table [] = none := by
  by_cases hname : name = blockName
  · rw [hname, Function.update_self] at h
    rw [← Option.some.inj h]
    exact new.2
  · rw [Function.update_of_ne hname] at h
    exact htables name table h

/-- The maps with this table for a block. -/
def setTable (tables : NameTableMap) (blockName : Name) (new : Table) : BlockKind → NameTableMap
  | .message =>
    { tables with
      messageMap := Function.update tables.messageMap blockName (some new.1)
      messageMap_nil := update_nil tables.messageMap_nil blockName new }
  | .enum =>
    { tables with
      enumMap := Function.update tables.enumMap blockName (some new.1)
      enumMap_nil := update_nil tables.enumMap_nil blockName new }

/-- `_line_count` and `_block_name` at an item line. -/
structure ItemLine where
  lineCount : ℕ
  blockName : Name

/-- The members of `NameTableMap`, with the lines of the file that are not read yet. `items` is no
member of the source: it has the lines so far whose name was looked for in a table. -/
structure Reader where
  lineCount : ℕ
  fs : List Name
  line : Name
  blockName : Name
  tables : NameTableMap
  items : List ItemLine

namespace Reader

/-- The next line, none at the end of the file. -/
def getline (r : Reader) : Option Reader :=
  match r.fs with
  | [] => none
  | line :: fs => some { r with fs := fs, line := line }

/-- `PreProcessLine`. -/
def preProcessLine (r : Reader) : Bool × Reader :=
  ((preProcess r.line).1, { r with lineCount := r.lineCount + 1, line := (preProcess r.line).2 })

/-- `ProcessBlockName`, which adds the name of the block. -/
def processBlockName (r : Reader) : Bool × Reader :=
  if msgName r.line = [] then (false, r)
  else
    let blockName := if r.blockName = [] then r.blockName else r.blockName ++ [nameDelimit]
    (true, { r with blockName := blockName ++ msgName r.line })

/-- `RemoveBlockName`, which takes the last name away. -/
def removeBlockName (r : Reader) : Reader :=
  match findLast (· == nameDelimit) r.blockName with
  | none => { r with blockName := [] }
  | some find => { r with blockName := r.blockName.take find }

/-- What the loops do with an item. The table is there afterwards in any case. -/
def addItem (kind : BlockKind) (r : Reader) : Bool × Reader :=
  let chName := getTailComment r.line
  if h : chName = [] then (true, r)
  else
    let table := nameTable r.tables r.blockName kind
    let r := { r with
      tables := setTable r.tables r.blockName table kind
      items := r.items ++ [⟨r.lineCount, r.blockName⟩] }
    if (table.1 chName).isSome then (false, r)
    else
      let value := splitLine r.line (whiteSpaces ++ text "=;") kind.valueIndex true
      (true, { r with
        tables := setTable r.tables r.blockName (table.insert chName value h) kind })

end Reader

/-- `ProcessBlockName` comes first. -/
def inBlock (loop : Reader → Option (Bool × Reader)) (r : Reader) : Option (Bool × Reader) :=
  match r.processBlockName with
  | (false, r) => some (false, r)
  | (true, r) => loop r

/-- What comes after a call that returned true. -/
def continueWith (next : Reader → Option (Bool × Reader)) : Bool × Reader → Option (Bool × Reader)
  | (false, r) => some (false, r)
  | (true, r) => next r

/-- The loop of `ProcessEnum`. -/
def processEnumLoop : ℕ → Reader → Option (Bool × Reader)
  | 0, _ => none
  | fuel + 1, r =>
    match r.getline with
    | none => some (false, r)
    | some r =>
      match r.preProcessLine with
      | (false, r) => processEnumLoop fuel r
      | (true, r) =>
        if isStartWith r.line messageToken then some (false, r)
        else if isStartWith r.line enumToken then some (false, r)
        else if isStartWith r.line blockEndToken then some (true, r.removeBlockName)
        else continueWith (processEnumLoop fuel) (r.addItem .enum)

/-- `ProcessEnum`. -/
def processEnum (fuel : ℕ) (r : Reader) : Option (Bool × Reader) :=
  inBlock (processEnumLoop fuel) r

/-- The loop of `ProcessMessage`. -/
def processMessageLoop : ℕ → Reader → Option (Bool × Reader)
  | 0, _ => none
  | fuel + 1, r =>
    match r.getline with
    | none => some (false, r)
    | some r =>
      match r.preProcessLine with
      | (false, r) => processMessageLoop fuel r
      | (true, r) =>
        if isStartWith r.line messageToken then
          (inBlock (processMessageLoop fuel) r).bind (continueWith (processMessageLoop fuel))
        else if isStartWith r.line enumToken then
          (processEnum fuel r).bind (continueWith (processMessageLoop fuel))
        else if isStartWith r.line blockEndToken then some (true, r.removeBlockName)
        else continueWith (processMessageLoop fuel) (r.addItem .message)

/-- `ProcessMessage`. -/
def processMessage (fuel : ℕ) (r : Reader) : Option (Bool × Reader) :=
  inBlock (processMessageLoop fuel) r

/-! ### What a line is for the readers -/

/-- What a line is for the reader. -/
inductive LineKind
  | skipped
  | opening (kind : BlockKind) (name : Name)
  | blockEnd
  | item

/-- The kind of a line. -/
def lineKind (raw : Name) : LineKind :=
  match preProcess raw with
  | (false, _) => .skipped
  | (true, line) =>
    if isStartWith line messageToken then .opening .message (msgName line)
    else if isStartWith line enumToken then .opening .enum (msgName line)
    else if isStartWith line blockEndToken then .blockEnd
    else .item

/-- The names of the blocks that are open after a line. -/
def opened (names : List Name) (raw : Name) : List Name :=
  match lineKind raw with
  | .opening _ name => names ++ [name]
  | .blockEnd => names.dropLast
  | .skipped | .item => names

/-- The name of the block that a line opens. -/
def LineKind.blockName : LineKind → Option Name
  | .opening _ name => some name
  | .skipped | .blockEnd | .item => none

/-- No line opens a block whose name has a dot in it. -/
def Dotless (lines : List Name) : Prop :=
  ∀ raw ∈ lines, ∀ name ∈ (lineKind raw).blockName, nameDelimit ∉ name

section Opened

variable {names : List Name} {raw name : Name} {kind : BlockKind}

theorem opened_opening (h : lineKind raw = .opening kind name) :
    opened names raw = names ++ [name] := by
  rw [opened, h]

theorem opened_blockEnd (h : lineKind raw = .blockEnd) (last : Name) :
    opened (names ++ [last]) raw = names := by
  rw [opened, h]
  exact List.dropLast_concat

theorem opened_skipped (h : lineKind raw = .skipped) : opened names raw = names := by
  rw [opened, h]

theorem opened_item (h : lineKind raw = .item) : opened names raw = names := by
  rw [opened, h]

end Opened

/-- The loop of a reader. -/
def blockLoop : BlockKind → ℕ → Reader → Option (Bool × Reader)
  | .message => processMessageLoop
  | .enum => processEnumLoop

/-! ### One line -/

/-- The next line is read and changed. -/
def Reader.next (r : Reader) (raw : Name) (fs : List Name) : Reader :=
  { r with lineCount := r.lineCount + 1, fs := fs, line := (preProcess raw).2 }

section Line

variable {r : Reader} {raw name : Name} {fs : List Name} {kind : BlockKind}

theorem line_of_opening (r : Reader) (fs : List Name) (h : lineKind raw = .opening kind name) :
    msgName (r.next raw fs).line = name := by
  rw [lineKind] at h
  rw [Reader.next]
  rcases hpre : preProcess raw with ⟨_ | _, line⟩
  · rw [hpre] at h
    cases h
  · rw [hpre] at h
    dsimp only at h
    split at h
    · exact (LineKind.opening.inj h).2
    · split at h
      · exact (LineKind.opening.inj h).2
      · split at h <;> cases h

/-- **One line in an enumeration.** -/
theorem processEnumLoop_succ (fuel : ℕ) (hfs : r.fs = raw :: fs) :
    processEnumLoop (fuel + 1) r =
      match lineKind raw with
      | .skipped => processEnumLoop fuel (r.next raw fs)
      | .opening _ _ => some (false, r.next raw fs)
      | .blockEnd => some (true, (r.next raw fs).removeBlockName)
      | .item => continueWith (processEnumLoop fuel) ((r.next raw fs).addItem .enum) := by
  rw [processEnumLoop, Reader.getline, hfs, lineKind, Reader.next]
  dsimp only [Reader.preProcessLine]
  rcases hpre : preProcess raw with ⟨_ | _, line⟩
  · rfl
  · dsimp only
    split
    · rfl
    · split
      · rfl
      · split <;> rfl

/-- **One line in a message.** -/
theorem processMessageLoop_succ (fuel : ℕ) (hfs : r.fs = raw :: fs) :
    processMessageLoop (fuel + 1) r =
      match lineKind raw with
      | .skipped => processMessageLoop fuel (r.next raw fs)
      | .opening kind _ => (inBlock (blockLoop kind fuel) (r.next raw fs)).bind
          (continueWith (processMessageLoop fuel))
      | .blockEnd => some (true, (r.next raw fs).removeBlockName)
      | .item => continueWith (processMessageLoop fuel) ((r.next raw fs).addItem .message) := by
  rw [processMessageLoop, Reader.getline, hfs, lineKind, Reader.next]
  dsimp only [Reader.preProcessLine]
  rcases hpre : preProcess raw with ⟨_ | _, line⟩
  · rfl
  · dsimp only
    split
    · rfl
    · split
      · rfl
      · split <;> rfl

theorem getline_nil (hfs : r.fs = []) : r.getline = none := by
  rw [Reader.getline, hfs]

theorem blockLoop_nil (kind : BlockKind) (fuel : ℕ) (hfs : r.fs = []) :
    blockLoop kind (fuel + 1) r = some (false, r) := by
  rcases kind with _ | _
  · rw [blockLoop, processMessageLoop, getline_nil hfs]
  · rw [blockLoop, processEnumLoop, getline_nil hfs]

theorem processBlockName_eq (r : Reader) : r.processBlockName =
    if msgName r.line = [] then (false, r)
    else (true, { r with blockName := pushName nameDelimit r.blockName (msgName r.line) }) := rfl

/-- `RemoveBlockName` undoes `ProcessBlockName`, for a name without a dot. -/
theorem removeBlockName_eq {blockName : Name} (hname : nameDelimit ∉ name)
    (hblock : r.blockName = pushName nameDelimit blockName name) :
    r.removeBlockName = { r with blockName := blockName } := by
  have hpop : r.removeBlockName = { r with blockName := popName nameDelimit r.blockName } := by
    rw [Reader.removeBlockName, popName]
    rcases findLast (· == nameDelimit) r.blockName with _ | find
    · rfl
    · rfl
  rw [hpop, hblock, popName_pushName nameDelimit _ hname]

/-- An item changes the tables only. -/
theorem addItem_eq (kind : BlockKind) (r : Reader) : ∃ ok tables items,
    r.addItem kind = (ok, { r with tables := tables, items := r.items ++ items }) ∧
    ∀ item ∈ items, item = ⟨r.lineCount, r.blockName⟩ := by
  rw [Reader.addItem]
  split
  · refine ⟨true, r.tables, [], ?_, fun _ hitem => absurd hitem List.not_mem_nil⟩
    rw [List.append_nil]
  · dsimp only
    split
    · exact ⟨false, _, [_], rfl, fun item hitem => List.mem_singleton.mp hitem⟩
    · exact ⟨true, _, [_], rfl, fun item hitem => List.mem_singleton.mp hitem⟩

end Line

/-! ### The lines of a block -/

/-- `read` was read from `r` to `r'`, when `names` were open, in a block with the name `entry`. At
every item line `_block_name` had the names that were open then. -/
structure Walk (entry : Name) (names : List Name) (r : Reader) (read : List Name) (r' : Reader) :
    Prop where
  fs : r.fs = read ++ r'.fs
  lineCount : r'.lineCount = r.lineCount + read.length
  items : ∃ items, r'.items = r.items ++ items ∧ ∀ item ∈ items, ∃ before line after,
    read = before ++ line :: after ∧ lineKind line = .item ∧
    item = ⟨r.lineCount + before.length + 1, appendName entry (before.foldl opened names)⟩

section Walk

variable {entry last name raw : Name} {names read read' fs : List Name} {r r₁ r₂ : Reader}

theorem Walk.refl (entry : Name) (names : List Name) (r : Reader) : Walk entry names r [] r where
  fs := rfl
  lineCount := rfl
  items := ⟨[], (List.append_nil _).symm, fun _ hitem => absurd hitem List.not_mem_nil⟩

/-- What comes after the lines of a walk. -/
theorem Walk.trans (h : Walk entry names r read r₁)
    (h' : Walk entry (read.foldl opened names) r₁ read' r₂) :
    Walk entry names r (read ++ read') r₂ where
  fs := by rw [h.fs, h'.fs, List.append_assoc]
  lineCount := by rw [h'.lineCount, h.lineCount, List.length_append, Nat.add_assoc]
  items := by
    obtain ⟨items, hitems, hwalk⟩ := h.items
    obtain ⟨items', hitems', hwalk'⟩ := h'.items
    refine ⟨items ++ items', by rw [hitems', hitems, List.append_assoc], ?_⟩
    intro item hitem
    rcases List.mem_append.mp hitem with hitem | hitem
    · obtain ⟨before, line, after, hread, hkind, rfl⟩ := hwalk item hitem
      exact ⟨before, line, after ++ read', by rw [hread, List.append_assoc, List.cons_append],
        hkind, rfl⟩
    · obtain ⟨before, line, after, hread, hkind, rfl⟩ := hwalk' item hitem
      refine ⟨read ++ before, line, after, by rw [hread, List.append_assoc], hkind, ?_⟩
      rw [h.lineCount, List.foldl_append, List.length_append, Nat.add_assoc r.lineCount]

/-- A line without an item. -/
theorem Walk.next (hfs : r.fs = raw :: fs) : Walk entry names r [raw] (r.next raw fs) where
  fs := hfs
  lineCount := rfl
  items := ⟨[], (List.append_nil _).symm, fun _ hitem => absurd hitem List.not_mem_nil⟩

/-- An item line. -/
theorem Walk.addItem {kind : BlockKind} {ok : Bool} (hfs : r.fs = raw :: fs)
    (hkind : lineKind raw = .item) (hblock : r.blockName = appendName entry names)
    (h : (r.next raw fs).addItem kind = (ok, r₁)) :
    Walk entry names r [raw] r₁ ∧ r₁.blockName = r.blockName := by
  obtain ⟨ok', tables, items, hadd, hitems⟩ := addItem_eq kind (r.next raw fs)
  obtain ⟨-, rfl⟩ := Prod.mk.inj (h.symm.trans hadd)
  refine ⟨⟨hfs, rfl, items, rfl, ?_⟩, rfl⟩
  intro item hitem
  refine ⟨[], raw, [], rfl, hkind, ?_⟩
  rw [hitems item hitem, List.foldl_nil, ← hblock]
  rfl

end Walk

/-- A reader in the block `last`, in `names`, in `entry`: it ends, and if it returns true then
outside of `last`. -/
def Closes (entry : Name) (names : List Name) (last : Name) (r : Reader)
    (result : Option (Bool × Reader)) : Prop :=
  ∃ ok r' read, result = some (ok, r') ∧ Walk entry (names ++ [last]) r read r' ∧
    (ok = true → r'.blockName = names.foldl (pushName nameDelimit) entry ∧
      read.foldl opened (names ++ [last]) = names)

section Closes

variable {entry last name : Name} {names read : List Name} {r r₁ : Reader}
  {result : Option (Bool × Reader)}

theorem Closes.of_false (h : Walk entry (names ++ [last]) r read r₁) :
    Closes entry names last r (some (false, r₁)) :=
  ⟨false, r₁, read, rfl, h, fun hok => absurd hok Bool.false_ne_true⟩

/-- Lines that leave the same blocks open. -/
theorem Closes.of_walk (h : Walk entry (names ++ [last]) r read r₁)
    (hopen : read.foldl opened (names ++ [last]) = names ++ [last])
    (hclose : Closes entry names last r₁ result) : Closes entry names last r result := by
  obtain ⟨ok, r₂, read', hresult, hwalk, htrue⟩ := hclose
  rw [← hopen] at hwalk
  refine ⟨ok, r₂, read ++ read', hresult, h.trans hwalk, ?_⟩
  intro hok
  rw [List.foldl_append, hopen]
  exact htrue hok

/-- A block in the block, and what comes after it. -/
theorem Closes.bind {next : Reader → Option (Bool × Reader)}
    (h : Walk entry (names ++ [last]) r read r₁)
    (hopen : read.foldl opened (names ++ [last]) = names ++ [last] ++ [name])
    (hblock : Closes entry (names ++ [last]) name r₁ result)
    (hnext : ∀ r₂ read', r.fs = read ++ read' ++ r₂.fs →
      r₂.blockName = (names ++ [last]).foldl (pushName nameDelimit) entry →
      Closes entry names last r₂ (next r₂)) :
    Closes entry names last r (result.bind (continueWith next)) := by
  obtain ⟨ok, r₂, read', rfl, hwalk, htrue⟩ := hblock
  rw [← hopen] at hwalk
  rw [Option.bind_some]
  rcases ok with _ | _
  · exact Closes.of_false (h.trans hwalk)
  · obtain ⟨hname, hfold⟩ := htrue rfl
    refine Closes.of_walk (h.trans hwalk) ?_ (hnext r₂ read' (h.trans hwalk).fs hname)
    rw [List.foldl_append, hopen, hfold]

end Closes

/-- A reader in the block `last`, in `names`, in `entry`. -/
structure Within (entry : Name) (names : List Name) (last : Name) (r : Reader) : Prop where
  ne_nil : ∀ name ∈ names ++ [last], name ≠ []
  notMem : nameDelimit ∉ last
  blockName : r.blockName = (names ++ [last]).foldl (pushName nameDelimit) entry

namespace Within

variable {entry last name raw : Name} {names fs : List Name} {r r₁ : Reader} {kind : BlockKind}

theorem of_blockName (h : Within entry names last r)
    (hblock : r₁.blockName = (names ++ [last]).foldl (pushName nameDelimit) entry) :
    Within entry names last r₁ :=
  ⟨h.ne_nil, h.notMem, hblock⟩

theorem blockName_eq (h : Within entry names last r) :
    r.blockName = appendName entry (names ++ [last]) := by
  rw [h.blockName, foldl_pushName nameDelimit entry (List.concat_ne_nil last names) h.ne_nil]
  rfl

/-- The end of the block. -/
theorem closes_blockEnd (h : Within entry names last r) (hfs : r.fs = raw :: fs)
    (hkind : lineKind raw = .blockEnd) :
    Closes entry names last r (some (true, (r.next raw fs).removeBlockName)) := by
  have hblock : (r.next raw fs).blockName =
      pushName nameDelimit (names.foldl (pushName nameDelimit) entry) last := by
    rw [Reader.next, h.blockName, List.foldl_append]
    rfl
  rw [removeBlockName_eq h.notMem hblock]
  refine ⟨true, _, [raw], rfl, ⟨hfs, rfl, (Walk.next hfs).items⟩, ?_⟩
  intro _
  exact ⟨rfl, opened_blockEnd hkind last⟩

/-- An item, and what comes after it. -/
theorem closes_item {next : Reader → Option (Bool × Reader)} (h : Within entry names last r)
    (hfs : r.fs = raw :: fs) (hkind : lineKind raw = .item)
    (hnext : ∀ r₁, r₁.fs = fs → Within entry names last r₁ → Closes entry names last r₁ (next r₁)) :
    Closes entry names last r (continueWith next ((r.next raw fs).addItem kind)) := by
  rcases hadd : (r.next raw fs).addItem kind with ⟨ok, r₁⟩
  obtain ⟨hwalk, hname⟩ := Walk.addItem hfs hkind h.blockName_eq hadd
  rcases ok with _ | _
  · exact Closes.of_false hwalk
  · have hfs₁ : r₁.fs = fs := by
      have hread := hwalk.fs
      rw [hfs, List.singleton_append] at hread
      exact (List.cons.inj hread).2.symm
    refine Closes.of_walk hwalk (opened_item hkind) (hnext r₁ hfs₁ (h.of_blockName ?_))
    rw [hname, h.blockName]

/-- A block that begins. -/
theorem closes_inBlock {loop : Reader → Option (Bool × Reader)} {names : List Name}
    (hne : ∀ name ∈ names, name ≠ [])
    (hblock : r.blockName = names.foldl (pushName nameDelimit) entry)
    (hdot : nameDelimit ∉ msgName r.line)
    (hloop : ∀ r₁, r₁.fs = r.fs → Within entry names (msgName r.line) r₁ →
      Closes entry names (msgName r.line) r₁ (loop r₁)) :
    Closes entry names (msgName r.line) r (inBlock loop r) := by
  rw [inBlock, processBlockName_eq]
  by_cases hnil : msgName r.line = []
  · rw [if_pos hnil]
    exact Closes.of_false (Walk.refl entry _ r)
  · rw [if_neg hnil]
    let r₁ := { r with blockName := pushName nameDelimit r.blockName (msgName r.line) }
    have hwithin : Within entry names (msgName r.line) r₁ := by
      refine ⟨?_, hdot, ?_⟩
      · intro name hname
        rcases List.mem_append.mp hname with hname | hname
        · exact hne name hname
        · rw [List.mem_singleton.mp hname]
          exact hnil
      · rw [List.foldl_append, ← hblock]
        rfl
    obtain ⟨ok, r', read, hresult, hwalk, htrue⟩ := hloop r₁ rfl hwithin
    exact ⟨ok, r', read, hresult, ⟨hwalk.fs, hwalk.lineCount, hwalk.items⟩, htrue⟩

end Within

/-! ### The loops -/

section Loops

variable {entry last : Name} {names : List Name}

theorem Dotless.of_append (read : List Name) {fs : List Name} (h : Dotless (read ++ fs)) :
    Dotless fs := by
  intro raw hraw
  exact h raw (List.mem_append_right read hraw)

/-- The end of the file. -/
theorem closes_nil (kind : BlockKind) (fuel : ℕ) {r : Reader} (hfs : r.fs = []) :
    Closes entry names last r (blockLoop kind (fuel + 1) r) := by
  rw [blockLoop_nil kind fuel hfs]
  exact Closes.of_false (Walk.refl entry _ r)

/-- **The lines of an enumeration.** -/
theorem closes_processEnumLoop (fuel : ℕ) (r : Reader) (hfuel : r.fs.length < fuel)
    (h : Within entry names last r) : Closes entry names last r (processEnumLoop fuel r) := by
  induction fuel generalizing r with
  | zero => exact absurd hfuel (Nat.not_lt_zero _)
  | succ fuel ih =>
    rcases hfs : r.fs with _ | ⟨raw, fs⟩
    · exact closes_nil .enum fuel hfs
    · rw [hfs, List.length_cons] at hfuel
      have hfuel' := Nat.lt_of_succ_lt_succ hfuel
      rw [processEnumLoop_succ fuel hfs]
      rcases hkind : lineKind raw with _ | ⟨kind, name⟩ | _ | _
      · refine Closes.of_walk (Walk.next hfs) (opened_skipped hkind) ?_
        exact ih _ hfuel' (h.of_blockName h.blockName)
      · exact Closes.of_false (Walk.next hfs)
      · exact h.closes_blockEnd hfs hkind
      · refine h.closes_item hfs hkind ?_
        intro r₁ hfs₁ h₁
        exact ih r₁ (by rw [hfs₁]; exact hfuel') h₁

/-- **The lines of a message**, with the blocks in it. -/
theorem closes_processMessageLoop (fuel : ℕ) (r : Reader) (hfuel : r.fs.length < fuel)
    (hdotless : Dotless r.fs) (h : Within entry names last r) :
    Closes entry names last r (processMessageLoop fuel r) := by
  induction fuel generalizing r names last with
  | zero => exact absurd hfuel (Nat.not_lt_zero _)
  | succ fuel ih =>
    rcases hfs : r.fs with _ | ⟨raw, fs⟩
    · exact closes_nil .message fuel hfs
    · rw [hfs] at hfuel hdotless
      rw [List.length_cons] at hfuel
      have hfuel' := Nat.lt_of_succ_lt_succ hfuel
      have hdotless' : Dotless fs := Dotless.of_append [raw] hdotless
      rw [processMessageLoop_succ fuel hfs]
      rcases hkind : lineKind raw with _ | ⟨kind, name⟩ | _ | _
      · refine Closes.of_walk (Walk.next hfs) (opened_skipped hkind) ?_
        exact ih _ hfuel' hdotless' (h.of_blockName h.blockName)
      · have hname := line_of_opening r fs hkind
        have hdot := hdotless raw List.mem_cons_self name (by rw [hkind]; rfl)
        refine Closes.bind (Walk.next hfs) (opened_opening hkind) ?_ ?_
        · subst hname
          refine Within.closes_inBlock h.ne_nil h.blockName hdot ?_
          intro r₁ hfs₁ h₁
          rcases kind with _ | _
          · exact ih r₁ (by rw [hfs₁]; exact hfuel') (by rw [hfs₁]; exact hdotless') h₁
          · exact closes_processEnumLoop fuel r₁ (by rw [hfs₁]; exact hfuel') h₁
        · intro r₂ read hread hblock
          have hrest : fs = read ++ r₂.fs := by
            rw [hfs, List.append_assoc, List.singleton_append] at hread
            exact (List.cons.inj hread).2
          rw [hrest] at hfuel' hdotless'
          rw [List.length_append] at hfuel'
          exact ih r₂ (by omega) (hdotless'.of_append read) (h.of_blockName hblock)
      · exact h.closes_blockEnd hfs hkind
      · refine h.closes_item hfs hkind ?_
        intro r₁ hfs₁ h₁
        exact ih r₁ (by rw [hfs₁]; exact hfuel') (by rw [hfs₁]; exact hdotless') h₁

end Loops

/-- The source's function for a kind of block. -/
def process : BlockKind → ℕ → Reader → Option (Bool × Reader)
  | .message => processMessage
  | .enum => processEnum

/-- **The name of the block** is the same after a call as before it if it returns true, and at
every item line it has the names of the blocks that are open there. -/
theorem process_keeps_blockName (kind : BlockKind) (r : Reader) (fuel : ℕ)
    (hname : nameDelimit ∉ msgName r.line) (hdotless : Dotless r.fs)
    (hfuel : r.fs.length < fuel) : ∃ ok r' read items,
      process kind fuel r = some (ok, r') ∧ r.fs = read ++ r'.fs ∧
      (ok = true → r'.blockName = r.blockName) ∧ r'.items = r.items ++ items ∧
      ∀ item ∈ items, ∃ before line after,
        read = before ++ line :: after ∧ lineKind line = .item ∧
        item = ⟨r.lineCount + before.length + 1,
          appendName r.blockName (before.foldl opened [msgName r.line])⟩ := by
  have hclose : Closes r.blockName [] (msgName r.line) r (process kind fuel r) := by
    rcases kind with _ | _
    · refine Within.closes_inBlock (fun _ hmem => absurd hmem List.not_mem_nil) rfl hname ?_
      intro r₁ hfs h
      rw [← hfs] at hfuel hdotless
      exact closes_processMessageLoop fuel r₁ hfuel hdotless h
    · refine Within.closes_inBlock (fun _ hmem => absurd hmem List.not_mem_nil) rfl hname ?_
      intro r₁ hfs h
      rw [← hfs] at hfuel
      exact closes_processEnumLoop fuel r₁ hfuel h
  obtain ⟨ok, r', read, hresult, hwalk, htrue⟩ := hclose
  obtain ⟨items, hitems, hitem⟩ := hwalk.items
  exact ⟨ok, r', read, items, hresult, hwalk.fs, fun hok => (htrue hok).1, hitems, hitem⟩

/-- A message in the package `p`, with an enumeration and an item behind it. `\x7b` and `\x7d` are
the braces. -/
def sampleReader : Reader where
  lineCount := 1
  fs := ["enum B \x7b", "X = 0; // x", "\x7d", "optional B b = 1; // b", "\x7d"].map text
  line := text "message A \x7b"
  blockName := text "p"
  tables :=
    { messageMap := fun _ => none
      enumMap := fun _ => none
      messageMap_nil := by
        intro _ _ h
        cases h
      enumMap_nil := by
        intro _ _ h
        cases h }
  items := []

theorem process_keeps_blockName_sample : ∃ r', process .message 6 sampleReader = some (true, r') ∧
    r'.blockName = text "p" ∧ r'.items.map ItemLine.blockName = [text "p.A.B", text "p.A"] := by
  have hdotless : Dotless sampleReader.fs := by
    rw [Dotless]
    decide
  obtain ⟨ok, r', read, items, hresult, -, hname, -, -⟩ :=
    process_keeps_blockName .message sampleReader 6 (by decide) hdotless (by decide)
  have hrun : (process .message 6 sampleReader).map
      (fun result => (result.1, result.2.items.map ItemLine.blockName)) =
      some (true, [text "p.A.B", text "p.A"]) := by decide
  rw [hresult, Option.map_some] at hrun
  obtain ⟨rfl, hitems⟩ := Prod.mk.inj (Option.some.inj hrun)
  exact ⟨r', hresult, hname rfl, hitems⟩

end Lsf.NameTableReader
