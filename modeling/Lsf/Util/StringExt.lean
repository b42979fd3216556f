import Lsf.Foundations.StringSearch

/-!
# Splitting strings

Three functions of `StringExt` split a string at the characters of a delimiter: `SplitStr` gives all
the pieces, `SplitGet` the one with a given index and `SplitGetNext` the one that starts at an
offset, which it moves on to the next.

A string is the list of its bytes and a position is a number, or none for `npos`. The loops run on
fuel; they give none when it is used up, or when a part behind the end of the string is asked for.

## Main definitions

* `Delimit` — a character or the characters of a string
* `splitGet`, `splitGetNext`, `splitStr` — the source's functions
* `collect` — the calls of `SplitGetNext` that take a string apart

## Main results

* `splitStrLoop_eq`, `collect_eq`, `splitGetLoop_eq` — what the loops do from a position on
* `splitters_agree`
* `splitStr_join` — splitting at one character and joining with it
-/

namespace Lsf.StringExt

/-- `DelimitType`. -/
inductive Delimit
  | char (c : UInt8)
  | string (cs : List UInt8)

/-- The character is one that `find_first_of` looks for. -/
def Delimit.has : Delimit → UInt8 → Bool
  | .char c, x => x == c
  | .string cs, x => cs.elem x

/-- `find_first_of`, from a position if there is one. -/
def findFirstOf (input : List UInt8) (delimit : Delimit) (pos : Option ℕ) : Option ℕ :=
  pos.bind (findFrom delimit.has input)

/-- `find_first_not_of`, from a position if there is one. -/
def findFirstNotOf (input : List UInt8) (delimit : Delimit) (pos : Option ℕ) : Option ℕ :=
  pos.bind (findFrom (fun x => !delimit.has x) input)

/-- Where the piece after a delimiter begins. -/
def nextBegin (input : List UInt8) (delimit : Delimit) (ignoreRepeated : Bool) (stop : ℕ) :
    Option ℕ :=
  if ignoreRepeated then findFirstNotOf input delimit (some stop) else some (stop + 1)

/-- The loop of `SplitGet`, with `begin`, `end` and `count`. -/
def splitGetLoop (input : List UInt8) (delimit : Delimit) (index : ℕ) (ignoreRepeated : Bool) :
    ℕ → Option ℕ → Option ℕ → ℕ → Option (List UInt8)
  | 0, _, _, _ => none
  | _ + 1, none, _, _ => some []
  | _ + 1, some start, none, count => if count = index then substr input start none else some []
  | fuel + 1, some start, some stop, count =>
    if count = index then substr input start (some (stop - start))
    else
      let start := nextBegin input delimit ignoreRepeated stop
      splitGetLoop input delimit index ignoreRepeated fuel start (findFirstOf input delimit start)
        (count + 1)

/-- `SplitGet`. -/
def splitGet (fuel : ℕ) (input : List UInt8) (delimit : Delimit) (index : ℕ)
    (ignoreRepeated : Bool) : Option (List UInt8) :=
  splitGetLoop input delimit index ignoreRepeated fuel (some 0)
    (findFirstOf input delimit (some 0)) 0

/-- `SplitGetNext`: the piece and the offset afterwards. -/
def splitGetNext (input : List UInt8) (delimit : Delimit) (offset : Option ℕ)
    (ignoreRepeated : Bool) : Option (List UInt8 × Option ℕ) :=
  match offset, findFirstOf input delimit offset with
  | none, _ => some ([], offset)
  | some start, none => (substr input start none).map (·, none)
  | some start, some stop =>
    (substr input start (some (stop - start))).map (·, nextBegin input delimit ignoreRepeated stop)

/-- The loop of `SplitStr`, with `begin`, `end` and `out_vec`. -/
def splitStrLoop (input : List UInt8) (delimit : Delimit) (ignoreRepeated : Bool) :
    ℕ → Option ℕ → Option ℕ → List (List UInt8) → Option (List (List UInt8))
  | 0, _, _, _ => none
  | _ + 1, none, _, outVec => some outVec
  | _ + 1, some start, none, outVec => (substr input start none).map fun piece => outVec ++ [piece]
  | fuel + 1, some start, some stop, outVec =>
    (substr input start (some (stop - start))).bind fun piece =>
      let start := nextBegin input delimit ignoreRepeated stop
      splitStrLoop input delimit ignoreRepeated fuel start (findFirstOf input delimit start)
        (outVec ++ [piece])

/-- `SplitStr`. -/
def splitStr (fuel : ℕ) (input : List UInt8) (delimit : Delimit) (ignoreRepeated : Bool) :
    Option (List (List UInt8)) :=
  splitStrLoop input delimit ignoreRepeated fuel (some 0) (findFirstOf input delimit (some 0)) []

/-- `SplitGetNext` is called until the offset is `npos`. -/
def collect (input : List UInt8) (delimit : Delimit) (ignoreRepeated : Bool) :
    ℕ → Option ℕ → Option (List (List UInt8))
  | 0, _ => none
  | _ + 1, none => some []
  | fuel + 1, some offset =>
    (splitGetNext input delimit (some offset) ignoreRepeated).bind fun next =>
      (collect input delimit ignoreRepeated fuel next.2).map (next.1 :: ·)

section Loops

variable {input : List UInt8} {delimit : Delimit} {ignoreRepeated : Bool}

/-- The pieces of the string from a position on, none after `npos`. -/
def piecesFrom (input : List UInt8) (delimit : Delimit) (ignoreRepeated : Bool) :
    Option ℕ → List (List UInt8)
  | none => []
  | some start => pieces delimit.has ignoreRepeated (some []) (input.drop start)

/-- A run of delimiters is skipped, and nothing comes next if the string ends with it. -/
theorem skipRun_of_cut {start : ℕ} {front rest : List UInt8} {x : UInt8}
    (hcut : input.drop start = front ++ x :: rest) (hx : delimit.has x = true) :
    (∀ next ∈ findFrom (fun x => !delimit.has x) input (start + front.length),
      start < next ∧ next ≤ input.length) ∧
    piecesFrom input delimit true
        (findFrom (fun x => !delimit.has x) input (start + front.length)) =
      pieces delimit.has true none rest := by
  obtain ⟨hnone, hforall⟩ | ⟨run, y, rest', hsome, hcut', hrun, hy⟩ :=
    findFrom_cases (fun x => !delimit.has x) input (start + front.length)
  · rw [hnone]
    rw [drop_of_cut hcut] at hforall
    simp only [Bool.not_eq_false'] at hforall
    refine ⟨fun next hnext => absurd hnext (Option.not_mem_none next), ?_⟩
    have hskip : pieces delimit.has true none (rest ++ []) = pieces delimit.has true none [] :=
      pieces_skip (List.forall_mem_cons.mp hforall).2
    rw [List.append_nil] at hskip
    exact hskip.symm
  · simp only [Bool.not_eq_false'] at hrun
    simp only [Bool.not_eq_true'] at hy
    have hlt := lt_length_of_cut hcut'
    have hdrop := drop_of_cut hcut'
    rw [drop_of_cut hcut] at hcut'
    cases run with
    | nil =>
      obtain ⟨rfl, -⟩ := List.cons.inj hcut'
      exact absurd (hx.symm.trans hy) Bool.true_eq_false.mp
    | cons z run =>
      obtain ⟨rfl, rfl⟩ := List.cons.inj hcut'
      rw [hsome]
      constructor
      · rintro _ ⟨⟩
        rw [List.length_cons] at hlt ⊢
        omega
      · rw [piecesFrom, hdrop, List.append_eq, pieces_skip (List.forall_mem_cons.mp hrun).2,
          pieces_none hy]

/-- The next piece begins behind the delimiter, or behind the run of delimiters if there is
anything. -/
theorem nextBegin_of_cut (ignoreRepeated : Bool) {start : ℕ} {front rest : List UInt8}
    {x : UInt8} (hcut : input.drop start = front ++ x :: rest) (hx : delimit.has x = true) :
    (∀ next ∈ nextBegin input delimit ignoreRepeated (start + front.length),
      start < next ∧ next ≤ input.length) ∧
    piecesFrom input delimit ignoreRepeated
        (nextBegin input delimit ignoreRepeated (start + front.length)) =
      pieces delimit.has ignoreRepeated (if ignoreRepeated then none else some []) rest := by
  cases ignoreRepeated with
  | false =>
    have hlt := lt_length_of_cut hcut
    refine ⟨?_, congrArg (pieces _ _ _) (drop_succ_of_cut hcut)⟩
    rintro _ ⟨⟩
    omega
  | true => exact skipRun_of_cut hcut hx

/-- **One piece**: it is the last, or it ends at a delimiter, after which the others begin further
on in the string. -/
theorem piecesFrom_cases (input : List UInt8) (delimit : Delimit) (ignoreRepeated : Bool)
    (start : ℕ) :
    (findFirstOf input delimit (some start) = none ∧
      piecesFrom input delimit ignoreRepeated (some start) = [input.drop start]) ∨
    ∃ stop piece, findFirstOf input delimit (some start) = some stop ∧
      substr input start (some (stop - start)) = some piece ∧
      (∀ next ∈ nextBegin input delimit ignoreRepeated stop,
        start < next ∧ next ≤ input.length) ∧
      piecesFrom input delimit ignoreRepeated (some start) =
        piece :: piecesFrom input delimit ignoreRepeated
          (nextBegin input delimit ignoreRepeated stop) := by
  obtain ⟨hnone, hforall⟩ | ⟨front, x, rest, hsome, hcut, hfront, hx⟩ :=
    findFrom_cases delimit.has input start
  · exact .inl ⟨hnone, pieces_of_forall hforall⟩
  · obtain ⟨hbounds, hnext⟩ := nextBegin_of_cut ignoreRepeated hcut hx
    refine .inr ⟨_, front, hsome, substr_of_cut hcut, hbounds, ?_⟩
    rw [hnext, piecesFrom, hcut, pieces_of_cut hfront hx, List.nil_append]

/-- The fuel that a loop needs from a position on. -/
def needed (input : List UInt8) : Option ℕ → ℕ
  | none => 1
  | some start => input.length - start + 2

theorem needed_nextBegin {start stop fuel : ℕ} (hstart : start ≤ input.length)
    (hbounds : ∀ next ∈ nextBegin input delimit ignoreRepeated stop,
      start < next ∧ next ≤ input.length) (hfuel : needed input (some start) ≤ fuel + 1) :
    needed input (nextBegin input delimit ignoreRepeated stop) ≤ fuel ∧
      ∀ next ∈ nextBegin input delimit ignoreRepeated stop, next ≤ input.length := by
  refine ⟨?_, fun next hnext => (hbounds next hnext).2⟩
  rw [needed] at hfuel
  cases hnext : nextBegin input delimit ignoreRepeated stop with
  | none =>
    rw [needed]
    omega
  | some next =>
    have hnext := hbounds next hnext
    rw [needed]
    omega

/-- The loop of `SplitStr` adds all pieces from its position on. -/
theorem splitStrLoop_eq {fuel : ℕ} {start : Option ℕ} {outVec : List (List UInt8)}
    (hstart : ∀ b ∈ start, b ≤ input.length) (hfuel : needed input start ≤ fuel) :
    splitStrLoop input delimit ignoreRepeated fuel start (findFirstOf input delimit start) outVec =
      some (outVec ++ piecesFrom input delimit ignoreRepeated start) := by
  induction fuel generalizing start outVec with
  | zero => cases start <;> simp [needed] at hfuel
  | succ fuel ih =>
    cases start with
    | none => rw [splitStrLoop, piecesFrom, List.append_nil]
    | some start =>
      obtain ⟨hnone, hlast⟩ | ⟨stop, piece, hsome, hpiece, hbounds, hnext⟩ :=
        piecesFrom_cases input delimit ignoreRepeated start
      · rw [hnone, hlast, splitStrLoop, substr_none (hstart start rfl), Option.map_some]
      · obtain ⟨hfuel', hstart'⟩ := needed_nextBegin (hstart start rfl) hbounds hfuel
        rw [hsome, hnext, splitStrLoop, hpiece, Option.bind_some, ih hstart' hfuel',
          List.append_assoc, List.singleton_append]

theorem splitGetNext_last {start : ℕ} (hnone : findFirstOf input delimit (some start) = none) :
    splitGetNext input delimit (some start) ignoreRepeated =
      (substr input start none).map (·, none) := by
  simp only [splitGetNext, hnone]

theorem splitGetNext_piece {start stop : ℕ}
    (hsome : findFirstOf input delimit (some start) = some stop) :
    splitGetNext input delimit (some start) ignoreRepeated =
      (substr input start (some (stop - start))).map
        (·, nextBegin input delimit ignoreRepeated stop) := by
  simp only [splitGetNext, hsome]

/-- The calls of `SplitGetNext` give the pieces one after the other. -/
theorem collect_eq {fuel : ℕ} {start : Option ℕ} (hstart : ∀ b ∈ start, b ≤ input.length)
    (hfuel : needed input start ≤ fuel) :
    collect input delimit ignoreRepeated fuel start =
      some (piecesFrom input delimit ignoreRepeated start) := by
  induction fuel generalizing start with
  | zero => cases start <;> simp [needed] at hfuel
  | succ fuel ih =>
    cases start with
    | none => rfl
    | some start =>
      obtain ⟨hnone, hlast⟩ | ⟨stop, piece, hsome, hpiece, hbounds, hnext⟩ :=
        piecesFrom_cases input delimit ignoreRepeated start
      · have hleft : needed input none ≤ fuel := by
          simp only [needed] at hfuel ⊢
          omega
        rw [collect, splitGetNext_last hnone, hlast, substr_none (hstart start rfl),
          Option.map_some, Option.bind_some,
          ih (fun b hb => absurd hb (Option.not_mem_none b)) hleft]
        rfl
      · obtain ⟨hfuel', hstart'⟩ := needed_nextBegin (hstart start rfl) hbounds hfuel
        rw [collect, splitGetNext_piece hsome, hnext, hpiece, Option.map_some, Option.bind_some,
          ih hstart' hfuel', Option.map_some]

/-- The loop of `SplitGet` stops at the piece that it counts up to. -/
theorem splitGetLoop_eq {fuel count index : ℕ} {start : Option ℕ}
    (hstart : ∀ b ∈ start, b ≤ input.length) (hfuel : needed input start ≤ fuel)
    (hcount : count ≤ index) :
    splitGetLoop input delimit index ignoreRepeated fuel start (findFirstOf input delimit start)
      count = some ((piecesFrom input delimit ignoreRepeated start).getD (index - count) []) := by
  induction fuel generalizing start count with
  | zero => cases start <;> simp [needed] at hfuel
  | succ fuel ih =>
    cases start with
    | none => rfl
    | some start =>
      obtain ⟨hnone, hlast⟩ | ⟨stop, piece, hsome, hpiece, hbounds, hnext⟩ :=
        piecesFrom_cases input delimit ignoreRepeated start
      · rw [hnone, hlast, splitGetLoop]
        by_cases heq : count = index
        · rw [if_pos heq, heq, Nat.sub_self, substr_none (hstart start rfl)]
          rfl
        · obtain ⟨k, hk⟩ : ∃ k, index - count = k + 1 := ⟨index - count - 1, by omega⟩
          rw [if_neg heq, hk]
          rfl
      · rw [hsome, hnext, splitGetLoop]
        by_cases heq : count = index
        · rw [if_pos heq, heq, Nat.sub_self, hpiece]
          rfl
        · obtain ⟨hfuel', hstart'⟩ := needed_nextBegin (hstart start rfl) hbounds hfuel
          obtain ⟨k, hk⟩ : ∃ k, index - count = k + 1 := ⟨index - count - 1, by omega⟩
          rw [if_neg heq, ih hstart' hfuel' (by omega), hk, List.getD_cons_succ]
          congr 2
          omega

/-- `SplitGet` gives one of the pieces, or nothing behind the last. -/
theorem splitGet_eq (input : List UInt8) (delimit : Delimit) (index : ℕ) (ignoreRepeated : Bool)
    (more : ℕ) :
    splitGet (input.length + 2 + more) input delimit index ignoreRepeated =
      some ((piecesFrom input delimit ignoreRepeated (some 0)).getD index []) := by
  refine splitGetLoop_eq ?_ (Nat.le_add_right _ _) (Nat.zero_le index)
  rintro _ ⟨⟩
  exact Nat.zero_le _

/-- **The three splitters agree.** They all end, and what they give is one list of pieces. -/
theorem splitters_agree (input : List UInt8) (delimit : Delimit) (ignoreRepeated : Bool) :
    ∃ list, ∀ more,
      splitStr (input.length + 2 + more) input delimit ignoreRepeated = some list ∧
      collect input delimit ignoreRepeated (input.length + 2 + more) (some 0) = some list ∧
      ∀ index, splitGet (input.length + 2 + more) input delimit index ignoreRepeated =
        some (list.getD index []) := by
  have hstart : ∀ b ∈ some 0, b ≤ input.length := by
    rintro _ ⟨⟩
    exact Nat.zero_le _
  refine ⟨piecesFrom input delimit ignoreRepeated (some 0), fun more => ?_⟩
  have hfuel : needed input (some 0) ≤ input.length + 2 + more := Nat.le_add_right _ _
  exact ⟨splitStrLoop_eq hstart hfuel, collect_eq hstart hfuel, fun index =>
    splitGet_eq input delimit index ignoreRepeated more⟩

end Loops

/-! ### Splitting and joining -/

section Join

variable {d : UInt8} {s : List UInt8}

theorem piecesFrom_char (s : List UInt8) (d : UInt8) :
    piecesFrom s (.char d) false (some 0) = s.splitOn d := by
  rw [piecesFrom, pieces_eq_splitOnP]
  rfl

/-- A string of one character is as good as the character. -/
theorem piecesFrom_string (s : List UInt8) (d : UInt8) :
    piecesFrom s (.string [d]) false (some 0) = s.splitOn d := by
  have hhas : Delimit.has (.string [d]) = Delimit.has (.char d) := by
    funext x
    simp only [Delimit.has, List.elem_cons, List.elem_nil]
    cases x == d <;> rfl
  rw [← piecesFrom_char, piecesFrom, piecesFrom, hhas]

theorem splitStr_char (s : List UInt8) (d : UInt8) (more : ℕ) :
    splitStr (s.length + 2 + more) s (.char d) false = some (s.splitOn d) := by
  rw [splitStr, splitStrLoop_eq, List.nil_append, piecesFrom_char]
  · rintro _ ⟨⟩
    exact Nat.zero_le _
  · exact Nat.le_add_right _ _

/-- **Splitting and joining** at one character are inverse to each other. -/
theorem splitStr_join (d : UInt8) :
    (∀ s : List UInt8, ∃ list, (∀ more,
      splitStr (s.length + 2 + more) s (.char d) false = some list) ∧ [d].intercalate list = s) ∧
    ∀ list : List (List UInt8), list ≠ [] → (∀ piece ∈ list, d ∉ piece) → ∀ more,
      splitStr (([d].intercalate list).length + 2 + more) ([d].intercalate list) (.char d) false =
        some list := by
  refine ⟨fun s => ⟨s.splitOn d, splitStr_char s d, List.intercalate_splitOn d⟩, ?_⟩
  intro list hne hfree more
  rw [splitStr_char, List.splitOn_intercalate d hfree hne]

/-- The first piece of joined ones. -/
theorem splitGet_first {d : UInt8} {list : List (List UInt8)} (hfree : ∀ piece ∈ list, d ∉ piece) :
    splitGet (([d].intercalate list).length + 2) ([d].intercalate list) (.char d) 0 false =
      some (list.headD []) := by
  have hget := splitGet_eq ([d].intercalate list) (.char d) 0 false 0
  rw [Nat.add_zero] at hget
  rw [hget, piecesFrom_char]
  by_cases hne : list = []
  · subst hne
    rfl
  · rw [List.splitOn_intercalate d hfree hne, List.getD_eq_getElem?_getD, List.headD_eq_head?_getD,
      List.head?_eq_getElem?]

theorem notMem_of_mem_splitOn {s : List UInt8} {d : UInt8} {piece : List UInt8}
    (h : piece ∈ s.splitOn d) : d ∉ piece := by
  rw [← piecesFrom_char, piecesFrom] at h
  intro hmem
  have hne := forall_mem_pieces (fun y hy => absurd hy List.not_mem_nil) piece h d hmem
  rw [Delimit.has, beq_self_eq_true] at hne
  cases hne

theorem intercalate_cons (d : UInt8) (piece : List UInt8) (list : List (List UInt8)) :
    [d].intercalate (piece :: list) =
      piece ++ if list = [] then [] else d :: [d].intercalate list := by
  cases list with
  | nil => simp [List.intercalate]
  | cons next list => simp [List.intercalate]

/-- Empty pieces at both ends. -/
theorem splitStr_join_comma : splitStr 10 [44, 97, 44] (.char 44) false = some [[], [97], []] :=
  (splitStr_join 44).2 [[], [97], []] (by decide) (by decide) 5

end Join

/-! ### Trimming a block -/

/-- `FindAndTrimBlock`: the first block is erased with the patterns around it, if it ends. -/
def findAndTrimBlock (input : List UInt8) (beginPattern endPattern : Delimit)
    (ignoreRepeated : Bool) : List UInt8 :=
  match findFirstOf input beginPattern (some 0) with
  | none => input
  | some start =>
    -- Without a content the search for its end gives none as well.
    match findFirstOf input endPattern (nextBegin input beginPattern ignoreRepeated start) with
    | none => input
    | some contentEnd =>
      match nextBegin input endPattern ignoreRepeated contentEnd with
      | none => input.take start
      | some stop => input.take start ++ input.drop stop

end Lsf.StringExt
