import Lsf.Foundations.StringSearch

/-!
# Whitespace around a string

`RemoveHeadWhitespace` and `RemoveTailWhitespace` erase whitespace on one side, found by a search
for the first or the last other character. They are called one after the other, which trims.

## Main definitions

* `removeHeadWhitespace`, `removeTailWhitespace` — the source's functions
* `trimmed` — the string without the whitespace around it

## Main results

* `removeWhitespace_eq` — one after the other they trim
* `mem_trimmed`, `trimmed_eq_nil_iff` — what is left
-/

namespace Lsf.StringExt

/-- `WHITE_SPACES`. -/
def whiteSpaces : List UInt8 := [32, 13, 10, 12, 9, 11]

/-- The character is one of the white spaces. -/
def isSpace (c : UInt8) : Bool :=
  whiteSpaces.elem c

/-- `RemoveHeadWhitespace`. -/
def removeHeadWhitespace (input : List UInt8) : List UInt8 :=
  match findFrom (fun c => !isSpace c) input 0 with
  | some 0 => input
  | none => []
  | some (pos + 1) => input.drop (pos + 1)

/-- `RemoveTailWhitespace`. -/
def removeTailWhitespace (input : List UInt8) : List UInt8 :=
  match findLast (fun c => !isSpace c) input with
  | none => []
  | some pos => if pos + 1 = input.length then input else input.take (pos + 1)

/-- The string without whitespace around it. -/
def trimmed (input : List UInt8) : List UInt8 :=
  (input.dropWhile isSpace).rdropWhile isSpace

theorem removeHeadWhitespace_eq (input : List UInt8) :
    removeHeadWhitespace input = input.dropWhile isSpace := by
  obtain ⟨hnone, h⟩ | ⟨front, x, rest, hsome, hcut, hfront, hx⟩ :=
    findFrom_cases (fun c => !isSpace c) input 0
  · rw [removeHeadWhitespace, hnone, List.dropWhile_eq_nil_iff.mpr]
    intro x hx
    rw [← Bool.not_eq_false']
    exact h x hx
  · simp only [Bool.not_eq_false', Bool.not_eq_true'] at hfront hx
    rw [Nat.zero_add] at hsome
    rw [List.drop_zero] at hcut
    rw [removeHeadWhitespace, hsome, hcut, dropWhile_of_cut hfront hx]
    cases front with
    | nil => rfl
    | cons y front => exact List.drop_left

theorem removeTailWhitespace_eq (input : List UInt8) :
    removeTailWhitespace input = input.rdropWhile isSpace := by
  obtain h | ⟨front, x, rest, rfl, hx, hrest⟩ := exists_last_cut (fun c => !isSpace c) input
  · simp only [Bool.not_eq_false'] at h
    rw [removeTailWhitespace, findLast_of_forall (by simpa using h),
      List.rdropWhile_eq_nil_iff.mpr h]
  · rw [removeTailWhitespace, findLast_of_cut (p := fun c => !isSpace c) hx hrest]
    simp only [Bool.not_eq_false', Bool.not_eq_true'] at hrest hx
    rw [rdropWhile_of_cut hx hrest]
    have htake : (front ++ x :: rest).take (front.length + 1) = front ++ [x] := by
      rw [List.take_append, List.take_of_length_le (Nat.le_succ _), Nat.add_sub_cancel_left,
        List.take_succ_cons, List.take_zero]
    dsimp only
    rw [← htake]
    by_cases hlen : front.length + 1 = (front ++ x :: rest).length
    · rw [if_pos hlen, hlen, List.take_length]
    · rw [if_neg hlen]

/-- **One after the other they trim.** -/
theorem removeWhitespace_eq (input : List UInt8) :
    removeTailWhitespace (removeHeadWhitespace input) = trimmed input := by
  rw [removeTailWhitespace_eq, removeHeadWhitespace_eq, trimmed]

theorem mem_trimmed {input : List UInt8} {c : UInt8} (hc : c ∈ input)
    (hspace : isSpace c = false) : c ∈ trimmed input := by
  have hdrop : c ∈ input.dropWhile isSpace := by
    rw [← List.takeWhile_append_dropWhile (p := isSpace) (l := input)] at hc
    refine (List.mem_append.mp hc).resolve_left fun hmem => ?_
    exact Bool.false_ne_true (hspace.symm.trans (List.mem_takeWhile_imp hmem))
  rw [← List.rdropWhile_append_rtakeWhile (p := isSpace) (l := input.dropWhile isSpace)] at hdrop
  refine (List.mem_append.mp hdrop).resolve_right fun hmem => ?_
  exact Bool.false_ne_true (hspace.symm.trans (List.mem_rtakeWhile_imp hmem))

/-- Nothing is left of whitespace only. -/
theorem trimmed_eq_nil_iff {input : List UInt8} :
    trimmed input = [] ↔ ∀ c ∈ input, isSpace c = true := by
  constructor
  · intro h c hc
    by_contra hspace
    have hmem := mem_trimmed hc (Bool.eq_false_iff.mpr hspace)
    rw [h] at hmem
    exact List.not_mem_nil hmem
  · intro h
    rw [trimmed, List.dropWhile_eq_nil_iff.mpr h, List.rdropWhile_nil]

end Lsf.StringExt
