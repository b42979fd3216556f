import Mathlib.Data.List.DropRight
import Mathlib.Data.Nat.Notation
import Mathlib.Logic.Basic

/-!
# Positions in strings

Strings whose elements are found by position: a search starts at a position and gives the position
of the first element that it looks for, and a part is taken out from a position on. A part that
would start behind the end of the string does not exist.

`Cut` is how proofs see a position: the string from there on, as what comes before the first element
that is looked for, that element, and the rest. `pieces` is what splitting a string should give.

## Main definitions

* `substr`, `findFrom`, `findLast` — by position
* `pieces` — the parts between separators, where a run of separators may count as one

## Main results

* `findFrom_cases` — a search by what the string looks like from its start on
* `findLast_of_cut`, `rdropWhile_of_cut` — the same from the end, with the cut at the last element
* `pieces_of_cut`, `pieces_skip` — the first piece and the others
* `pieces_eq_splitOnP` — every separator counts
-/

namespace Lsf

variable {α : Type} {p : α → Bool} {s front rest : List α} {x : α} {pos i : ℕ}

/-! ### Parts and searches -/

/-- The part of a string from a position on, up to its end or so many elements if it has them, none
if the position is behind the end. -/
def substr (s : List α) (pos : ℕ) (count : Option ℕ) : Option (List α) :=
  if s.length < pos then none
  else some (match count with
    | none => s.drop pos
    | some n => (s.drop pos).take n)

/-- The position of the first element with `p`, from a position on. -/
def findFrom (p : α → Bool) (s : List α) (pos : ℕ) : Option ℕ :=
  ((s.drop pos).findIdx? p).map (pos + ·)

theorem substr_none (h : pos ≤ s.length) : substr s pos none = some (s.drop pos) :=
  if_neg (Nat.not_lt.mpr h)

theorem substr_some {n : ℕ} (h : pos ≤ s.length) :
    substr s pos (some n) = some ((s.drop pos).take n) :=
  if_neg (Nat.not_lt.mpr h)

/-- A list that has an element with `p`, cut at the first. -/
theorem exists_cut (p : α → Bool) (s : List α) : (∀ x ∈ s, p x = false) ∨
    ∃ front x rest, s = front ++ x :: rest ∧ (∀ y ∈ front, p y = false) ∧ p x = true := by
  induction s with
  | nil => exact .inl fun x hx => absurd hx List.not_mem_nil
  | cons y s ih =>
    by_cases hy : p y = true
    · exact .inr ⟨[], y, s, rfl, fun z hz => absurd hz List.not_mem_nil, hy⟩
    rw [Bool.not_eq_true] at hy
    obtain h | ⟨front, x, rest, rfl, hfront, hx⟩ := ih
    · exact .inl (List.forall_mem_cons.mpr ⟨hy, h⟩)
    · exact .inr ⟨y :: front, x, rest, rfl, List.forall_mem_cons.mpr ⟨hy, hfront⟩, hx⟩

theorem findFrom_of_forall (h : ∀ x ∈ s.drop pos, p x = false) : findFrom p s pos = none := by
  rw [findFrom, List.findIdx?_eq_none_iff.mpr h]
  rfl

theorem findFrom_of_cut (hcut : s.drop pos = front ++ x :: rest) (hfront : ∀ y ∈ front, p y = false)
    (hx : p x = true) : findFrom p s pos = some (pos + front.length) := by
  rw [findFrom, hcut, List.findIdx?_append, List.findIdx?_eq_none_iff.mpr hfront,
    List.findIdx?_cons, hx]
  simp

/-- **A search finds nothing or cuts** what comes from its start on. -/
theorem findFrom_cases (p : α → Bool) (s : List α) (pos : ℕ) :
    (findFrom p s pos = none ∧ ∀ x ∈ s.drop pos, p x = false) ∨
    ∃ front x rest, findFrom p s pos = some (pos + front.length) ∧
      s.drop pos = front ++ x :: rest ∧ (∀ y ∈ front, p y = false) ∧ p x = true := by
  obtain h | ⟨front, x, rest, hcut, hfront, hx⟩ := exists_cut p (s.drop pos)
  · exact .inl ⟨findFrom_of_forall h, h⟩
  · exact .inr ⟨front, x, rest, findFrom_of_cut hcut hfront hx, hcut, hfront, hx⟩

/-! ### From the end -/

/-- The position of the last element with `p`. -/
def findLast (p : α → Bool) : List α → Option ℕ
  | [] => none
  | x :: s => ((findLast p s).map (· + 1)).or (if p x then some 0 else none)

/-- A list that has an element with `p`, cut at the last. -/
theorem exists_last_cut (p : α → Bool) (s : List α) : (∀ x ∈ s, p x = false) ∨
    ∃ front x rest, s = front ++ x :: rest ∧ p x = true ∧ ∀ y ∈ rest, p y = false := by
  induction s with
  | nil => exact .inl fun x hx => absurd hx List.not_mem_nil
  | cons y s ih =>
    obtain h | ⟨front, x, rest, rfl, hx, hrest⟩ := ih
    · by_cases hy : p y = true
      · exact .inr ⟨[], y, s, rfl, hy, h⟩
      · rw [Bool.not_eq_true] at hy
        exact .inl (List.forall_mem_cons.mpr ⟨hy, h⟩)
    · exact .inr ⟨y :: front, x, rest, rfl, hx, hrest⟩

theorem findLast_of_forall (h : ∀ x ∈ s, p x = false) : findLast p s = none := by
  induction s with
  | nil => rfl
  | cons x s ih =>
    obtain ⟨hx, h⟩ := List.forall_mem_cons.mp h
    rw [findLast, ih h, hx]
    rfl

theorem findLast_of_cut (hx : p x = true) (hrest : ∀ y ∈ rest, p y = false) :
    findLast p (front ++ x :: rest) = some front.length := by
  induction front with
  | nil =>
    rw [List.nil_append, findLast, findLast_of_forall hrest, hx]
    rfl
  | cons y front ih =>
    rw [List.cons_append, findLast, ih]
    rfl

/-- Elements are dropped up to the cut. -/
theorem dropWhile_of_cut (hfront : ∀ y ∈ front, p y = true) (hx : p x = false) :
    (front ++ x :: rest).dropWhile p = x :: rest := by
  rw [List.dropWhile_append_of_pos hfront, List.dropWhile_cons_of_neg (by simp [hx])]

/-- Elements are dropped down to the cut. -/
theorem rdropWhile_of_cut (hx : p x = false) (hrest : ∀ y ∈ rest, p y = true) :
    (front ++ x :: rest).rdropWhile p = front ++ [x] := by
  have hreverse : (front ++ x :: rest).reverse = rest.reverse ++ x :: front.reverse := by
    simp only [List.reverse_append, List.reverse_cons, List.append_assoc, List.singleton_append]
  rw [List.rdropWhile, hreverse,
    dropWhile_of_cut (fun y hy => hrest y (List.mem_reverse.mp hy)) hx, List.reverse_cons,
    List.reverse_reverse]

section Cut

variable (hcut : s.drop pos = front ++ x :: rest)
include hcut

theorem lt_length_of_cut : pos + front.length < s.length := by
  have hlen := congrArg List.length hcut
  simp only [List.length_drop, List.length_append, List.length_cons] at hlen
  omega

/-- The part before the element. -/
theorem substr_of_cut : substr s pos (some (pos + front.length - pos)) = some front := by
  have hlt := lt_length_of_cut hcut
  rw [substr_some (by omega), hcut, Nat.add_sub_cancel_left, List.take_left]

theorem drop_of_cut : s.drop (pos + front.length) = x :: rest := by
  rw [← List.drop_drop, hcut, List.drop_left]

theorem drop_succ_of_cut : s.drop (pos + front.length + 1) = rest := by
  rw [← List.drop_drop, drop_of_cut hcut, List.drop_one, List.tail_cons]

end Cut

/-! ### Pieces -/

/-- The pieces of a string between the elements with `p`. `piece` is the piece so far, none where a
run of separators is to be skipped, which leaves no piece if the string ends with it. -/
def pieces (p : α → Bool) (skip : Bool) : Option (List α) → List α → List (List α)
  | none, [] => []
  | none, x :: s => if p x then pieces p skip none s else pieces p skip (some [x]) s
  | some piece, [] => [piece]
  | some piece, x :: s =>
    if p x then piece :: pieces p skip (if skip then none else some []) s
    else pieces p skip (some (piece ++ [x])) s

variable {skip : Bool} {piece : List α}

/-- What has no separator becomes part of the piece. -/
theorem pieces_append (hfront : ∀ y ∈ front, p y = false) :
    pieces p skip (some piece) (front ++ s) = pieces p skip (some (piece ++ front)) s := by
  induction front generalizing piece with
  | nil => rw [List.nil_append, List.append_nil]
  | cons y front ih =>
    obtain ⟨hy, hfront⟩ := List.forall_mem_cons.mp hfront
    rw [List.cons_append, pieces, hy, if_neg Bool.false_ne_true, ih hfront, List.append_assoc,
      List.singleton_append]

theorem pieces_of_forall (h : ∀ x ∈ s, p x = false) :
    pieces p skip (some piece) s = [piece ++ s] := by
  have happend : pieces p skip (some piece) (s ++ []) = pieces p skip (some (piece ++ s)) [] :=
    pieces_append h
  rwa [List.append_nil] at happend

/-- The first piece, and what comes after its separator. -/
theorem pieces_of_cut (hfront : ∀ y ∈ front, p y = false) (hx : p x = true) :
    pieces p skip (some piece) (front ++ x :: rest) =
      (piece ++ front) :: pieces p skip (if skip then none else some []) rest := by
  rw [pieces_append hfront, pieces, if_pos hx]

theorem pieces_ne_nil (s piece : List α) : pieces p false (some piece) s ≠ [] := by
  induction s generalizing piece with
  | nil => exact List.cons_ne_nil piece []
  | cons x s ih =>
    rw [pieces]
    split
    · exact List.cons_ne_nil piece _
    · exact ih (piece ++ [x])

/-- Behind a separator at the end there is one more piece, without anything in it. -/
theorem pieces_concat (hx : p x = true) (s piece : List α) :
    pieces p false (some piece) (s ++ [x]) = pieces p false (some piece) s ++ [[]] := by
  induction s generalizing piece with
  | nil => simp [pieces, hx]
  | cons y s ih =>
    rw [List.cons_append, pieces, pieces]
    split
    · rw [if_neg Bool.false_ne_true, ih, List.cons_append]
    · rw [ih]

/-- No piece has a separator in it. -/
theorem forall_mem_pieces (hpiece : ∀ y ∈ piece, p y = false) :
    ∀ q ∈ pieces p false (some piece) s, ∀ y ∈ q, p y = false := by
  induction s generalizing piece with
  | nil =>
    intro q hq
    rw [List.mem_singleton.mp hq]
    exact hpiece
  | cons x s ih =>
    intro q hq
    rw [pieces] at hq
    by_cases hx : p x = true
    · rw [if_pos hx] at hq
      rcases List.mem_cons.mp hq with rfl | hq
      · exact hpiece
      · exact ih (fun y hy => absurd hy List.not_mem_nil) q hq
    · rw [if_neg hx] at hq
      refine ih ?_ q hq
      intro y hy
      rcases List.mem_append.mp hy with hy | hy
      · exact hpiece y hy
      · rw [List.mem_singleton.mp hy]
        exact Bool.eq_false_iff.mpr hx

/-- A run of separators is skipped. -/
theorem pieces_skip (hfront : ∀ y ∈ front, p y = true) :
    pieces p skip none (front ++ s) = pieces p skip none s := by
  induction front with
  | nil => rfl
  | cons y front ih =>
    obtain ⟨hy, hfront⟩ := List.forall_mem_cons.mp hfront
    rw [List.cons_append, pieces, if_pos hy, ih hfront]

/-- After the run comes the next piece. -/
theorem pieces_none (hx : p x = false) :
    pieces p skip none (x :: s) = pieces p skip (some []) (x :: s) := by
  rw [pieces, pieces, hx]
  simp

/-- Where every separator counts, the pieces are those of the list function. -/
theorem pieces_eq_splitOnP (s piece : List α) :
    pieces p false (some piece) s = s.splitOnPPrepend p piece.reverse := by
  induction s generalizing piece with
  | nil => rw [pieces, List.splitOnPPrepend_nil, List.reverse_reverse]
  | cons x s ih =>
    rw [pieces, List.splitOnPPrepend_cons_eq_if, List.reverse_reverse]
    by_cases hx : p x = true
    · rw [if_pos hx, if_pos hx, if_neg Bool.false_ne_true, ih]
      rfl
    · rw [if_neg hx, if_neg hx, ih, List.reverse_append]
      rfl

end Lsf
