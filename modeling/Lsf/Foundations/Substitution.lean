import Lsf.Foundations.StringSearch
import Mathlib.Data.List.Infix

/-!
# Substituting a pattern

A pattern is looked for in a string from a position on, and the search gives the position where its
first occurrence begins. `substituted` is what substituting all of them should give: the string is
read once, an occurrence is replaced where it begins and reading goes on behind it.

## Main definitions

* `occurrence`, `findPattern` — the first occurrence, in the string and from a position on
* `substituted` — every occurrence is replaced

## Main results

* `substituted_of_none`, `substituted_of_some` — a search and what is left to substitute
-/

namespace Lsf

variable {α : Type} [DecidableEq α] {pattern new s : List α} {i : ℕ}

/-- Where the first occurrence of the pattern begins. -/
def occurrence (pattern : List α) : List α → Option ℕ
  | [] => if pattern = [] then some 0 else none
  | x :: s => if pattern <+: x :: s then some 0 else (occurrence pattern s).map (· + 1)

/-- The position of the first occurrence from a position on. -/
def findPattern (s pattern : List α) (pos : ℕ) : Option ℕ :=
  if s.length < pos then none else (occurrence pattern (s.drop pos)).map (pos + ·)

/-- The string with every occurrence replaced by `new`, from the left. `skip` elements belong to the
occurrence before. -/
def substituted (pattern new : List α) : ℕ → List α → List α
  | _, [] => []
  | skip + 1, _ :: s => substituted pattern new skip s
  | 0, x :: s =>
    if pattern <+: x :: s then new ++ substituted pattern new (pattern.length - 1) s
    else x :: substituted pattern new 0 s

/-- A search from the end of a part is a search in what follows it. -/
theorem findPattern_append (front : List α) :
    findPattern (front ++ s) pattern front.length =
      (occurrence pattern s).map (front.length + ·) := by
  rw [findPattern, if_neg (by rw [List.length_append]; omega), List.drop_left]

/-- An empty pattern occurs everywhere. -/
theorem findPattern_nil (h : i ≤ s.length) : findPattern s [] i = some i := by
  have hoccurrence : ∀ t : List α, occurrence [] t = some 0 := by
    intro t
    rcases t with _ | ⟨x, t⟩
    · rfl
    · exact if_pos List.nil_prefix
  rw [findPattern, if_neg (Nat.not_lt.mpr h), hoccurrence]
  rfl

/-! ### What is substituted -/

/-- The rest of an occurrence is skipped. -/
theorem substituted_skip (front : List α) :
    substituted pattern new front.length (front ++ s) = substituted pattern new 0 s := by
  induction front with
  | nil => rfl
  | cons x front ih => rw [List.cons_append, List.length_cons, substituted, ih]

/-- A string that begins with the pattern. -/
theorem substituted_pattern (hne : pattern ≠ []) :
    substituted pattern new 0 (pattern ++ s) = new ++ substituted pattern new 0 s := by
  obtain ⟨x, front, rfl⟩ := List.exists_cons_of_ne_nil hne
  have hpre : x :: front <+: x :: (front ++ s) := List.prefix_append (x :: front) s
  rw [List.cons_append, substituted, if_pos hpre, List.length_cons, Nat.add_sub_cancel,
    substituted_skip]

/-- Without an occurrence the string stays as it is. -/
theorem substituted_of_none (h : occurrence pattern s = none) :
    substituted pattern new 0 s = s := by
  induction s with
  | nil => rfl
  | cons x s ih =>
    rw [occurrence] at h
    by_cases hpre : pattern <+: x :: s
    · rw [if_pos hpre] at h
      cases h
    · rw [if_neg hpre, Option.map_eq_none_iff] at h
      rw [substituted, if_neg hpre, ih h]

/-- **The first occurrence is replaced**, what comes before it stays, and what follows is left. -/
theorem substituted_of_some (new : List α) (hne : pattern ≠ [])
    (h : occurrence pattern s = some i) :
    ∃ front rest, s = front ++ (pattern ++ rest) ∧ i = front.length ∧
      substituted pattern new 0 s = front ++ (new ++ substituted pattern new 0 rest) := by
  induction s generalizing i with
  | nil =>
    rw [occurrence, if_neg hne] at h
    cases h
  | cons x s ih =>
    rw [occurrence] at h
    by_cases hpre : pattern <+: x :: s
    · rw [if_pos hpre] at h
      cases h
      obtain ⟨rest, hrest⟩ := hpre
      refine ⟨[], rest, hrest.symm, rfl, ?_⟩
      rw [← hrest, substituted_pattern hne]
      rfl
    · rw [if_neg hpre, Option.map_eq_some_iff] at h
      obtain ⟨i, hi, rfl⟩ := h
      obtain ⟨front, rest, hs, rfl, hsub⟩ := ih hi
      refine ⟨x :: front, rest, by rw [hs]; rfl, rfl, ?_⟩
      rw [substituted, if_neg hpre, hsub]
      rfl

end Lsf
