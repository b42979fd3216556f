import Lsf.Foundations.Substitution
import Mathlib.Data.Nat.Notation

/-!
# Replacing in a string

`ReplaceInplace` changes the string that it searches, and searches on behind what it has put in.
`Replace` searches the string as it was given, and copies the parts between the occurrences. Both
substitute every occurrence once.

The loops run on fuel, and give none when it is used up or when a position is behind the end of the
string.

## Main definitions

* `replaceInplace`, `replace` — the source's functions

## Main results

* `replaceInplaceLoop_eq`, `replaceLoop_eq` — what the loops do from a position on
* `replaced_eq_substituted`
* `replaced_ends_iff` — an empty pattern is found again and again
-/

namespace Lsf.StringExt

/-- `std::string::replace` of so many characters at a position. -/
def replaceAt (src : List UInt8) (pos count : ℕ) (new : List UInt8) : Option (List UInt8) :=
  if src.length < pos then none else some (src.take pos ++ (new ++ src.drop (pos + count)))

/-- The loop of `ReplaceInplace`, with `src` and `pos`. -/
def replaceInplaceLoop (toReplace replaceWith : List UInt8) :
    ℕ → List UInt8 → Option ℕ → Option (List UInt8)
  | 0, _, _ => none
  | _ + 1, src, none => some src
  | fuel + 1, src, some pos =>
    (replaceAt src pos toReplace.length replaceWith).bind fun src =>
      let pos := pos + replaceWith.length
      replaceInplaceLoop toReplace replaceWith fuel src (findPattern src toReplace pos)

/-- `ReplaceInplace`. -/
def replaceInplace (fuel : ℕ) (src toReplace replaceWith : List UInt8) : Option (List UInt8) :=
  replaceInplaceLoop toReplace replaceWith fuel src (findPattern src toReplace 0)

/-- The loop of `Replace`, with `tmp`, `last` and `pos`. -/
def replaceLoop (src toReplace replaceWith : List UInt8) :
    ℕ → List UInt8 → ℕ → Option ℕ → Option (List UInt8)
  | 0, _, _, _ => none
  | _ + 1, tmp, last, none => (substr src last none).map (tmp ++ ·)
  | fuel + 1, tmp, last, some pos =>
    (substr src last (some (pos - last))).bind fun piece =>
      let tmp := tmp ++ piece ++ replaceWith
      let last := pos + toReplace.length
      replaceLoop src toReplace replaceWith fuel tmp last (findPattern src toReplace last)

/-- `Replace`. -/
def replace (fuel : ℕ) (src toReplace replaceWith : List UInt8) : Option (List UInt8) :=
  replaceLoop src toReplace replaceWith fuel [] 0 (findPattern src toReplace 0)

theorem replaceAt_append (front old rest new : List UInt8) :
    replaceAt (front ++ (old ++ rest)) front.length old.length new =
      some (front ++ (new ++ rest)) := by
  rw [replaceAt, if_neg (by rw [List.length_append]; omega), List.take_left, ← List.drop_drop,
    List.drop_left, List.drop_left]

section Loops

variable {toReplace : List UInt8} (hne : toReplace ≠ []) (replaceWith : List UInt8)
include hne

/-- What is done stays, and what is left is substituted. The string that is left shrinks with each
occurrence. -/
theorem replaceInplaceLoop_eq (fuel : ℕ) (done rest : List UInt8) (hfuel : rest.length < fuel) :
    replaceInplaceLoop toReplace replaceWith fuel (done ++ rest)
        (findPattern (done ++ rest) toReplace done.length) =
      some (done ++ substituted toReplace replaceWith 0 rest) := by
  induction fuel generalizing done rest with
  | zero => exact absurd hfuel (Nat.not_lt_zero _)
  | succ fuel ih =>
    rw [findPattern_append]
    cases hfind : occurrence toReplace rest with
    | none => rw [Option.map_none, replaceInplaceLoop, substituted_of_none hfind]
    | some i =>
      obtain ⟨front, rest', rfl, rfl, hsub⟩ := substituted_of_some replaceWith hne hfind
      have hpos := List.length_pos_iff.mpr hne
      have hreplace : replaceAt (done ++ (front ++ (toReplace ++ rest')))
          (done.length + front.length) toReplace.length replaceWith =
          some (done ++ (front ++ replaceWith) ++ rest') := by
        rw [← List.append_assoc, ← List.length_append, replaceAt_append, List.append_assoc,
          List.append_assoc, List.append_assoc]
      have hlen : done.length + front.length + replaceWith.length =
          (done ++ (front ++ replaceWith)).length := by
        rw [List.length_append, List.length_append, Nat.add_assoc]
      rw [Option.map_some, replaceInplaceLoop, hreplace, Option.bind_some, hlen,
        ih (done ++ (front ++ replaceWith)) rest'
          (by simp only [List.length_append] at hfuel; omega),
        hsub, List.append_assoc, List.append_assoc]

/-- What is copied stays, and what comes from the last position on is substituted. -/
theorem replaceLoop_eq (src : List UInt8) (fuel : ℕ) (tmp done rest : List UInt8)
    (hsrc : src = done ++ rest) (hfuel : rest.length < fuel) :
    replaceLoop src toReplace replaceWith fuel tmp done.length
        (findPattern src toReplace done.length) =
      some (tmp ++ substituted toReplace replaceWith 0 rest) := by
  induction fuel generalizing tmp done rest with
  | zero => exact absurd hfuel (Nat.not_lt_zero _)
  | succ fuel ih =>
    have hle : done.length ≤ src.length := by rw [hsrc, List.length_append]; omega
    have hdrop : src.drop done.length = rest := by rw [hsrc, List.drop_left]
    rw [hsrc, findPattern_append, ← hsrc]
    cases hfind : occurrence toReplace rest with
    | none =>
      rw [Option.map_none, replaceLoop, substr_none hle, hdrop, substituted_of_none hfind,
        Option.map_some]
    | some i =>
      obtain ⟨front, rest', rfl, rfl, hsub⟩ := substituted_of_some replaceWith hne hfind
      have hpos := List.length_pos_iff.mpr hne
      have hpiece : substr src done.length (some (done.length + front.length - done.length)) =
          some front := by
        rw [substr_some hle, hdrop, Nat.add_sub_cancel_left, List.take_left]
      have hlen : done.length + front.length + toReplace.length =
          (done ++ (front ++ toReplace)).length := by
        rw [List.length_append, List.length_append, Nat.add_assoc]
      rw [Option.map_some, replaceLoop, hpiece, Option.bind_some, hlen,
        ih (tmp ++ front ++ replaceWith) (done ++ (front ++ toReplace)) rest'
          (by rw [hsrc, List.append_assoc, List.append_assoc])
          (by simp only [List.length_append] at hfuel; omega),
        hsub, List.append_assoc, List.append_assoc]

/-- **Both substitute every occurrence once.** -/
theorem replaced_eq_substituted (src : List UInt8) (fuel : ℕ) (hfuel : src.length < fuel) :
    replaceInplace fuel src toReplace replaceWith =
        some (substituted toReplace replaceWith 0 src) ∧
      replace fuel src toReplace replaceWith = some (substituted toReplace replaceWith 0 src) :=
  ⟨replaceInplaceLoop_eq hne replaceWith fuel [] src hfuel,
    replaceLoop_eq hne replaceWith src fuel [] [] src rfl hfuel⟩

end Loops

/-- `"aa"` in `"aaabaa"`, replaced by a string with `"aa"` in it. -/
theorem replaced_eq_substituted_overlapping :
    replaceInplace 7 [97, 97, 97, 98, 97, 97] [97, 97] [97, 97, 97] =
        some (substituted [97, 97] [97, 97, 97] 0 [97, 97, 97, 98, 97, 97]) ∧
      replace 7 [97, 97, 97, 98, 97, 97] [97, 97] [97, 97, 97] =
        some (substituted [97, 97] [97, 97, 97] 0 [97, 97, 97, 98, 97, 97]) :=
  replaced_eq_substituted (List.cons_ne_nil _ _) [97, 97, 97] [97, 97, 97, 98, 97, 97] 7
    (by decide)

/-! ### The empty pattern -/

section Ends

variable {toReplace : List UInt8} (replaceWith : List UInt8)

/-- An empty pattern is found where the search starts, so the loop of `ReplaceInplace` goes on. -/
theorem replaceInplaceLoop_nil (fuel : ℕ) {src : List UInt8} {pos : ℕ} (hpos : pos ≤ src.length) :
    replaceInplaceLoop [] replaceWith fuel src (findPattern src [] pos) = none := by
  induction fuel generalizing src pos with
  | zero => rfl
  | succ fuel ih =>
    have hreplace : replaceAt src pos 0 replaceWith =
        some (src.take pos ++ (replaceWith ++ src.drop pos)) := if_neg (Nat.not_lt.mpr hpos)
    rw [findPattern_nil hpos, replaceInplaceLoop, List.length_nil, hreplace, Option.bind_some]
    refine ih ?_
    rw [List.length_append, List.length_append, List.length_take_of_le hpos]
    omega

/-- The loop of `Replace` stays where it is. -/
theorem replaceLoop_nil (src : List UInt8) (fuel : ℕ) (tmp : List UInt8) {last : ℕ}
    (hlast : last ≤ src.length) :
    replaceLoop src [] replaceWith fuel tmp last (findPattern src [] last) = none := by
  induction fuel generalizing tmp with
  | zero => rfl
  | succ fuel ih =>
    rw [findPattern_nil hlast, replaceLoop, substr_some hlast, Option.bind_some]
    exact ih _

theorem replaceInplace_nil (src : List UInt8) (fuel : ℕ) :
    replaceInplace fuel src [] replaceWith = none :=
  replaceInplaceLoop_nil replaceWith fuel (Nat.zero_le _)

theorem replace_nil (src : List UInt8) (fuel : ℕ) : replace fuel src [] replaceWith = none :=
  replaceLoop_nil replaceWith src fuel [] (Nat.zero_le _)

/-- **Both come to an end** for the patterns that are not empty, and for no others. -/
theorem replaced_ends_iff (src toReplace replaceWith : List UInt8) :
    ((∃ fuel result, replaceInplace fuel src toReplace replaceWith = some result) ↔
      toReplace ≠ []) ∧
    ((∃ fuel result, replace fuel src toReplace replaceWith = some result) ↔ toReplace ≠ []) := by
  constructor
  · constructor
    · rintro ⟨fuel, result, hresult⟩ rfl
      rw [replaceInplace_nil] at hresult
      cases hresult
    · intro hne
      exact ⟨src.length + 1, _,
        replaceInplaceLoop_eq hne replaceWith (src.length + 1) [] src (Nat.lt_succ_self _)⟩
  · constructor
    · rintro ⟨fuel, result, hresult⟩ rfl
      rw [replace_nil] at hresult
      cases hresult
    · intro hne
      exact ⟨src.length + 1, _,
        replaceLoop_eq hne replaceWith src (src.length + 1) [] [] src rfl (Nat.lt_succ_self _)⟩

/-- Nothing is replaced by nothing in `"a"`, again and again. -/
theorem not_replaced_ends : ¬∀ src toReplace replaceWith : List UInt8,
    (∃ fuel result, replaceInplace fuel src toReplace replaceWith = some result) ∧
      ∃ fuel result, replace fuel src toReplace replaceWith = some result := by
  intro h
  obtain ⟨⟨fuel, result, hresult⟩, -⟩ := h [97] [] []
  rw [replaceInplace_nil] at hresult
  cases hresult

end Ends

end Lsf.StringExt
