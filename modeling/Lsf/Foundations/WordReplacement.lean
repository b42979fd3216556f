import Mathlib.Data.List.Infix
import Mathlib.Data.Nat.Notation

/-!
# Replacing words

A text is read from its beginning. Where one of some words begins, it is replaced by a number of
marks that depends on the word, and reading goes on behind the word; other letters stay. `Cleans`
says what comes out, and whether anything was replaced.

No word has the mark in it. So a word in what comes out would lie between marks, in letters that
stayed, and would have been found when they were read.

## Main definitions

* `Cleans`

## Main results

* `Cleans.found_iff` — something is replaced if there is a word in the text
* `Cleans.eq_of_not_found` — otherwise the text is the same
* `Cleans.not_infix` — there is no word in what comes out
* `Cleans.countP_eq` — as many letters have a property as before, if words and marks fit it
-/

namespace Lsf

variable {α : Type}

/-- Reading `text` gives `result`, with or without a replacement. -/
inductive Cleans (words : List (List α)) (mark : α) (width : List α → ℕ) :
    List α → List α → Bool → Prop
  | nil : Cleans words mark width [] [] false
  | keep {x text result found} : (∀ w ∈ words, ¬ w <+: x :: text) →
      Cleans words mark width text result found →
      Cleans words mark width (x :: text) (x :: result) found
  | word {w text result found} : w ∈ words → Cleans words mark width text result found →
      Cleans words mark width (w ++ text) (List.replicate (width w) mark ++ result) true

/-- What is asked of a word: it is not empty, is replaced by something and has no mark in it. -/
structure Replaceable (mark : α) (width : List α → ℕ) (w : List α) : Prop where
  ne_nil : w ≠ []
  width_pos : 0 < width w
  mark_notMem : mark ∉ w

namespace Cleans

variable {words : List (List α)} {mark : α} {width : List α → ℕ} {text result w : List α}
  {found : Bool}

theorem found_iff (hwords : ∀ w ∈ words, Replaceable mark width w)
    (h : Cleans words mark width text result found) :
    found = true ↔ ∃ w ∈ words, w <:+: text := by
  induction h with
  | nil =>
    refine iff_of_false Bool.false_ne_true ?_
    rintro ⟨w, hw, hinfix⟩
    exact (hwords w hw).ne_nil (List.infix_nil.mp hinfix)
  | keep hno _ ih =>
    rw [ih]
    refine exists_congr fun w => and_congr_right fun hw => ?_
    rw [List.infix_cons_iff, or_iff_right (hno w hw)]
  | @word w text _ _ hw _ _ =>
    exact iff_of_true rfl ⟨w, hw, (List.prefix_append w text).isInfix⟩

theorem eq_of_not_found (h : Cleans words mark width text result found) (hfound : found = false) :
    result = text := by
  induction h with
  | nil => rfl
  | keep _ _ ih => rw [ih hfound]
  | word => cases hfound

/-- Where letters without marks come out, they were read. -/
theorem start_of_cleans (hwords : ∀ w ∈ words, Replaceable mark width w)
    (h : Cleans words mark width text result found) (hmark : mark ∉ w) (hpre : w <+: result) :
    w <+: text := by
  induction h generalizing w with
  | nil => exact hpre
  | keep _ _ ih =>
    obtain rfl | ⟨w', rfl, htail⟩ := List.prefix_cons_iff.mp hpre
    · exact List.nil_prefix
    · refine List.cons_prefix_cons.mpr ⟨rfl, ih (fun hmem => ?_) htail⟩
      exact hmark (List.mem_cons_of_mem _ hmem)
  | @word v _ _ _ hv _ _ =>
    obtain ⟨k, hk⟩ : ∃ k, width v = k + 1 := ⟨width v - 1, by
      have hpos := (hwords v hv).width_pos
      omega⟩
    rw [hk, List.replicate_succ, List.cons_append] at hpre
    obtain rfl | ⟨w', rfl, -⟩ := List.prefix_cons_iff.mp hpre
    · exact List.nil_prefix
    · exact absurd List.mem_cons_self hmark

theorem infix_of_infix_replicate {k : ℕ} (hne : w ≠ []) (hmark : mark ∉ w)
    (h : w <:+: List.replicate k mark ++ result) : w <:+: result := by
  induction k with
  | zero => exact h
  | succ k ih =>
    rw [List.replicate_succ, List.cons_append, List.infix_cons_iff] at h
    obtain hpre | hinfix := h
    · obtain rfl | ⟨w', rfl, -⟩ := List.prefix_cons_iff.mp hpre
      · exact absurd rfl hne
      · exact absurd List.mem_cons_self hmark
    · exact ih hinfix

/-- **No word is left**, and none comes about. -/
theorem not_infix (hwords : ∀ w ∈ words, Replaceable mark width w)
    (h : Cleans words mark width text result found) (hw : w ∈ words) : ¬ w <:+: result := by
  have hmark := (hwords w hw).mark_notMem
  have hne := (hwords w hw).ne_nil
  induction h with
  | nil => exact fun hinfix => hne (List.infix_nil.mp hinfix)
  | keep hno hrest ih =>
    intro hinfix
    obtain hpre | hinfix := List.infix_cons_iff.mp hinfix
    · exact hno w hw (start_of_cleans hwords (.keep hno hrest) hmark hpre)
    · exact ih hinfix
  | word _ _ ih => exact fun hinfix => ih (infix_of_infix_replicate hne hmark hinfix)

/-- A property of letters that the mark has: as many letters have it as before, if that is the width
of each word. -/
theorem countP_eq {p : α → Bool} (hmark : p mark = true)
    (hwidth : ∀ w ∈ words, width w = w.countP p)
    (h : Cleans words mark width text result found) : result.countP p = text.countP p := by
  induction h with
  | nil => rfl
  | keep _ _ ih => rw [List.countP_cons, List.countP_cons, ih]
  | word hw _ ih =>
    rw [List.countP_append, List.countP_append, ih, List.countP_replicate, if_pos hmark,
      hwidth _ hw]

theorem forall_mem {p : α → Prop} (hmark : p mark) (h : Cleans words mark width text result found)
    (htext : ∀ x ∈ text, p x) : ∀ x ∈ result, p x := by
  induction h with
  | nil => exact htext
  | keep _ _ ih =>
    obtain ⟨hx, htext⟩ := List.forall_mem_cons.mp htext
    exact List.forall_mem_cons.mpr ⟨hx, ih htext⟩
  | word _ _ ih =>
    refine List.forall_mem_append.mpr ⟨fun x hx => ?_, ih (List.forall_mem_append.mp htext).2⟩
    rw [List.eq_of_mem_replicate hx]
    exact hmark

end Cleans

end Lsf
