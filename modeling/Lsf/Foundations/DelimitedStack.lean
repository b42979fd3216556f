import Lsf.Foundations.StringSearch

/-!
# A string as a stack

A stack of names can be kept in one string, with a delimiter between them. There is none in front of
the first name, so the names on an empty string are the string. The last name is taken off by a
search for the last delimiter, and where there is none it is all there is.

A name must not have the delimiter in it.

## Main definitions

* `pushName`, `popName`

## Main results

* `popName_pushName` — the name pushed last is taken off
* `foldl_pushName` — names pushed one after the other are joined
-/

namespace Lsf

variable {α : Type} (d : α)

/-- A name behind what the string has. -/
def pushName (s name : List α) : List α :=
  (if s = [] then s else s ++ [d]) ++ name

/-- The string up to the last delimiter. -/
def popName [DecidableEq α] (s : List α) : List α :=
  match findLast (· == d) s with
  | none => []
  | some pos => s.take pos

theorem pushName_nil (name : List α) : pushName d [] name = name := rfl

theorem pushName_of_ne_nil {s : List α} (hs : s ≠ []) (name : List α) :
    pushName d s name = s ++ d :: name := by
  rw [pushName, if_neg hs, List.append_assoc, List.singleton_append]

/-- **The name pushed last is taken off.** -/
theorem popName_pushName [DecidableEq α] (s : List α) {name : List α} (hname : d ∉ name) :
    popName d (pushName d s name) = s := by
  have hfree : ∀ x ∈ name, (x == d) = false := by
    intro x hx
    refine beq_false_of_ne ?_
    rintro rfl
    exact hname hx
  by_cases hs : s = []
  · rw [hs, pushName_nil, popName, findLast_of_forall hfree]
  · rw [pushName_of_ne_nil d hs, popName,
      findLast_of_cut (p := (· == d)) (beq_self_eq_true d) hfree]
    exact List.take_left

/-- **Names pushed one after the other** are joined by the delimiter. -/
theorem foldl_pushName (s : List α) {names : List (List α)} (hne : names ≠ [])
    (hnames : ∀ name ∈ names, name ≠ []) :
    names.foldl (pushName d) s =
      s ++ if s = [] then [d].intercalate names else d :: [d].intercalate names := by
  induction names generalizing s with
  | nil => exact absurd rfl hne
  | cons name names ih =>
    obtain ⟨hname, hnames⟩ := List.forall_mem_cons.mp hnames
    have hpush : pushName d s name = s ++ if s = [] then name else d :: name := by
      by_cases hs : s = []
      · rw [hs, pushName_nil, if_pos rfl, List.nil_append]
      · rw [pushName_of_ne_nil d hs, if_neg hs]
    by_cases hlast : names = []
    · rw [hlast, List.foldl_cons, List.foldl_nil, hpush, List.intercalate_singleton]
    · have hfull : pushName d s name ≠ [] := by
        rw [pushName]
        intro hnil
        exact hname (List.append_eq_nil_iff.mp hnil).2
      rw [List.foldl_cons, ih _ hlast hnames, if_neg hfull, hpush,
        List.intercalate_cons_of_ne_nil hlast]
      by_cases hs : s = []
      · rw [if_pos hs, if_pos hs]
        simp only [List.append_assoc, List.singleton_append]
      · rw [if_neg hs, if_neg hs]
        simp only [List.append_assoc, List.cons_append, List.nil_append]

end Lsf
