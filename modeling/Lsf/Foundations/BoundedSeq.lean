import Mathlib.Data.List.Basic

/-!
# Bounded sequences

A sequence of at most `n` elements. What would make it longer is refused when it is full; what
would make it shorter is refused when there is nothing to take.

## Main definitions

* `BoundedSeq` — the sequences, with operations at both ends and at an index
-/

namespace Lsf

variable {α : Type} {n : ℕ}

/-- A sequence of at most `n` elements. -/
structure BoundedSeq (α : Type) (n : ℕ) where
  items : List α
  bounded : items.length ≤ n

theorem insertIdx_length_append (l m : List α) (x : α) :
    (l ++ m).insertIdx l.length x = l ++ x :: m := by
  induction l with
  | nil => rfl
  | cons a l ih => simpa using ih

theorem eraseIdx_length_append (l m : List α) (x : α) :
    (l ++ x :: m).eraseIdx l.length = l ++ m := by
  rw [List.eraseIdx_append_of_length_le (Nat.le_refl _), Nat.sub_self]
  rfl

theorem exists_split_at {l : List α} {i : ℕ} (hi : i ≤ l.length) :
    ∃ pre post, l = pre ++ post ∧ pre.length = i :=
  ⟨l.take i, l.drop i, (List.take_append_drop i l).symm, List.length_take_of_le hi⟩

namespace BoundedSeq

@[ext] theorem ext {t u : BoundedSeq α n} (h : t.items = u.items) : t = u := by
  cases t
  cases u
  cases h
  rfl

/-- The sequence without elements. -/
def empty : BoundedSeq α n := ⟨[], Nat.zero_le n⟩

/-- An element is added at the end, if there is room. -/
def pushBack (t : BoundedSeq α n) (x : α) : Bool × BoundedSeq α n :=
  if h : t.items.length < n then
    (true, ⟨t.items ++ [x], by simpa [Nat.succ_le_iff] using h⟩)
  else (false, t)

/-- An element is added at the front, if there is room. -/
def pushFront (t : BoundedSeq α n) (x : α) : Bool × BoundedSeq α n :=
  if h : t.items.length < n then (true, ⟨x :: t.items, h⟩) else (false, t)

/-- Insertion before the element at an index. -/
def insertAt (t : BoundedSeq α n) (i : ℕ) (x : α) : Bool × BoundedSeq α n :=
  if h : t.items.length < n then
    (true, ⟨t.items.insertIdx i x, Nat.le_trans List.length_insertIdx_le_succ h⟩)
  else (false, t)

/-- The first element is taken away, if there is one. -/
def popFront (t : BoundedSeq α n) : Bool × BoundedSeq α n :=
  (!t.items.isEmpty, ⟨t.items.tail, by
    have := t.bounded
    rw [List.length_tail]
    omega⟩)

/-- The last element is taken away, if there is one. -/
def popBack (t : BoundedSeq α n) : Bool × BoundedSeq α n :=
  (!t.items.isEmpty, ⟨t.items.dropLast, by
    have := t.bounded
    rw [List.length_dropLast]
    omega⟩)

/-- Removal of the element at an index. -/
def eraseAt (t : BoundedSeq α n) (i : ℕ) : Bool × BoundedSeq α n :=
  (!t.items.isEmpty, ⟨t.items.eraseIdx i, Nat.le_trans (List.length_eraseIdx_le _ _) t.bounded⟩)

section Split

variable {t : BoundedSeq α n} {l m : List α} {x : α} {i : ℕ}

theorem insertAt_of_split (hn : t.items.length < n) (ht : t.items = l ++ m) (hl : l.length = i) :
    (t.insertAt i x).1 = true ∧ (t.insertAt i x).2.items = l ++ x :: m := by
  rw [insertAt, dif_pos hn]
  refine ⟨rfl, ?_⟩
  show t.items.insertIdx i x = l ++ x :: m
  rw [ht, ← hl, insertIdx_length_append]

theorem eraseAt_of_split (ht : t.items = l ++ x :: m) (hl : l.length = i) :
    (t.eraseAt i).1 = true ∧ (t.eraseAt i).2.items = l ++ m := by
  refine ⟨by simp [eraseAt, ht], ?_⟩
  show t.items.eraseIdx i = l ++ m
  rw [ht, ← hl, eraseIdx_length_append]

end Split

end BoundedSeq

end Lsf
