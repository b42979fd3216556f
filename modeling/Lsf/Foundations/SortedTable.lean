import Mathlib.Order.Defs.LinearOrder
import Mathlib.Order.Basic
import Mathlib.Order.Lattice
import Mathlib.Data.List.Basic

/-!
# Bounded sorted tables

A finite ordered map of at most `n` elements, as the list of its elements in strictly increasing
order of their keys. An insertion is refused when the key is present or the table is full, and
leaves the table as it is.

The lemmas that end in `_split` evaluate the operations on a list that is cut at the place of a
key, which is what a search structure knows about its contents.

## Main definitions

* `SortedTable` — the tables, with `insert`, `erase`, `lookup` and `modify`
-/

namespace Lsf

variable {α κ : Type} [LinearOrder κ] (key : α → κ)

/-! ### Sorted lists -/

/-- The keys of the list increase strictly. -/
def SortedBy (l : List α) : Prop := l.Pairwise fun x y => key x < key y

/-- The element with a key. -/
def lookupBy (k : κ) (l : List α) : Option α := l.find? fun x => key x = k

/-- A new element at the place of its key. -/
def insertBy (x : α) (l : List α) : List α :=
  l.filter (fun y => key y < key x) ++ x :: l.filter fun y => key x < key y

/-- The list without a key. -/
def eraseBy (k : κ) (l : List α) : List α := l.filter fun x => key x ≠ k

/-- The list with another element in the place of a key. -/
def modifyBy (k : κ) (f : α → α) (l : List α) : List α :=
  l.map fun x => if key x = k then f x else x

section Split

variable {key} {k : κ} {pre post : List α} {x : α}

theorem lookupBy_eq_none {l : List α} : lookupBy key k l = none ↔ ∀ y ∈ l, key y ≠ k := by
  simp [lookupBy]

theorem lookupBy_split (hpre : ∀ y ∈ pre, key y < k) (hx : key x = k) :
    lookupBy key k (pre ++ x :: post) = some x := by
  have hnone : pre.find? (fun y => key y = k) = none := by
    simpa using fun y hy => (hpre y hy).ne
  rw [lookupBy, List.find?_append, hnone, Option.none_or, List.find?_cons, hx]
  simp

theorem insertBy_split (hpre : ∀ y ∈ pre, key y < key x) (hpost : ∀ y ∈ post, key x < key y) :
    insertBy key x (pre ++ post) = pre ++ x :: post := by
  have h₁ : pre.filter (fun y => key y < key x) = pre := by simpa using hpre
  have h₂ : post.filter (fun y => key y < key x) = [] := by
    simpa using fun y hy => (hpost y hy).le
  have h₃ : pre.filter (fun y => key x < key y) = [] := by
    simpa using fun y hy => (hpre y hy).le
  have h₄ : post.filter (fun y => key x < key y) = post := by simpa using hpost
  rw [insertBy, List.filter_append, List.filter_append, h₁, h₂, h₃, h₄, List.append_nil,
    List.nil_append]

theorem eraseBy_split (hpre : ∀ y ∈ pre, key y < k) (hx : key x = k)
    (hpost : ∀ y ∈ post, k < key y) : eraseBy key k (pre ++ x :: post) = pre ++ post := by
  have h₁ : pre.filter (fun y => key y ≠ k) = pre := by simpa using fun y hy => (hpre y hy).ne
  have h₂ : post.filter (fun y => key y ≠ k) = post := by
    simpa using fun y hy => (hpost y hy).ne'
  rw [eraseBy, List.filter_append, List.filter_cons_of_neg (by simpa using hx), h₁, h₂]

theorem modifyBy_split {f : α → α} (hpre : ∀ y ∈ pre, key y < k) (hx : key x = k)
    (hpost : ∀ y ∈ post, k < key y) :
    modifyBy key k f (pre ++ x :: post) = pre ++ f x :: post := by
  have h₁ : pre.map (fun y => if key y = k then f y else y) = pre := by
    rw [List.map_congr_left fun y hy => if_neg (hpre y hy).ne, List.map_id']
  have h₂ : post.map (fun y => if key y = k then f y else y) = post := by
    rw [List.map_congr_left fun y hy => if_neg (hpost y hy).ne', List.map_id']
  rw [modifyBy, List.map_append, List.map_cons, h₁, h₂, if_pos hx]

/-- A sorted list is cut by any key that it does not have. -/
theorem SortedBy.exists_split {l : List α} (hl : SortedBy key l) (hk : ∀ y ∈ l, key y ≠ k) :
    ∃ pre post, l = pre ++ post ∧ (∀ y ∈ pre, key y < k) ∧ ∀ y ∈ post, k < key y := by
  induction l with
  | nil => exact ⟨[], [], rfl, by simp, by simp⟩
  | cons a l ih =>
    rw [SortedBy, List.pairwise_cons] at hl
    by_cases ha : key a < k
    · obtain ⟨pre, post, rfl, hpre, hpost⟩ := ih hl.2 fun y hy => hk y (by simp [hy])
      exact ⟨a :: pre, post, rfl, by simpa using ⟨ha, hpre⟩, hpost⟩
    · have hka : k < key a := lt_of_le_of_ne (not_lt.mp ha) (hk a (by simp)).symm
      exact ⟨[], a :: l, rfl, by simp, by simpa using ⟨hka, fun y hy => hka.trans (hl.1 y hy)⟩⟩

/-- A key has one place in a sorted list. -/
theorem SortedBy.split_unique {pre' post' : List α} {x' : α} (hl : SortedBy key (pre ++ x :: post))
    (heq : pre ++ x :: post = pre' ++ x' :: post') (hx : key x = key x') :
    pre = pre' ∧ x = x' ∧ post = post' := by
  rw [SortedBy, List.pairwise_append, List.pairwise_cons] at hl
  have hpre : x' ∉ pre := fun hmem => (hl.2.2 x' hmem x List.mem_cons_self).ne hx.symm
  have hpost : x' ∉ post := fun hmem => (hl.2.1.1 x' hmem).ne hx
  exact (List.append_cons_inj_of_notMem hpre hpost).mp heq

theorem sortedBy_insert (hl : SortedBy key (pre ++ post)) (hpre : ∀ y ∈ pre, key y < key x)
    (hpost : ∀ y ∈ post, key x < key y) : SortedBy key (pre ++ x :: post) := by
  rw [SortedBy, List.pairwise_append] at hl ⊢
  refine ⟨hl.1, List.pairwise_cons.mpr ⟨hpost, hl.2.1⟩, fun y hy z hz => ?_⟩
  obtain rfl | hz := List.mem_cons.mp hz
  · exact hpre y hy
  · exact hl.2.2 y hy z hz

end Split

/-! ### Tables -/

/-- A sorted table of at most `n` elements. -/
structure SortedTable (n : ℕ) where
  items : List α
  sorted : SortedBy key items
  bounded : items.length ≤ n

namespace SortedTable

variable {key} {n : ℕ}

@[ext] theorem ext {t u : SortedTable key n} (h : t.items = u.items) : t = u := by
  cases t
  cases u
  cases h
  rfl

/-- The table without elements. -/
def empty : SortedTable key n := ⟨[], List.Pairwise.nil, Nat.zero_le n⟩

/-- The element with a key. -/
def lookup (t : SortedTable key n) (k : κ) : Option α := lookupBy key k t.items

/-- Insertion, refused for a key that is present and for a full table. -/
def insert (t : SortedTable key n) (x : α) : Bool × SortedTable key n :=
  if h : t.items.length < n ∧ t.lookup (key x) = none then
    (true, {
      items := insertBy key x t.items
      sorted := by
        obtain ⟨pre, post, he, hpre, hpost⟩ := t.sorted.exists_split (lookupBy_eq_none.mp h.2)
        rw [he, insertBy_split hpre hpost]
        exact sortedBy_insert (he ▸ t.sorted) hpre hpost
      bounded := by
        obtain ⟨pre, post, he, hpre, hpost⟩ := t.sorted.exists_split (lookupBy_eq_none.mp h.2)
        have hlen := h.1
        rw [he, insertBy_split hpre hpost]
        rw [he, List.length_append] at hlen
        rw [List.length_append, List.length_cons]
        omega })
  else (false, t)

theorem insert_fst {t : SortedTable key n} {x : α} :
    (t.insert x).1 = true ↔ t.items.length < n ∧ t.lookup (key x) = none := by
  rw [insert]
  split_ifs with h <;> simp [h]

theorem insert_snd_of_false {t : SortedTable key n} {x : α} (h : (t.insert x).1 = false) :
    (t.insert x).2 = t := by
  have hc : ¬ (t.items.length < n ∧ t.lookup (key x) = none) := by
    rw [← insert_fst, h]
    simp
  rw [insert, dif_neg hc]

/-- An element that was inserted is found. -/
theorem lookup_insert {t : SortedTable key n} {x : α} (h : (t.insert x).1 = true) :
    (t.insert x).2.lookup (key x) = some x := by
  have hc := insert_fst.mp h
  obtain ⟨pre, post, he, hpre, hpost⟩ := t.sorted.exists_split (lookupBy_eq_none.mp hc.2)
  rw [insert, dif_pos hc]
  show lookupBy key (key x) (insertBy key x t.items) = some x
  rw [he, insertBy_split hpre hpost, lookupBy_split hpre rfl]

/-- Removal, which says whether the key was present. -/
def erase (t : SortedTable key n) (k : κ) : Bool × SortedTable key n :=
  ((t.lookup k).isSome, {
    items := eraseBy key k t.items
    sorted := t.sorted.sublist List.filter_sublist
    bounded := Nat.le_trans (List.length_filter_le _ _) t.bounded })

/-- Another element with the same key in the place of a key. -/
def modify (t : SortedTable key n) (k : κ) (f : α → α) (hf : ∀ x, key (f x) = key x) :
    SortedTable key n where
  items := modifyBy key k f t.items
  sorted := by
    have hkey : ∀ x, key (if key x = k then f x else x) = key x := fun x => by
      split
      · exact hf x
      · rfl
    rw [SortedBy, modifyBy, List.pairwise_map]
    simp only [hkey]
    exact t.sorted
  bounded := by
    rw [modifyBy, List.length_map]
    exact t.bounded

end SortedTable

end Lsf
