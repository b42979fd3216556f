import Mathlib.Data.List.Sort

/-!
# Priority queues

A priority queue gives its elements back in order: `top` is a least one, and `pop` takes one such
away. Elements that are equal cannot be told apart, so the queue is the sorted list of what it has.

## Main definitions

* `PriorityQueue` — the queues of a total order `r`, with `push`, `top` and `pop`

## Main results

* `PriorityQueue.push_perm`, `PriorityQueue.pushAll_perm` — nothing else is in the queue
* `PriorityQueue.items_eq`, `PriorityQueue.top_rel` — the first element is taken, and is least
-/

namespace Lsf

variable {α : Type}

/-- A queue with the elements `items`, the least of them first. -/
structure PriorityQueue (r : α → α → Prop) where
  items : List α
  sorted : items.Pairwise r

namespace PriorityQueue

variable {r : α → α → Prop}

/-- A queue without elements. -/
def empty : PriorityQueue r := ⟨[], List.Pairwise.nil⟩

/-- The first element. -/
def top (q : PriorityQueue r) : Option α := q.items.head?

/-- The queue without its top. -/
def pop (q : PriorityQueue r) : PriorityQueue r := ⟨q.items.tail, q.sorted.tail⟩

@[simp] theorem items_empty : (empty : PriorityQueue r).items = [] := rfl

@[simp] theorem items_pop (q : PriorityQueue r) : q.pop.items = q.items.tail := rfl

variable {q : PriorityQueue r} {x y : α}

theorem items_eq (h : q.top = some x) : q.items = x :: q.pop.items := by
  rw [top, List.head?_eq_some_iff] at h
  obtain ⟨rest, hrest⟩ := h
  rw [items_pop, hrest, List.tail_cons]

/-- What stays after a `pop` is not less than what was taken. -/
theorem top_rel (h : q.top = some x) (hy : y ∈ q.pop.items) : r x y := by
  have hsorted := q.sorted
  rw [items_eq h] at hsorted
  exact List.rel_of_pairwise_cons hsorted hy

variable [DecidableRel r] [Std.Total r] [IsTrans α r]

/-- An element is added in its place. -/
def push (x : α) (q : PriorityQueue r) : PriorityQueue r :=
  ⟨q.items.orderedInsert r x, q.sorted.orderedInsert x _⟩

/-- The elements of a list are pushed in order. -/
def pushAll : List α → PriorityQueue r → PriorityQueue r
  | [], q => q
  | x :: xs, q => pushAll xs (q.push x)

theorem push_perm (x : α) (q : PriorityQueue r) : (q.push x).items.Perm (x :: q.items) :=
  List.perm_orderedInsert r x q.items

theorem pushAll_perm (xs : List α) (q : PriorityQueue r) :
    (pushAll xs q).items.Perm (xs ++ q.items) := by
  induction xs generalizing q with
  | nil => exact List.Perm.refl _
  | cons x xs ih =>
    calc (pushAll xs (q.push x)).items.Perm (xs ++ (q.push x).items) := ih (q.push x)
      _ |>.Perm (xs ++ x :: q.items) := (push_perm x q).append_left xs
      _ |>.Perm (x :: xs ++ q.items) := List.perm_middle

end PriorityQueue

end Lsf
