import Mathlib.Data.Nat.Notation
import Mathlib.Logic.Basic

/-!
# Walks along a successor function

`next` gives the element after another one, or none for the last. `Walk next a l b` says that `l` is
what is met on the way from `a` to `b`, both of them included. A list that is enumerated by a
successor function is a walk of it to an element without successor.

## Main definitions

* `Walk`

## Main results

* `Walk.append`, `Walk.map` — walks from other walks
-/

namespace Lsf

variable {α β : Type} {next : α → Option α} {next' : β → Option β} {a b c d : α} {l l' : List α}

/-- The elements on the way from one to another by the successor function. -/
inductive Walk (next : α → Option α) : α → List α → α → Prop
  | single (a : α) : Walk next a [a] a
  | cons {a b c : α} {l : List α} : next a = some b → Walk next b l c → Walk next a (a :: l) c

/-- One walk after the other. -/
theorem Walk.append (h : Walk next a l b) (hnext : next b = some c) (h' : Walk next c l' d) :
    Walk next a (l ++ l') d := by
  induction h with
  | single a => exact .cons hnext h'
  | cons hstep _ ih => exact .cons hstep (ih hnext)

/-- A function that takes successors to successors takes walks to walks. -/
theorem Walk.map {f : α → β} (hf : ∀ a b, next a = some b → next' (f a) = some (f b))
    (h : Walk next a l b) : Walk next' (f a) (l.map f) (f b) := by
  induction h with
  | single a => exact .single (f a)
  | cons hstep _ ih => exact .cons (hf _ _ hstep) ih

end Lsf
