import Mathlib.Data.Set.Insert
import Mathlib.Logic.Function.Basic

/-!
# Answers that come back under a handle

A question is asked under a handle, and its answer is given to whoever has the handle when it comes
back. Handles are taken again: `age k` counts how often the handle `k` has been taken, and a
question that is open is noted with its handle and the age that this handle had. Nothing goes wrong
as long as a handle is not taken again while a question is open under it.

## Main definitions

* `Current` — every open question was asked by the one who has its handle now
* `Spares` — no question is open under a handle

## Main results

* `Current.take_iff` — taking a handle keeps this exactly if the handle is spared
* `Current.holder` — an answer goes to the one who asked
-/

namespace Lsf

variable {κ : Type} {age : κ → ℕ} {pending pending' : Set (κ × ℕ)} {k : κ}

/-- Every open question was asked by the one who has its handle now. -/
def Current (age : κ → ℕ) (pending : Set (κ × ℕ)) : Prop := ∀ q ∈ pending, q.2 = age q.1

/-- No question is open under the handle. -/
def Spares (k : κ) (pending : Set (κ × ℕ)) : Prop := ∀ q ∈ pending, q.1 ≠ k

namespace Current

/-- The answer to an open question finds the one who asked it. -/
theorem holder (h : Current age pending) {n : ℕ} (hq : (k, n) ∈ pending) : n = age k := h _ hq

/-- Questions are answered, moved or lost. -/
theorem mono (h : Current age pending) (hsub : pending' ⊆ pending) : Current age pending' :=
  fun q hq => h q (hsub hq)

/-- A question is asked by the one who has the handle. -/
theorem ask (h : Current age pending) (k : κ) : Current age (insert (k, age k) pending) := by
  intro q hq
  obtain rfl | hq := hq
  · rfl
  · exact h q hq

/-- **A handle can be taken again exactly if no question is open under it.** -/
theorem take_iff [DecidableEq κ] (h : Current age pending) :
    Current (Function.update age k (age k + 1)) pending ↔ Spares k pending := by
  constructor
  · rintro hnew q hq rfl
    have hage := hnew q hq
    rw [Function.update_self, h q hq] at hage
    omega
  · intro hspares q hq
    rw [Function.update_of_ne (hspares q hq)]
    exact h q hq

end Current

end Lsf
