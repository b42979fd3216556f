import Mathlib.Logic.Function.Basic

/-!
# A copy that follows a source

A source sends notices through a first-in first-out channel to a copy, which applies them to what it
has in the order in which they arrive. `Follows` says that the notices on the way bring the copy to
where the source is. A step of the source keeps it when the notices that the step sends describe
what the step changes, and a delivery keeps it always.

## Main definitions

* `replay` — apply notices in order
* `Follows` — the copy reaches the source when the channel is empty

## Main results

* `Follows.send`, `Follows.quiet`, `Follows.deliver`
* `Follows.eq` — with an empty channel the two agree
-/

namespace Lsf

variable {μ τ : Type} {apply : μ → τ → τ} {m : μ} {ms : List μ} {t t' copy : τ}

/-- Apply the notices in the order of the list. -/
def replay (apply : μ → τ → τ) : List μ → τ → τ
  | [], t => t
  | m :: ms, t => replay apply ms (apply m t)

theorem replay_append (ms ms' : List μ) (t : τ) :
    replay apply (ms ++ ms') t = replay apply ms' (replay apply ms t) := by
  induction ms generalizing t with
  | nil => rfl
  | cons m ms ih => exact ih (apply m t)

/-- The notices `ms` bring `copy` to `source`. -/
def Follows (apply : μ → τ → τ) (source : τ) (ms : List μ) (copy : τ) : Prop :=
  replay apply ms copy = source

namespace Follows

theorem send (h : Follows apply t ms copy) (ht : apply m t = t') :
    Follows apply t' (ms ++ [m]) copy := by
  rw [Follows, replay_append, h]
  exact ht

theorem quiet (h : Follows apply t ms copy) (ht : t = t') : Follows apply t' ms copy := ht ▸ h

theorem deliver (h : Follows apply t (m :: ms) copy) (hm : apply m copy = t') :
    Follows apply t ms t' := hm ▸ h

theorem eq (h : Follows apply t [] copy) : copy = t := h

end Follows

end Lsf
