import Mathlib.Order.Basic
import Mathlib.Data.Nat.Basic

/-!
# Values that are replaced if their version is still the same

A value is stored with a version, which goes up whenever the value changes. Whoever wants to replace
the value takes a snapshot of both first, and the replacement is refused if the version has changed
by then. No lock is needed for this, and a snapshot may be as old as it likes.

## Main definitions

* `Advances` — a step changes the value only if it raises the version
* `Snapshot.Of` — a snapshot was taken of a state or of one before it

## Main results

* `Snapshot.Of.step` — a snapshot stays one
* `Snapshot.Of.current` — with the version that the state has, it has its value
-/

namespace Lsf

/-- A value with the version that it was read with. -/
structure Snapshot (α : Type) where
  version : ℕ
  value : α

section Versions

variable {σ α : Type} (version : σ → ℕ) (value : σ → α)

/-- A step changes the value only if it raises the version. -/
def Advances (s s' : σ) : Prop :=
  version s' = version s ∧ value s' = value s ∨ version s < version s'

/-- The snapshot is of the state or of one before it. -/
structure Snapshot.Of (x : Snapshot α) (s : σ) : Prop where
  le : x.version ≤ version s
  eq : x.version = version s → x.value = value s

end Versions

namespace Snapshot.Of

variable {σ α : Type} {version : σ → ℕ} {value : σ → α} {s s' : σ} {x : Snapshot α}

/-- A snapshot is taken. Its version may be cut down to any smaller one. -/
theorem take {n : ℕ} (h : n ≤ version s) : Of version value ⟨n, value s⟩ s := ⟨h, fun _ => rfl⟩

/-- **A snapshot stays a snapshot.** -/
theorem step (h : x.Of version value s) (hstep : Advances version value s s') :
    x.Of version value s' := by
  obtain ⟨hversion, hvalue⟩ | hlt := hstep
  · refine ⟨hversion ▸ h.le, fun heq => ?_⟩
    rw [hvalue]
    exact h.eq (heq.trans hversion)
  · exact ⟨h.le.trans hlt.le, fun heq => absurd (heq ▸ h.le) (Nat.not_le.mpr hlt)⟩

/-- A snapshot with the version of the state has its value. -/
theorem current (h : x.Of version value s) (heq : x.version = version s) : x.value = value s :=
  h.eq heq

end Snapshot.Of

end Lsf
