import Mathlib.Data.List.Range
import Mathlib.Data.Nat.ModEq

/-!
# Windows of a circular array

The cells `head, head + 1, …` of an array of `m` cells, taken modulo `m`, form a window. A window
grows and shrinks at both ends by moving `head` and the length, and as long as it is shorter than
the array the cell after its end is none of its own.

## Main definitions

* `window` — the contents of the cells of a window

## Main results

* `window_succ`, `window_pred` — the two ends of a window
* `window_update_back`, `window_update_front` — the cell outside
-/

namespace Lsf

variable {α : Type} {f : ℕ → α} {m head len i j : ℕ} {x : α}

/-- The contents of `len` cells from `head` on. -/
def window (m : ℕ) (f : ℕ → α) (head len : ℕ) : List α :=
  (List.range len).map fun i => f ((head + i) % m)

@[simp] theorem window_zero : window m f head 0 = [] := rfl

@[simp] theorem length_window : (window m f head len).length = len := by
  rw [window, List.length_map, List.length_range]

/-- The last cell. -/
theorem window_succ :
    window m f head (len + 1) = window m f head len ++ [f ((head + len) % m)] := by
  rw [window, List.range_succ, List.map_append]
  rfl

/-- The first cell. -/
theorem window_pred :
    window m f head (len + 1) = f (head % m) :: window m f ((head + 1) % m) len := by
  rw [window, List.range_succ_eq_map, List.map_cons, List.map_map, window]
  refine congrArg₂ List.cons rfl (List.map_congr_left fun i _ => ?_)
  show f ((head + (i + 1)) % m) = _
  rw [Nat.mod_add_mod, Nat.add_right_comm, Nat.add_assoc]

/-- Offsets less than one round apart are different cells. -/
theorem offset_inj (hi : i < m) (hj : j < m) (h : (head + i) % m = (head + j) % m) : i = j :=
  (Nat.ModEq.add_left_cancel' head h).eq_of_lt_of_lt hi hj

theorem window_update (hi : i < m) (hlen : len ≤ i) :
    window m (Function.update f ((head + i) % m) x) head len = window m f head len := by
  refine List.map_congr_left fun j hj => Function.update_of_ne (fun h => ?_) x f
  have hj : j < len := List.mem_range.mp hj
  have hji := offset_inj (by omega) hi h
  omega

/-- Filling the cell after the last one. -/
theorem window_update_back (hlen : len < m) :
    window m (Function.update f ((head + len) % m) x) head (len + 1) =
      window m f head len ++ [x] := by
  rw [window_succ, window_update hlen (Nat.le_refl len), Function.update_self]

/-- Filling the cell before the first one. -/
theorem window_update_front (hlen : len < m) (hhead : head < m) :
    window m (Function.update f ((head + (m - 1)) % m) x) ((head + (m - 1)) % m) (len + 1) =
      x :: window m f head len := by
  have hnext : ((head + (m - 1)) % m + 1) % m = head := by
    rw [Nat.mod_add_mod, show head + (m - 1) + 1 = head + m by omega, Nat.add_mod_right,
      Nat.mod_eq_of_lt hhead]
  rw [window_pred, Nat.mod_mod, Function.update_self, hnext,
    window_update (Nat.sub_lt (by omega) Nat.one_pos) (by omega)]

end Lsf
