import Mathlib.Data.Nat.Notation
import Mathlib.Logic.Basic

/-!
# Writing into a buffer

A buffer that is written from its beginning on: each write goes where the one before it ended. What
was in the buffer before stays behind the last write.

## Main definitions

* `putNext` — one write
* `Wrote`, `Touched` — what was written so far, and how much of the buffer that is

## Main results

* `Wrote.putNext`, `Wrote.foldl_putNext` — one more element, and several
* `forall_byte` — what holds of 256 numbers holds of every byte
-/

namespace Lsf

theorem forall_byte_lt {p : UInt8 → Prop} {size : ℕ} (h : ∀ n < size, p (UInt8.ofNat n)) (b : UInt8)
    (hb : b.toNat < size) : p b := by
  rw [← UInt8.ofNat_toNat (x := b)]
  exact h b.toNat hb

theorem forall_byte {p : UInt8 → Prop} (h : ∀ n < 256, p (UInt8.ofNat n)) (b : UInt8) : p b :=
  forall_byte_lt h b b.toNat_lt

/-- Two bytes that are not too large. -/
theorem forall_bytes_lt {p : UInt8 → UInt8 → Prop} {size size' : ℕ}
    (h : ∀ m < size, ∀ n < size', p (UInt8.ofNat m) (UInt8.ofNat n)) {b b' : UInt8}
    (hb : b.toNat < size) (hb' : b'.toNat < size') : p b b' :=
  forall_byte_lt (p := fun b => p b b')
    (fun m hm => forall_byte_lt (p := p (UInt8.ofNat m)) (h m hm) b' hb') b hb

section Buffer

variable {α : Type} {size : ℕ} {written : List α} {out : ℕ × List α}

/-- The next position and the buffer, after an element is written. -/
def putNext (out : ℕ × List α) (x : α) : ℕ × List α :=
  (out.1 + 1, out.2.set out.1 x)

/-- `written` is what the buffer begins with, and the next write goes behind it. -/
structure Wrote (size : ℕ) (written : List α) (out : ℕ × List α) : Prop where
  position : out.1 = written.length
  take_eq : out.2.take written.length = written
  length_eq : out.2.length = size

namespace Wrote

theorem start (buffer : List α) : Wrote buffer.length [] (0, buffer) :=
  ⟨rfl, rfl, rfl⟩

/-- **One more element is written**, if there is room for it. -/
theorem putNext (h : Wrote size written out) (x : α) (hroom : written.length < size) :
    Wrote size (written ++ [x]) (putNext out x) where
  position := by rw [Lsf.putNext, h.position, List.length_append, List.length_singleton]
  take_eq := by
    have hlt : written.length < out.2.length := h.length_eq ▸ hroom
    rw [Lsf.putNext, h.position, List.length_append, List.length_singleton, List.take_add_one,
      List.take_set_of_le (Nat.le_refl _), h.take_eq, List.getElem?_set_self hlt]
    rfl
  length_eq := by rw [Lsf.putNext, List.length_set, h.length_eq]

theorem foldl_putNext (h : Wrote size written out) (xs : List α)
    (hroom : written.length + xs.length ≤ size) :
    Wrote size (written ++ xs) (xs.foldl Lsf.putNext out) := by
  induction xs generalizing written out with
  | nil => rwa [List.append_nil]
  | cons x xs ih =>
    rw [List.length_cons] at hroom
    rw [List.append_cons, List.foldl_cons]
    exact ih (h.putNext x (by omega)) (by rw [List.length_append, List.length_singleton]; omega)

/-- A part of what was written. -/
theorem take (h : Wrote size written out) {n : ℕ} (hn : n ≤ written.length) :
    out.2.take n = written.take n := by
  rw [← h.take_eq, List.take_take, Nat.min_eq_left hn]

end Wrote

/-- So many elements may have been written, and the others are what they were. -/
structure Touched (count : ℕ) (out out' : ℕ × List α) : Prop where
  position_le : out'.1 ≤ out.1 + count
  getElem?_eq : ∀ i, out.1 + count ≤ i → out'.2[i]? = out.2[i]?
  length_eq : out'.2.length = out.2.length

namespace Touched

variable {count : ℕ} {out' out'' : ℕ × List α}

theorem refl (count : ℕ) (out : ℕ × List α) : Touched count out out :=
  ⟨Nat.le_add_right _ _, fun _ _ => rfl, rfl⟩

theorem putNext (h : Touched count out out') (x : α) :
    Touched (count + 1) out (putNext out' x) where
  position_le := Nat.succ_le_succ h.position_le
  getElem?_eq i hi := by
    have hle := h.position_le
    rw [Lsf.putNext, List.getElem?_set_ne (by omega)]
    exact h.getElem?_eq i (by omega)
  length_eq := by rw [Lsf.putNext, List.length_set, h.length_eq]

theorem trans {count' : ℕ} (h : Touched count out out') (h' : Touched count' out' out'') :
    Touched (count + count') out out'' where
  position_le := by
    have hle := h.position_le
    have hle' := h'.position_le
    omega
  getElem?_eq i hi := by
    have hle := h.position_le
    rw [h'.getElem?_eq i (by omega), h.getElem?_eq i (by omega)]
  length_eq := h'.length_eq.trans h.length_eq

theorem mono {count' : ℕ} (h : Touched count out out') (hle : count ≤ count') :
    Touched count' out out' where
  position_le := by
    have hpos := h.position_le
    omega
  getElem?_eq i hi := h.getElem?_eq i (by omega)
  length_eq := h.length_eq

end Touched

end Buffer

end Lsf
