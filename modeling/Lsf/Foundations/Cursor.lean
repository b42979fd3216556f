import Mathlib.Algebra.Group.Nat.Defs
import Mathlib.Data.List.Basic
import Mathlib.Data.Nat.Notation
import Mathlib.Tactic.SplitIfs

/-!
# A cursor in a buffer

A buffer of a fixed length is written, and read again, from its start on. What does not fit before
its end is refused.

## Main definitions

* `Cursor` — a buffer with a position, and `Cursor.put`, `Cursor.get`
* `Cursor.Wrote` — what the buffer has before the position
* `littleEndian`, `ofLittleEndian` — numbers of a fixed width in bytes

## Main results

* `Cursor.Wrote.put`, `Cursor.get_of_split` — what is written, and that it is read again
* `ofLittleEndian_littleEndian`
-/

namespace Lsf

variable {α : Type}

/-- A buffer, and how much of it is used. -/
structure Cursor (α : Type) where
  items : List α
  pos : ℕ

namespace Cursor

/-- Write `xs` at the position and use `n` of the buffer. -/
def put (n : ℕ) (xs : List α) (c : Cursor α) : Option (Cursor α) :=
  if c.items.length < c.pos + n then none
  else some ⟨c.items.take c.pos ++ xs ++ c.items.drop (c.pos + xs.length), c.pos + n⟩

/-- Read `n` elements at the position. -/
def get (n : ℕ) (c : Cursor α) : Option (List α × Cursor α) :=
  if c.items.length < c.pos + n then none
  else some ((c.items.drop c.pos).take n, ⟨c.items, c.pos + n⟩)

/-- The buffer of length `len` has `xs` before the position. -/
structure Wrote (len : ℕ) (xs : List α) (c : Cursor α) : Prop where
  length : c.items.length = len
  pos : c.pos = xs.length
  take : c.items.take c.pos = xs

variable {len : ℕ} {xs : List α} {c : Cursor α}

theorem wrote_start (items : List α) : Wrote items.length [] ⟨items, 0⟩ := ⟨rfl, rfl, rfl⟩

theorem Wrote.put (h : Wrote len xs c) (ys : List α) (hfit : xs.length + ys.length ≤ len) :
    ∃ c', c.put ys.length ys = some c' ∧ Wrote len (xs ++ ys) c' := by
  have hpos := h.pos
  have hlen := h.length
  refine ⟨_, if_neg (by omega), ?_, ?_, ?_⟩
  · simp only [h.take, List.length_append, List.length_drop]
    omega
  · simp only [List.length_append]
    omega
  · show (c.items.take c.pos ++ ys ++ c.items.drop (c.pos + ys.length)).take (c.pos + ys.length) =
      xs ++ ys
    rw [h.take, hpos, ← List.length_append]
    exact List.take_left

/-- When the whole buffer is used it is what was written. -/
theorem Wrote.items_eq (h : Wrote len xs c) (hfull : xs.length = len) : c.items = xs := by
  rw [← h.take, h.pos, hfull, ← h.length, List.take_length]

theorem get_of_split (xs ys zs : List α) : (Cursor.mk (xs ++ ys ++ zs) xs.length).get ys.length =
    some (ys, ⟨xs ++ ys ++ zs, (xs ++ ys).length⟩) := by
  rw [get, if_neg (by simp only [List.length_append]; omega), List.append_assoc, List.drop_left,
    List.take_left, List.length_append]

end Cursor

/-! ### Numbers -/

/-- The `k` lowest bytes of a number, the lowest first. -/
def littleEndian : ℕ → ℕ → List UInt8
  | 0, _ => []
  | k + 1, n => UInt8.ofNat n :: littleEndian k (n / 256)

/-- The number that bytes stand for, the lowest first. -/
def ofLittleEndian : List UInt8 → ℕ
  | [] => 0
  | b :: bs => b.toNat + 256 * ofLittleEndian bs

@[simp] theorem length_littleEndian (k n : ℕ) : (littleEndian k n).length = k := by
  induction k generalizing n with
  | zero => rfl
  | succ k ih => rw [littleEndian, List.length_cons, ih]

theorem ofLittleEndian_lt (bs : List UInt8) : ofLittleEndian bs < 256 ^ bs.length := by
  induction bs with
  | nil => exact Nat.one_pos
  | cons b bs ih =>
    have hb : b.toNat < 256 := b.toNat_lt
    rw [ofLittleEndian, List.length_cons, Nat.pow_succ']
    omega

theorem ofLittleEndian_littleEndian {k n : ℕ} (h : n < 256 ^ k) :
    ofLittleEndian (littleEndian k n) = n := by
  induction k generalizing n with
  | zero => rw [littleEndian, ofLittleEndian, Nat.lt_one_iff.mp h]
  | succ k ih =>
    have hdiv : n / 256 < 256 ^ k := Nat.div_lt_of_lt_mul (by rwa [Nat.pow_succ'] at h)
    have hlow : (UInt8.ofNat n).toNat = n % 256 := UInt8.toNat_ofNat'
    rw [littleEndian, ofLittleEndian, ih hdiv, hlow]
    omega

end Lsf
