import Mathlib.Algebra.Ring.Int.Defs
import Mathlib.Data.Nat.Notation
import Mathlib.Logic.Function.Basic
import Mathlib.Tactic.Ring

/-!
# Queues with narrow positions

A `Queue` may be given a `SizeType` that is narrower than `int`. Its positions are then computed as
an `int` and become a `SizeType` again where they are stored, returned or handed over as one.

`PushFront` writes the slot before the first, which it finds by `--begin()`, and then moves the head
with `HeadPosDec`. The one hands the position before the head to `CalcAbsolutePos` as a `SizeType`,
the other adds `_max_size` first.

## Main definitions

* `State` — a queue with positions of some bits, with the source's functions

## Main results

* `headPosDec_toNat`, `iterDec_toNat` — the two positions
* `int_in_range` — no sum is too big for an `int`
-/

namespace Lsf.NarrowQueue

/-- `QueueState` and the elements behind it. -/
structure State (w : ℕ) (α : Type) where
  maxSize : BitVec w
  headPos : BitVec w
  tailPos : BitVec w
  elem : ℕ → α

/-- A position as an `int`. -/
def promote {w : ℕ} (x : BitVec w) : ℤ := x.toNat

namespace State

variable {w : ℕ} {α : Type} (s : State w α)

/-- `full()`, where the operands are promoted to `int`. -/
def full : Bool := promote s.headPos = (promote s.tailPos + 1).tmod (promote s.maxSize)

/-- The slot behind `GetDataPtr(pos)`. -/
def getDataPtr (pos : BitVec w) : ℕ := ((promote pos).tmod (promote s.maxSize)).toNat

/-- `CalcAbsolutePos`. -/
def calcAbsolutePos (pos : BitVec w) : BitVec w :=
  .ofInt w ((promote pos + promote s.maxSize).tmod (promote s.maxSize))

/-- `HeadPosDec`. -/
def headPosDec : State w α :=
  { s with
    headPos := .ofInt w ((promote s.headPos - 1 + promote s.maxSize).tmod (promote s.maxSize)) }

/-- The position of `QueueIterator(state, idx)`. -/
def iterator (idx : BitVec w) : BitVec w :=
  s.calcAbsolutePos (.ofInt w (promote s.headPos + promote idx))

/-- `--iter`. -/
def iterDec (pos : BitVec w) : BitVec w := s.calcAbsolutePos (.ofInt w (promote pos - 1))

/-- The position of `begin()`. -/
def beginPos : BitVec w := s.iterator 0#w

/-- The slot that `PushFront` writes. -/
def frontSlot : ℕ := s.getDataPtr (s.iterDec s.beginPos)

/-- `PushFront`. -/
def pushFront (val : α) : Bool × State w α :=
  if s.full then (false, s)
  else (true, { s with elem := Function.update s.elem s.frontSlot val }.headPosDec)

/-- `*GetFront()`. -/
def getFront : α := s.elem (s.getDataPtr (s.iterator 0#w))

/-- A queue has slots, and its head is one of them. -/
structure Valid : Prop where
  head_lt : s.headPos < s.maxSize

/-! ### The positions -/

section Positions

variable {s} {pos : BitVec w}

theorem Valid.lt (h : s.Valid) : s.headPos.toNat < s.maxSize.toNat := BitVec.lt_def.mp h.head_lt

theorem Valid.maxSize_pos (h : s.Valid) : 0 < s.maxSize.toNat := Nat.zero_lt_of_lt h.lt

theorem toNat_ofInt_natCast {n : ℕ} (hn : n < 2 ^ w) : (BitVec.ofInt w n).toNat = n := by
  rw [BitVec.ofInt_natCast, BitVec.toNat_ofNat, Nat.mod_eq_of_lt hn]

theorem tmod_natCast (m n : ℕ) : (m : ℤ).tmod n = (m % n : ℕ) := (Int.ofNat_tmod m n).symm

theorem getDataPtr_eq : s.getDataPtr pos = pos.toNat % s.maxSize.toNat := by
  rw [getDataPtr, promote, promote, tmod_natCast, Int.toNat_natCast]

theorem calcAbsolutePos_toNat (hpos : 0 < s.maxSize.toNat) :
    (s.calcAbsolutePos pos).toNat = pos.toNat % s.maxSize.toNat := by
  have hlt := Nat.mod_lt pos.toNat hpos
  have hsize := s.maxSize.isLt
  rw [calcAbsolutePos, promote, promote, ← Nat.cast_add, tmod_natCast, Nat.add_mod_right,
    toNat_ofInt_natCast (by omega)]

/-- **The head** moves to the slot before it, or to the last. -/
theorem headPosDec_toNat (h : s.Valid) : s.headPosDec.headPos.toNat =
    if s.headPos.toNat = 0 then s.maxSize.toNat - 1 else s.headPos.toNat - 1 := by
  have hpos := h.maxSize_pos
  have hlt := h.lt
  have hsize := s.maxSize.isLt
  have hsum : promote s.headPos - 1 + promote s.maxSize =
      (s.headPos.toNat + s.maxSize.toNat - 1 : ℕ) := by
    rw [promote, promote]
    omega
  have hmod := Nat.mod_lt (s.headPos.toNat + s.maxSize.toNat - 1) hpos
  rw [headPosDec, hsum, promote, tmod_natCast, toNat_ofInt_natCast (by omega)]
  split
  · rename_i hzero
    rw [hzero, Nat.zero_add, Nat.mod_eq_of_lt (by omega)]
  · have hmove : s.headPos.toNat + s.maxSize.toNat - 1 =
        s.headPos.toNat - 1 + s.maxSize.toNat := by omega
    rw [hmove, Nat.add_mod_right, Nat.mod_eq_of_lt (by omega)]

theorem iterator_zero_toNat (h : s.Valid) : (s.iterator 0#w).toNat = s.headPos.toNat := by
  have hsum : promote s.headPos + promote 0#w = (s.headPos.toNat : ℕ) := by
    rw [promote, promote, BitVec.toNat_zero]
    omega
  rw [iterator, hsum, calcAbsolutePos_toNat h.maxSize_pos, toNat_ofInt_natCast s.headPos.isLt,
    Nat.mod_eq_of_lt h.lt]

/-- **The position before** another one. Before the first it is the last number of `SizeType`. -/
theorem iterDec_toNat (hpos : 0 < s.maxSize.toNat) : (s.iterDec pos).toNat =
    (if pos.toNat = 0 then 2 ^ w - 1 else pos.toNat - 1) % s.maxSize.toNat := by
  have hlt := pos.isLt
  have hfull := Nat.two_pow_pos w
  rw [iterDec, calcAbsolutePos_toNat hpos]
  congr 1
  split
  · rename_i hzero
    have hwrap : promote pos - 1 = (2 ^ w - 1 : ℕ) + (2 ^ w : ℕ) * (-1) := by
      rw [promote, hzero]
      omega
    rw [BitVec.toNat_ofInt, hwrap, Int.add_mul_emod_self_left,
      Int.emod_eq_of_lt (Int.natCast_nonneg _) (by omega), Int.toNat_natCast]
  · have hsub : promote pos - 1 = (pos.toNat - 1 : ℕ) := by
      rw [promote]
      omega
    rw [hsub, toNat_ofInt_natCast (by omega)]

/-- No sum or difference of positions leaves an `int` of 32 bits. -/
theorem int_in_range (hw : w ≤ 30) (x y : BitVec w) :
    promote x + promote y < 2 ^ 31 ∧ -1 ≤ promote x - 1 ∧ promote x - 1 + promote y < 2 ^ 31 := by
  have hpow : 2 ^ w ≤ 2 ^ 30 := Nat.pow_le_pow_right (by decide) hw
  have hx := x.isLt
  have hy := y.isLt
  rw [promote, promote]
  omega

end Positions

/-! ### The slot before the first -/

section Front

variable {s}

/-- One less than a power of two, or than any number, leaves the greatest remainder exactly for the
divisors of it. -/
theorem pred_mod_eq_iff {m k : ℕ} (hm : 0 < m) (hk : 0 < k) : (k - 1) % m = m - 1 ↔ m ∣ k := by
  constructor
  · intro h
    have hdiv := Nat.div_add_mod (k - 1) m
    refine ⟨(k - 1) / m + 1, ?_⟩
    rw [h] at hdiv
    rw [Nat.mul_add, Nat.mul_one]
    omega
  · rintro ⟨c, rfl⟩
    obtain ⟨c, rfl⟩ := Nat.exists_eq_succ_of_ne_zero (Nat.pos_iff_ne_zero.mp
      (Nat.pos_of_mul_pos_left hk))
    have hsub : m * (c + 1) - 1 = m - 1 + m * c := by
      rw [Nat.mul_succ]
      omega
    rw [hsub, Nat.add_mul_mod_self_left, Nat.mod_eq_of_lt (by omega)]

/-- The two ways to the slot before the first agree if the head is not the first slot, or the
number of slots divides that of the positions. -/
def Meets (s : State w α) : Prop := s.headPos.toNat ≠ 0 ∨ s.maxSize.toNat ∣ 2 ^ w

instance (s : State w α) : Decidable s.Meets := inferInstanceAs (Decidable (_ ∨ _))

theorem frontSlot_eq (h : s.Valid) : s.frontSlot =
    (if s.headPos.toNat = 0 then 2 ^ w - 1 else s.headPos.toNat - 1) % s.maxSize.toNat := by
  rw [frontSlot, getDataPtr_eq, iterDec_toNat h.maxSize_pos, beginPos, iterator_zero_toNat h,
    Nat.mod_mod]

theorem frontSlot_eq_iff (h : s.Valid) :
    s.frontSlot = s.headPosDec.headPos.toNat ↔ s.Meets := by
  have hlt := h.lt
  rw [frontSlot_eq h, headPosDec_toNat h, Meets]
  by_cases hzero : s.headPos.toNat = 0
  · rw [if_pos hzero, if_pos hzero, pred_mod_eq_iff h.maxSize_pos (Nat.two_pow_pos w),
      or_iff_right (not_not.mpr hzero)]
  · rw [if_neg hzero, if_neg hzero, Nat.mod_eq_of_lt (by omega)]
    exact iff_of_true rfl (.inl hzero)

theorem valid_headPosDec (h : s.Valid) : s.headPosDec.Valid := by
  have hlt := h.lt
  refine ⟨BitVec.lt_def.mpr ?_⟩
  rw [headPosDec_toNat h]
  show _ < s.maxSize.toNat
  split <;> omega

theorem getFront_eq (h : s.Valid) : s.getFront = s.elem s.headPos.toNat := by
  rw [getFront, getDataPtr_eq, iterator_zero_toNat h, Nat.mod_eq_of_lt h.lt]

/-- **Pushing at the front** writes the slot that becomes the head exactly if the two ways to it
agree. The value is then what `GetFront` returns, and otherwise it returns what was in the slot
before. -/
theorem pushFront_exact (h : s.Valid) :
    (s.frontSlot = s.headPosDec.headPos.toNat ↔ s.Meets) ∧ ∀ val, s.full = false →
      (s.pushFront val).1 = true ∧ (s.pushFront val).2.getFront =
        if s.Meets then val else s.elem s.headPosDec.headPos.toNat := by
  refine ⟨frontSlot_eq_iff h, fun val hfull => ?_⟩
  rw [pushFront, hfull, if_neg Bool.false_ne_true]
  refine ⟨rfl, ?_⟩
  have hvalid : ({ s with elem := Function.update s.elem s.frontSlot val } : State w α).Valid :=
    ⟨h.head_lt⟩
  rw [getFront_eq (valid_headPosDec hvalid)]
  show Function.update s.elem s.frontSlot val s.headPosDec.headPos.toNat = _
  by_cases hmeets : s.Meets
  · rw [if_pos hmeets, (frontSlot_eq_iff h).mpr hmeets, Function.update_self]
  · rw [if_neg hmeets, Function.update_of_ne (Ne.symm (mt (frontSlot_eq_iff h).mp hmeets))]

/-- A queue of five elements with positions of 16 bits, as `Init` leaves it. -/
def fiveElements : State 16 ℕ := ⟨6, 0, 0, fun _ => 0⟩

/-- The same queue with the head in its second slot. -/
def secondSlot : State 16 ℕ := { fiveElements with headPos := 1, tailPos := 1 }

theorem pushFront_secondSlot :
    secondSlot.frontSlot = secondSlot.headPosDec.headPos.toNat ∧
      (secondSlot.pushFront 7).1 = true ∧ (secondSlot.pushFront 7).2.getFront = 7 := by
  obtain ⟨hslot, hfront⟩ := pushFront_exact (s := secondSlot) ⟨by decide⟩
  obtain ⟨hok, hvalue⟩ := hfront 7 (by decide)
  exact ⟨hslot.mpr (by decide), hok, hvalue.trans (if_pos (by decide))⟩

/-- The value is written to slot 3, and slot 5 becomes the head. -/
theorem pushFront_misses_the_head :
    fiveElements.frontSlot = 3 ∧ fiveElements.headPosDec.headPos = 5 ∧
      (fiveElements.pushFront 7).1 = true ∧ (fiveElements.pushFront 7).2.getFront = 0 := by
  decide

end Front

end State

end Lsf.NarrowQueue
