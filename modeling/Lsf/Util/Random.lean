import Lsf.Foundations.CyclicCover
import Lsf.Svr.ProxyTransfer

/-!
# Random numbers in a range

`GetRand` draws a number between two bounds: it takes what `rand()` gives modulo the width of the
range. For wide ranges it puts the number together from 12 bits of each of several calls, which it
shifts by 24 and by 48 bits. So behind 4096 consecutive numbers there is a gap up to the next
multiple of 2 ^ 24, and modulo the width the gaps may stay open.

The width of all of `uint32_t` does not fit in its type, and is 0.

## Main definitions

* `getRand`, `getRandIn` — the source's functions, none where they divide by zero
* `high`, `IsHigh` — what the higher pieces of a number can be

## Main results

* `run_getRand` — the proxy server draws these numbers
* `random_wide` — a number is its higher pieces and one of 4096 consecutive numbers
* `getRand_correct_iff`, `getRand_onto_iff`
-/

namespace Lsf.Random

open Proxy.Random (Calls low random)

/-- `GetRand(start, end)`. -/
def getRand (calls : Calls) (start last : UInt32) : Option UInt32 :=
  if last ≤ start then some start
  else
    let off := last - start + 1
    if off = 0 then none
    else some (UInt32.ofNat (start.toNat + (random calls off).toNat % off.toNat))

/-- `std::set<uint32_t>`, in the order of its elements. -/
abbrev SortedSet := { elems : List UInt32 // elems.Pairwise (· < ·) }

/-- `GetRand(container)`, none for an empty container. -/
def getRandIn (calls : Calls) (container : SortedSet) : Option UInt32 :=
  container.1.head?.bind fun first => container.1.getLast?.bind fun last =>
    (getRand calls first last).map fun rand =>
      if rand ∈ container.1 then rand
      else
        match container.1.find? (rand ≤ ·) with
        | some elem => elem
        | none =>
          match container.1.find? (rand < ·) with
          | some elem => elem
          | none => 0

/-- The bounds are those of `uint32_t`. -/
def FullRange (start last : UInt32) : Prop := start = 0 ∧ last = 0xffffffff

instance (start last : UInt32) : Decidable (FullRange start last) :=
  inferInstanceAs (Decidable (_ ∧ _))

/-- The number is the start where the end is not greater, and between them otherwise. -/
def InRange (start last : UInt32) (drawn : Option UInt32) : Prop :=
  ∃ v, drawn = some v ∧ (last ≤ start → v = start) ∧ (start < last → start ≤ v ∧ v ≤ last)

section Ranges

variable {calls : Calls} {start last : UInt32}

/-! ### Numbers in the range -/

/-- The proxy server's programs draw these numbers. -/
theorem run_getRand (calls : Calls) (start last : UInt32)
    (s : Proxy.AcceptServerMsgTransferService) :
    (Proxy.Random.getRand calls start last).run s = (getRand calls start last).map (·, s) := by
  rw [Proxy.Random.getRand, getRand]
  by_cases hle : last ≤ start
  · rw [if_pos hle, if_pos hle]
    rfl
  · rw [if_neg hle, if_neg hle]
    by_cases hoff : last - start + 1 = 0
    · rw [hoff, if_pos rfl]
      rfl
    · have hne : (last - start + 1).toNat ≠ 0 := fun h => hoff (UInt32.toNat.inj h)
      rw [if_neg hoff]
      show (Proxy.remainder _ _ s).bind _ = _
      rw [Proxy.remainder, if_neg hne]
      rfl

/-- The width of the full range is 0 in 32 bits. -/
theorem off_of_fullRange (h : FullRange start last) : last - start + 1 = 0 := by
  obtain ⟨rfl, rfl⟩ := h
  decide

theorem getRand_of_fullRange (h : FullRange start last) : getRand calls start last = none := by
  rw [getRand, off_of_fullRange h, if_neg]
  · exact if_pos rfl
  · obtain ⟨rfl, rfl⟩ := h
    decide

theorem toNat_off (hlt : start < last) (hrange : ¬ FullRange start last) :
    (last - start + 1).toNat = last.toNat - start.toNat + 1 := by
  have hlt' := UInt32.lt_iff_toNat_lt.mp hlt
  have hsub : (last - start).toNat = last.toNat - start.toNat :=
    UInt32.toNat_sub_of_le _ _ (UInt32.le_of_lt hlt)
  have hbound := last.toNat_lt
  have hfull : last.toNat - start.toNat ≠ 4294967295 := fun h => by
    refine hrange ⟨UInt32.toNat.inj ?_, UInt32.toNat.inj ?_⟩
    · show start.toNat = 0
      omega
    · show last.toNat = 4294967295
      omega
  rw [UInt32.toNat_add, hsub, UInt32.toNat_one, Nat.mod_eq_of_lt (by omega)]

/-- The number drawn from a proper range. -/
theorem getRand_of_lt (hlt : start < last) (hrange : ¬ FullRange start last) :
    getRand calls start last = some (UInt32.ofNat (start.toNat +
      (random calls (last - start + 1)).toNat % (last.toNat - start.toNat + 1))) := by
  have hoff := toNat_off hlt hrange
  have hne : last - start + 1 ≠ 0 := fun h => by
    rw [h] at hoff
    cases hoff
  rw [getRand, if_neg (UInt32.not_le.mpr hlt), ← hoff]
  exact if_neg hne

theorem toNat_ofNat_start {r : ℕ} (hlt : start < last) (hr : r < last.toNat - start.toNat + 1) :
    (UInt32.ofNat (start.toNat + r)).toNat = start.toNat + r := by
  have hlt' := UInt32.lt_iff_toNat_lt.mp hlt
  have hbound := last.toNat_lt
  refine UInt32.toNat_ofNat_of_lt' ?_
  show _ < 4294967296
  omega

theorem getRand_inRange_iff (calls : Calls) (start last : UInt32) :
    InRange start last (getRand calls start last) ↔ ¬ FullRange start last := by
  by_cases hle : last ≤ start
  · have hrange : ¬ FullRange start last := by
      rintro ⟨rfl, rfl⟩
      exact absurd hle (by decide)
    refine iff_of_true ⟨start, if_pos hle, fun _ => rfl, fun hlt => ?_⟩ hrange
    exact absurd hle (UInt32.not_le.mpr hlt)
  have hlt : start < last := UInt32.not_le.mp hle
  constructor
  · rintro ⟨v, hv, -⟩ hrange
    rw [getRand_of_fullRange hrange] at hv
    cases hv
  · intro hrange
    have hr := Nat.mod_lt (random calls (last - start + 1)).toNat
      (Nat.succ_pos (last.toNat - start.toNat))
    have hv := toNat_ofNat_start hlt hr
    refine ⟨_, getRand_of_lt hlt hrange, fun h => absurd h hle, fun _ => ?_⟩
    have hlt' := UInt32.lt_iff_toNat_lt.mp hlt
    rw [UInt32.le_iff_toNat_le, UInt32.le_iff_toNat_le, hv]
    omega

/-- From a non-empty set an element is drawn, unless the set has both bounds of `uint32_t`. -/
theorem getRandIn_mem_iff (calls : Calls) {container : SortedSet}
    (hfirst : container.1.head? = some start) (hlast : container.1.getLast? = some last) :
    (∃ elem ∈ container.1, getRandIn calls container = some elem) ↔ ¬ FullRange start last := by
  rw [getRandIn, hfirst, Option.bind_some, hlast, Option.bind_some]
  constructor
  · rintro ⟨elem, -, helem⟩ hrange
    rw [getRand_of_fullRange hrange] at helem
    cases helem
  · intro hrange
    obtain ⟨v, hv, hstart, hbounds⟩ := (getRand_inRange_iff calls start last).mpr hrange
    rw [hv, Option.map_some]
    refine ⟨_, ?_, rfl⟩
    split_ifs with hmem
    · exact hmem
    -- the last element is one that is not less
    have hle : v ≤ last := by
      obtain hle | hlt := UInt32.le_or_lt last start
      · exact absurd (hstart hle ▸ List.mem_of_mem_head? hfirst) hmem
      · exact (hbounds hlt).2
    cases hfind : container.1.find? (v ≤ ·) with
    | some elem => exact List.mem_of_find?_eq_some hfind
    | none =>
      have hnone := List.find?_eq_none.mp hfind last (List.mem_of_mem_getLast? hlast)
      exact absurd (decide_eq_true hle) hnone

/-- **`GetRand` stays in its range**, of numbers or of a set, unless the range is that of its type,
where it divides by zero. -/
theorem getRand_correct_iff (calls : Calls) :
    (∀ start last, InRange start last (getRand calls start last) ↔ ¬ FullRange start last) ∧
    ∀ (container : SortedSet) (first last : UInt32), container.1.head? = some first →
      container.1.getLast? = some last →
      ((∃ elem ∈ container.1, getRandIn calls container = some elem) ↔ ¬ FullRange first last) :=
  ⟨getRand_inRange_iff calls, fun _ _ _ => getRandIn_mem_iff calls⟩

/-- A set of three numbers. -/
theorem getRand_correct_three :
    (∃ elem ∈ [1, 5, 65536], getRandIn ⟨7, 0, 0⟩ ⟨[1, 5, 65536], by decide⟩ = some elem) ↔
      ¬ FullRange 1 65536 :=
  (getRand_correct_iff ⟨7, 0, 0⟩).2 ⟨[1, 5, 65536], by decide⟩ 1 65536 rfl rfl

/-- The full range is divided by zero. -/
theorem getRand_fullRange_divides_by_zero :
    ¬ InRange 0 0xffffffff (getRand ⟨0, 0, 0⟩ 0 0xffffffff) := by
  rintro ⟨v, hv, -⟩
  cases hv

end Ranges

/-! ### The pieces of a number -/

section Pieces

/-- The low 12 bits of a call, and of another one shifted by 24, in 32 bits. -/
theorem toNat_low_or (a b : BitVec 32) : ((a &&& 4095#32) ||| ((b &&& 4095#32) <<< 24)).toNat =
    b.toNat % 256 * 2 ^ 24 + a.toNat % 4096 := by
  have hlow : ∀ n : ℕ, n &&& 4095 = n % 4096 := fun n => Nat.and_two_pow_sub_one_eq_mod n 12
  have hshift : b.toNat % 4096 * 2 ^ 24 % 2 ^ 32 = 2 ^ 24 * (b.toNat % 256) := by omega
  have hlt : a.toNat % 4096 < 2 ^ 24 := by omega
  rw [BitVec.toNat_or, BitVec.toNat_shiftLeft, BitVec.toNat_and, BitVec.toNat_and,
    Nat.shiftLeft_eq]
  simp only [BitVec.toNat_ofNat, Nat.reducePow, Nat.reduceMod, hlow] at hshift hlt ⊢
  rw [hshift, Nat.or_comm, ← Nat.two_pow_add_eq_or_of_lt (i := 24) hlt]
  omega

/-- Widening keeps the sign. -/
theorem toNat_signExtend (x : BitVec 32) : (x.signExtend 64).toNat =
    x.toNat + if x.toNat < 2 ^ 31 then 0 else 2 ^ 64 - 2 ^ 32 := by
  have hlt := x.isLt
  rw [BitVec.toNat_signExtend, BitVec.toNat_setWidth, Nat.mod_eq_of_lt (by omega),
    BitVec.msb_eq_decide]
  by_cases hx : x.toNat < 2 ^ 31
  · rw [if_pos hx, if_neg]
    simpa using hx
  · rw [if_neg hx, if_pos]
    simpa using hx

theorem ones_or {t : ℕ} (ht : t < 2 ^ 32) : (2 ^ 32 - 1) ||| t = 2 ^ 32 - 1 := by
  refine Nat.eq_of_testBit_eq fun i => ?_
  rw [Nat.testBit_or, Nat.testBit_two_pow_sub_one]
  by_cases hi : i < 32
  · rw [decide_eq_true hi, Bool.true_or]
  · have hbound : t < 2 ^ i := ht.trans_le (Nat.pow_le_pow_right (by decide) (Nat.not_lt.mp hi))
    rw [Nat.testBit_lt_two_pow hbound, Bool.or_false]

/-- The third call is shifted behind the others, and lost behind a negative number. -/
theorem or_shifted {z c : ℕ} (hz : z < 2 ^ 32) (hc : c < 4096) :
    ((z + if z < 2 ^ 31 then 0 else 2 ^ 64 - 2 ^ 32) ||| c * 2 ^ 48) =
      z + if z < 2 ^ 31 then c * 2 ^ 48 else 2 ^ 64 - 2 ^ 32 := by
  by_cases hneg : z < 2 ^ 31
  · have hlt : z < 2 ^ 48 := by omega
    rw [if_pos hneg, if_pos hneg, Nat.add_zero, Nat.or_comm, Nat.mul_comm,
      ← Nat.two_pow_add_eq_or_of_lt hlt, Nat.add_comm]
  · have hsum : z + (2 ^ 64 - 2 ^ 32) = 2 ^ 32 * (2 ^ 32 - 1) + z := by omega
    have hshift : c * 2 ^ 48 = (c * 2 ^ 16) <<< 32 := by
      rw [Nat.shiftLeft_eq]
      omega
    have hones : 2 ^ 32 * (2 ^ 32 - 1) = (2 ^ 32 - 1) <<< 32 := by
      rw [Nat.shiftLeft_eq, Nat.mul_comm]
    rw [if_neg hneg, if_neg hneg, hsum, Nat.two_pow_add_eq_or_of_lt hz, Nat.or_assoc, Nat.or_comm z,
      ← Nat.or_assoc, hones, hshift, ← Nat.shiftLeft_or_distrib, ones_or (by omega)]

/-- What the higher pieces of a number add to it: those from the second call, which make it negative
or not, and those from the third, which a range below 0xfffff does without. -/
def high (off s t : ℕ) : ℕ :=
  s * 2 ^ 24 +
    if s < 128 then if off < 0xfffff then 0 else t * 2 ^ 48
    else 2 ^ 64 - 2 ^ 32

variable {calls : Calls} {off : UInt32}

/-- The 32 bits from the first two calls. -/
theorem toBitVec_low_or : (low calls.first ||| (low calls.second <<< 24)).toBitVec =
    (calls.first.toBitVec &&& 4095#32) ||| ((calls.second.toBitVec &&& 4095#32) <<< 24) := rfl

/-- The third call, shifted. -/
theorem toNat_low_shift (c : BitVec 32) : (((c &&& 4095#32).signExtend 64) <<< 48).toNat =
    c.toNat % 4096 * 2 ^ 48 := by
  have hlow : (c &&& 4095#32).toNat = c.toNat % 4096 := by
    rw [BitVec.toNat_and]
    exact Nat.and_two_pow_sub_one_eq_mod _ 12
  rw [BitVec.toNat_shiftLeft, toNat_signExtend, hlow, if_pos (by omega), Nat.shiftLeft_eq]
  omega

/-- **A number for a wide range** is its higher pieces and one of 4096 consecutive numbers. -/
theorem random_wide (hoff : ¬ off < 0xfff) : (random calls off).toNat =
    high off.toNat (calls.second.toBitVec.toNat % 256) (calls.third.toBitVec.toNat % 4096) +
      calls.first.toBitVec.toNat % 4096 := by
  have hsign := toNat_signExtend (low calls.first ||| (low calls.second <<< 24)).toBitVec
  have hword := toNat_low_or calls.first.toBitVec calls.second.toBitVec
  rw [← toBitVec_low_or] at hword
  rw [hword] at hsign
  have hneg : calls.second.toBitVec.toNat % 256 * 2 ^ 24 + calls.first.toBitVec.toNat % 4096 <
      2 ^ 31 ↔ calls.second.toBitVec.toNat % 256 < 128 := by omega
  have hbound : off.toNat < 0xfffff ↔ off < 0xfffff := by
    rw [UInt32.lt_iff_toNat_lt]
    rfl
  rw [random, if_neg hoff, high]
  by_cases hwide : off < 0xfffff
  · rw [if_pos hwide, if_pos (hbound.mpr hwide)]
    refine hsign.trans ?_
    simp only [hneg]
    omega
  · have hor := or_shifted
      (z := calls.second.toBitVec.toNat % 256 * 2 ^ 24 + calls.first.toBitVec.toNat % 4096)
      (c := calls.third.toBitVec.toNat % 4096) (by omega) (by omega)
    rw [if_neg hwide, if_neg fun h => hwide (hbound.mp h)]
    show (((low calls.first ||| (low calls.second <<< 24)).toBitVec.signExtend 64) |||
      (((calls.third.toBitVec &&& 4095#32).signExtend 64) <<< 48)).toNat = _
    rw [BitVec.toNat_or, hsign, toNat_low_shift, hor]
    simp only [hneg]
    omega

end Pieces

/-! ### Numbers that are drawn -/

/-- The calls give numbers from 0 to `RAND_MAX`. -/
def FromRand (calls : Calls) : Prop := 0 ≤ calls.first ∧ 0 ≤ calls.second ∧ 0 ≤ calls.third

/-- A number that the higher pieces alone can give. -/
def IsHigh (off u : ℕ) : Prop := ∃ s t, s < 256 ∧ t < 4096 ∧ u = high off s t

section Drawn

variable {start last off : UInt32} {n u x r : ℕ}

theorem nonneg_ofNat (hn : n < 2 ^ 31) : 0 ≤ Int32.ofNat n := by
  rw [Int32.le_iff_toInt_le, Int32.toInt_ofNat_of_lt hn]
  exact Int.natCast_nonneg n

theorem toNat_ofNat (hn : n < 2 ^ 31) : (Int32.ofNat n).toBitVec.toNat = n := by
  show n % 2 ^ 32 = n
  omega

/-- For a narrow range all that `rand()` gives. -/
theorem exists_random_narrow (hoff : off < 0xfff) (hr : r < 2 ^ 31) :
    ∃ calls, FromRand calls ∧ (random calls off).toNat = r := by
  have hzero : (0 : Int32) ≤ 0 := by decide
  refine ⟨⟨Int32.ofNat r, 0, 0⟩, ⟨nonneg_ofNat hr, hzero, hzero⟩, ?_⟩
  rw [random, if_pos hoff]
  show ((Int32.ofNat r).toBitVec.signExtend 64).toNat = r
  rw [toNat_signExtend, toNat_ofNat hr, if_pos hr, Nat.add_zero]

/-- For a wide range the sums of higher pieces and 12 bits. -/
theorem exists_random_wide (hoff : ¬ off < 0xfff) :
    (∃ calls, FromRand calls ∧ (random calls off).toNat % n = r) ↔
      ∃ u x, IsHigh off.toNat u ∧ x < 4096 ∧ (u + x) % n = r := by
  constructor
  · rintro ⟨calls, -, hr⟩
    rw [random_wide hoff] at hr
    exact ⟨_, _, ⟨_, _, Nat.mod_lt _ (by decide), Nat.mod_lt _ (by decide), rfl⟩,
      Nat.mod_lt _ (by decide), hr⟩
  · rintro ⟨_, x, ⟨s, t, hs, ht, rfl⟩, hx, hr⟩
    refine ⟨⟨Int32.ofNat x, Int32.ofNat s, Int32.ofNat t⟩,
      ⟨nonneg_ofNat (by omega), nonneg_ofNat (by omega), nonneg_ofNat (by omega)⟩, ?_⟩
    rw [random_wide hoff]
    simp only [toNat_ofNat (show x < 2 ^ 31 by omega), toNat_ofNat (show s < 2 ^ 31 by omega),
      toNat_ofNat (show t < 2 ^ 31 by omega), Nat.mod_eq_of_lt hs, Nat.mod_eq_of_lt ht,
      Nat.mod_eq_of_lt hx, hr]

/-- The residues that are drawn. -/
theorem forall_random_iff (hn : 0 < n) (hoff : off.toNat = n) :
    (∀ r < n, ∃ calls, FromRand calls ∧ (random calls off).toNat % n = r) ↔
      n < 0xfff ∨ NoGap n 4096 (IsHigh n) := by
  have hbound : off < 0xfff ↔ n < 0xfff := by
    rw [← hoff]
    exact UInt32.lt_iff_toNat_lt
  by_cases hnarrow : n < 0xfff
  · refine iff_of_true (fun r hr => ?_) (.inl hnarrow)
    obtain ⟨calls, hcalls, hrandom⟩ := exists_random_narrow (hbound.mpr hnarrow) (r := r) (by omega)
    exact ⟨calls, hcalls, by rw [hrandom, Nat.mod_eq_of_lt hr]⟩
  · rw [or_iff_right hnarrow, ← covers_iff_noGap hn (by decide)
      ⟨0, 0, by decide, by decide, rfl⟩]
    refine forall₂_congr fun r hr => ?_
    rw [exists_random_wide (mt hbound.mp hnarrow), hoff]

/-- **Every number of the range can be drawn** exactly if the width is small or the higher pieces
leave no gap modulo the width. -/
theorem getRand_onto_iff (hlt : start < last) (hrange : ¬ FullRange start last) :
    (∀ v, start ≤ v → v ≤ last → ∃ calls, FromRand calls ∧ getRand calls start last = some v) ↔
      last.toNat - start.toNat + 1 < 0xfff ∨
        NoGap (last.toNat - start.toNat + 1) 4096 (IsHigh (last.toNat - start.toNat + 1)) := by
  rw [← forall_random_iff (Nat.succ_pos _) (toNat_off hlt hrange)]
  have hlt' := UInt32.lt_iff_toNat_lt.mp hlt
  constructor
  · intro h r hr
    have hv := toNat_ofNat_start hlt hr
    obtain ⟨calls, hcalls, hdrawn⟩ := h (UInt32.ofNat (start.toNat + r))
      (UInt32.le_iff_toNat_le.mpr (by omega)) (UInt32.le_iff_toNat_le.mpr (by omega))
    refine ⟨calls, hcalls, ?_⟩
    have hmod := Nat.mod_lt (random calls (last - start + 1)).toNat
      (Nat.succ_pos (last.toNat - start.toNat))
    rw [getRand_of_lt hlt hrange] at hdrawn
    have heq := congrArg UInt32.toNat (Option.some.inj hdrawn)
    rw [hv, toNat_ofNat_start hlt hmod] at heq
    omega
  · intro h v hstart hlast
    have hstart' := UInt32.le_iff_toNat_le.mp hstart
    have hlast' := UInt32.le_iff_toNat_le.mp hlast
    obtain ⟨calls, hcalls, hrandom⟩ := h (v.toNat - start.toNat) (by omega)
    refine ⟨calls, hcalls, ?_⟩
    rw [getRand_of_lt hlt hrange, hrandom, Nat.add_sub_cancel' hstart', UInt32.ofNat_toNat]

/-- All numbers of a range that a wide generator is taken for. The remainders 0 and 2216 of the
higher pieces are enough. -/
theorem getRand_onto_five_thousand :
    ¬ (5000 - 1 + 1 : UInt32) < 0xfff ∧
    ∀ v : UInt32, 1 ≤ v → v ≤ 5000 → ∃ calls, FromRand calls ∧ getRand calls 1 5000 = some v := by
  refine ⟨by decide, (getRand_onto_iff (by decide) (by decide)).mpr (.inr fun u _ => ?_)⟩
  have hwidth : (5000 : UInt32).toNat - (1 : UInt32).toNat + 1 = 5000 := rfl
  rw [hwidth]
  by_cases hu : u % 5000 < 904
  · refine ⟨2 ^ 24, 2216 - u % 5000, ⟨1, 0, by decide, by decide, rfl⟩, ?_⟩
    omega
  · refine ⟨0, 5000 - u % 5000, ⟨0, 0, by decide, by decide, rfl⟩, ?_⟩
    omega

/-- The higher pieces are multiples of 2 ^ 24. -/
theorem IsHigh.dvd (h : IsHigh n u) : 2 ^ 24 ∣ u := by
  obtain ⟨s, t, -, -, rfl⟩ := h
  rw [high]
  split_ifs <;> omega

/-- A width that 2 ^ 13 divides leaves gaps. -/
theorem gap_of_dvd (hdvd : 2 ^ 13 ∣ n) : ¬ NoGap n 4096 (IsHigh n) :=
  not_noGap_of_dvd hdvd (by decide) (fun _ hu => (by decide : 2 ^ 13 ∣ 2 ^ 24).trans hu.dvd)
    ⟨0, 0, by decide, by decide, rfl⟩

/-- The lock ids from 4097 on are not drawn. -/
theorem lock_id_unreachable : ¬ ∃ calls, FromRand calls ∧ getRand calls 1 65536 = some 4097 := by
  rintro ⟨calls, -, hdrawn⟩
  have hwide : ¬ (65536 - 1 + 1 : UInt32) < 0xfff := by decide
  rw [getRand_of_lt (by decide) (by decide), random_wide hwide] at hdrawn
  have hdvd : 2 ^ 24 ∣ high (65536 - 1 + 1 : UInt32).toNat (calls.second.toBitVec.toNat % 256)
      (calls.third.toBitVec.toNat % 4096) :=
    IsHigh.dvd ⟨_, _, Nat.mod_lt _ (by decide), Nat.mod_lt _ (by decide), rfl⟩
  have hfirst : calls.first.toBitVec.toNat % 4096 < 4096 := Nat.mod_lt _ (by decide)
  have heq := congrArg UInt32.toNat (Option.some.inj hdrawn)
  rw [toNat_ofNat_start (by decide) (Nat.mod_lt _ (by decide))] at heq
  simp only [show (1 : UInt32).toNat = 1 from rfl, show (65536 : UInt32).toNat = 65536 from rfl,
    show (4097 : UInt32).toNat = 4097 from rfl] at heq
  omega

end Drawn

end Lsf.Random
