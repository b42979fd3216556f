import Mathlib.Data.Nat.Digits.Lemmas

/-!
# Numerals

A number written in a base: its digits with the highest first and without leading zeros, or one
zero. Reading them back is a fold over the digits.

## Main definitions

* `numeral`, `numeralValue`

## Main results

* `numeralValue_numeral` — reading gives back what was written
* `head?_numeral` — only zero begins with zero
-/

namespace Lsf

variable {b n : ℕ}

/-- The digits of a number, the highest first. -/
def numeral (b n : ℕ) : List ℕ := if n = 0 then [0] else (b.digits n).reverse

/-- What digits are worth, the highest first. -/
def numeralValue (b : ℕ) (ds : List ℕ) : ℕ := ds.foldl (fun v d => b * v + d) 0

@[simp] theorem numeral_zero (b : ℕ) : numeral b 0 = [0] := if_pos rfl

theorem numeral_of_ne_zero (hn : n ≠ 0) : numeral b n = (b.digits n).reverse := if_neg hn

theorem numeral_ne_nil (b n : ℕ) : numeral b n ≠ [] := by
  by_cases hn : n = 0
  · rw [hn, numeral_zero]
    exact List.cons_ne_nil 0 []
  · rw [numeral_of_ne_zero hn, ne_eq, List.reverse_eq_nil_iff]
    exact Nat.digits_ne_nil_iff_ne_zero.mpr hn

/-- **Reading gives back what was written.** -/
theorem numeralValue_numeral (b n : ℕ) : numeralValue b (numeral b n) = n := by
  by_cases hn : n = 0
  · rw [hn, numeral_zero]
    rfl
  · have hfold := Nat.ofDigits_eq_foldr b (b.digits n)
    rw [Nat.ofDigits_digits] at hfold
    rw [numeralValue, numeral_of_ne_zero hn, List.foldl_reverse]
    simp only [Nat.add_comm (b * _)]
    exact hfold.symm

theorem lt_of_mem_numeral (hb : 1 < b) {d : ℕ} (hd : d ∈ numeral b n) : d < b := by
  by_cases hn : n = 0
  · rw [hn, numeral_zero, List.mem_singleton] at hd
    omega
  · rw [numeral_of_ne_zero hn, List.mem_reverse] at hd
    exact Nat.digits_lt_base hb hd

/-- A number that is not zero does not begin with a zero. -/
theorem head?_numeral (hn : n ≠ 0) : (numeral b n).head? ≠ some 0 := by
  have hne : b.digits n ≠ [] := Nat.digits_ne_nil_iff_ne_zero.mpr hn
  rw [numeral_of_ne_zero hn, List.head?_reverse, List.getLast?_eq_some_getLast hne]
  intro h
  exact Nat.getLast_digit_ne_zero b hn (Option.some.inj h)

end Lsf
