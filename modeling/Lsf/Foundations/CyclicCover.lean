import Mathlib.Data.Int.ModEq

/-!
# Windows on a circle

Numbers are taken modulo `n`, and from each of some numbers on a window of `w` numbers is covered.
All residues are covered exactly if the windows leave no gap: from each start there is another one,
or the same once around, not more than `w` further on.

## Main results

* `covers_iff_noGap`
-/

namespace Lsf

variable {n w : ℕ} {U : ℕ → Prop}

/-- Every residue is in a window. -/
def Covers (n w : ℕ) (U : ℕ → Prop) : Prop :=
  ∀ r < n, ∃ u x, U u ∧ x < w ∧ (u + x) % n = r

/-- After each start there is another within `w`. -/
def NoGap (n w : ℕ) (U : ℕ → Prop) : Prop :=
  ∀ u, U u → ∃ u' d, U u' ∧ 0 < d ∧ d ≤ w ∧ (u + d) % n = u' % n

theorem Covers.noGap (hn : 0 < n) (h : Covers n w U) : NoGap n w U := by
  intro u hu
  -- what comes behind the window is in another one
  obtain ⟨u', x, hu', hx, heq⟩ := h ((u + w) % n) (Nat.mod_lt _ hn)
  refine ⟨u', w - x, hu', by omega, by omega, ?_⟩
  have hmod : u' + x ≡ u + (w - x) + x [MOD n] := by
    rw [Nat.add_assoc, Nat.sub_add_cancel hx.le]
    exact heq
  exact (hmod.add_right_cancel' x).symm

/-- Without gaps everything from a start on is covered. -/
theorem NoGap.covered (h : NoGap n w U) (hw : 0 < w) {u₀ : ℕ} (hu₀ : U u₀) (k : ℕ) :
    ∃ u x, U u ∧ x < w ∧ u + x ≡ u₀ + k [MOD n] := by
  induction k with
  | zero => exact ⟨u₀, 0, hu₀, hw, Nat.ModEq.rfl⟩
  | succ k ih =>
    obtain ⟨u, x, hu, hx, hmod⟩ := ih
    by_cases hnext : x + 1 < w
    · exact ⟨u, x + 1, hu, hnext, hmod.add_right 1⟩
    · obtain ⟨u', d, hu', hpos, hle, hd⟩ := h u hu
      refine ⟨u', x + 1 - d, hu', by omega, ?_⟩
      have hstart : u' + (x + 1 - d) ≡ u + d + (x + 1 - d) [MOD n] :=
        Nat.ModEq.add_right _ (Nat.ModEq.symm hd)
      have hend : u + d + (x + 1 - d) = u + x + 1 := by omega
      rw [hend] at hstart
      exact hstart.trans (hmod.add_right 1)

theorem covers_iff_noGap (hn : 0 < n) (hw : 0 < w) {u₀ : ℕ} (hu₀ : U u₀) :
    Covers n w U ↔ NoGap n w U := by
  refine ⟨Covers.noGap hn, fun h r hr => ?_⟩
  obtain ⟨u, x, hu, hx, hmod⟩ := h.covered hw hu₀ (r + n - u₀ % n)
  refine ⟨u, x, hu, hx, ?_⟩
  have hlt := Nat.mod_lt u₀ hn
  have hround : u₀ + (r + n - u₀ % n) = r + n * (u₀ / n + 1) := by
    have hdiv := Nat.div_add_mod u₀ n
    rw [Nat.mul_add, Nat.mul_one]
    omega
  rw [hround] at hmod
  have hr' : (r + n * (u₀ / n + 1)) % n = r := by
    rw [Nat.add_mul_mod_self_left, Nat.mod_eq_of_lt hr]
  exact Eq.trans hmod hr'

/-- Starts that are multiples of a divisor of `n` greater than `w` leave a gap. -/
theorem not_noGap_of_dvd {m u₀ : ℕ} (hm : m ∣ n) (hlt : w < m) (hU : ∀ u, U u → m ∣ u)
    (hu₀ : U u₀) : ¬ NoGap n w U := by
  intro h
  obtain ⟨u', d, hu', hpos, hle, heq⟩ := h u₀ hu₀
  have hmod : u₀ + d ≡ u' [MOD m] := Nat.ModEq.of_dvd hm heq
  have hdvd : m ∣ d := by
    have hsum : m ∣ u₀ + d := (hmod.dvd_iff dvd_rfl).mpr (hU u' hu')
    exact (Nat.dvd_add_right (hU u₀ hu₀)).mp hsum
  exact absurd (Nat.le_of_dvd hpos hdvd) (Nat.not_le.mpr (hle.trans_lt hlt))

end Lsf
