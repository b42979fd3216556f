import Lsf.Foundations.ColorTree

/-!
# The colour laws, node by node and path by path

`RedLaw` and `BlackHeight` are recursions over the tree. Here they are read as what a reader of a
linked structure can see: the red law speaks about each node and its two children, and a black
height exists exactly when no two paths to a leaf meet different numbers of black nodes.

## Main definitions

* `PathWeight` — the number of black nodes on some path to a leaf

## Main results

* `redLaw_iff_nodes`, `blackHeight_iff_paths`
-/

namespace Lsf

open ColorTree

variable {ι : Type} {t : ColorTree ι} {h k : ℕ}

/-- Some path from the root to a leaf meets exactly `k` black nodes. -/
def PathWeight : ColorTree ι → ℕ → Prop
  | .nil, k => k = 0
  | .node c l _ r, k => ∃ i, k = i + c.weight ∧ (PathWeight l i ∨ PathWeight r i)

/-- The red law is a law about each node and its children. -/
theorem redLaw_iff_nodes : RedLaw t ↔ ∀ ctx c l p r, t = plug ctx (node c l p r) → c = .red →
    l.rootHue = .black ∧ r.rootHue = .black := by
  constructor
  · rintro ht ctx c l p r rfl
    exact (redLaw_plug.mp ht).1.1
  · intro h
    -- every subtree obeys the law
    suffices hsub : ∀ u ctx, t = plug ctx u → RedLaw u from hsub t [] rfl
    intro u
    induction u with
    | nil => exact fun _ _ => trivial
    | node c l p r ihl ihr =>
      intro ctx ht
      exact ⟨h ctx c l p r ht, ihl (⟨.left, c, p, r⟩ :: ctx) ht, ihr (⟨.right, c, p, l⟩ :: ctx) ht⟩

theorem exists_pathWeight (t : ColorTree ι) : ∃ k, PathWeight t k := by
  induction t with
  | nil => exact ⟨0, rfl⟩
  | node c l p r ihl ihr =>
    obtain ⟨k, hk⟩ := ihl
    exact ⟨k + c.weight, k, rfl, .inl hk⟩

theorem BlackHeight.eq_pathWeight (ht : BlackHeight t h) (hk : PathWeight t k) : k = h := by
  induction t generalizing h k with
  | nil => exact hk.trans ht.symm
  | node c l p r ihl ihr =>
    obtain ⟨i, rfl, hl, hr⟩ := ht
    obtain ⟨j, rfl, hj | hj⟩ := hk
    · rw [ihl hl hj]
    · rw [ihr hr hj]

/-- There is one black height exactly when all paths agree. -/
theorem blackHeight_iff_paths :
    (∃ h, BlackHeight t h) ↔ ∀ i j, PathWeight t i → PathWeight t j → i = j := by
  constructor
  · rintro ⟨h, ht⟩ i j hi hj
    rw [ht.eq_pathWeight hi, ht.eq_pathWeight hj]
  · intro h
    induction t with
    | nil => exact ⟨0, rfl⟩
    | node c l p r ihl ihr =>
      obtain ⟨a, ha⟩ := ihl fun i j hi hj =>
        Nat.add_right_cancel (h _ _ ⟨i, rfl, .inl hi⟩ ⟨j, rfl, .inl hj⟩)
      obtain ⟨b, hb⟩ := ihr fun i j hi hj =>
        Nat.add_right_cancel (h _ _ ⟨i, rfl, .inr hi⟩ ⟨j, rfl, .inr hj⟩)
      obtain ⟨i, hi⟩ := exists_pathWeight l
      obtain ⟨j, hj⟩ := exists_pathWeight r
      have hab : a = b := by
        have hij := Nat.add_right_cancel (h _ _ ⟨i, rfl, .inl hi⟩ ⟨j, rfl, .inr hj⟩)
        rw [← ha.eq_pathWeight hi, ← hb.eq_pathWeight hj, hij]
      exact ⟨a + c.weight, a, rfl, ha, hab ▸ hb⟩

end Lsf
