import Lsf.Container.TreeMemory

/-!
# Init

Whatever the block held before, `Init` leaves an empty tree and an empty list that runs through all
slots but the NIL one.

## Main results

* `exists_init` — `Init` on the bytes that `CalcByteSize` computes for a capacity
-/

namespace Lsf.RBTree

open ColorTree

variable {α : Type}

/-- The loop of `Init` links its positions to their neighbours and touches nothing else. -/
theorem ensures_initLoop {s : State α} {rounds pos : ℕ} (hlt : pos + rounds ≤ s.slots) :
    Ensures (initLoop rounds pos) s fun _ s' => s.Agrees s' ∧ ∀ x,
      s'.links x = if pos ≤ x ∧ x < pos + rounds
        then { s.links x with lchild := x - 1, rchild := x + 1, color := .empty }
        else s.links x := by
  induction rounds generalizing s pos with
  | zero =>
    rw [initLoop, ensures_pure]
    refine ⟨State.Agrees.refl s, fun x => (if_neg ?_).symm⟩
    omega
  | succ rounds ih =>
    have hp : pos < s.slots := by omega
    simp only [initLoop, ensures_bind, ensures_setLChildPos, ensures_setRChildPos,
      ensures_setColor, State.slots_relink, hp]
    generalize hs₁ : ((s.relink pos (Links.setChild .left (pos - 1))).relink pos
      (Links.setChild .right (pos + 1))).relink pos (fun x => { x with color := .empty }) = s₁
    have hag : s.Agrees s₁ := by
      rw [← hs₁]
      exact (((State.Agrees.refl s).relink _ _).relink _ _).relink _ _
    have hpos : s₁.links pos =
        { s.links pos with lchild := pos - 1, rchild := pos + 1, color := .empty } := by
      rw [← hs₁]
      simp
    have hrest : ∀ x, x ≠ pos → s₁.links x = s.links x := fun x hx => by
      rw [← hs₁]
      simp [hx]
    refine (ih (by rw [hag.slots]; omega)).mono ?_
    rintro _ s₂ ⟨hag₂, hlinks⟩
    refine ⟨hag.trans hag₂, fun x => ?_⟩
    rw [hlinks x]
    by_cases hx : x = pos
    · subst hx
      rw [if_neg (by omega), if_pos (by omega), hpos]
    · rw [hrest x hx]
      by_cases hin : pos + 1 ≤ x ∧ x < pos + 1 + rounds
      · rw [if_pos hin, if_pos (by omega)]
      · rw [if_neg hin, if_neg (by omega)]

theorem ensures_initNodes {s : State α} {n : ℕ} (hn : 1 ≤ n) (hslots : s.slots = n + 1)
    (hmax : s.maxSize = n + 1) (hsize : s.size = 0) (hroot : s.rootPos = NPOS)
    (hhead : s.emptyHeadPos = 1) :
    Ensures initNodes s fun _ s' => Rep s' n 0 nil (List.range' 1 n) [] s.data := by
  rw [initNodes, ensures_bind, ensures_get, ensures_bind, hmax]
  refine (ensures_initLoop (by omega)).mono ?_
  rintro _ s₁ ⟨hag, hlinks⟩
  have h1 : 1 < s₁.slots := by rw [hag.slots]; omega
  have hnlt : n < s₁.slots := by rw [hag.slots]; omega
  have h0 : NPOS < s₁.slots := Nat.lt_of_le_of_lt (Nat.zero_le 1) h1
  rw [Nat.add_sub_cancel] at hlinks ⊢
  simp only [ensures_bind, ensures_setLChildPos, ensures_setRChildPos, ensures_setColor,
    ensures_setParentPos, State.slots_relink, h1, hnlt, h0]
  generalize hs₂ : (((((s₁.relink 1 (Links.setChild .left n)).relink n
    (Links.setChild .right 1)).relink NPOS (fun x => { x with color := .black })).relink NPOS
    (fun x => { x with parent := NPOS })).relink NPOS (Links.setChild .left NPOS)).relink NPOS
    (Links.setChild .right NPOS) = s₂
  have hag₂ : s.Agrees s₂ := by
    rw [← hs₂]
    exact hag.trans ((((((((State.Agrees.refl s₁).relink _ _).relink _ _).relink _ _).relink
      _ _).relink _ _).relink _ _))
  have hnil : (s₂.links NPOS).color = .black := by
    rw [← hs₂]
    simp
  have hnext : ∀ x, 1 ≤ x → x ≤ n → (s₂.links x).rchild = if x = n then 1 else x + 1 := by
    intro x hx hxn
    have hx0 : x ≠ NPOS := Nat.one_le_iff_ne_zero.mp hx
    rw [← hs₂]
    simp only [State.links_relink, Function.update_apply, if_neg hx0, hlinks]
    split_ifs <;> simp_all
    omega
  have hprev : ∀ x, 1 ≤ x → x ≤ n → (s₂.links x).lchild = if x = 1 then n else x - 1 := by
    intro x hx hxn
    have hx0 : x ≠ NPOS := Nat.one_le_iff_ne_zero.mp hx
    rw [← hs₂]
    simp only [State.links_relink, Function.update_apply, if_neg hx0, hlinks]
    split_ifs <;> simp_all
    omega
  refine ⟨hag₂.slots.trans hslots, hag₂.maxSize.trans hmax, hag₂.size.trans hsize,
    hag₂.rootPos.trans hroot, trivial, hnil, ?_, IsRing.range' ?_ ?_ ?_ ?_, by simp, hag₂.data⟩
  · rw [hag₂.emptyHeadPos, hhead]
    cases n with
    | zero => omega
    | succ n => rfl
  · intro x hx hxn
    rw [hnext x hx (by omega), if_neg (by omega)]
  · intro x hx hxn
    rw [hprev (x + 1) (by omega) (by omega), if_neg (by omega), Nat.add_sub_cancel]
  · rw [hnext n hn le_rfl, if_pos rfl]
  · rw [hprev 1 le_rfl hn, if_pos rfl]

/-- **`Init` on `CalcByteSize(n)` bytes** succeeds, whatever the memory held, and leaves an empty
tree of capacity `n`. -/
theorem exists_init (L : Layout) (mem : ℕ → Node α) {n : ℕ} (hn : 1 ≤ n) :
    ∃ s d, init L mem (calcByteSize L n) = some s ∧ Rep s n 0 nil (List.range' 1 n) [] d := by
  have hslots : (calcByteSize L n - L.stateSize) / L.nodeSize = n + 1 := by
    rw [calcByteSize, Nat.add_sub_cancel, Nat.mul_div_cancel _ L.nodeSize_pos]
  let s₀ : State α := ⟨0, n + 1, NPOS, 1, n + 1, mem⟩
  obtain ⟨_, s, hrun, hrep⟩ := ensures_initNodes (s := s₀) hn rfl rfl rfl rfl rfl
  refine ⟨s, _, ?_, hrep⟩
  simp only [init, hslots]
  rw [hrun]
  rfl

end Lsf.RBTree
