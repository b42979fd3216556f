import Lsf.Container.TreeRotation

/-!
# EraseFixup

`EraseFixup` computes `eraseFix`, the repair of the library, on any tree: the colour laws are not
needed for it. Each of its steps comes for both sides of the hole; the one for the side on which
the hole is does a step of `settle`, and the one for the other side does nothing.

## Main results

* `Rep.eraseFixup` — the code computes `eraseFix`
-/

namespace Lsf.RBTree

open ColorTree

variable {α : Type}

/-- The brother of a hole, as the code keeps it. -/
def brotherOf (b : ColorTree ℕ) : Brother := ⟨b.pos, (b.near .left).pos, (b.near .right).pos⟩

@[simp] theorem brotherOf_pos (b : ColorTree ℕ) : (brotherOf b).pos = b.pos := rfl

@[simp] theorem brotherOf_childPos (b : ColorTree ℕ) (side : Side) :
    (brotherOf b).childPos side = (b.near side).pos := by
  cases side <;> rfl

/-- `EraseFixup` from step [2] on. -/
def eraseLevel (rounds parentPos pos : ℕ) (brother : Brother) : Prog α Unit := do
  if (← getColor parentPos) = .black ∧ (← getColor brother.pos) = .black ∧
      (← getColor brother.lchildPos) = .black ∧ (← getColor brother.rchildPos) = .black then do
    if brother.pos ≠ NPOS then setColor brother.pos .red
    eraseFixup rounds (← getParentPos parentPos) parentPos
  else if (← getColor parentPos) = .red ∧ (← getColor brother.pos) = .black ∧
      (← getColor brother.lchildPos) = .black ∧ (← getColor brother.rchildPos) = .black then do
    setColor parentPos .black
    if brother.pos ≠ NPOS then setColor brother.pos .red
  else do
    let brother ← turnRedNephew .left parentPos pos brother
    let brother ← turnRedNephew .right parentPos pos brother
    turnBrother .left parentPos pos brother
    turnBrother .right parentPos pos brother

theorem eraseFixup_succ {rounds parentPos pos : ℕ} (hp : parentPos ≠ NPOS) :
    (eraseFixup (rounds + 1) parentPos pos : Prog α Unit) = (do
      let brother ← calcBrother parentPos pos
      let brother ← turnRedBrother .left parentPos pos brother
      let brother ← turnRedBrother .right parentPos pos brother
      eraseLevel rounds parentPos pos brother) := by
  rw [eraseFixup, if_neg hp]
  rfl

namespace Rep

variable {s : State α} {n m : ℕ} {t : ColorTree ℕ} {f : Frame ℕ} {ctx : List (Frame ℕ)}
  {free loose : List ℕ} {d : ℕ → α} {Q : Brother → State α → Prop}

theorem near_color (h : Rep s n m (plug ctx t) free loose d) (side : Side) :
    (t.near side).pos < s.slots ∧
      (s.links (t.near side).pos).color = (t.near side).rootHue.color := by
  cases t with
  | nil => rw [near_nil]; exact ⟨h.npos_lt, h.nil_black⟩
  | node c l p r =>
    cases side
    · have h' : Rep s n m (plug (⟨.left, c, p, r⟩ :: ctx) l) free loose d := h
      exact ⟨h'.pos_lt, h'.color_pos⟩
    · have h' : Rep s n m (plug (⟨.right, c, p, l⟩ :: ctx) r) free loose d := h
      exact ⟨h'.pos_lt, h'.color_pos⟩

theorem getBrotherPosOf (h : Rep s n m (plug (f :: ctx) t) free loose d) :
    Ensures (RBTree.getBrotherPosOf f.pos t.pos) s fun b s' => b = f.sibling.pos ∧ s' = s := by
  have hchild := h.frame_child
  rw [RBTree.getBrotherPosOf]
  cases t with
  | nil =>
    rw [pos_nil, if_pos rfl, ensures_bind, ensures_getLChildPos h.frame_lt]
    rcases f with ⟨_ | _, c, p, a⟩
    · rw [if_pos (by simpa using hchild.1), ensures_getRChildPos h.frame_lt]
      exact ⟨hchild.2, rfl⟩
    · have hl : s.child .left p = a.pos := hchild.2
      by_cases ha : a.pos = NPOS
      · rw [if_pos (by rw [hl, ha]), ensures_getRChildPos h.frame_lt]
        exact ⟨hchild.1.trans ha.symm, rfl⟩
      · rw [if_neg (by rwa [hl]), ensures_getLChildPos h.frame_lt]
        exact ⟨hl, rfl⟩
  | node c l p r =>
    have hbro := h.ensures_getBrotherPos (by simp) (Q := fun b s' => b = f.sibling.pos ∧ s' = s)
    rw [pos_node] at hbro ⊢
    rw [if_neg h.node_ne, hbro]
    exact ⟨rfl, rfl⟩

theorem calcBrother (h : Rep s n m (plug (f :: ctx) t) free loose d) :
    Ensures (RBTree.calcBrother f.pos t.pos) s fun b s' => b = brotherOf f.sibling ∧ s' = s := by
  have hlt := h.across.pos_lt
  refine h.getBrotherPosOf.bind ?_
  rintro _ _ ⟨rfl, rfl⟩
  rw [ensures_bind, ensures_getLChildPos hlt, ensures_bind, ensures_getRChildPos hlt, ensures_pure,
    h.across.child_pos, h.across.child_pos]
  exact ⟨rfl, rfl⟩

/-- The child of the parent on the other side is not the hole. -/
theorem child_ne (h : Rep s n m (plug (f :: ctx) t) free loose d) (hs : f.sibling ≠ nil)
    {side : Side} (hside : f.side ≠ side) : s.child side f.pos ≠ t.pos := by
  obtain rfl : side = f.side.other := by cases hf : f.side <;> cases side <;> simp_all
  rw [h.frame_child.2]
  exact (h.across.sibling_ne hs).symm

/-! ### Step [1] -/

theorem turnRedBrother_miss {side : Side} (h : Rep s n m (plug (f :: ctx) t) free loose d)
    (hmiss : f.sibling.rootHue = .black ∨ f.side ≠ side) :
    Ensures (turnRedBrother side f.pos t.pos (brotherOf f.sibling)) s fun b s' =>
      b = brotherOf f.sibling ∧ s' = s := by
  rw [turnRedBrother, ensures_bind, brotherOf_pos, ensures_getColor h.across.pos_lt, ensures_bind,
    ensures_getChildPos h.frame_lt, h.across.color_pos, if_neg, ensures_pure]
  · exact ⟨rfl, rfl⟩
  · rintro ⟨hred, hchild⟩
    rw [← Hue.color_red, Hue.color_inj] at hred
    obtain hb | hside := hmiss
    · rw [hred] at hb
      cases hb
    · refine h.child_ne ?_ hside hchild
      intro hs
      rw [hs] at hred
      cases hred

theorem turnRedBrother_hit {q : ℕ} {bn bf : ColorTree ℕ}
    (h : Rep s n m (plug (f :: ctx) t) free loose d)
    (hb : f.sibling = (Frame.mk f.side .red q bf).fill bn) :
    Ensures (turnRedBrother f.side f.pos t.pos (brotherOf f.sibling)) s fun b s' =>
      b = brotherOf bn ∧ Rep s' n m
        (plug ({ f with hue := .red, sibling := bn } :: ⟨f.side, .black, q, bf⟩ :: ctx) t)
        free loose d := by
  rw [turnRedBrother, ensures_bind, brotherOf_pos, ensures_getColor h.across.pos_lt, ensures_bind,
    ensures_getChildPos h.frame_lt, h.across.color_pos, if_pos ⟨by simp [hb], h.frame_child.1⟩]
  refine (h.setColor_frame .red).bind fun _ s₁ h₁ => ?_
  refine (h₁.setColor_sibling (by simp [hb]) .black).bind fun _ s₂ h₂ => ?_
  have h₃ : Rep s₂ n m (plug (⟨f.side, .black, q, bf⟩ ::
      ({ f with hue := .red } : Frame ℕ).across t :: ctx) bn) free loose d := by
    have h₃ := h₂.across
    have hp : f.sibling.paint .black = (Frame.mk f.side .black q bf).fill bn := by
      rw [hb]
      cases f.side <;> rfl
    rw [hp] at h₃
    exact h₃
  refine (h₃.rotate (by simp [Frame.across])).bind fun _ s₃ h₄ => ?_
  refine h₄.across.calcBrother.mono ?_
  rintro _ _ ⟨rfl, rfl⟩
  refine ⟨rfl, ?_⟩
  have h₅ := h₄.across
  rw [Frame.across_across] at h₅
  exact h₅

/-! ### Step [4] -/

theorem turnRedNephew_miss {side : Side} (h : Rep s n m (plug (f :: ctx) t) free loose d)
    (hmiss : f.side ≠ side ∨ (f.sibling.near side).rootHue = .black ∨
      (f.sibling.near side.other).rootHue = .red) :
    Ensures (turnRedNephew side f.pos t.pos (brotherOf f.sibling)) s fun b s' =>
      b = brotherOf f.sibling ∧ s' = s := by
  obtain ⟨hnlt, hnc⟩ := h.across.near_color side
  obtain ⟨hflt, hfc⟩ := h.across.near_color side.other
  rw [turnRedNephew, ensures_bind, ensures_getChildPos h.frame_lt, brotherOf_childPos,
    brotherOf_childPos, ensures_bind, ensures_getColor hnlt, ensures_bind, ensures_getColor hflt,
    hnc, hfc, if_neg, ensures_pure]
  · exact ⟨rfl, rfl⟩
  · rintro ⟨hchild, hred, hblack⟩
    rw [← Hue.color_red, Hue.color_inj] at hred
    rw [← Hue.color_black, Hue.color_inj] at hblack
    obtain hside | hn | hf := hmiss
    · refine h.child_ne ?_ hside hchild
      intro hs
      rw [hs, near_nil] at hred
      cases hred
    · rw [hred] at hn
      cases hn
    · rw [hblack] at hf
      cases hf

theorem turnRedNephew_hit {cb : Hue} {q p : ℕ} {x y bf : ColorTree ℕ}
    (h : Rep s n m (plug (f :: ctx) t) free loose d)
    (hb : f.sibling = (Frame.mk f.side cb q bf).fill ((Frame.mk f.side .red p y).fill x))
    (hbf : bf.rootHue = .black) :
    Ensures (turnRedNephew f.side f.pos t.pos (brotherOf f.sibling)) s fun b s' =>
      b = brotherOf ((Frame.mk f.side .black p ((Frame.mk f.side .red q bf).fill y)).fill x) ∧
        Rep s' n m (plug ({ f with sibling :=
          (Frame.mk f.side .black p ((Frame.mk f.side .red q bf).fill y)).fill x } :: ctx) t)
          free loose d := by
  obtain ⟨hnlt, hnc⟩ := h.across.near_color f.side
  obtain ⟨hflt, hfc⟩ := h.across.near_color f.side.other
  have hnear : f.sibling.near f.side = (Frame.mk f.side .red p y).fill x := by
    rw [hb, Frame.near_fill]
  have hfar : f.sibling.near f.side.other = bf := by simp [hb]
  rw [hnear] at hnlt hnc
  rw [hfar] at hflt hfc
  rw [turnRedNephew, ensures_bind, ensures_getChildPos h.frame_lt, brotherOf_childPos,
    brotherOf_childPos, hnear, hfar, ensures_bind, ensures_getColor hnlt, ensures_bind,
    ensures_getColor hflt, hnc, hfc, if_pos ⟨h.frame_child.1, by simp, by simp [hbf]⟩]
  have h₀ : Rep s n m (plug (⟨f.side, cb, q, bf⟩ :: f.across t :: ctx)
      ((Frame.mk f.side .red p y).fill x)) free loose d := by
    have h₀ := h.across
    rw [hb] at h₀
    exact h₀
  rw [brotherOf_pos, hb, pos_fill]
  refine (h₀.setColor_frame .red).bind fun _ s₁ h₁ => ?_
  refine (h₁.setColor_pos (by simp) .black).bind fun _ s₂ h₂ => ?_
  have h₃ : Rep s₂ n m (plug (⟨f.side.other, .black, p, x⟩ :: ⟨f.side, .red, q, bf⟩ ::
      f.across t :: ctx) y) free loose d := by
    have hp : ((Frame.mk f.side .red p y).fill x).paint .black =
        (Frame.mk f.side.other .black p x).fill y := by
      cases f.side <;> rfl
    rw [hp] at h₂
    exact h₂
  refine (h₃.rotate rfl).bind fun _ s₃ h₄ => ?_
  have h₅ := h₄.up.up.across
  have hx : (Frame.mk f.side.other .black p x).fill ((Frame.mk f.side .red q bf).fill y) =
      (Frame.mk f.side .black p ((Frame.mk f.side .red q bf).fill y)).fill x := by
    cases f.side <;> rfl
  rw [Frame.across_across, hx] at h₅
  refine h₅.calcBrother.mono ?_
  rintro _ _ ⟨rfl, rfl⟩
  exact ⟨rfl, h₅⟩

/-! ### Step [5] -/

theorem turnBrother_miss {side : Side} {x : Brother}
    (h : Rep s n m (plug (f :: ctx) t) free loose d) (hlt : x.childPos side.other < s.slots)
    (hmiss : (s.links (x.childPos side.other)).color = .red → f.side ≠ side ∧ f.sibling ≠ nil) :
    Ensures (turnBrother side f.pos t.pos x) s fun _ s' => s' = s := by
  rw [turnBrother, ensures_bind, ensures_getChildPos h.frame_lt, ensures_bind,
    ensures_getColor hlt, if_neg, ensures_pure]
  rintro ⟨hchild, hred⟩
  obtain ⟨hside, hs⟩ := hmiss hred
  exact h.child_ne hs hside hchild

theorem turnBrother_hit {cb : Hue} {q : ℕ} {bn bf : ColorTree ℕ}
    (h : Rep s n m (plug (f :: ctx) t) free loose d)
    (hb : f.sibling = (Frame.mk f.side cb q bf).fill bn) (hbf : bf.rootHue = .red) :
    Ensures (turnBrother f.side f.pos t.pos (brotherOf f.sibling)) s fun _ s' => Rep s' n m
      (plug ({ f with hue := .black, sibling := bn } :: ⟨f.side, f.hue, q, bf.paint .black⟩ :: ctx)
        t) free loose d := by
  obtain ⟨hflt, hfc⟩ := h.across.near_color f.side.other
  have hfar : f.sibling.near f.side.other = bf := by simp [hb]
  rw [hfar] at hflt hfc
  rw [turnBrother, ensures_bind, ensures_getChildPos h.frame_lt, ensures_bind, brotherOf_childPos,
    hfar, ensures_getColor hflt, hfc, if_pos ⟨h.frame_child.1, by simp [hbf]⟩, ensures_bind,
    ensures_getColor h.frame_lt, h.frame_color, brotherOf_pos]
  have hne : bf ≠ nil := by
    rintro rfl
    cases hbf
  refine (h.setColor_sibling (by simp [hb]) f.hue).bind fun _ s₁ h₁ => ?_
  refine (h₁.setColor_frame .black).bind fun _ s₂ h₂ => ?_
  have h₃ : Rep s₂ n m (plug (⟨f.side, f.hue, q, bf⟩ ::
      ({ f with hue := .black } : Frame ℕ).across t :: ctx) bn) free loose d := by
    have h₃ := h₂.across
    have hp : f.sibling.paint f.hue = (Frame.mk f.side f.hue q bf).fill bn := by
      rw [hb]
      cases f.side <;> rfl
    rw [hp] at h₃
    exact h₃
  refine (h₃.setColor_sibling hne .black).bind fun _ s₃ h₄ => ?_
  refine (h₄.rotate (by simp [Frame.across])).mono fun _ s₄ h₅ => ?_
  have h₆ := h₅.across
  rw [Frame.across_across] at h₆
  exact h₆

/-- Both forms of step [5] in a row: the one for the wrong side does nothing. -/
theorem turnBrother_both {cb : Hue} {q : ℕ} {bn bf : ColorTree ℕ}
    (h : Rep s n m (plug (f :: ctx) t) free loose d)
    (hb : f.sibling = (Frame.mk f.side cb q bf).fill bn) (hbf : bf.rootHue = .red) :
    Ensures (do
      turnBrother .left f.pos t.pos (brotherOf f.sibling)
      turnBrother .right f.pos t.pos (brotherOf f.sibling)) s fun _ s' => Rep s' n m
      (plug ({ f with hue := .black, sibling := bn } :: ⟨f.side, f.hue, q, bf.paint .black⟩ :: ctx)
        t) free loose d := by
  have hhit := h.turnBrother_hit hb hbf
  have hs : f.sibling ≠ nil := by simp [hb]
  cases hside : f.side
  · rw [hside] at hhit hb
    refine hhit.bind fun _ s' h' => ?_
    have hnear : f.sibling.near .left = bn := by rw [hb]; rfl
    have hlt := h'.across.pos_lt
    have hcol := h'.across.color_pos
    refine (h'.turnBrother_miss ?_ fun hred => ?_).mono fun _ _ he => ?_
    · simpa [hnear] using hlt
    · have hcol' : (s'.links bn.pos).color = bn.rootHue.color := hcol
      simp only [Side.other_right, brotherOf_childPos, hnear, hcol'] at hred
      rw [← Hue.color_red, Hue.color_inj] at hred
      refine ⟨by simp, ?_⟩
      rintro (rfl : bn = nil)
      cases hred
    · rw [he]
      simpa using h'
  · rw [hside] at hhit hb
    refine (h.turnBrother_miss ?_ fun _ => ⟨by simp [hside], hs⟩).bind ?_
    · rw [brotherOf_childPos]
      exact (h.across.near_color _).1
    · rintro _ _ rfl
      exact hhit

/-! ### One level, and the climb -/

/-- Both nephews are black exactly when both children of the brother are. -/
theorem ensures_eraseLevel {rounds : ℕ} {P : Unit → State α → Prop}
    (h : Rep s n m (plug (f :: ctx) t) free loose d)
    (hstep : Ensures (
      if f.sibling.rootHue = .black ∧ (f.sibling.near .left).rootHue = .black ∧
          (f.sibling.near .right).rootHue = .black then
        if f.hue = .black then do
          if f.sibling.pos ≠ NPOS then setColor f.sibling.pos .red
          RBTree.eraseFixup rounds (← getParentPos f.pos) f.pos
        else do
          setColor f.pos .black
          if f.sibling.pos ≠ NPOS then setColor f.sibling.pos .red
      else do
        let brother ← turnRedNephew .left f.pos t.pos (brotherOf f.sibling)
        let brother ← turnRedNephew .right f.pos t.pos brother
        turnBrother .left f.pos t.pos brother
        turnBrother .right f.pos t.pos brother) s P) :
    Ensures (eraseLevel rounds f.pos t.pos (brotherOf f.sibling)) s P := by
  obtain ⟨hllt, hlc⟩ := h.across.near_color .left
  obtain ⟨hrlt, hrc⟩ := h.across.near_color .right
  have hblt := h.across.pos_lt
  have hbc := h.across.color_pos
  have hblack : ∀ c : Hue, c.color = Color.black ↔ c = .black := fun c => by
    rw [← Hue.color_black, Hue.color_inj]
  have hred : ∀ c : Hue, c.color = Color.red ↔ c = .red := fun c => by
    rw [← Hue.color_red, Hue.color_inj]
  rw [eraseLevel]
  simp only [brotherOf, ensures_bind, ensures_getColor h.frame_lt, ensures_getColor hblt,
    ensures_getColor hllt, ensures_getColor hrlt, h.frame_color, hbc, hlc, hrc, hblack]
  by_cases hkin : f.sibling.rootHue = .black ∧ (f.sibling.near .left).rootHue = .black ∧
      (f.sibling.near .right).rootHue = .black
  · rw [if_pos hkin] at hstep
    by_cases hf : f.hue = .black
    · rw [if_pos hf] at hstep
      rw [if_pos ⟨hf, hkin⟩]
      exact hstep
    · rw [if_neg hf] at hstep
      rw [if_neg (by simp [hf])]
      simp only [ensures_bind, ensures_getColor h.frame_lt, ensures_getColor hblt,
        ensures_getColor hllt, ensures_getColor hrlt, h.frame_color, hbc, hlc, hrc, hblack, hred]
      rw [if_pos ⟨Hue.ne_black_iff.mp hf, hkin⟩]
      exact hstep
  · rw [if_neg hkin] at hstep
    rw [if_neg (by tauto)]
    simp only [ensures_bind, ensures_getColor h.frame_lt, ensures_getColor hblt,
      ensures_getColor hllt, ensures_getColor hrlt, h.frame_color, hbc, hlc, hrc, hblack, hred]
    rw [if_neg (by tauto)]
    exact hstep

/-- Repainting the brother red, which a missing brother is spared. -/
theorem paintBrother (h : Rep s n m (plug (f :: ctx) t) free loose d) :
    Ensures (if f.sibling.pos ≠ NPOS then setColor f.sibling.pos .red else pure ()) s fun _ s' =>
      Rep s' n m (plug ({ f with sibling := f.sibling.paint .red } :: ctx) t) free loose d := by
  by_cases hs : f.sibling = nil
  · rw [if_neg (by simp [hs]), ensures_pure, hs, paint_nil, ← hs]
    exact h
  · rw [if_pos (h.across.ne_npos (by simp [pos_mem hs]))]
    exact h.setColor_sibling hs .red

/-- Step [2]: the brother is painted red, and the repair goes on at the parent. -/
theorem paintBrother_climb {rounds : ℕ} (h : Rep s n m (plug (f :: ctx) t) free loose d)
    (hc : f.hue = .black)
    (hrec : ∀ (s' : State α) (u : ColorTree ℕ), Rep s' n m (plug ctx u) free loose d →
      Ensures (RBTree.eraseFixup rounds (contextPos ctx) u.pos) s' fun _ s'' =>
        Rep s'' n m (eraseFix ctx u) free loose d) :
    Ensures (do
      if f.sibling.pos ≠ NPOS then setColor f.sibling.pos .red
      RBTree.eraseFixup rounds (← getParentPos f.pos) f.pos) s fun _ s' => Rep s' n m
        (eraseFix ctx ((Frame.mk f.side .black f.pos (f.sibling.paint .red)).fill t))
        free loose d := by
  have hclimb : ∀ s₁, Rep s₁ n m (plug ({ f with sibling := f.sibling.paint .red } :: ctx) t)
      free loose d → Ensures (do RBTree.eraseFixup rounds (← getParentPos f.pos) f.pos) s₁
        fun _ s' => Rep s' n m
          (eraseFix ctx ((Frame.mk f.side .black f.pos (f.sibling.paint .red)).fill t))
          free loose d := by
    intro s₁ h₁
    rw [ensures_bind, ensures_getParentPos h₁.frame_lt, h₁.frame_parent]
    have hup := hrec s₁ _ h₁.up
    rw [pos_fill, hc] at hup
    exact hup
  by_cases hs : f.sibling = nil
  · rw [if_neg (by simp [hs])]
    refine hclimb s ?_
    rw [hs, paint_nil, ← hs]
    exact h
  · rw [if_pos (h.across.ne_npos (by simp [pos_mem hs]))]
    exact (h.setColor_sibling hs .red).bind fun _ s₁ h₁ => hclimb s₁ h₁

/-- Both forms of step [4], where none applies. -/
theorem turnRedNephew_both_miss (h : Rep s n m (plug (f :: ctx) t) free loose d)
    (hmiss : ∀ side, f.side ≠ side ∨ (f.sibling.near side).rootHue = .black ∨
      (f.sibling.near side.other).rootHue = .red) :
    Ensures (do
      let brother ← turnRedNephew .left f.pos t.pos (brotherOf f.sibling)
      turnRedNephew .right f.pos t.pos brother) s fun b s' =>
        b = brotherOf f.sibling ∧ s' = s := by
  refine (h.turnRedNephew_miss (hmiss .left)).bind ?_
  rintro _ _ ⟨rfl, rfl⟩
  exact h.turnRedNephew_miss (hmiss .right)

/-- Both forms of step [4], where only the near nephew is red. -/
theorem turnRedNephew_both {cb : Hue} {q p : ℕ} {x y bf : ColorTree ℕ}
    (h : Rep s n m (plug (f :: ctx) t) free loose d)
    (hb : f.sibling = (Frame.mk f.side cb q bf).fill ((Frame.mk f.side .red p y).fill x))
    (hbf : bf.rootHue = .black) :
    Ensures (do
      let brother ← turnRedNephew .left f.pos t.pos (brotherOf f.sibling)
      turnRedNephew .right f.pos t.pos brother) s fun b s' =>
        b = brotherOf ((Frame.mk f.side .black p ((Frame.mk f.side .red q bf).fill y)).fill x) ∧
          Rep s' n m (plug ({ f with sibling :=
            (Frame.mk f.side .black p ((Frame.mk f.side .red q bf).fill y)).fill x } :: ctx) t)
            free loose d := by
  have hhit := h.turnRedNephew_hit hb hbf
  cases hside : f.side with
  | left =>
    rw [hside] at hhit
    refine hhit.bind ?_
    rintro _ s₁ ⟨rfl, h₁⟩
    refine ((@turnRedNephew_miss _ _ _ _ _ _ _ _ _ _ .right h₁) (.inl (by simp))).mono ?_
    rintro _ _ ⟨rfl, rfl⟩
    exact ⟨rfl, h₁⟩
  | right =>
    refine (h.turnRedNephew_miss (.inl (by simp [hside]))).bind ?_
    rintro _ _ ⟨rfl, rfl⟩
    rw [hside] at hhit
    exact hhit

/-- Both forms of step [5], where no nephew is red. -/
theorem turnBrother_both_miss (h : Rep s n m (plug (f :: ctx) t) free loose d)
    (hall : ∀ side, (f.sibling.near side).rootHue = .black) :
    Ensures (do
      turnBrother .left f.pos t.pos (brotherOf f.sibling)
      turnBrother .right f.pos t.pos (brotherOf f.sibling)) s fun _ s' => s' = s := by
  have hmiss : ∀ side, Ensures (turnBrother side f.pos t.pos (brotherOf f.sibling)) s
      fun _ s' => s' = s := by
    intro side
    obtain ⟨hlt, hcol⟩ := h.across.near_color side.other
    refine h.turnBrother_miss (by simpa using hlt) fun hred => ?_
    rw [brotherOf_childPos, hcol, hall] at hred
    cases hred
  refine (hmiss .left).bind ?_
  rintro _ _ rfl
  exact hmiss .right

/-- **Steps [2] to [5] are one `resolve`.** -/
theorem eraseLevel {rounds : ℕ} (h : Rep s n m (plug (f :: ctx) t) free loose d)
    (hrec : ∀ (s' : State α) (u : ColorTree ℕ), Rep s' n m (plug ctx u) free loose d →
      f.hue = .black → Ensures (RBTree.eraseFixup rounds (contextPos ctx) u.pos) s' fun _ s'' =>
        Rep s'' n m (eraseFix ctx u) free loose d) :
    Ensures (RBTree.eraseLevel rounds f.pos t.pos (brotherOf f.sibling)) s fun _ s' =>
      Rep s' n m (if (resolve f.side f.hue f.pos t f.sibling).2
        then eraseFix ctx (resolve f.side f.hue f.pos t f.sibling).1
        else plug ctx (resolve f.side f.hue f.pos t f.sibling).1) free loose d := by
  refine h.ensures_eraseLevel ?_
  have hboth : (f.sibling.near .left).rootHue = .black ∧ (f.sibling.near .right).rootHue = .black ↔
      (f.sibling.near f.side).rootHue = .black ∧ (f.sibling.far f.side).rootHue = .black := by
    cases f.side
    · cases f.sibling <;> rfl
    · cases f.sibling <;> simp [near, far, and_comm]
  obtain ⟨hb, hn, hf, hres⟩ | ⟨cb, q, bn, bf, hb, hbf, hres⟩ | ⟨cb, q, p, x, y, bf, hb, hbf, hres⟩ |
    ⟨hb, hn, hf, hres⟩ := resolve_cases f.side f.hue f.pos t f.sibling
  · rw [if_pos ⟨hb, hboth.mpr ⟨hn, hf⟩⟩, hres]
    by_cases hc : f.hue = .black
    · simp only [hc, if_true, decide_true]
      exact h.paintBrother_climb hc fun s' u h' => hrec s' u h' hc
    · simp only [hc, if_false, decide_false, Bool.false_eq_true]
      refine (h.setColor_frame .black).bind fun _ s₁ h₁ => ?_
      exact h₁.paintBrother
  · -- the far nephew is red
    have hfar : f.sibling.near f.side.other = bf := by simp [hb]
    have hmiss : ∀ side, f.side ≠ side ∨ (f.sibling.near side).rootHue = .black ∨
        (f.sibling.near side.other).rootHue = .red := by
      intro side
      by_cases hside : f.side = side
      · rw [← hside, hfar]
        exact .inr (.inr hbf)
      · exact .inl hside
    rw [if_neg, hres, ← bind_assoc]
    · refine (h.turnRedNephew_both_miss hmiss).bind ?_
      rintro _ _ ⟨rfl, rfl⟩
      exact h.turnBrother_both hb hbf
    · rintro ⟨-, hl, hr⟩
      have hblack : (f.sibling.near f.side.other).rootHue = .black := by
        cases f.side
        · exact hr
        · exact hl
      rw [hfar, hbf] at hblack
      cases hblack
  · -- only the near nephew is red
    rw [if_neg, hres, ← bind_assoc]
    · refine (h.turnRedNephew_both hb hbf).bind ?_
      rintro _ s₁ ⟨rfl, h₁⟩
      refine (h₁.turnBrother_both rfl (by simp)).mono fun _ s₂ h₂ => ?_
      simpa using h₂
    · rintro ⟨-, hkin⟩
      have hnear := (hboth.mp hkin).1
      simp [hb] at hnear
  · -- a red brother with black children: no step applies
    have hblack := hboth.mpr ⟨hn, hf⟩
    have hall : ∀ side, (f.sibling.near side).rootHue = .black := by
      intro side
      cases side
      exacts [hblack.1, hblack.2]
    rw [if_neg (by simp [hb]), hres, ← bind_assoc]
    refine (h.turnRedNephew_both_miss fun side => .inr (.inl (hall side))).bind ?_
    rintro _ _ ⟨rfl, rfl⟩
    refine (h.turnBrother_both_miss hall).mono ?_
    rintro _ _ rfl
    exact h

/-- Both forms of step [1] on a red brother. -/
theorem turnRedBrother_both {q : ℕ} {bn bf : ColorTree ℕ}
    (h : Rep s n m (plug (f :: ctx) t) free loose d)
    (hb : f.sibling = (Frame.mk f.side .red q bf).fill bn) :
    Ensures (do
      let brother ← turnRedBrother .left f.pos t.pos (brotherOf f.sibling)
      turnRedBrother .right f.pos t.pos brother) s fun b s' => b = brotherOf bn ∧ Rep s' n m
        (plug ({ f with hue := .red, sibling := bn } :: ⟨f.side, .black, q, bf⟩ :: ctx) t)
        free loose d := by
  have hhit := h.turnRedBrother_hit hb
  cases hside : f.side with
  | left =>
    rw [hside] at hhit
    refine hhit.bind ?_
    rintro _ s₁ ⟨rfl, h₁⟩
    refine ((@turnRedBrother_miss _ _ _ _ _ _ _ _ _ _ .right h₁) (.inr (by simp))).mono ?_
    rintro _ _ ⟨rfl, rfl⟩
    exact ⟨rfl, h₁⟩
  | right =>
    refine (h.turnRedBrother_miss (.inr (by simp [hside]))).bind ?_
    rintro _ _ ⟨rfl, rfl⟩
    rw [hside] at hhit
    exact hhit

/-- **`EraseFixup` computes the repair of the library.** -/
theorem eraseFixup {rounds : ℕ} (h : Rep s n m (plug ctx t) free loose d)
    (hrounds : ctx.length < rounds) :
    Ensures (RBTree.eraseFixup rounds (contextPos ctx) t.pos) s fun _ s' =>
      Rep s' n m (eraseFix ctx t) free loose d := by
  obtain _ | rounds := rounds
  · exact absurd hrounds (Nat.not_lt_zero _)
  induction ctx generalizing s t rounds with
  | nil =>
    rw [RBTree.eraseFixup, contextPos_nil, if_pos rfl, ensures_pure]
    exact h
  | cons f ctx ih =>
    rw [eraseFix, contextPos_cons, eraseFixup_succ h.frame_ne]
    refine h.calcBrother.bind ?_
    rintro _ _ ⟨rfl, rfl⟩
    obtain ⟨q, bn, bf, hb, hset⟩ | ⟨hb, hset⟩ := settle_cases f t
    · rw [← bind_assoc]
      refine (h.turnRedBrother_both hb).bind ?_
      rintro _ s₁ ⟨rfl, h₁⟩
      refine (h₁.eraseLevel fun _ _ _ hred => absurd hred (by simp)).mono fun _ s₂ h₂ => ?_
      have hpass : (resolve f.side .red f.pos t bn).2 = false := by
        rw [← Bool.not_eq_true]
        exact fun hpass => absurd (resolve_passes hpass) (by simp)
      simp only [hpass, Bool.false_eq_true, if_false] at h₂
      simp only [hset, Bool.false_eq_true, if_false]
      exact h₂
    · refine (h.turnRedBrother_miss (.inl hb)).bind ?_
      rintro _ _ ⟨rfl, rfl⟩
      refine (h.turnRedBrother_miss (.inl hb)).bind ?_
      rintro _ _ ⟨rfl, rfl⟩
      rw [hset]
      refine h.eraseLevel fun s' u h' _ => ?_
      obtain _ | rounds := rounds
      · simp at hrounds
      · exact ih h' _ (by simpa using hrounds)

end Rep

end Lsf.RBTree
