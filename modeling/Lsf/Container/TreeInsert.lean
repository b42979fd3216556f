import Lsf.Container.TreeRotation

/-!
# InsertFixup

`insertFix` is what `InsertFixup` does to the tree, as a function on zippers; `Rep.insertFixup` says
so. The source rotates a new right child of a left parent outward before it rotates the
grandparent. For the mirror image, a new left child of a right parent, it tests the same condition
again, so that orientation falls through to the last case: `raise` then leaves the new node below
the red grandparent.

`Inward` singles out exactly that: the climb stops at a left child of a right red parent with a
black uncle. Away from it the colour laws are restored, and in it they are broken
(`insertFix_redBlack_iff`).

## Main definitions

* `insertFix`, `Inward`

## Main results

* `Rep.insertFixup` — the code computes `insertFix`
* `toList_insertFix` — the order is kept in every case
* `insertFix_redBlack_iff` — when the colour laws are restored
-/

namespace Lsf.RBTree

open ColorTree

variable {α ι : Type}

/-- Case [5]: the parent `f` becomes black, the grandparent `g` red, and the rotation takes the
parent above it. -/
def raise (f g : Frame ι) (t : ColorTree ι) : ColorTree ι :=
  if f.side = g.side then
    (({ f with hue := .black } : Frame ι).across t).fill
      (({ g with hue := .red } : Frame ι).fill f.sibling)
  else
    ({ f with hue := .black } : Frame ι).fill (({ g with hue := .red } : Frame ι).fill t)

/-- Case [4.1] and the case [5] that follows it: `t` is turned above the parent `f` first. -/
def turn (f g : Frame ι) : ColorTree ι → ColorTree ι
  | .nil => raise f g .nil
  | .node c a p b => raise ⟨.left, c, p, b⟩ g (f.fill a)

/-- `InsertFixup` on a red tree `t` in its context. -/
def insertFix : List (Frame ι) → ColorTree ι → ColorTree ι
  | [], t => t.paint .black
  | [f], t => f.fill t
  | f :: g :: ctx, t =>
    if f.hue = .black then plug (f :: g :: ctx) t
    else if g.sibling.rootHue = .red then
      insertFix ctx (({ g with hue := .red, sibling := g.sibling.paint .black } : Frame ι).fill
        (({ f with hue := .black } : Frame ι).fill t))
    else if f.side = .right ∧ g.side = .left then plug ctx (turn f g t)
    else plug ctx (raise f g t)

/-- The climb of `InsertFixup` stops at a left child of a red right child with a black uncle. -/
def Inward : List (Frame ι) → Prop
  | f :: g :: ctx => f.hue = .red ∧
      if g.sibling.rootHue = .red then Inward ctx else f.side = .left ∧ g.side = .right
  | _ => False

/-! ### The function on trees -/

theorem insertFix_black {f : Frame ι} {ctx : List (Frame ι)} {t : ColorTree ι}
    (hf : f.hue = .black) : insertFix (f :: ctx) t = plug (f :: ctx) t := by
  cases ctx with
  | nil => rfl
  | cons g ctx => exact if_pos hf

theorem insertFix_uncle {f g : Frame ι} {ctx : List (Frame ι)} {t : ColorTree ι}
    (hf : f.hue = .red) (hu : g.sibling.rootHue = .red) : insertFix (f :: g :: ctx) t =
      insertFix ctx (({ g with hue := .red, sibling := g.sibling.paint .black } : Frame ι).fill
        (({ f with hue := .black } : Frame ι).fill t)) := by
  rw [insertFix, if_neg (by simp [hf]), if_pos hu]

theorem insertFix_turn {f g : Frame ι} {ctx : List (Frame ι)} {t : ColorTree ι}
    (hf : f.hue = .red) (hu : g.sibling.rootHue = .black)
    (hs : f.side = .right ∧ g.side = .left) :
    insertFix (f :: g :: ctx) t = plug ctx (turn f g t) := by
  rw [insertFix, if_neg (by simp [hf]), if_neg (by simp [hu]), if_pos hs]

theorem insertFix_raise {f g : Frame ι} {ctx : List (Frame ι)} {t : ColorTree ι}
    (hf : f.hue = .red) (hu : g.sibling.rootHue = .black)
    (hs : ¬ (f.side = .right ∧ g.side = .left)) :
    insertFix (f :: g :: ctx) t = plug ctx (raise f g t) := by
  rw [insertFix, if_neg (by simp [hf]), if_neg (by simp [hu]), if_neg hs]

theorem toList_raise (f g : Frame ι) (t : ColorTree ι) :
    (raise f g t).toList = (g.fill (f.fill t)).toList := by
  rcases f with ⟨_ | _, c, p, a⟩ <;> rcases g with ⟨_ | _, c', q, b⟩ <;>
    simp [raise, Frame.across]

theorem toList_turn {f : Frame ι} (g : Frame ι) (t : ColorTree ι) (hs : f.side = .right) :
    (turn f g t).toList = (g.fill (f.fill t)).toList := by
  cases t with
  | nil => exact toList_raise f g .nil
  | node c a p b =>
    rcases f with ⟨_ | _, c', q, d⟩ <;> simp_all [turn, toList_raise, Frame.toList_fill]

theorem rootHue_raise (f g : Frame ι) (t : ColorTree ι) : (raise f g t).rootHue = .black := by
  rw [raise]
  split <;> simp [Frame.across]

theorem rootHue_turn (f g : Frame ι) (t : ColorTree ι) : (turn f g t).rootHue = .black := by
  cases t <;> exact rootHue_raise _ _ _

theorem toList_insertFix (ctx : List (Frame ι)) (t : ColorTree ι) :
    (insertFix ctx t).toList = (plug ctx t).toList := by
  induction ctx, t using insertFix.induct with
  | case1 t => simp [insertFix]
  | case2 f t => rfl
  | case3 f g ctx t hf => rw [insertFix_black hf]
  | case4 f g ctx t hf hu ih =>
    rw [insertFix_uncle (Hue.ne_black_iff.mp hf) hu, ih]
    refine toList_plug_congr ctx ?_
    rcases f with ⟨_ | _, c, p, a⟩ <;> rcases g with ⟨_ | _, c', q, b⟩ <;> simp
  | case5 f g ctx t hf hu hs =>
    rw [insertFix_turn (Hue.ne_black_iff.mp hf) (Hue.ne_red_iff.mp hu) hs]
    exact toList_plug_congr ctx (toList_turn g t hs.1)
  | case6 f g ctx t hf hu hs =>
    rw [insertFix_raise (Hue.ne_black_iff.mp hf) (Hue.ne_red_iff.mp hu) hs]
    exact toList_plug_congr ctx (toList_raise f g t)

/-- Refilling a hole below the root does not change the root. -/
theorem rootHue_plug_cons {f : Frame ι} {ctx : List (Frame ι)} {t u : ColorTree ι}
    (h : (plug (f :: ctx) t).rootHue = .black) : (plug (f :: ctx) u).rootHue = .black :=
  (rootHue_plug_congr ctx (by simp)).trans h

theorem rootHue_insertFix {ctx : List (Frame ι)} {t : ColorTree ι}
    (h : ctx = [] ∨ (plug ctx t).rootHue = .black) : (insertFix ctx t).rootHue = .black := by
  induction ctx, t using insertFix.induct with
  | case1 t => simp [insertFix]
  | case2 f t => simpa [insertFix] using h
  | case3 f g ctx t hf => rw [insertFix_black hf]; simpa using h
  | case4 f g ctx t hf hu ih =>
    rw [insertFix_uncle (Hue.ne_black_iff.mp hf) hu]
    apply ih
    cases ctx with
    | nil => exact .inl rfl
    | cons e ctx => exact .inr (rootHue_plug_cons (t := g.fill (f.fill t)) (by simpa using h))
  | case5 f g ctx t hf hu hs =>
    rw [insertFix_turn (Hue.ne_black_iff.mp hf) (Hue.ne_red_iff.mp hu) hs]
    exact rootHue_plug_black (t := g.fill (f.fill t)) (by simpa using h)
      fun _ => rootHue_turn f g t
  | case6 f g ctx t hf hu hs =>
    rw [insertFix_raise (Hue.ne_black_iff.mp hf) (Hue.ne_red_iff.mp hu) hs]
    exact rootHue_plug_black (t := g.fill (f.fill t)) (by simpa using h)
      fun _ => rootHue_raise f g t

/-! ### The colour laws -/

section Laws

variable {f g : Frame ι} {ctx : List (Frame ι)} {t u : ColorTree ι} {h : ℕ}

/-- Above a red parent everything is as it was before the new node came. -/
theorem grandparent_laws (hf : f.hue = .red) (hctx : RedContext (f :: g :: ctx) .black)
    (hb : BlackContext (f :: g :: ctx) h) : g.hue = .black ∧ f.sibling.rootHue = .black ∧
      RedLaw f.sibling ∧ RedLaw g.sibling ∧ RedContext ctx .black ∧ BlackHeight f.sibling h ∧
      BlackHeight g.sibling h ∧ BlackContext ctx (h + 1) := by
  obtain ⟨hfb, hfr, hgb, hgr, hctx⟩ := hctx
  obtain ⟨hfh, hgh, hb⟩ := hb
  have hg : g.hue = .black := by
    rw [← Hue.ne_red_iff]
    intro hg
    have := (hgb hg).1
    rw [hf] at this
    cases this
  rw [hg] at hctx
  rw [hf] at hgh
  rw [hf, hg] at hb
  exact ⟨hg, (hfb hf).2, hfr, hgr, hctx, hfh, hgh, hb⟩

/-- On a straight line the last case restores the laws. -/
theorem raise_laws (hs : f.side = g.side) (hf : f.sibling.rootHue = .black)
    (hg : g.sibling.rootHue = .black) (hfr : RedLaw f.sibling) (hgr : RedLaw g.sibling)
    (hfh : BlackHeight f.sibling h) (hgh : BlackHeight g.sibling h) (htr : RedLaw t)
    (hth : BlackHeight t h) : RedLaw (raise f g t) ∧ BlackHeight (raise f g t) (h + 1) := by
  rw [raise, if_pos hs]
  rcases f with ⟨_ | _, c, p, a⟩ <;> rcases g with ⟨_ | _, c', q, b⟩ <;> simp_all [Frame.across]

theorem turn_laws (hs : f.side = .right ∧ g.side = .left) (hfc : f.hue = .red)
    (hf : f.sibling.rootHue = .black) (hg : g.sibling.rootHue = .black) (hfr : RedLaw f.sibling)
    (hgr : RedLaw g.sibling) (hfh : BlackHeight f.sibling h) (hgh : BlackHeight g.sibling h)
    (ht : t.rootHue = .red) (htr : RedLaw t) (hth : BlackHeight t h) :
    RedLaw (turn f g t) ∧ BlackHeight (turn f g t) (h + 1) := by
  obtain ⟨l, p, r, rfl⟩ := rootHue_eq_red ht
  obtain ⟨hlr, hl, hr⟩ := htr
  obtain ⟨hlh, hrh⟩ := blackHeight_red.mp hth
  obtain ⟨hl0, hr0⟩ := hlr rfl
  refine raise_laws hs.2.symm hr0 hg hr hgr hrh hgh ?_ ?_
  · exact redLaw_fill.mpr ⟨fun _ => ⟨hl0, hf⟩, hl, hfr⟩
  · have := (blackHeight_fill (f := f) (h := h)).mpr ⟨hlh, hfh⟩
    simpa [hfc] using this

/-- Below the grandparent that takes the red of its children the laws hold. -/
theorem uncle_laws (hu : g.sibling.rootHue = .red) (hfr : RedLaw f.sibling) (hgr : RedLaw g.sibling)
    (hfh : BlackHeight f.sibling h) (hgh : BlackHeight g.sibling h) (htr : RedLaw t)
    (hth : BlackHeight t h) :
    let u := ({ g with hue := .red, sibling := g.sibling.paint .black } : Frame ι).fill
      (({ f with hue := .black } : Frame ι).fill t)
    RedLaw u ∧ BlackHeight u (h + 1) := by
  obtain ⟨l, q, r, hgs⟩ := rootHue_eq_red hu
  refine ⟨redLaw_fill.mpr ⟨fun _ => ⟨by simp, by simp⟩, redLaw_fill.mpr ⟨?_, htr, hfr⟩, ?_⟩, ?_⟩
  · simp
  · exact hgr.paint_black
  · rw [hgs] at hgh ⊢
    have hft := (blackHeight_fill (f := { f with hue := .black }) (h := h)).mpr ⟨hth, hfh⟩
    refine (blackHeight_fill (h := h + 1)).mpr ⟨hft, ?_⟩
    exact blackHeight_black_succ.mpr (blackHeight_red.mp hgh)

/-- An inner child left below the red grandparent breaks the red law. -/
theorem not_redLaw_raise (hs : f.side ≠ g.side) (ht : t.rootHue = .red) :
    ¬ RedLaw (raise f g t) := by
  rw [raise, if_neg hs]
  intro h
  have hinner := (redLaw_fill.mp h).2.1
  have := ((redLaw_fill.mp hinner).1 rfl).1
  rw [ht] at this
  cases this

/-- A tree with a black root that obeys the laws fits into the context of the climb. -/
theorem redBlack_plug (hroot : (plug ctx u).rootHue = .black) (hu : u.rootHue = .black)
    (hctx : RedContext ctx .black) (hb : BlackContext ctx h) (hur : RedLaw u)
    (huh : BlackHeight u h) : RedBlack (plug ctx u) :=
  ⟨hroot, redLaw_plug.mpr ⟨hur, hu.symm ▸ hctx⟩, blackHeight_plug.mpr ⟨h, huh, hb⟩⟩

/-- **`InsertFixup` restores the colour laws exactly when its climb does not stop at an inner
child of a right parent.** -/
theorem insertFix_redBlack_iff (hroot : ctx = [] ∨ (plug ctx t).rootHue = .black)
    (ht : t.rootHue = .red) (htr : RedLaw t) (hth : BlackHeight t h)
    (hctx : RedContext ctx .black) (hb : BlackContext ctx h) :
    RedBlack (insertFix ctx t) ↔ ¬ Inward ctx := by
  have hfix := rootHue_insertFix hroot
  induction ctx, t using insertFix.induct generalizing h with
  | case1 t =>
    obtain ⟨l, p, r, rfl⟩ := rootHue_eq_red ht
    refine iff_of_true ⟨rfl, htr.paint_black, h + 1, ?_⟩ id
    exact blackHeight_black_succ.mpr (blackHeight_red.mp hth)
  | case2 f t =>
    have hf : f.hue = .black := by simpa using hroot
    refine iff_of_true ?_ id
    refine ⟨hfix, redLaw_fill.mpr ⟨fun hr => ?_, htr, hctx.2.1⟩, h + f.hue.weight, ?_⟩
    · rw [hf] at hr
      cases hr
    · exact blackHeight_fill.mpr ⟨hth, hb.1⟩
  | case3 f g ctx t hf =>
    have hin : ¬ Inward (f :: g :: ctx) := fun hin => by
      have := hin.1
      rw [hf] at this
      cases this
    rw [insertFix_black hf] at hfix ⊢
    refine iff_of_true ⟨hfix, redLaw_plug.mpr ⟨htr, fun hr => ?_, hctx.2⟩, ?_⟩ hin
    · rw [hf] at hr
      cases hr
    · exact blackHeight_plug.mpr ⟨h, hth, hb⟩
  | case4 f g ctx t hf hu ih =>
    have hf : f.hue = .red := Hue.ne_black_iff.mp hf
    obtain ⟨hg, hfb, hfr, hgr, hctx', hfh, hgh, hb'⟩ := grandparent_laws hf hctx hb
    obtain ⟨hlaw, hheight⟩ := uncle_laws hu hfr hgr hfh hgh htr hth
    have hin : Inward (f :: g :: ctx) ↔ Inward ctx := by simp [Inward, hf, hu]
    rw [insertFix_uncle hf hu] at hfix ⊢
    rw [hin]
    refine ih ?_ (by simp) hlaw hheight hctx' hb' hfix
    cases ctx with
    | nil => exact .inl rfl
    | cons e ctx => exact .inr (rootHue_plug_cons (t := g.fill (f.fill t)) (by simpa using hroot))
  | case5 f g ctx t hf hu hs =>
    have hf : f.hue = .red := Hue.ne_black_iff.mp hf
    have hu : g.sibling.rootHue = .black := Hue.ne_red_iff.mp hu
    obtain ⟨hg, hfb, hfr, hgr, hctx', hfh, hgh, hb'⟩ := grandparent_laws hf hctx hb
    obtain ⟨hr, hbh⟩ := turn_laws hs hf hfb hu hfr hgr hfh hgh ht htr hth
    rw [insertFix_turn hf hu hs] at hfix ⊢
    refine iff_of_true (redBlack_plug hfix (rootHue_turn f g t) hctx' hb' hr hbh) ?_
    simp [Inward, hs, hu]
  | case6 f g ctx t hf hu hs =>
    have hf : f.hue = .red := Hue.ne_black_iff.mp hf
    have hu : g.sibling.rootHue = .black := Hue.ne_red_iff.mp hu
    obtain ⟨hg, hfb, hfr, hgr, hctx', hfh, hgh, hb'⟩ := grandparent_laws hf hctx hb
    rw [insertFix_raise hf hu hs] at hfix ⊢
    by_cases hside : f.side = g.side
    · obtain ⟨hr, hbh⟩ := raise_laws hside hfb hu hfr hgr hfh hgh htr hth
      refine iff_of_true (redBlack_plug hfix (rootHue_raise f g t) hctx' hb' hr hbh) ?_
      rintro ⟨-, hin⟩
      rw [if_neg (by simp [hu]), hside] at hin
      rw [hin.1] at hin
      cases hin.2
    · refine iff_of_false (fun hrb => ?_) (not_not.mpr ⟨hf, ?_⟩)
      · exact not_redLaw_raise hside ht (redLaw_plug.mp hrb.red_law).1
      · rw [if_neg (by simp [hu])]
        cases hfs : f.side <;> cases hgs : g.side <;> simp_all

end Laws

/-! ### The code -/

namespace Rep

variable {s : State α} {n m : ℕ} {t : ColorTree ℕ} {f g : Frame ℕ} {ctx : List (Frame ℕ)}
  {free loose : List ℕ} {d : ℕ → α}

/-- Case [5] of the code. -/
theorem ensures_raise (h : Rep s n m (plug (f :: g :: ctx) t) free loose d) :
    Ensures (do
      setColor f.pos .black
      setColor g.pos .red
      if f.pos = (← getLChildPos g.pos) then rotateRight g.pos else rotateLeft g.pos) s
      fun _ s' => Rep s' n m (plug ctx (raise f g t)) free loose d := by
  refine (h.setColor_frame .black).bind fun _ s₁ h₁ => ?_
  refine (h₁.up.setColor_frame .red).bind fun _ s₂ h₂ => ?_
  have hside := h₂.child_eq_iff (by simp) .left
  rw [pos_fill] at hside
  rw [ensures_bind, ensures_getLChildPos h₂.frame_lt]
  simp only [eq_comm (a := f.pos), hside]
  have hrot : Ensures (RBTree.rotate g.side g.pos) s₂ fun _ s' =>
      Rep s' n m (plug ctx (raise f g t)) free loose d := by
    by_cases hfg : f.side = g.side
    · have h₃ := h₂.down.across
      rw [raise, if_pos hfg]
      exact h₃.rotate (by simp [hfg, Frame.across])
    · rw [raise, if_neg hfg]
      refine h₂.down.rotate ?_
      cases hf : f.side <;> cases hg : g.side <;> simp_all
  rcases g with ⟨_ | _, c, p, a⟩
  · exact hrot
  · exact hrot

/-- A black parent ends the climb. -/
theorem insertFixup_black {rounds : ℕ} (h : Rep s n m (plug (f :: ctx) t) free loose d)
    (hf : f.hue = .black) (ht : t ≠ nil) :
    Ensures (RBTree.insertFixup (rounds + 1) t.pos) s fun _ s' =>
      Rep s' n m (plug (f :: ctx) t) free loose d := by
  rw [RBTree.insertFixup, ensures_bind, ensures_getParentPos h.pos_lt, h.parent_pos ht,
    contextPos_cons, if_neg h.frame_ne, ensures_bind, ensures_getColor h.frame_lt, h.frame_color,
    hf, Hue.color_black, if_pos rfl, ensures_pure]
  exact h

/-- What the code has found out when it has passed the case of a red uncle. -/
theorem insertFixup_red {rounds : ℕ} {Q : Unit → State α → Prop}
    (h : Rep s n m (plug (f :: g :: ctx) t) free loose d) (hf : f.hue = .red) (ht : t ≠ nil)
    (hstep : Ensures (
      if g.sibling.rootHue = .red then do
        setColor g.sibling.pos .black
        setColor f.pos .black
        setColor g.pos .red
        RBTree.insertFixup rounds g.pos
      else if f.side = .right ∧ g.side = .left then do
        RBTree.rotate .right f.pos
        RBTree.insertFixup rounds f.pos
      else do
        setColor f.pos .black
        setColor g.pos .red
        if f.pos = (← getLChildPos g.pos) then rotateRight g.pos else rotateLeft g.pos) s Q) :
    Ensures (RBTree.insertFixup (rounds + 1) t.pos) s Q := by
  have hbro := fun Q => h.up.ensures_getBrotherPos (f.fill_ne_nil t) (Q := Q)
  have hcol := h.up.across.color_pos
  have hlc := h.up.child_eq_iff (f.fill_ne_nil t) .left
  have hrc := h.child_eq_iff ht .right
  rw [pos_fill] at hbro hlc
  rw [RBTree.insertFixup]
  simp only [ensures_bind, ensures_getParentPos h.pos_lt, h.parent_pos ht, contextPos_cons,
    if_neg h.frame_ne, ensures_getColor h.frame_lt, h.frame_color, hf, Hue.color_red, reduceCtorEq,
    if_false, ensures_getParentPos h.frame_lt, h.frame_parent, hbro,
    ensures_getColor h.up.across.pos_lt, hcol]
  by_cases hu : g.sibling.rootHue = .red
  · simpa [hu] using hstep
  · rw [if_neg hu] at hstep
    have hu' : g.sibling.rootHue.color ≠ .red := by
      rwa [← Hue.color_red, Ne, Hue.color_inj]
    simp only [if_neg hu', ensures_bind, ensures_getRChildPos h.frame_lt,
      ensures_getLChildPos h.up.frame_lt, hlc, hrc]
    by_cases hs : f.side = .right ∧ g.side = .left
    · rw [if_pos hs] at hstep ⊢
      exact hstep
    · -- the source tests the condition of [4.1] a second time here
      rw [if_neg hs] at hstep ⊢
      rw [ensures_bind, ensures_getRChildPos h.frame_lt, ensures_bind,
        ensures_getLChildPos h.up.frame_lt, if_neg (by rwa [hlc, hrc])]
      exact hstep

/-- The rounds `InsertFixup` needs are bounded by the depth of the new node. -/
theorem insertFixup {rounds : ℕ} (h : Rep s n m (plug ctx t) free loose d)
    (hroot : ctx = [] ∨ (plug ctx t).rootHue = .black) (ht : t.rootHue = .red)
    (hrounds : ctx.length < rounds) :
    Ensures (RBTree.insertFixup rounds t.pos) s fun _ s' =>
      Rep s' n m (insertFix ctx t) free loose d := by
  have hne : t ≠ nil := by
    rintro rfl
    cases ht
  obtain _ | rounds := rounds
  · exact absurd hrounds (Nat.not_lt_zero _)
  induction ctx, t using insertFix.induct generalizing s rounds with
  | case1 t =>
    rw [RBTree.insertFixup, ensures_bind, ensures_getParentPos h.pos_lt, h.parent_pos hne,
      contextPos_nil, if_pos rfl]
    exact h.setColor_pos hne .black
  | case2 f t =>
    exact h.insertFixup_black (by simpa using hroot) hne
  | case3 f g ctx t hf =>
    rw [insertFix_black hf]
    exact h.insertFixup_black hf hne
  | case4 f g ctx t hf hu ih =>
    have hf : f.hue = .red := Hue.ne_black_iff.mp hf
    have hs : g.sibling ≠ nil := by
      intro hs
      rw [hs] at hu
      cases hu
    refine h.insertFixup_red hf hne ?_
    rw [if_pos hu, insertFix_uncle hf hu]
    refine (h.up.setColor_sibling hs .black).bind fun _ s₁ h₁ => ?_
    refine (h₁.down.setColor_frame .black).bind fun _ s₂ h₂ => ?_
    refine (h₂.up.setColor_frame .red).bind fun _ s₃ h₃ => ?_
    obtain _ | rounds := rounds
    · simp at hrounds
    have := ih h₃.up ?_ (by simp) (by simp) rounds ?_
    · simpa using this
    · cases ctx with
      | nil => exact .inl rfl
      | cons e ctx => exact .inr (rootHue_plug_cons (t := g.fill (f.fill t)) (by simpa using hroot))
    · simp at hrounds
      omega
  | case5 f g ctx t hf hu hs =>
    have hf : f.hue = .red := Hue.ne_black_iff.mp hf
    have hu : g.sibling.rootHue = .black := Hue.ne_red_iff.mp hu
    refine h.insertFixup_red hf hne ?_
    rw [if_neg (by simp [hu]), if_pos hs, insertFix_turn hf hu hs]
    obtain ⟨a, p, b, rfl⟩ := rootHue_eq_red ht
    have h₀ : Rep s n m (plug (⟨.left, .red, p, b⟩ :: f :: g :: ctx) a) free loose d := h
    have hrot := h₀.rotate (by simp [hs])
    rw [hs.1] at hrot
    refine hrot.bind fun _ s₁ h₁ => ?_
    obtain _ | rounds := rounds
    · simp at hrounds
    have h₂ := h₁.up
    rw [← pos_fill f a]
    refine h₂.insertFixup_red rfl (by simp) ?_
    rw [if_neg (by simp [hu]), if_neg (by simp)]
    exact h₂.ensures_raise
  | case6 f g ctx t hf hu hs =>
    have hf : f.hue = .red := Hue.ne_black_iff.mp hf
    have hu : g.sibling.rootHue = .black := Hue.ne_red_iff.mp hu
    refine h.insertFixup_red hf hne ?_
    rw [if_neg (by simp [hu]), if_neg hs, insertFix_raise hf hu hs]
    exact h.ensures_raise

end Rep

end Lsf.RBTree
