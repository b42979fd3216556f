import Lsf.Foundations.ColorTree

/-!
# Repairing a red-black tree after a removal

When a black node is spliced out of a red-black tree, the paths through its place miss one black
node. `resolve` treats one level: given a parent, its deficient near child `t` and the sibling `b`,
it either repairs the level or hands the deficit to the parent. `settle` first turns a red sibling
up, and `eraseFix` climbs until the deficit is gone or the root is reached.

All of it is total: the functions are defined for trees that violate the colour laws as well, and
`toList_eraseFix` holds for those too. Only `eraseFix_redBlack` asks for the laws.
-/

namespace Lsf

open ColorTree

variable {ι : Type}

namespace ColorTree

/-- A nonempty tree seen from a side: hue, near child, payload, far child. -/
def view : Side → ColorTree ι → Option (Hue × ColorTree ι × ι × ColorTree ι)
  | _, nil => none
  | .left, node c l p r => some (c, l, p, r)
  | .right, node c l p r => some (c, r, p, l)

theorem view_eq_none {s : Side} {t : ColorTree ι} : t.view s = none ↔ t = nil := by
  cases s <;> cases t <;> simp [view]

theorem view_eq_some {s : Side} {t n f : ColorTree ι} {c : Hue} {p : ι} :
    t.view s = some (c, n, p, f) ↔ t = (Frame.mk s c p f).fill n := by
  cases s <;> cases t <;> (simp [view]; try tauto)

@[simp] theorem view_fill (s : Side) (c : Hue) (p : ι) (n f : ColorTree ι) :
    ((Frame.mk s c p f).fill n).view s = some (c, n, p, f) := view_eq_some.mpr rfl

@[simp] theorem view_nil (s : Side) : (nil : ColorTree ι).view s = none := view_eq_none.mpr rfl

end ColorTree

/-- One level of the repair: the parent `p` of hue `c`, its near child `t` that misses a black
node, and the sibling `b`. The Boolean says whether the deficit is passed on to the parent. -/
def resolve (s : Side) (c : Hue) (p : ι) (t b : ColorTree ι) : ColorTree ι × Bool :=
  match b.view s with
  | none => ((Frame.mk s .black p b).fill t, decide (c = .black))
  | some (cb, bn, q, bf) =>
    if cb = .black ∧ bn.rootHue = .black ∧ bf.rootHue = .black then
      ((Frame.mk s .black p (b.paint .red)).fill t, decide (c = .black))
    else if bf.rootHue = .red then
      ((Frame.mk s c q (bf.paint .black)).fill ((Frame.mk s .black p bn).fill t), false)
    else match bn.view s with
      | some (.red, x, m, y) =>
        ((Frame.mk s c m ((Frame.mk s .black q bf).fill y)).fill
          ((Frame.mk s .black p x).fill t), false)
      | _ => ((Frame.mk s c p b).fill t, false)

/-- One level of the repair, after a red sibling has been turned above the parent. -/
def settle (f : Frame ι) (t : ColorTree ι) : ColorTree ι × Bool :=
  match f.sibling.view f.side with
  | some (.red, bn, q, bf) =>
    ((Frame.mk f.side .black q bf).fill (resolve f.side .red f.pos t bn).1, false)
  | _ => resolve f.side f.hue f.pos t f.sibling

/-- Climb from a hole whose subtree `t` misses a black node. -/
def eraseFix : List (Frame ι) → ColorTree ι → ColorTree ι
  | [], t => t
  | f :: ctx, t => if (settle f t).2 then eraseFix ctx (settle f t).1 else plug ctx (settle f t).1

/-! ### One level -/

/-- The possible outcomes of `resolve`, one for each shape of the sibling. -/
theorem resolve_cases (s : Side) (c : Hue) (p : ι) (t b : ColorTree ι) :
    (b.rootHue = .black ∧ (b.near s).rootHue = .black ∧ (b.far s).rootHue = .black ∧
      resolve s c p t b = ((Frame.mk s .black p (b.paint .red)).fill t, decide (c = .black))) ∨
    (∃ cb q bn bf, b = (Frame.mk s cb q bf).fill bn ∧ bf.rootHue = .red ∧ resolve s c p t b =
      ((Frame.mk s c q (bf.paint .black)).fill ((Frame.mk s .black p bn).fill t), false)) ∨
    (∃ cb q m x y bf, b = (Frame.mk s cb q bf).fill ((Frame.mk s .red m y).fill x) ∧
      bf.rootHue = .black ∧ resolve s c p t b = ((Frame.mk s c m
        ((Frame.mk s .black q bf).fill y)).fill ((Frame.mk s .black p x).fill t), false)) ∨
    (b.rootHue = .red ∧ (b.near s).rootHue = .black ∧ (b.far s).rootHue = .black ∧
      resolve s c p t b = ((Frame.mk s c p b).fill t, false)) := by
  rcases hb : b.view s with _ | ⟨cb, bn, q, bf⟩
  · obtain rfl := view_eq_none.mp hb
    exact .inl ⟨rfl, by simp, by simp, by simp [resolve]⟩
  obtain rfl := view_eq_some.mp hb
  have hnear : ((Frame.mk s cb q bf).fill bn).near s = bn := by cases s <;> rfl
  have hfar : ((Frame.mk s cb q bf).fill bn).far s = bf := by cases s <;> rfl
  rw [hnear, hfar, Frame.rootHue_fill]
  by_cases hblack : cb = .black ∧ bn.rootHue = .black ∧ bf.rootHue = .black
  · exact .inl ⟨hblack.1, hblack.2.1, hblack.2.2, by simp [resolve, hblack]⟩
  by_cases hred : bf.rootHue = .red
  · exact .inr (.inl ⟨cb, q, bn, bf, rfl, hred, by simp [resolve, hred]⟩)
  have hbf : bf.rootHue = .black := Hue.ne_red_iff.mp hred
  rcases hbn : bn.rootHue with _ | _
  · obtain ⟨m, x, y, rfl⟩ : ∃ m x y, bn = (Frame.mk s .red m y).fill x := by
      obtain ⟨l, m, r, rfl⟩ := rootHue_eq_red hbn
      cases s
      exacts [⟨m, l, r, rfl⟩, ⟨m, r, l, rfl⟩]
    exact .inr (.inr (.inl ⟨cb, q, m, x, y, bf, rfl, hbf, by simp [resolve, hbf]⟩))
  · have hcb : cb = .red := by
      rw [← Hue.ne_black_iff]
      exact fun h => hblack ⟨h, hbn, hbf⟩
    refine .inr (.inr (.inr ⟨hcb, rfl, hbf, ?_⟩))
    rcases hv : bn.view s with _ | ⟨c', x, m, y⟩
    · simp [resolve, hcb, hbf, hv]
    · obtain rfl := view_eq_some.mp hv
      obtain rfl : c' = .black := by simpa using hbn
      simp [resolve, hcb, hbf]

theorem toList_resolve (s : Side) (c : Hue) (p : ι) (t b : ColorTree ι) :
    (resolve s c p t b).1.toList = ((Frame.mk s c p b).fill t).toList := by
  obtain ⟨-, -, -, h⟩ | ⟨cb, q, bn, bf, rfl, -, h⟩ | ⟨cb, q, m, x, y, bf, rfl, -, h⟩ |
    ⟨-, -, -, h⟩ := resolve_cases s c p t b <;> rw [h] <;> cases s <;> simp

theorem rootHue_resolve {s : Side} {c : Hue} {p : ι} {t b : ColorTree ι} (hc : c = .black) :
    (resolve s c p t b).1.rootHue = .black := by
  obtain ⟨-, -, -, h⟩ | ⟨cb, q, bn, bf, rfl, -, h⟩ | ⟨cb, q, m, x, y, bf, rfl, -, h⟩ |
    ⟨-, -, -, h⟩ := resolve_cases s c p t b <;> rw [h] <;> simp [hc]

/-- A deficit is only passed on by a black parent. -/
theorem resolve_passes {s : Side} {c : Hue} {p : ι} {t b : ColorTree ι}
    (h : (resolve s c p t b).2 = true) : c = .black := by
  obtain ⟨-, -, -, h'⟩ | ⟨cb, q, bn, bf, rfl, -, h'⟩ | ⟨cb, q, m, x, y, bf, rfl, -, h'⟩ |
    ⟨-, -, -, h'⟩ := resolve_cases s c p t b <;> (rw [h'] at h; simp_all)

/-- With a black sibling and the colour laws, one level is repaired or passes its deficit on. -/
theorem resolve_laws {s : Side} {c : Hue} {p : ι} {t b : ColorTree ι} {h : ℕ}
    (ht : t.rootHue = .black) (htr : RedLaw t) (hth : BlackHeight t h)
    (hb : b.rootHue = .black) (hbr : RedLaw b) (hbh : BlackHeight b (h + 1)) :
    RedLaw (resolve s c p t b).1 ∧ (c = .black → (resolve s c p t b).1.rootHue = .black) ∧
      BlackHeight (resolve s c p t b).1
        (h + c.weight + if (resolve s c p t b).2 then 0 else 1) := by
  refine and_left_comm.mp ⟨fun hc => rootHue_resolve hc, ?_⟩
  obtain ⟨-, hn, hf, hres⟩ | ⟨cb, q, bn, bf, rfl, hf, hres⟩ | ⟨cb, q, m, x, y, bf, rfl, hf, hres⟩ |
    ⟨hred, -, -, hres⟩ := resolve_cases s c p t b
  · rw [hres]
    cases b with
    | nil => simp at hbh
    | node cb l q r =>
      obtain rfl : cb = .black := hb
      have hlr : l.rootHue = .black ∧ r.rootHue = .black := by cases s <;> simp_all [near, far]
      cases s <;> cases c <;> simp_all
  · obtain rfl : cb = .black := by simpa using hb
    obtain ⟨l, m, r, rfl⟩ := rootHue_eq_red hf
    rw [hres]
    cases s <;> cases c <;> simp_all
  · obtain rfl : cb = .black := by simpa using hb
    rw [hres]
    cases s <;> cases c <;> simp_all
  · rw [hred] at hb
    cases hb

/-- The two shapes of `settle`: a red sibling is turned up first. -/
theorem settle_cases (f : Frame ι) (t : ColorTree ι) :
    (∃ q bn bf, f.sibling = (Frame.mk f.side .red q bf).fill bn ∧ settle f t =
      ((Frame.mk f.side .black q bf).fill (resolve f.side .red f.pos t bn).1, false)) ∨
    (f.sibling.rootHue = .black ∧ settle f t = resolve f.side f.hue f.pos t f.sibling) := by
  rcases hv : f.sibling.view f.side with _ | ⟨_ | _, bn, q, bf⟩
  · exact .inr ⟨by rw [view_eq_none.mp hv]; rfl, by simp [settle, hv]⟩
  · exact .inl ⟨q, bn, bf, view_eq_some.mp hv, by simp [settle, hv]⟩
  · exact .inr ⟨by rw [view_eq_some.mp hv]; simp, by simp [settle, hv]⟩

theorem toList_settle (f : Frame ι) (t : ColorTree ι) :
    (settle f t).1.toList = (f.fill t).toList := by
  rcases f with ⟨s, c, p, b⟩
  obtain ⟨q, bn, bf, hb, h⟩ | ⟨-, h⟩ := settle_cases ⟨s, c, p, b⟩ t
  · obtain rfl : b = (Frame.mk s .red q bf).fill bn := hb
    rw [h, Frame.toList_fill, toList_resolve]
    cases s <;> simp [Frame.before, Frame.after]
  · rw [h, toList_resolve]

theorem rootHue_settle {f : Frame ι} {t : ColorTree ι} (hf : f.hue = .black) :
    (settle f t).1.rootHue = .black := by
  obtain ⟨q, bn, bf, hb, h⟩ | ⟨-, h⟩ := settle_cases f t
  · rw [h, Frame.rootHue_fill]
  · rw [h, rootHue_resolve hf]

theorem settle_passes {f : Frame ι} {t : ColorTree ι} (h : (settle f t).2 = true) :
    f.hue = .black := by
  obtain ⟨q, bn, bf, hb, h'⟩ | ⟨-, h'⟩ := settle_cases f t
  · rw [h'] at h
    cases h
  · rw [h'] at h
    exact resolve_passes h

/-- One level of the repair inside a red-black context. -/
theorem settle_laws {f : Frame ι} {ctx : List (Frame ι)} {t : ColorTree ι} {h : ℕ}
    (ht : t.rootHue = .black) (htr : RedLaw t) (hth : BlackHeight t h)
    (hctx : RedContext (f :: ctx) .black) (hbctx : BlackContext (f :: ctx) (h + 1)) :
    RedLaw (settle f t).1 ∧ RedContext ctx (settle f t).1.rootHue ∧
      BlackHeight (settle f t).1 (h + f.hue.weight + if (settle f t).2 then 0 else 1) := by
  obtain ⟨hfb, hsr, hrest⟩ := hctx
  obtain ⟨hsh, -⟩ := hbctx
  obtain ⟨q, bn, bf, hb, hset⟩ | ⟨hb, hset⟩ := settle_cases f t
  · have hhue : f.hue = .black := by
      rw [← Hue.ne_red_iff]
      intro hred
      have := (hfb hred).2
      rw [hb] at this
      simp at this
    rw [hb] at hsr hsh
    obtain ⟨hchild, hbnr, hbfr⟩ := redLaw_fill.mp hsr
    obtain ⟨hbnh, hbfh⟩ := (blackHeight_fill (h := h + 1)).mp hsh
    have hbn : bn.rootHue = .black := (hchild rfl).1
    obtain ⟨hr, -, hbh⟩ := resolve_laws (s := f.side) (c := .red) (p := f.pos)
      ht htr hth hbn hbnr hbnh
    have hpass : (resolve f.side .red f.pos t bn).2 = false := by
      by_contra hcon
      have := resolve_passes (Bool.not_eq_false _ ▸ hcon)
      cases this
    rw [hpass] at hbh
    rw [hset, hhue]
    refine ⟨redLaw_fill.mpr ⟨by simp, hr, hbfr⟩, by simpa using hrest.black, ?_⟩
    exact (blackHeight_fill (f := Frame.mk f.side .black q bf) (h := h + 1)).mpr
      ⟨by simpa using hbh, hbfh⟩
  · obtain ⟨hr, hroot, hbh⟩ := resolve_laws (s := f.side) (c := f.hue) (p := f.pos)
      ht htr hth hb hsr hsh
    rw [hset]
    refine ⟨hr, ?_, hbh⟩
    rcases hc : f.hue with _ | _
    · rw [hc] at hrest
      cases ctx with
      | nil => trivial
      | cons g ctx => exact ⟨fun hg => absurd (hrest.1 hg).1 (by simp), hrest.2⟩
    · rw [hc] at hroot
      rw [hroot rfl]
      exact hrest.black

/-! ### The climb -/

theorem toList_eraseFix (ctx : List (Frame ι)) (t : ColorTree ι) :
    (eraseFix ctx t).toList = (plug ctx t).toList := by
  induction ctx generalizing t with
  | nil => rfl
  | cons f ctx ih =>
    have hlevel : (plug ctx (settle f t).1).toList = (plug ctx (f.fill t)).toList :=
      toList_plug_congr ctx (toList_settle f t)
    rw [eraseFix, plug_cons]
    split
    · rw [ih, hlevel]
    · exact hlevel

/-- A black root stays black when a black subtree is replaced by a black one. -/
theorem rootHue_plug_black {ctx : List (Frame ι)} {t u : ColorTree ι}
    (hp : (plug ctx t).rootHue = .black) (h : t.rootHue = .black → u.rootHue = .black) :
    (plug ctx u).rootHue = .black := by
  induction ctx generalizing t u with
  | nil => exact h hp
  | cons f ctx ih => exact ih hp (by simp)

theorem rootHue_eraseFix {ctx : List (Frame ι)} {t : ColorTree ι}
    (h : (plug ctx t).rootHue = .black) : (eraseFix ctx t).rootHue = .black := by
  induction ctx generalizing t with
  | nil => exact h
  | cons f ctx ih =>
    have hlevel : (plug ctx (settle f t).1).rootHue = .black :=
      rootHue_plug_black (t := f.fill t) h fun hf => rootHue_settle (by simpa using hf)
    rw [eraseFix]
    split
    · exact ih hlevel
    · exact hlevel

/-- **The repair restores the colour laws** when the context obeys them and the subtree in the hole
misses exactly one black node. -/
theorem eraseFix_redBlack {ctx : List (Frame ι)} {t : ColorTree ι} {h : ℕ}
    (hroot : (plug ctx t).rootHue = .black) (ht : t.rootHue = .black) (htr : RedLaw t)
    (hth : BlackHeight t h) (hctx : RedContext ctx .black) (hbctx : BlackContext ctx (h + 1)) :
    RedBlack (eraseFix ctx t) := by
  suffices hs : RedLaw (eraseFix ctx t) ∧ ∃ H, BlackHeight (eraseFix ctx t) H from
    ⟨rootHue_eraseFix hroot, hs.1, hs.2⟩
  clear hroot
  induction ctx generalizing t h with
  | nil => exact ⟨htr, h, hth⟩
  | cons f ctx ih =>
    obtain ⟨hr, hc, hb⟩ := settle_laws ht htr hth hctx hbctx
    rw [eraseFix]
    split
    · next hpass =>
      have hf : f.hue = .black := settle_passes hpass
      have hroot : (settle f t).1.rootHue = .black := rootHue_settle hf
      have hbc : BlackContext ctx (h + 1 + 1) := by simpa [hf] using hbctx.2
      refine ih hroot hr ?_ (hroot ▸ hc) hbc
      simpa [hpass, hf] using hb
    · next hstop =>
      refine ⟨redLaw_plug.mpr ⟨hr, hc⟩, blackHeight_plug.mpr ⟨h + 1 + f.hue.weight, ?_, hbctx.2⟩⟩
      have : h + f.hue.weight + 1 = h + 1 + f.hue.weight := by omega
      simpa [hstop, this] using hb

end Lsf
