import Mathlib.Data.List.Basic
import Mathlib.Data.List.Nodup

/-!
# Red-black trees and their zippers

Binary trees whose nodes carry one of two hues and a payload, together with the list of frames
between a subtree and the root. Everything that comes in a left and a right form is stated once,
for a `Side`: `Frame.fill` is the node constructor seen from one of its children, and `near` and
`far` are the children of a node seen from a side.

The two colour laws are kept apart. `RedLaw` forbids a red child of a red node; `BlackHeight t h`
says that every path of `t` down to a leaf meets exactly `h` black nodes. Both split along a
zipper, which is how a local repair is shown to preserve them.

## Main definitions

* `ColorTree`, `Frame`, `plug` — trees, frames, and a tree put back into its context
* `RedLaw`, `BlackHeight`, `RedBlack` — the colour laws
* `RedContext`, `BlackContext` — what they ask of a context

## Main results

* `toList_plug` — the in-order list of a tree, read off its zipper
* `redLaw_plug`, `blackHeight_plug` — the laws split along a zipper
-/

namespace Lsf

/-- A child is on one side of its parent. -/
inductive Side
  | left
  | right
  deriving DecidableEq, Repr

/-- The opposite side. -/
def Side.other : Side → Side
  | .left => .right
  | .right => .left

@[simp] theorem Side.other_left : Side.left.other = .right := rfl

@[simp] theorem Side.other_right : Side.right.other = .left := rfl

@[simp] theorem Side.other_other (s : Side) : s.other.other = s := by cases s <;> rfl

/-- The two hues of a node. -/
inductive Hue
  | red
  | black
  deriving DecidableEq, Repr

namespace Hue

/-- The contribution of a node to the black height. -/
def weight : Hue → ℕ
  | red => 0
  | black => 1

@[simp] theorem weight_red : red.weight = 0 := rfl

@[simp] theorem weight_black : black.weight = 1 := rfl

theorem ne_red_iff {c : Hue} : c ≠ red ↔ c = black := by cases c <;> simp

theorem ne_black_iff {c : Hue} : c ≠ black ↔ c = red := by cases c <;> simp

end Hue

/-- A binary tree with a hue and a payload at every node. -/
inductive ColorTree (ι : Type)
  | nil
  | node (hue : Hue) (l : ColorTree ι) (pos : ι) (r : ColorTree ι)
  deriving DecidableEq, Repr

/-- One level of a context: the hue and payload of the parent, and the other child. `side` is the
side of the parent on which the hole is. -/
structure Frame (ι : Type) where
  side : Side
  hue : Hue
  pos : ι
  sibling : ColorTree ι
  deriving DecidableEq, Repr

namespace ColorTree

variable {ι : Type}

/-- The payloads in order. -/
def toList : ColorTree ι → List ι
  | nil => []
  | node _ l p r => l.toList ++ p :: r.toList

@[simp] theorem toList_nil : (nil : ColorTree ι).toList = [] := rfl

@[simp] theorem toList_node (c : Hue) (l r : ColorTree ι) (p : ι) :
    (node c l p r).toList = l.toList ++ p :: r.toList := rfl

/-- The hue of the root; an empty tree counts as black. -/
def rootHue : ColorTree ι → Hue
  | nil => .black
  | node c _ _ _ => c

@[simp] theorem rootHue_nil : (nil : ColorTree ι).rootHue = .black := rfl

@[simp] theorem rootHue_node (c : Hue) (l r : ColorTree ι) (p : ι) :
    (node c l p r).rootHue = c := rfl

/-- Repaint the root. -/
def paint (c : Hue) : ColorTree ι → ColorTree ι
  | nil => nil
  | node _ l p r => node c l p r

@[simp] theorem paint_nil (c : Hue) : (nil : ColorTree ι).paint c = nil := rfl

@[simp] theorem paint_node (c c' : Hue) (l r : ColorTree ι) (p : ι) :
    (node c' l p r).paint c = node c l p r := rfl

@[simp] theorem toList_paint (c : Hue) (t : ColorTree ι) : (t.paint c).toList = t.toList := by
  cases t <;> rfl

@[simp] theorem rootHue_paint_black (t : ColorTree ι) : (t.paint .black).rootHue = .black := by
  cases t <;> rfl

/-- The child on the given side. -/
def near : Side → ColorTree ι → ColorTree ι
  | _, nil => nil
  | .left, node _ l _ _ => l
  | .right, node _ _ _ r => r

/-- The child on the other side. -/
def far : Side → ColorTree ι → ColorTree ι
  | _, nil => nil
  | .left, node _ _ _ r => r
  | .right, node _ l _ _ => l

@[simp] theorem near_nil (s : Side) : (nil : ColorTree ι).near s = nil := by cases s <;> rfl

@[simp] theorem far_nil (s : Side) : (nil : ColorTree ι).far s = nil := by cases s <;> rfl

theorem rootHue_eq_red {t : ColorTree ι} (h : t.rootHue = .red) :
    ∃ l p r, t = node .red l p r := by
  cases t with
  | nil => simp at h
  | node c l p r => exact ⟨l, p, r, by rw [← h]; rfl⟩

end ColorTree

open ColorTree

namespace Frame

variable {ι : Type}

/-- The node with the given child on the frame's side and the sibling on the other. -/
def fill (f : Frame ι) (t : ColorTree ι) : ColorTree ι :=
  match f.side with
  | .left => .node f.hue t f.pos f.sibling
  | .right => .node f.hue f.sibling f.pos t

/-- What precedes the hole in order. -/
def before (f : Frame ι) : List ι :=
  match f.side with
  | .left => []
  | .right => f.sibling.toList ++ [f.pos]

/-- What follows the hole in order. -/
def after (f : Frame ι) : List ι :=
  match f.side with
  | .left => f.pos :: f.sibling.toList
  | .right => []

/-- The frame of the same node around its other child. -/
def across (f : Frame ι) (t : ColorTree ι) : Frame ι := ⟨f.side.other, f.hue, f.pos, t⟩

@[simp] theorem fill_left (c : Hue) (p : ι) (b t : ColorTree ι) :
    (Frame.mk .left c p b).fill t = .node c t p b := rfl

@[simp] theorem fill_right (c : Hue) (p : ι) (b t : ColorTree ι) :
    (Frame.mk .right c p b).fill t = .node c b p t := rfl

@[simp] theorem rootHue_fill (f : Frame ι) (t : ColorTree ι) : (f.fill t).rootHue = f.hue := by
  rcases f with ⟨s, c, p, b⟩
  cases s <;> rfl

theorem fill_across (f : Frame ι) (t : ColorTree ι) :
    (f.across t).fill f.sibling = f.fill t := by
  rcases f with ⟨_ | _, c, p, b⟩ <;> rfl

theorem across_across (f : Frame ι) (t u : ColorTree ι) :
    (f.across t).across u = { f with sibling := u } := by
  rcases f with ⟨_ | _, c, p, b⟩ <;> rfl

@[simp] theorem fill_ne_nil (f : Frame ι) (t : ColorTree ι) : f.fill t ≠ .nil := by
  rcases f with ⟨_ | _, c, p, b⟩ <;> simp

theorem toList_fill (f : Frame ι) (t : ColorTree ι) :
    (f.fill t).toList = f.before ++ t.toList ++ f.after := by
  rcases f with ⟨s, c, p, b⟩
  cases s <;> simp [before, after]

@[simp] theorem paint_fill (f : Frame ι) (t : ColorTree ι) (c : Hue) :
    (f.fill t).paint c = ({ f with hue := c } : Frame ι).fill t := by
  rcases f with ⟨_ | _, c', p, b⟩ <;> rfl

/-- Exchanging two neighbouring frames on opposite sides keeps the order: this is a rotation. -/
theorem toList_exchange {f g : Frame ι} (hside : g.side = f.side.other) (t : ColorTree ι) :
    (g.fill (f.fill t)).toList = (f.fill (g.fill t)).toList := by
  rcases f with ⟨_ | _, c, p, a⟩ <;> rcases g with ⟨_ | _, c', q, a'⟩ <;> simp_all

@[simp] theorem near_fill (s : Side) (c : Hue) (p : ι) (b t : ColorTree ι) :
    ((Frame.mk s c p b).fill t).near s = t := by
  cases s <;> rfl

@[simp] theorem near_other_fill (s : Side) (c : Hue) (p : ι) (b t : ColorTree ι) :
    ((Frame.mk s c p b).fill t).near s.other = b := by
  cases s <;> rfl

end Frame

section Zipper

variable {ι : Type}

/-- A tree put back into its context, the innermost frame first. -/
def plug : List (Frame ι) → ColorTree ι → ColorTree ι
  | [], t => t
  | f :: ctx, t => plug ctx (f.fill t)

@[simp] theorem plug_nil (t : ColorTree ι) : plug [] t = t := rfl

@[simp] theorem plug_cons (f : Frame ι) (ctx : List (Frame ι)) (t : ColorTree ι) :
    plug (f :: ctx) t = plug ctx (f.fill t) := rfl

theorem plug_append (ctx ctx' : List (Frame ι)) (t : ColorTree ι) :
    plug (ctx ++ ctx') t = plug ctx' (plug ctx t) := by
  induction ctx generalizing t with
  | nil => rfl
  | cons f ctx ih => exact ih _

/-- What precedes the hole of a context in order. -/
def before : List (Frame ι) → List ι
  | [] => []
  | f :: ctx => before ctx ++ f.before

/-- What follows the hole of a context in order. -/
def after : List (Frame ι) → List ι
  | [] => []
  | f :: ctx => f.after ++ after ctx

@[simp] theorem before_nil : before ([] : List (Frame ι)) = [] := rfl

@[simp] theorem after_nil : after ([] : List (Frame ι)) = [] := rfl

@[simp] theorem before_cons (f : Frame ι) (ctx : List (Frame ι)) :
    before (f :: ctx) = before ctx ++ f.before := rfl

@[simp] theorem after_cons (f : Frame ι) (ctx : List (Frame ι)) :
    after (f :: ctx) = f.after ++ after ctx := rfl

theorem before_append (ctx ctx' : List (Frame ι)) :
    before (ctx ++ ctx') = before ctx' ++ before ctx := by
  induction ctx with
  | nil => simp
  | cons f ctx ih => simp [ih]

theorem after_append (ctx ctx' : List (Frame ι)) :
    after (ctx ++ ctx') = after ctx ++ after ctx' := by
  induction ctx with
  | nil => simp
  | cons f ctx ih => simp [ih]

theorem toList_plug (ctx : List (Frame ι)) (t : ColorTree ι) :
    (plug ctx t).toList = before ctx ++ t.toList ++ after ctx := by
  induction ctx generalizing t with
  | nil => simp
  | cons f ctx ih => simp [ih, f.toList_fill]

/-- The context is no deeper than it has nodes. -/
theorem length_le_of_context (ctx : List (Frame ι)) :
    ctx.length ≤ (before ctx).length + (after ctx).length := by
  induction ctx with
  | nil => simp
  | cons f ctx ih =>
    rcases f with ⟨s, c, p, b⟩
    cases s <;> simp [Frame.before, Frame.after] <;> omega

/-- Trees with the same in-order list may replace each other in any context. -/
theorem toList_plug_congr (ctx : List (Frame ι)) {t u : ColorTree ι} (h : t.toList = u.toList) :
    (plug ctx t).toList = (plug ctx u).toList := by
  rw [toList_plug, toList_plug, h]

theorem rootHue_plug_congr (ctx : List (Frame ι)) {t u : ColorTree ι}
    (h : t.rootHue = u.rootHue) : (plug ctx t).rootHue = (plug ctx u).rootHue := by
  induction ctx generalizing t u with
  | nil => exact h
  | cons f ctx ih => exact ih (by simp)

/-- Every payload of a tree can be brought into focus. -/
theorem exists_plug_of_mem {t : ColorTree ι} {p : ι} (hp : p ∈ t.toList) :
    ∃ ctx c l r, t = plug ctx (.node c l p r) := by
  suffices h : ∀ ctx : List (Frame ι), ∃ ctx' c l r, plug ctx t = plug ctx' (.node c l p r) from
    h []
  induction t with
  | nil => cases hp
  | node c l q r ihl ihr =>
    intro ctx
    rw [toList_node, List.mem_append, List.mem_cons] at hp
    obtain hp | rfl | hp := hp
    · exact ihl hp (⟨.left, c, q, r⟩ :: ctx)
    · exact ⟨ctx, c, l, r, rfl⟩
    · exact ihr hp (⟨.right, c, q, l⟩ :: ctx)

theorem plug_eq_nil {ctx : List (Frame ι)} {t : ColorTree ι} (h : plug ctx t = .nil) :
    ctx = [] := by
  obtain rfl | ⟨ctx, f, rfl⟩ := List.eq_nil_or_concat' ctx
  · rfl
  · rw [plug_append] at h
    exact absurd h (f.fill_ne_nil _)

/-- The outermost frame of a hole is the root of the tree. -/
theorem plug_eq_node {ctx : List (Frame ι)} {c : Hue} {l r : ColorTree ι} {p : ι}
    (h : plug ctx .nil = .node c l p r) : ∃ ctx',
      (ctx = ctx' ++ [⟨.left, c, p, r⟩] ∧ plug ctx' .nil = l) ∨
        (ctx = ctx' ++ [⟨.right, c, p, l⟩] ∧ plug ctx' .nil = r) := by
  obtain rfl | ⟨ctx, ⟨_ | _, c', p', b⟩, rfl⟩ := List.eq_nil_or_concat' ctx
  · cases h
  · rw [plug_append, plug_cons, plug_nil, Frame.fill_left, node.injEq] at h
    obtain ⟨rfl, hl, rfl, rfl⟩ := h
    exact ⟨ctx, .inl ⟨rfl, hl⟩⟩
  · rw [plug_append, plug_cons, plug_nil, Frame.fill_right, node.injEq] at h
    obtain ⟨rfl, rfl, rfl, hr⟩ := h
    exact ⟨ctx, .inr ⟨rfl, hr⟩⟩

end Zipper

/-! ### The colour laws -/

section Laws

variable {ι : Type}

/-- No red node has a red child. -/
def RedLaw : ColorTree ι → Prop
  | .nil => True
  | .node c l _ r => (c = .red → l.rootHue = .black ∧ r.rootHue = .black) ∧ RedLaw l ∧ RedLaw r

/-- Every path from the root to a leaf meets exactly `h` black nodes. -/
def BlackHeight : ColorTree ι → ℕ → Prop
  | .nil, h => h = 0
  | .node c l _ r, h => ∃ k, h = k + c.weight ∧ BlackHeight l k ∧ BlackHeight r k

/-- The laws of a red-black tree: a black root, no red child of a red node, and one black height
for all paths. -/
structure RedBlack (t : ColorTree ι) : Prop where
  root_black : t.rootHue = .black
  red_law : RedLaw t
  black_height : ∃ h, BlackHeight t h

@[simp] theorem redLaw_nil : RedLaw (.nil : ColorTree ι) := trivial

@[simp] theorem redLaw_node {c : Hue} {l r : ColorTree ι} {p : ι} : RedLaw (.node c l p r) ↔
    (c = .red → l.rootHue = .black ∧ r.rootHue = .black) ∧ RedLaw l ∧ RedLaw r := Iff.rfl

@[simp] theorem blackHeight_nil {h : ℕ} : BlackHeight (.nil : ColorTree ι) h ↔ h = 0 := Iff.rfl

@[simp] theorem blackHeight_red {l r : ColorTree ι} {p : ι} {h : ℕ} :
    BlackHeight (.node .red l p r) h ↔ BlackHeight l h ∧ BlackHeight r h := by
  simp [BlackHeight]

@[simp] theorem blackHeight_black_succ {l r : ColorTree ι} {p : ι} {h : ℕ} :
    BlackHeight (.node .black l p r) (h + 1) ↔ BlackHeight l h ∧ BlackHeight r h := by
  simp [BlackHeight]

@[simp] theorem not_blackHeight_black_zero {l r : ColorTree ι} {p : ι} :
    ¬ BlackHeight (.node .black l p r) 0 := by
  simp [BlackHeight]

theorem BlackHeight.weight {c : Hue} {l r : ColorTree ι} {p : ι} {h : ℕ} :
    BlackHeight (.node c l p r) (h + c.weight) ↔ BlackHeight l h ∧ BlackHeight r h := by
  cases c <;> simp

theorem RedLaw.paint_black {t : ColorTree ι} (h : RedLaw t) : RedLaw (t.paint .black) := by
  cases t with
  | nil => exact h
  | node c l p r => exact ⟨by simp, h.2⟩

/-- The red law of a context, for a hole that a tree with the given root hue fills. -/
def RedContext : List (Frame ι) → Hue → Prop
  | [], _ => True
  | f :: ctx, c => (f.hue = .red → c = .black ∧ f.sibling.rootHue = .black) ∧
      RedLaw f.sibling ∧ RedContext ctx f.hue

/-- Every path through a context meets as many black nodes as the siblings, when the hole is
filled with black height `h`. -/
def BlackContext : List (Frame ι) → ℕ → Prop
  | [], _ => True
  | f :: ctx, h => BlackHeight f.sibling h ∧ BlackContext ctx (h + f.hue.weight)

@[simp] theorem redContext_nil {c : Hue} : RedContext ([] : List (Frame ι)) c := trivial

@[simp] theorem blackContext_nil {h : ℕ} : BlackContext ([] : List (Frame ι)) h := trivial

@[simp] theorem redContext_cons {f : Frame ι} {ctx : List (Frame ι)} {c : Hue} :
    RedContext (f :: ctx) c ↔ (f.hue = .red → c = .black ∧ f.sibling.rootHue = .black) ∧
      RedLaw f.sibling ∧ RedContext ctx f.hue := Iff.rfl

@[simp] theorem blackContext_cons {f : Frame ι} {ctx : List (Frame ι)} {h : ℕ} :
    BlackContext (f :: ctx) h ↔
      BlackHeight f.sibling h ∧ BlackContext ctx (h + f.hue.weight) := Iff.rfl

theorem redLaw_fill {f : Frame ι} {t : ColorTree ι} : RedLaw (f.fill t) ↔
    (f.hue = .red → t.rootHue = .black ∧ f.sibling.rootHue = .black) ∧
      RedLaw t ∧ RedLaw f.sibling := by
  rcases f with ⟨s, c, p, b⟩
  cases s <;> simp [and_comm]

theorem blackHeight_fill {f : Frame ι} {t : ColorTree ι} {h : ℕ} :
    BlackHeight (f.fill t) (h + f.hue.weight) ↔ BlackHeight t h ∧ BlackHeight f.sibling h := by
  rcases f with ⟨s, c, p, b⟩
  cases s <;> simp [BlackHeight.weight, and_comm]

theorem redLaw_plug {ctx : List (Frame ι)} {t : ColorTree ι} :
    RedLaw (plug ctx t) ↔ RedLaw t ∧ RedContext ctx t.rootHue := by
  induction ctx generalizing t with
  | nil => simp
  | cons f ctx ih =>
    simp only [plug_cons, ih, redLaw_fill, redContext_cons, Frame.rootHue_fill]
    tauto

theorem blackHeight_plug {ctx : List (Frame ι)} {t : ColorTree ι} :
    (∃ H, BlackHeight (plug ctx t) H) ↔ ∃ h, BlackHeight t h ∧ BlackContext ctx h := by
  induction ctx generalizing t with
  | nil => simp
  | cons f ctx ih =>
    rw [plug_cons, ih]
    constructor
    · rintro ⟨h, ht, hctx⟩
      obtain ⟨k, rfl⟩ : ∃ k, h = k + f.hue.weight := by
        rcases f with ⟨s, c, p, b⟩
        cases s <;> obtain ⟨k, hk, -⟩ := ht <;> exact ⟨k, hk⟩
      obtain ⟨ht, hb⟩ := blackHeight_fill.mp ht
      exact ⟨k, ht, hb, hctx⟩
    · rintro ⟨h, ht, hb, hctx⟩
      exact ⟨h + f.hue.weight, blackHeight_fill.mpr ⟨ht, hb⟩, hctx⟩

/-- A context that tolerates a red hole tolerates a black one. -/
theorem RedContext.black {ctx : List (Frame ι)} {c : Hue} (h : RedContext ctx c) :
    RedContext ctx .black := by
  cases ctx with
  | nil => trivial
  | cons f ctx => exact ⟨fun hf => ⟨rfl, (h.1 hf).2⟩, h.2⟩

end Laws

end Lsf
