import Lsf.Foundations.ColorRepair
import Lsf.Foundations.LinkedRing
import Lsf.Container.RedBlackTree
import Mathlib.Data.List.Range

/-!
# What a block of slots represents

`Rep s n m t free loose d` says that the block `s` of capacity `n` stores the tree of positions
`t`, that `free` is its empty list, that the positions `loose` are in neither, and that the slots
hold the data `d`. It is the one invariant of the development: every operation of the source is
specified by the `Rep` it starts from and the `Rep` it ends in.

A tree is looked at through a zipper. As `plug` unfolds one frame at a time, the same `Rep` can be
read at any node of the tree: `Rep.up`, `Rep.down` and `Rep.across` move the focus.

## Main definitions

* `Links`, `State.links`, `State.relink` — the link fields of a slot, and their assignment
* `Holds`, `HoldsContext` — the links of a tree and of a context
* `Rep` — the representation relation

## Main results

* `Rep.setColor_pos`, `Rep.setColor_frame`, `Rep.setColor_sibling` — recolouring around the focus
-/

namespace Lsf.RBTree

open ColorTree

variable {α : Type}

/-! ### Links -/

/-- The fields of a slot other than its data. -/
structure Links where
  lchild : ℕ
  rchild : ℕ
  parent : ℕ
  color : Color

namespace Links

/-- The child field of a side. -/
def child : Side → Links → ℕ
  | .left, x => x.lchild
  | .right, x => x.rchild

/-- Assignment to the child field of a side. -/
def setChild : Side → ℕ → Links → Links
  | .left, v, x => { x with lchild := v }
  | .right, v, x => { x with rchild := v }

@[simp] theorem child_left (x : Links) : x.child .left = x.lchild := rfl

@[simp] theorem child_right (x : Links) : x.child .right = x.rchild := rfl

@[simp] theorem setChild_left (x : Links) (v : ℕ) :
    x.setChild .left v = { x with lchild := v } := rfl

@[simp] theorem setChild_right (x : Links) (v : ℕ) :
    x.setChild .right v = { x with rchild := v } := rfl

end Links

namespace State

variable (s : State α)

/-- The links of the slot at a position. -/
def links (pos : ℕ) : Links :=
  ⟨(s.node pos).lchildPos, (s.node pos).rchildPos, (s.node pos).parentPos, (s.node pos).color⟩

/-- The data of the slot at a position. -/
def data (pos : ℕ) : α := (s.node pos).data

/-- The child of a position on a side; the NIL position is its own child. -/
def child (side : Side) (pos : ℕ) : ℕ := if pos = NPOS then NPOS else (s.links pos).child side

@[simp] theorem child_npos (side : Side) : s.child side NPOS = NPOS := rfl

/-- Assign to the links of a position. -/
def relink (pos : ℕ) (g : Links → Links) : State α :=
  { s with
    node := Function.update s.node pos
      ⟨(g (s.links pos)).lchild, (g (s.links pos)).rchild, (g (s.links pos)).parent, s.data pos,
        (g (s.links pos)).color⟩ }

/-- Assign the data of a position. -/
def withData (pos : ℕ) (val : α) : State α :=
  { s with node := Function.update s.node pos { s.node pos with data := val } }

@[simp] theorem links_relink (pos : ℕ) (g : Links → Links) :
    (s.relink pos g).links = Function.update s.links pos (g (s.links pos)) := by
  funext x
  by_cases h : x = pos
  · subst h
    simp [links, relink]
  · simp [links, relink, h]

theorem child_relink_of_ne {pos x : ℕ} (h : x ≠ pos) (g : Links → Links) (side : Side) :
    (s.relink pos g).child side x = s.child side x := by
  rw [child, child, links_relink, Function.update_of_ne h]

@[simp] theorem data_relink (pos : ℕ) (g : Links → Links) : (s.relink pos g).data = s.data := by
  funext x
  by_cases h : x = pos
  · subst h
    simp [data, relink]
  · simp [data, relink, h]

@[simp] theorem links_withData (pos : ℕ) (val : α) : (s.withData pos val).links = s.links := by
  funext x
  by_cases h : x = pos
  · subst h
    simp [links, withData]
  · simp [links, withData, h]

@[simp] theorem data_withData (pos : ℕ) (val : α) :
    (s.withData pos val).data = Function.update s.data pos val := by
  funext x
  by_cases h : x = pos
  · subst h
    simp [data, withData]
  · simp [data, withData, h]

section Fields

variable (pos : ℕ) (g : Links → Links) (val : α)

@[simp] theorem slots_relink : (s.relink pos g).slots = s.slots := by rw [relink]

@[simp] theorem maxSize_relink : (s.relink pos g).maxSize = s.maxSize := rfl

@[simp] theorem size_relink : (s.relink pos g).size = s.size := rfl

@[simp] theorem rootPos_relink : (s.relink pos g).rootPos = s.rootPos := rfl

@[simp] theorem emptyHeadPos_relink : (s.relink pos g).emptyHeadPos = s.emptyHeadPos := rfl

@[simp] theorem slots_withData : (s.withData pos val).slots = s.slots := by rw [withData]

@[simp] theorem maxSize_withData : (s.withData pos val).maxSize = s.maxSize := rfl

@[simp] theorem size_withData : (s.withData pos val).size = s.size := rfl

@[simp] theorem rootPos_withData : (s.withData pos val).rootPos = s.rootPos := rfl

@[simp] theorem emptyHeadPos_withData : (s.withData pos val).emptyHeadPos = s.emptyHeadPos := rfl

@[simp] theorem slots_setRoot (r : ℕ) : ({ s with rootPos := r } : State α).slots = s.slots := rfl

@[simp] theorem links_setRoot (r : ℕ) : ({ s with rootPos := r } : State α).links = s.links := rfl

@[simp] theorem data_setRoot (r : ℕ) : ({ s with rootPos := r } : State α).data = s.data := rfl

@[simp] theorem links_setEmptyHead (r : ℕ) :
    ({ s with emptyHeadPos := r } : State α).links = s.links := rfl

@[simp] theorem data_setEmptyHead (r : ℕ) :
    ({ s with emptyHeadPos := r } : State α).data = s.data := rfl

@[simp] theorem links_setSize (r : ℕ) : ({ s with size := r } : State α).links = s.links := rfl

@[simp] theorem data_setSize (r : ℕ) : ({ s with size := r } : State α).data = s.data := rfl

end Fields

/-- Two states that differ in link fields only. -/
structure Agrees (s' : State α) : Prop where
  slots : s'.slots = s.slots
  maxSize : s'.maxSize = s.maxSize
  size : s'.size = s.size
  rootPos : s'.rootPos = s.rootPos
  emptyHeadPos : s'.emptyHeadPos = s.emptyHeadPos
  data : s'.data = s.data

theorem Agrees.refl : s.Agrees s := ⟨rfl, rfl, rfl, rfl, rfl, rfl⟩

theorem Agrees.trans {s s' s'' : State α} (h : s.Agrees s') (h' : s'.Agrees s'') :
    s.Agrees s'' :=
  ⟨h'.slots.trans h.slots, h'.maxSize.trans h.maxSize, h'.size.trans h.size,
    h'.rootPos.trans h.rootPos, h'.emptyHeadPos.trans h.emptyHeadPos, h'.data.trans h.data⟩

theorem Agrees.relink {s s' : State α} (h : s.Agrees s') (pos : ℕ) (g : Links → Links) :
    s.Agrees (s'.relink pos g) :=
  ⟨h.slots, h.maxSize, h.size, h.rootPos, h.emptyHeadPos, by rw [data_relink, h.data]⟩

end State

/-! ### Execution -/

section Execution

variable {s : State α} {pos : ℕ} (hp : pos < s.slots)

include hp

theorem ensures_load {Q : Node α → State α → Prop} :
    Ensures (load pos) s Q ↔ Q (s.node pos) s := by
  have hrun : (load pos : Prog α (Node α)).run s = some (s.node pos, s) := if_pos hp
  exact ⟨fun h => h.elim hrun, Ensures.of_run hrun⟩

theorem ensures_store {f : Node α → Node α} {Q : Unit → State α → Prop} :
    Ensures (store pos f) s Q ↔
      Q () { s with node := Function.update s.node pos (f (s.node pos)) } := by
  have hrun : (store pos f : Prog α Unit).run s =
      some ((), { s with node := Function.update s.node pos (f (s.node pos)) }) := if_pos hp
  exact ⟨fun h => h.elim hrun, Ensures.of_run hrun⟩

@[simp] theorem ensures_getLChildPos {Q : ℕ → State α → Prop} :
    Ensures (getLChildPos pos) s Q ↔ Q (s.child .left pos) s := by
  by_cases h : pos = NPOS
  · simp [getLChildPos, State.child, h]
  · simp only [getLChildPos, if_neg h, ensures_bind, ensures_load hp, ensures_pure]
    rw [State.child, if_neg h]
    rfl

@[simp] theorem ensures_getRChildPos {Q : ℕ → State α → Prop} :
    Ensures (getRChildPos pos) s Q ↔ Q (s.child .right pos) s := by
  by_cases h : pos = NPOS
  · simp [getRChildPos, State.child, h]
  · simp only [getRChildPos, if_neg h, ensures_bind, ensures_load hp, ensures_pure]
    rw [State.child, if_neg h]
    rfl

@[simp] theorem ensures_getParentPos {Q : ℕ → State α → Prop} :
    Ensures (getParentPos pos) s Q ↔ Q (s.links pos).parent s := by
  simp only [getParentPos, ensures_bind, ensures_load hp, ensures_pure]
  rfl

@[simp] theorem ensures_getColor {Q : Color → State α → Prop} :
    Ensures (getColor pos) s Q ↔ Q (s.links pos).color s := by
  simp only [getColor, ensures_bind, ensures_load hp, ensures_pure]
  rfl

@[simp] theorem ensures_getData {Q : α → State α → Prop} :
    Ensures (getData pos) s Q ↔ Q (s.data pos) s := by
  simp only [getData, ensures_bind, ensures_load hp, ensures_pure]
  rfl

@[simp] theorem ensures_setLChildPos {v : ℕ} {Q : Unit → State α → Prop} :
    Ensures (setLChildPos pos v) s Q ↔ Q () (s.relink pos (Links.setChild .left v)) :=
  ensures_store hp

@[simp] theorem ensures_setRChildPos {v : ℕ} {Q : Unit → State α → Prop} :
    Ensures (setRChildPos pos v) s Q ↔ Q () (s.relink pos (Links.setChild .right v)) :=
  ensures_store hp

@[simp] theorem ensures_setParentPos {v : ℕ} {Q : Unit → State α → Prop} :
    Ensures (setParentPos pos v) s Q ↔ Q () (s.relink pos fun x => { x with parent := v }) :=
  ensures_store hp

@[simp] theorem ensures_setColor {c : Color} {Q : Unit → State α → Prop} :
    Ensures (setColor pos c) s Q ↔ Q () (s.relink pos fun x => { x with color := c }) :=
  ensures_store hp

@[simp] theorem ensures_setData {v : α} {Q : Unit → State α → Prop} :
    Ensures (setData pos v) s Q ↔ Q () (s.withData pos v) :=
  ensures_store hp

end Execution

section Execution

variable {s : State α}

@[simp] theorem ensures_getRootPos {Q : ℕ → State α → Prop} :
    Ensures getRootPos s Q ↔ Q s.rootPos s := by
  simp [getRootPos]

@[simp] theorem ensures_setRootPos {r : ℕ} {Q : Unit → State α → Prop} :
    Ensures (setRootPos r) s Q ↔ Q () { s with rootPos := r } := ensures_modify

@[simp] theorem ensures_getEmptyHeadPos {Q : ℕ → State α → Prop} :
    Ensures getEmptyHeadPos s Q ↔ Q s.emptyHeadPos s := by
  simp [getEmptyHeadPos]

@[simp] theorem ensures_setEmptyHeadPos {r : ℕ} {Q : Unit → State α → Prop} :
    Ensures (setEmptyHeadPos r) s Q ↔ Q () { s with emptyHeadPos := r } := ensures_modify

@[simp] theorem ensures_incSize {Q : Unit → State α → Prop} :
    Ensures incSize s Q ↔ Q () { s with size := s.size + 1 } := ensures_modify

@[simp] theorem ensures_decSize {Q : Unit → State α → Prop} :
    Ensures decSize s Q ↔ Q () { s with size := s.size - 1 } := ensures_modify

end Execution

end Lsf.RBTree

/-! ### The links of a tree -/

namespace Lsf

/-- The color field of a hue. -/
def Hue.color : Hue → RBTree.Color
  | .red => .red
  | .black => .black

@[simp] theorem Hue.color_red : Hue.red.color = .red := rfl

@[simp] theorem Hue.color_black : Hue.black.color = .black := rfl

@[simp] theorem Hue.color_inj {c c' : Hue} : c.color = c'.color ↔ c = c' := by
  cases c <;> cases c' <;> simp [Hue.color]

/-- The position of the root; the empty tree is at the NIL position. -/
def ColorTree.pos : ColorTree ℕ → ℕ
  | .nil => RBTree.NPOS
  | .node _ _ p _ => p

/-- The links of the node of a frame whose hole is at `top` and whose parent is `q`. -/
def Frame.links (f : Frame ℕ) (top q : ℕ) : RBTree.Links :=
  match f.side with
  | .left => ⟨top, f.sibling.pos, q, f.hue.color⟩
  | .right => ⟨f.sibling.pos, top, q, f.hue.color⟩

end Lsf

namespace Lsf.RBTree

open ColorTree

variable {α : Type}

@[simp] theorem pos_nil : (nil : ColorTree ℕ).pos = NPOS := rfl

@[simp] theorem pos_node (c : Hue) (l r : ColorTree ℕ) (p : ℕ) : (node c l p r).pos = p := rfl

@[simp] theorem pos_fill (f : Frame ℕ) (t : ColorTree ℕ) : (f.fill t).pos = f.pos := by
  rcases f with ⟨_ | _, c, p, b⟩ <;> rfl

@[simp] theorem pos_paint (c : Hue) (t : ColorTree ℕ) : (t.paint c).pos = t.pos := by
  cases t <;> rfl

theorem pos_mem {t : ColorTree ℕ} (ht : t ≠ nil) : t.pos ∈ t.toList := by
  cases t with
  | nil => exact absurd rfl ht
  | node c l p r => simp

theorem setChild_links (f : Frame ℕ) (top q v : ℕ) :
    (f.links top q).setChild f.side v = f.links v q := by
  rcases f with ⟨_ | _, c, p, b⟩ <;> rfl

theorem parent_links (f : Frame ℕ) (top q v : ℕ) :
    { f.links top q with parent := v } = f.links top v := by
  rcases f with ⟨_ | _, c, p, b⟩ <;> rfl

/-- The position of the innermost frame: the parent of the hole. -/
def contextPos : List (Frame ℕ) → ℕ
  | [] => NPOS
  | f :: _ => f.pos

@[simp] theorem contextPos_nil : contextPos [] = NPOS := rfl

@[simp] theorem contextPos_cons (f : Frame ℕ) (ctx : List (Frame ℕ)) :
    contextPos (f :: ctx) = f.pos := rfl

/-- The positions of a context. -/
def contextList : List (Frame ℕ) → List ℕ
  | [] => []
  | f :: ctx => f.pos :: (f.sibling.toList ++ contextList ctx)

@[simp] theorem contextList_nil : contextList [] = [] := rfl

@[simp] theorem contextList_cons (f : Frame ℕ) (ctx : List (Frame ℕ)) :
    contextList (f :: ctx) = f.pos :: (f.sibling.toList ++ contextList ctx) := rfl

theorem toList_fill_perm (f : Frame ℕ) (t : ColorTree ℕ) :
    (f.fill t).toList.Perm (t.toList ++ f.pos :: f.sibling.toList) := by
  rcases f with ⟨_ | _, c, p, b⟩
  · rfl
  · exact List.perm_append_comm.trans (by simp [List.perm_middle.symm])

theorem toList_plug_perm (ctx : List (Frame ℕ)) (t : ColorTree ℕ) :
    (plug ctx t).toList.Perm (t.toList ++ contextList ctx) := by
  induction ctx generalizing t with
  | nil => simp
  | cons f ctx ih =>
    refine (ih (f.fill t)).trans ?_
    simpa using (toList_fill_perm f t).append_right (contextList ctx)

theorem pos_plug_congr (ctx : List (Frame ℕ)) {t u : ColorTree ℕ} (h : t.pos = u.pos) :
    (plug ctx t).pos = (plug ctx u).pos := by
  induction ctx generalizing t u with
  | nil => exact h
  | cons f ctx ih => exact ih (by simp)

/-- The links of the nodes of a tree whose root hangs below `q`. -/
def Holds (links : ℕ → Links) : ℕ → ColorTree ℕ → Prop
  | _, .nil => True
  | q, .node c l p r => p ≠ NPOS ∧ links p = ⟨l.pos, r.pos, q, c.color⟩ ∧
      Holds links p l ∧ Holds links p r

/-- The links of the nodes of a context whose hole is filled with a tree at `top`. -/
def HoldsContext (links : ℕ → Links) : List (Frame ℕ) → ℕ → Prop
  | [], _ => True
  | f :: ctx, top => f.pos ≠ NPOS ∧ links f.pos = f.links top (contextPos ctx) ∧
      Holds links f.pos f.sibling ∧ HoldsContext links ctx f.pos

section Holds

variable {links links' : ℕ → Links} {q q' top : ℕ} {t : ColorTree ℕ} {f : Frame ℕ}
  {ctx : List (Frame ℕ)}

@[simp] theorem holds_nil : Holds links q nil := trivial

@[simp] theorem holds_node {c : Hue} {l r : ColorTree ℕ} {p : ℕ} : Holds links q (node c l p r) ↔
    p ≠ NPOS ∧ links p = ⟨l.pos, r.pos, q, c.color⟩ ∧ Holds links p l ∧ Holds links p r := Iff.rfl

theorem holds_fill : Holds links q (f.fill t) ↔ f.pos ≠ NPOS ∧ links f.pos = f.links t.pos q ∧
    Holds links f.pos f.sibling ∧ Holds links f.pos t := by
  rcases f with ⟨_ | _, c, p, b⟩
  · simp [Frame.links, and_comm]
  · rfl

theorem holds_plug : Holds links NPOS (plug ctx t) ↔
    Holds links (contextPos ctx) t ∧ HoldsContext links ctx t.pos := by
  induction ctx generalizing t with
  | nil => simp [HoldsContext]
  | cons f ctx ih =>
    rw [plug_cons, ih, holds_fill, HoldsContext, contextPos_cons, pos_fill]
    tauto

/-- A tree depends only on the links of its own nodes. -/
theorem Holds.congr (h : Holds links q t) (hl : ∀ x ∈ t.toList, links' x = links x) :
    Holds links' q t := by
  induction t generalizing q with
  | nil => trivial
  | node c l p r ihl ihr =>
    obtain ⟨hp, hlinks, hl', hr'⟩ := h
    refine ⟨hp, (hl p (by simp)).trans hlinks, ihl hl' fun x hx => hl x (by simp [hx]),
      ihr hr' fun x hx => hl x (by simp [hx])⟩

/-- A tree may be hung below another parent. -/
theorem Holds.reparent (h : Holds links q t)
    (hroot : t ≠ nil → links' t.pos = { links t.pos with parent := q' })
    (hl : ∀ x ∈ t.toList, x ≠ t.pos → links' x = links x) (hn : t.toList.Nodup) :
    Holds links' q' t := by
  cases t with
  | nil => trivial
  | node c l p r =>
    obtain ⟨hp, hlinks, hl', hr'⟩ := h
    have hne : ∀ x, x ∈ l.toList ∨ x ∈ r.toList → x ≠ p := by
      rintro x hx rfl
      simp only [toList_node, List.nodup_append, List.nodup_cons] at hn
      rcases hx with hx | hx
      · exact hn.2.2 x hx x (by simp) rfl
      · exact hn.2.1.1 hx
    refine ⟨hp, ?_, hl'.congr fun x hx => hl x (by simp [hx]) (hne x (.inl hx)),
      hr'.congr fun x hx => hl x (by simp [hx]) (hne x (.inr hx))⟩
    rw [pos_node] at hroot
    rw [hroot (by simp), hlinks]

theorem HoldsContext.congr (h : HoldsContext links ctx top)
    (hl : ∀ x ∈ contextList ctx, links' x = links x) : HoldsContext links' ctx top := by
  induction ctx generalizing top with
  | nil => trivial
  | cons f ctx ih =>
    obtain ⟨hp, hf, hs, hc⟩ := h
    exact ⟨hp, (hl _ (by simp)).trans hf, hs.congr fun x hx => hl x (by simp [hx]),
      ih hc fun x hx => hl x (by simp [hx])⟩

/-- A context may be filled with another tree: only its innermost frame changes. -/
theorem HoldsContext.rehang (h : HoldsContext links ctx top) (hn : (contextList ctx).Nodup)
    (hf : ∀ f ∈ ctx.head?, links' f.pos = (links f.pos).setChild f.side q)
    (hl : ∀ x ∈ contextList ctx, x ≠ contextPos ctx → links' x = links x) :
    HoldsContext links' ctx q := by
  cases ctx with
  | nil => trivial
  | cons f ctx =>
    obtain ⟨hp, hlinks, hs, hc⟩ := h
    simp only [contextList_cons, List.nodup_cons, List.mem_append, not_or] at hn
    have hne : ∀ x, x ∈ f.sibling.toList ∨ x ∈ contextList ctx → x ≠ f.pos := by
      rintro x hx rfl
      exact hx.elim hn.1.1 hn.1.2
    refine ⟨hp, ?_, hs.congr fun x hx => hl x (by simp [hx]) (hne x (.inl hx)),
      hc.congr fun x hx => hl x (by simp [hx]) (hne x (.inr hx))⟩
    rw [hf f rfl, hlinks]
    rcases f with ⟨_ | _, c, p, b⟩ <;> rfl

end Holds

/-! ### The representation relation -/

/-- The block `s` of capacity `n` stores the tree `t`, the empty list `free` and the data `d`; its
size field is `m`, and the positions `loose` are in neither structure. -/
structure Rep (s : State α) (n m : ℕ) (t : ColorTree ℕ) (free loose : List ℕ) (d : ℕ → α) :
    Prop where
  slots : s.slots = n + 1
  maxSize : s.maxSize = n + 1
  size : s.size = m
  root : s.rootPos = t.pos
  tree : Holds s.links NPOS t
  nil_black : (s.links NPOS).color = .black
  head : s.emptyHeadPos = free.headD NPOS
  ring : IsRing (fun x => (s.links x).rchild) (fun x => (s.links x).lchild) free
  part : (t.toList ++ free ++ loose).Perm (List.range' 1 n)
  data : s.data = d

namespace Rep

variable {s s' : State α} {n m : ℕ} {t : ColorTree ℕ} {f g : Frame ℕ} {ctx : List (Frame ℕ)}
  {free loose : List ℕ} {d : ℕ → α}

section Focus

variable (h : Rep s n m (plug ctx t) free loose d)

include h

theorem nodup : (t.toList ++ contextList ctx ++ free ++ loose).Nodup := by
  have hperm := ((toList_plug_perm ctx t).append_right free).append_right loose
  exact hperm.nodup_iff.mp (h.part.nodup_iff.mpr List.nodup_range')

theorem mem_iff {x : ℕ} :
    x ∈ t.toList ++ contextList ctx ++ free ++ loose ↔ 1 ≤ x ∧ x ≤ n := by
  have hperm := ((toList_plug_perm ctx t).append_right free).append_right loose
  rw [← hperm.mem_iff, h.part.mem_iff, List.mem_range'_1]
  omega

/-- The partition of the slots, seen from the focus. -/
theorem focus_part : (t.toList ++ contextList ctx ++ free ++ loose).Perm (List.range' 1 n) :=
  ((((toList_plug_perm ctx t).append_right free).append_right loose).symm).trans h.part

theorem npos_lt : NPOS < s.slots := by
  rw [h.slots]
  exact Nat.succ_pos n

theorem lt_slots {x : ℕ} (hx : x ∈ t.toList ++ contextList ctx ++ free ++ loose) :
    x < s.slots := by
  rw [h.slots]
  exact Nat.lt_succ_of_le (h.mem_iff.mp hx).2

theorem ne_npos {x : ℕ} (hx : x ∈ t.toList ++ contextList ctx ++ free ++ loose) : x ≠ NPOS :=
  Nat.one_le_iff_ne_zero.mp (h.mem_iff.mp hx).1

theorem pos_lt : t.pos < s.slots := by
  cases t with
  | nil => exact h.npos_lt
  | node c l p r => exact h.lt_slots (by simp)

theorem contextPos_lt : contextPos ctx < s.slots := by
  cases ctx with
  | nil => exact h.npos_lt
  | cons f ctx => exact h.lt_slots (by simp)

theorem holds : Holds s.links (contextPos ctx) t := (holds_plug.mp h.tree).1

theorem holdsContext : HoldsContext s.links ctx t.pos := (holds_plug.mp h.tree).2

theorem color_pos : (s.links t.pos).color = t.rootHue.color := by
  cases t with
  | nil => exact h.nil_black
  | node c l p r => rw [pos_node, h.holds.2.1]; rfl

theorem child_pos (side : Side) : s.child side t.pos = (t.near side).pos := by
  cases t with
  | nil => cases side <;> rfl
  | node c l p r =>
    rw [State.child, pos_node, if_neg h.holds.1, h.holds.2.1]
    cases side <;> rfl

/-- The context is shallower than the block has slots, so a climb has enough rounds. -/
theorem depth_lt : ctx.length + t.toList.length < s.slots := by
  have hlen := h.part.length_eq
  have hdepth := length_le_of_context ctx
  simp only [toList_plug, List.length_append, List.length_range'] at hlen
  rw [h.slots]
  omega

/-- Nothing of a tree at the focus changes when another tree with the same positions takes its
place and the block is changed accordingly. -/
theorem part_congr {u : ColorTree ℕ} {ctx' : List (Frame ℕ)}
    (hl : (plug ctx' u).toList.Perm (plug ctx t).toList) :
    ((plug ctx' u).toList ++ free ++ loose).Perm (List.range' 1 n) :=
  ((hl.append_right free).append_right loose).trans h.part

end Focus

/-! ### Moving the focus -/

theorem up (h : Rep s n m (plug (f :: ctx) t) free loose d) :
    Rep s n m (plug ctx (f.fill t)) free loose d := h

theorem down (h : Rep s n m (plug ctx (f.fill t)) free loose d) :
    Rep s n m (plug (f :: ctx) t) free loose d := h

theorem across (h : Rep s n m (plug (f :: ctx) t) free loose d) :
    Rep s n m (plug (f.across t :: ctx) f.sibling) free loose d := by
  rw [plug_cons, Frame.fill_across]
  exact h

theorem frame_links (h : Rep s n m (plug (f :: ctx) t) free loose d) :
    s.links f.pos = f.links t.pos (contextPos ctx) := h.holdsContext.2.1

theorem frame_ne (h : Rep s n m (plug (f :: ctx) t) free loose d) : f.pos ≠ NPOS :=
  h.holdsContext.1

theorem frame_lt (h : Rep s n m (plug (f :: ctx) t) free loose d) : f.pos < s.slots :=
  h.contextPos_lt

/-- Read the links of a node at the focus. -/
theorem node_links {c : Hue} {l r : ColorTree ℕ} {p : ℕ}
    (h : Rep s n m (plug ctx (node c l p r)) free loose d) :
    s.links p = ⟨l.pos, r.pos, contextPos ctx, c.color⟩ := h.holds.2.1

theorem node_ne {c : Hue} {l r : ColorTree ℕ} {p : ℕ}
    (h : Rep s n m (plug ctx (node c l p r)) free loose d) : p ≠ NPOS := h.holds.1

theorem node_child {c : Hue} {l r : ColorTree ℕ} {p : ℕ}
    (h : Rep s n m (plug ctx (node c l p r)) free loose d) :
    s.child .left p = l.pos ∧ s.child .right p = r.pos :=
  ⟨h.child_pos .left, h.child_pos .right⟩

theorem node_lt {c : Hue} {l r : ColorTree ℕ} {p : ℕ}
    (h : Rep s n m (plug ctx (node c l p r)) free loose d) : p < s.slots := h.pos_lt

/-- The child of the parent on the side of the focus, and on the other side. -/
theorem frame_child (h : Rep s n m (plug (f :: ctx) t) free loose d) :
    s.child f.side f.pos = t.pos ∧ s.child f.side.other f.pos = f.sibling.pos := by
  rw [State.child, State.child, if_neg h.frame_ne, if_neg h.frame_ne, h.frame_links]
  rcases f with ⟨_ | _, c, p, b⟩ <;> exact ⟨rfl, rfl⟩

/-- The two children of a node are different unless both are NIL. -/
theorem sibling_ne (h : Rep s n m (plug (f :: ctx) t) free loose d) (ht : t ≠ nil) :
    f.sibling.pos ≠ t.pos := by
  cases t with
  | nil => exact absurd rfl ht
  | node c l p r =>
    intro heq
    rw [pos_node] at heq
    have hn := h.nodup
    have hp := h.node_ne
    rcases hb : f.sibling with _ | ⟨c', l', p', r'⟩
    · rw [hb] at heq
      exact hp heq.symm
    · rw [hb] at heq
      obtain rfl : p' = p := heq
      rw [contextList_cons, hb] at hn
      simp only [List.nodup_append, List.append_assoc] at hn
      exact hn.2.2 p' (by simp) p' (by simp) rfl

theorem parent_pos (h : Rep s n m (plug ctx t) free loose d) (ht : t ≠ nil) :
    (s.links t.pos).parent = contextPos ctx := by
  cases t with
  | nil => exact absurd rfl ht
  | node c l p r => rw [pos_node, h.node_links]

theorem frame_parent (h : Rep s n m (plug (f :: ctx) t) free loose d) :
    (s.links f.pos).parent = contextPos ctx := by
  rw [h.frame_links]
  rcases f with ⟨_ | _, c, p, a⟩ <;> rfl

theorem frame_color (h : Rep s n m (plug (f :: ctx) t) free loose d) :
    (s.links f.pos).color = f.hue.color := by
  rw [h.frame_links]
  rcases f with ⟨_ | _, c, p, a⟩ <;> rfl

/-- A node finds out on which side of its parent it is by comparing positions. -/
theorem child_eq_iff (h : Rep s n m (plug (f :: ctx) t) free loose d) (ht : t ≠ nil)
    (side : Side) : s.child side f.pos = t.pos ↔ f.side = side := by
  have hchild := h.frame_child
  have hsib := h.sibling_ne ht
  rcases f with ⟨_ | _, c, p, a⟩ <;> cases side <;> simp_all

theorem ensures_getBrotherPos (h : Rep s n m (plug (f :: ctx) t) free loose d) (ht : t ≠ nil)
    {Q : ℕ → State α → Prop} :
    Ensures (getBrotherPos t.pos) s Q ↔ Q f.sibling.pos s := by
  have hpos : t.pos ≠ NPOS := h.ne_npos (by simp [pos_mem ht])
  have hside := h.child_eq_iff ht .left
  have hchild := h.frame_child
  simp only [getBrotherPos, if_neg hpos, ensures_bind, ensures_getParentPos h.pos_lt,
    h.parent_pos ht, contextPos_cons, ensures_getLChildPos h.frame_lt, hside, ensures_ite,
    ensures_getRChildPos h.frame_lt]
  rcases f with ⟨_ | _, c, p, a⟩
  · rw [if_pos rfl, ← hchild.2]
    rfl
  · rw [if_neg (by simp), ← hchild.2]
    rfl

/-- Recolouring the node at the focus. -/
theorem recolor {c c' : Hue} {l r : ColorTree ℕ} {p : ℕ}
    (h : Rep s n m (plug ctx (node c l p r)) free loose d) :
    Rep (s.relink p fun x => { x with color := c'.color }) n m (plug ctx (node c' l p r))
      free loose d := by
  have hn := h.nodup
  have hp := h.node_ne
  have hne : ∀ x, x ∈ l.toList ++ r.toList ++ contextList ctx ++ free → x ≠ p := by
    rintro x hx rfl
    simp only [toList_node, List.append_assoc, List.cons_append] at hn
    rw [List.perm_middle.nodup_iff, List.nodup_cons] at hn
    refine hn.1 ?_
    simp only [List.mem_append] at hx ⊢
    tauto
  refine ⟨h.slots, h.maxSize, h.size, ?_, ?_, ?_, h.head, ?_, h.part_congr ?_, by simp [h.data]⟩
  · rw [State.rootPos_relink, h.root]
    exact pos_plug_congr ctx rfl
  · rw [holds_plug, State.links_relink]
    obtain ⟨-, hlinks, hl, hr⟩ := h.holds
    refine ⟨⟨hp, ?_, hl.congr fun x hx => ?_, hr.congr fun x hx => ?_⟩,
      h.holdsContext.congr fun x hx => ?_⟩
    · rw [Function.update_self, hlinks]
    all_goals exact Function.update_of_ne (hne x (by simp [hx])) _ _
  · rw [State.links_relink, Function.update_of_ne hp.symm, h.nil_black]
  · rw [State.links_relink]
    refine h.ring.congr (fun x hx => ?_) fun x hx => ?_
    all_goals rw [Function.update_of_ne (hne x (by simp [hx]))]
  · exact List.Perm.of_eq (toList_plug_congr ctx rfl)

theorem setColor_pos (h : Rep s n m (plug ctx t) free loose d) (ht : t ≠ nil) (c : Hue) :
    Ensures (setColor t.pos c.color) s fun _ s' =>
      Rep s' n m (plug ctx (t.paint c)) free loose d := by
  rw [RBTree.ensures_setColor h.pos_lt]
  cases t with
  | nil => exact absurd rfl ht
  | node c' l p r => exact h.recolor

theorem setColor_frame (h : Rep s n m (plug (f :: ctx) t) free loose d) (c : Hue) :
    Ensures (setColor f.pos c.color) s fun _ s' =>
      Rep s' n m (plug ({ f with hue := c } :: ctx) t) free loose d := by
  rw [RBTree.ensures_setColor h.frame_lt]
  rcases f with ⟨_ | _, c', p, a⟩
  · exact Rep.recolor (l := t) (r := a) h
  · exact Rep.recolor (l := a) (r := t) h

theorem setColor_sibling (h : Rep s n m (plug (f :: ctx) t) free loose d) (hs : f.sibling ≠ nil)
    (c : Hue) : Ensures (setColor f.sibling.pos c.color) s fun _ s' =>
      Rep s' n m (plug ({ f with sibling := f.sibling.paint c } :: ctx) t) free loose d := by
  refine (h.across.setColor_pos hs c).mono fun _ s' h' => ?_
  rw [← Frame.across_across f t]
  exact h'.across

end Rep

end Lsf.RBTree
