import Lsf.Container.BoundedOrderedMap
import Lsf.Foundations.ColorPaths

/-!
# The features of the red-black tree

The class comment lists five features. `Featured` reads them off the links of a state; for a state
that holds a tree they are the laws of `RedBlack`. Removals keep them, also where they harm an
element and the tree is none in search order any more. An insertion keeps them unless the new node
is sunk: the climb of `InsertFixup` ends below a red right child, on its left, with a black uncle,
which is the orientation that the second inner case was meant for.

## Main definitions

* `Featured` — the five features, on the links
* `WellFormed` — any tree with these features and the search order
* `Sinks` — the insertion of a key meets the missing case
* `UpdateOp` — insertions and removals

## Main results

* `Rep.featured_iff`
* `eraseNode_wellFormed`
* `features_hold_iff_no_insertion_sinks`
-/

namespace Lsf.RBTree

open ColorTree

variable {α κ : Type}

/-! ### The features on the links -/

/-- The positions that are reached from the root by child pointers, the NIL position among them. -/
inductive Reached (s : State α) : ℕ → Prop
  | root : Reached s s.rootPos
  | child (side : Side) {p : ℕ} : Reached s p → p ≠ NPOS → Reached s (s.child side p)

/-- Some path of child pointers from `p` to the NIL position meets `k` black nodes before it. -/
inductive PathToNil (s : State α) : ℕ → ℕ → Prop
  | nil : PathToNil s NPOS 0
  | node (side : Side) {p k : ℕ} : p ≠ NPOS → PathToNil s (s.child side p) k →
      PathToNil s p (k + if (s.links p).color = .black then 1 else 0)

/-- The features of the class comment. -/
structure Featured (s : State α) : Prop where
  two_colors : ∀ p, Reached s p → (s.links p).color = .red ∨ (s.links p).color = .black
  root_black : (s.links s.rootPos).color = .black
  nil_black : (s.links NPOS).color = .black
  red_children : ∀ p, Reached s p → (s.links p).color = .red →
    ∀ side, (s.links (s.child side p)).color = .black
  black_paths : ∀ i j, PathToNil s s.rootPos i → PathToNil s s.rootPos j → i = j

theorem Hue.color_inj {c c' : Hue} : c.color = c'.color ↔ c = c' := by
  cases c <;> cases c' <;> simp

namespace Rep

variable {s : State α} {n m : ℕ} {t u : ColorTree ℕ} {ctx : List (Frame ℕ)}
  {free loose : List ℕ} {d : ℕ → α}

/-- The reached positions are the roots of the subtrees. -/
theorem reached_iff (h : Rep s n m t free loose d) {p : ℕ} :
    Reached s p ↔ ∃ ctx u, t = plug ctx u ∧ p = u.pos := by
  constructor
  · intro hp
    induction hp with
    | root => exact ⟨[], t, rfl, h.root⟩
    | child side hp hne ih =>
      obtain ⟨ctx, u, rfl, rfl⟩ := ih
      cases u with
      | nil => exact absurd rfl hne
      | node c l p r =>
        rw [h.child_pos side]
        cases side with
        | left => exact ⟨⟨.left, c, p, r⟩ :: ctx, l, rfl, rfl⟩
        | right => exact ⟨⟨.right, c, p, l⟩ :: ctx, r, rfl, rfl⟩
  · rintro ⟨ctx, u, rfl, rfl⟩
    induction ctx generalizing u with
    | nil =>
      have hroot := h.root
      rw [plug_nil] at hroot
      exact hroot ▸ Reached.root
    | cons f ctx ih =>
      have hup := ih (f.fill u) h.up
      rw [pos_fill] at hup
      rw [← h.frame_child.1]
      exact hup.child f.side h.frame_ne

/-- The paths of child pointers are the paths of the tree. -/
theorem pathToNil_iff (h : Rep s n m (plug ctx u) free loose d) {k : ℕ} :
    PathToNil s u.pos k ↔ PathWeight u k := by
  induction u generalizing ctx k with
  | nil =>
    constructor
    · intro hk
      generalize hp : (nil : ColorTree ℕ).pos = p at hk
      cases hk with
      | nil => rfl
      | node side hne hk => exact absurd hp.symm hne
    · rintro rfl
      exact .nil
  | node c l p r ihl ihr =>
    have hl : Rep s n m (plug (⟨.left, c, p, r⟩ :: ctx) l) free loose d := h
    have hr : Rep s n m (plug (⟨.right, c, p, l⟩ :: ctx) r) free loose d := h
    obtain ⟨hcl, hcr⟩ := h.node_child
    have hcolor : (s.links p).color = c.color := h.color_pos
    have hweight : (if (s.links p).color = .black then 1 else 0) = c.weight := by
      rw [hcolor]
      cases c <;> rfl
    constructor
    · intro hk
      rw [pos_node] at hk
      cases hk with
      | nil => exact absurd rfl h.node_ne
      | node side hne hk =>
        refine ⟨_, by rw [hweight], ?_⟩
        cases side with
        | left => exact .inl ((ihl hl).mp (hcl ▸ hk))
        | right => exact .inr ((ihr hr).mp (hcr ▸ hk))
    · rintro ⟨i, rfl, hi | hi⟩
      · rw [← hweight]
        exact .node .left h.node_ne (hcl.symm ▸ (ihl hl).mpr hi)
      · rw [← hweight]
        exact .node .right h.node_ne (hcr.symm ▸ (ihr hr).mpr hi)

/-- **The features of a state are the laws of the tree it holds.** -/
theorem featured_iff (h : Rep s n m t free loose d) : Featured s ↔ RedBlack t := by
  have h₀ : Rep s n m (plug [] t) free loose d := h
  have hroot : (s.links s.rootPos).color = .black ↔ t.rootHue = .black := by
    rw [h.root, h₀.color_pos, ← Hue.color_black, Hue.color_inj]
  have hred : (∀ p, Reached s p → (s.links p).color = .red →
      ∀ side, (s.links (s.child side p)).color = .black) ↔ RedLaw t := by
    rw [redLaw_iff_nodes]
    constructor
    · rintro hp ctx c l p r rfl rfl
      have hchild := hp p (h.reached_iff.mpr ⟨ctx, _, rfl, rfl⟩) h.color_pos
      obtain ⟨hcl, hcr⟩ := h.node_child
      have hl := hchild .left
      have hr := hchild .right
      rw [hcl, @Rep.color_pos _ _ _ _ _ (⟨.left, .red, p, r⟩ :: ctx) _ _ _ h, ← Hue.color_black,
        Hue.color_inj] at hl
      rw [hcr, @Rep.color_pos _ _ _ _ _ (⟨.right, .red, p, l⟩ :: ctx) _ _ _ h, ← Hue.color_black,
        Hue.color_inj] at hr
      exact ⟨hl, hr⟩
    · intro hlaw p hp hcolor side
      obtain ⟨ctx, u, rfl, rfl⟩ := h.reached_iff.mp hp
      cases u with
      | nil => exact h.nil_black
      | node c l p r =>
        obtain ⟨hcl, hcr⟩ := h.node_child
        rw [h.color_pos, ← Hue.color_red, Hue.color_inj] at hcolor
        obtain ⟨hl, hr⟩ := hlaw ctx c l p r rfl hcolor
        cases side with
        | left =>
          rw [pos_node, hcl, @Rep.color_pos _ _ _ _ _ (⟨.left, c, p, r⟩ :: ctx) _ _ _ h, hl]
          rfl
        | right =>
          rw [pos_node, hcr, @Rep.color_pos _ _ _ _ _ (⟨.right, c, p, l⟩ :: ctx) _ _ _ h, hr]
          rfl
  have hpaths : (∀ i j, PathToNil s s.rootPos i → PathToNil s s.rootPos j → i = j) ↔
      ∃ H, BlackHeight t H := by
    rw [blackHeight_iff_paths, h.root]
    simp only [h₀.pathToNil_iff]
  constructor
  · intro hf
    exact ⟨hroot.mp hf.root_black, hred.mp hf.red_children, hpaths.mp hf.black_paths⟩
  · intro hrb
    refine ⟨fun p hp => ?_, hroot.mpr hrb.root_black, h.nil_black, hred.mpr hrb.red_law,
      hpaths.mpr hrb.black_height⟩
    obtain ⟨ctx, u, rfl, rfl⟩ := h.reached_iff.mp hp
    rw [h.color_pos]
    cases u.rootHue with
    | red => exact .inl rfl
    | black => exact .inr rfl

end Rep

/-! ### Removals from any well-formed tree -/

section WellFormed

variable [LinearOrder κ] {key : α → κ} {s : State α} {xs : List α} {k : κ}

/-- The state holds a tree, however it was built, that has the elements `xs` in its search order and
the five features. -/
def WellFormed (key : α → κ) (s : State α) (xs : List α) : Prop :=
  (∃ n t free d, Stores key s n t free d ∧ elems d t = xs) ∧ Featured s

/-- **`EraseNode`, called with what `FindNode` returns for a stored key,** terminates and leaves a
well-formed tree with exactly the other elements. -/
theorem eraseNode_wellFormed (h : WellFormed key s xs) (hk : ∃ x ∈ xs, key x = k) :
    Ensures (do
      let (pos, parentPos) ← findNode key k
      eraseNode pos parentPos) s fun _ s' => WellFormed key s' (xs.filter fun x => key x ≠ k) := by
  obtain ⟨⟨n, t, free, d, hs, rfl⟩, hf⟩ := h
  have hrb := hs.rep.featured_iff.mp hf
  obtain ⟨x, hx, hxk⟩ := hk
  obtain ⟨y, hy, rfl⟩ := List.mem_map.mp hx
  obtain ⟨ctx, c, l, p, r, rfl, rfl, hrun⟩ := hs.findNode_of_found ⟨y, hy, hxk⟩
  refine Ensures.bind_of_run hrun (hs.shapes.eraseNode.mono ?_)
  rintro _ s' ⟨-, herased⟩
  obtain ⟨t', free', d', h', helems, hkeep⟩ :=
    hs.erased_of_erasedAt (by simp [toList_plug]) herased
  exact ⟨⟨n, t', free', d', h', helems⟩, h'.rep.featured_iff.mpr (hkeep hrb)⟩

/-- Three nodes, 2 over 1 and 3, whose data are their positions. -/
def balanced : State ℕ where
  size := 3
  maxSize := 4
  rootPos := 2
  emptyHeadPos := NPOS
  slots := 4
  node
    | 1 => ⟨NPOS, NPOS, 2, 1, .red⟩
    | 2 => ⟨1, 3, NPOS, 2, .black⟩
    | 3 => ⟨NPOS, NPOS, 2, 3, .red⟩
    | _ => ⟨NPOS, NPOS, NPOS, 0, .black⟩

theorem wellFormed_balanced : WellFormed id balanced [1, 2, 3] := by
  have hrep : Rep balanced 3 3 (node .black (node .red nil 1 nil) 2 (node .red nil 3 nil)) [] []
      balanced.data := by
    refine ⟨rfl, rfl, rfl, rfl, ?_, rfl, rfl, IsRing.nil, .refl _, rfl⟩
    simp [State.links, balanced]
  refine ⟨⟨3, node .black (node .red nil 1 nil) 2 (node .red nil 3 nil), [], balanced.data,
    ⟨hrep, rfl, ?_⟩, rfl⟩, hrep.featured_iff.mpr ⟨rfl, ?_, 1, ?_⟩⟩
  · simp [Ordered, State.data, balanced]
  · simp
  · simp [BlackHeight]

/-- The root, which has two children, is removed. -/
theorem root_of_balanced_is_removed : Ensures (do
    let (pos, parentPos) ← findNode id 2
    eraseNode pos parentPos) balanced fun _ s' => WellFormed id s' [1, 3] :=
  eraseNode_wellFormed wellFormed_balanced ⟨2, by decide, rfl⟩

end WellFormed

/-! ### The missing case -/

/-- A red node that is put on a side of the position `p` sinks: the climb through red parents and
red uncles ends with a left child below a red right child whose brother is black. -/
inductive SinksAt (s : State α) : Side → ℕ → Prop
  | stop {p g : ℕ} : (s.links p).color = .red → (s.links p).parent = g →
      s.child .right g = p → (s.links (s.child .left g)).color = .black → SinksAt s .left p
  | climb (side up above : Side) {p g q : ℕ} : (s.links p).color = .red →
      (s.links p).parent = g → s.child up g = p →
      (s.links (s.child up.other g)).color = .red → (s.links g).parent = q →
      s.child above q = g → SinksAt s above q → SinksAt s side p

namespace Rep

variable {s : State α} {n m : ℕ} {u : ColorTree ℕ} {f : Frame ℕ} {ctx : List (Frame ℕ)}
  {free loose : List ℕ} {d : ℕ → α}

/-- The brother of a focus has the hue that the tree says. -/
theorem color_sibling (h : Rep s n m (plug (f :: ctx) u) free loose d) :
    (s.links (s.child f.side.other f.pos)).color = f.sibling.rootHue.color := by
  rw [h.frame_child.2]
  exact h.across.color_pos

/-- One level of the climb. -/
theorem sinksAt_iff_level {g : Frame ℕ} (h : Rep s n m (plug (f :: g :: ctx) u) free loose d) :
    SinksAt s f.side f.pos ↔ f.hue = .red ∧
      if g.sibling.rootHue = .red then ∃ e ctx', ctx = e :: ctx' ∧ SinksAt s e.side e.pos
      else f.side = .left ∧ g.side = .right := by
  have hup := h.up
  have hfc := h.frame_color
  have hfp := h.frame_parent
  have hgp := hup.frame_parent
  have hside := hup.child_eq_iff (f.fill_ne_nil u)
  have hsib := hup.color_sibling
  rw [pos_fill] at hside
  rw [contextPos_cons] at hfp
  constructor
  · intro hsink
    generalize hs : f.side = side, hp : f.pos = p at hsink
    cases hsink with
    | stop hred hg hchild hblack =>
      subst hp
      obtain rfl : g.pos = _ := hfp.symm.trans hg
      have hgs := (hside .right).mp hchild
      rw [hgs, Side.other_right, hblack, ← Hue.color_black, Hue.color_inj] at hsib
      rw [hred, ← Hue.color_red, Hue.color_inj] at hfc
      refine ⟨hfc.symm, ?_⟩
      rw [if_neg (by simp [← hsib])]
      exact ⟨rfl, hgs⟩
    | climb side up above hred hg hchild huncle hq hover hsink =>
      subst hp
      obtain rfl : g.pos = _ := hfp.symm.trans hg
      have hgs := (hside up).mp hchild
      rw [hgs, huncle, ← Hue.color_red, Hue.color_inj] at hsib
      rw [hred, ← Hue.color_red, Hue.color_inj] at hfc
      refine ⟨hfc.symm, ?_⟩
      rw [if_pos hsib.symm]
      obtain rfl := hgp.symm.trans hq
      cases ctx with
      | nil =>
        rw [contextPos_nil, State.child_npos] at hover
        exact absurd hover.symm hup.frame_ne
      | cons e ctx' =>
        have hover' := hup.up.child_eq_iff (g.fill_ne_nil _) above
        rw [pos_fill] at hover'
        obtain rfl := hover'.mp hover
        exact ⟨e, ctx', rfl, hsink⟩
  · rintro ⟨hred, hin⟩
    rw [hred] at hfc
    by_cases hu : g.sibling.rootHue = .red
    · rw [if_pos hu] at hin
      rw [hu] at hsib
      obtain ⟨e, ctx', rfl, hsink⟩ := hin
      have hover := (hup.up.child_eq_iff (g.fill_ne_nil _) e.side).mpr rfl
      rw [pos_fill] at hover
      exact .climb f.side g.side e.side hfc hfp ((hside g.side).mpr rfl) hsib hgp hover hsink
    · rw [if_neg hu] at hin
      obtain ⟨hfs, hgs⟩ := hin
      rw [hgs, Side.other_right, Hue.ne_red_iff.mp hu] at hsib
      rw [hfs]
      exact .stop hfc hfp ((hside .right).mpr hgs) hsib

theorem not_sinksAt_root (h : Rep s n m (plug [f] u) free loose d) : ¬ SinksAt s f.side f.pos := by
  intro hsink
  have hfp := h.frame_parent
  have hne := h.frame_ne
  generalize f.side = side, f.pos = p at hsink hne hfp
  cases hsink with
  | stop hred hg hchild hblack =>
    obtain rfl := hfp.symm.trans hg
    exact hne hchild.symm
  | climb side up above hred hg hchild huncle hq hover hsink =>
    obtain rfl := hfp.symm.trans hg
    rw [contextPos_nil, State.child_npos] at hchild
    exact hne hchild.symm

/-- On the links of a tree the missing case is `Inward`. -/
theorem sinksAt_iff (h : Rep s n m (plug (f :: ctx) u) free loose d) :
    SinksAt s f.side f.pos ↔ Inward (f :: ctx) := by
  generalize hctx : f :: ctx = ctx' at h
  induction ctx' using Inward.induct generalizing f ctx u with
  | case1 f' g ctx' ih =>
    obtain ⟨rfl, rfl⟩ : f = f' ∧ ctx = g :: ctx' := by simpa using hctx
    rw [h.sinksAt_iff_level, Inward]
    split_ifs with hu
    · cases ctx' with
      | nil => simp [Inward]
      | cons e ctx' =>
        rw [← ih rfl h.up.up]
        simp
    · exact Iff.rfl
  | case2 ctx' hnot =>
    obtain rfl | ⟨g, ctx, rfl⟩ : ctx = [] ∨ ∃ g ctx', ctx = g :: ctx' := by
      cases ctx <;> simp
    · subst hctx
      exact iff_of_false h.not_sinksAt_root id
    · exact absurd hctx.symm (hnot f g ctx)

end Rep

/-- **An insertion sinks** when the key is new, there is room, and the place of the new node is
one where a red node sinks. -/
def Sinks [LinearOrder κ] (key : α → κ) (s : State α) (k : κ) : Prop :=
  ¬ full s ∧ ∃ p, p ≠ NPOS ∧ (findNode key k).run s = some ((NPOS, p), s) ∧
    SinksAt s (if key (s.data p) < k then .right else .left) p

section Insert

variable [LinearOrder κ] {key : α → κ} {d : ℕ → α} {s : State α} {n : ℕ} {t : ColorTree ℕ}
  {free : List ℕ} {k : κ} {ctx : List (Frame ℕ)}

theorem Shapes.sinks_iff {p : ℕ} (h : Shapes s n (plug ctx nil) (p :: free) d)
    (hk : Steered key d k ctx nil)
    (hfind : (findNode key k).run s = some ((NPOS, contextPos ctx), s)) :
    Sinks key s k ↔ Inward ctx := by
  have hfull : ¬ full s := by
    rw [h.full_iff]
    exact List.cons_ne_nil p free
  cases ctx with
  | nil =>
    refine iff_of_false ?_ id
    rintro ⟨-, q, hq, hrun, -⟩
    rw [hrun, contextPos_nil] at hfind
    obtain rfl : q = NPOS := by simpa using hfind
    exact hq rfl
  | cons f ctx =>
    have hsinks := h.rep.sinksAt_iff
    rw [← hk.side f (by simp), ← h.rep.data] at hsinks
    rw [← hsinks]
    constructor
    · rintro ⟨-, q, hq, hrun, hsink⟩
      rw [hrun, contextPos_cons] at hfind
      obtain rfl : q = f.pos := by simpa using hfind
      exact hsink
    · intro hsink
      exact ⟨hfull, f.pos, h.rep.frame_ne, hfind, hsink⟩

/-- An insertion that is refused does not sink. -/
theorem not_sinks_of_found {pos parentPos : ℕ} (hpos : pos ≠ NPOS)
    (hfind : (findNode key k).run s = some ((pos, parentPos), s)) : ¬ Sinks key s k := by
  rintro ⟨-, q, -, hrun, -⟩
  rw [hrun] at hfind
  obtain ⟨rfl, -⟩ : NPOS = pos ∧ q = parentPos := by simpa using hfind
  exact hpos rfl

/-- A new child of a black node does not sink. -/
theorem not_sinks_of_black
    (hblack : Ensures (findNode key k) s fun r s => (s.links r.2).color = .black) :
    ¬ Sinks key s k := by
  rintro ⟨-, q, -, hrun, hsink⟩
  have hq : (s.links q).color = .black := hblack.elim hrun
  generalize (if key (s.data q) < k then Side.right else .left) = side at hsink
  cases hsink with
  | stop hred => simp [hq] at hred
  | climb _ _ _ hred => simp [hq] at hred

/-- The repair after a new leaf, in a tree that obeys the laws. -/
theorem insertFix_leaf_redBlack_iff {p : ℕ} (h : RedBlack (plug ctx nil)) :
    RedBlack (insertFix ctx (node .red nil p nil)) ↔ ¬ Inward ctx := by
  have hctx := (redLaw_plug.mp h.red_law).2
  obtain ⟨k, hk, hb⟩ := blackHeight_plug.mp h.black_height
  obtain rfl : k = 0 := hk
  refine insertFix_redBlack_iff ?_ rfl (by simp) (by simp) hctx hb
  cases ctx with
  | nil => exact .inl rfl
  | cons f ctx => exact .inr (rootHue_plug_cons h.root_black)

end Insert

/-! ### Runs of insertions and removals -/

/-- A call of `Insert` or `Erase`. -/
inductive UpdateOp (α κ : Type)
  | insert (x : α)
  | erase (k : κ)

section Run

variable [LinearOrder κ] (key : α → κ) (dtor : α → α)

/-- A call of `Insert` or `Erase` with its answer. -/
def updateStep : UpdateOp α κ → Prog α Bool
  | .insert x => insertElem key x
  | .erase k => eraseElem key dtor k

/-- The call is no insertion, or `FindNode` returns a black node or none as the parent. -/
def UpdateOp.BelowBlack (op : UpdateOp α κ) (s : State α) : Prop :=
  match op with
  | .insert x => Ensures (findNode key (key x)) s fun r s => (s.links r.2).color = .black
  | .erase _ => True

instance (op : UpdateOp α κ) (s : State α) : Decidable (op.BelowBlack key s) :=
  match op with
  | .insert _ => inferInstanceAs (Decidable (Ensures _ _ _))
  | .erase _ => isTrue trivial

/-- The call is an insertion that sinks. -/
def UpdateOp.Sinks (op : UpdateOp α κ) (s : State α) : Prop :=
  match op with
  | .insert x => RBTree.Sinks key s (key x)
  | .erase _ => False

variable {key dtor} {n : ℕ} {s : State α}

/-- **One call keeps the features exactly when it is not an insertion that sinks.** -/
theorem ensures_updateStep (op : UpdateOp α κ) (hs : ∃ t free d, Shapes s n t free d)
    (hf : Featured s) :
    Ensures (updateStep key dtor op) s fun _ s' => (∃ t free d, Shapes s' n t free d) ∧
      (Featured s' ↔ ¬ op.Sinks key s) := by
  obtain ⟨t, free, d, h⟩ := hs
  have hrb := h.rep.featured_iff.mp hf
  cases op with
  | insert x =>
    obtain ⟨_, s, hrun, rfl, ctx, u, rfl, hsteered, rfl, -⟩ :=
      @Rep.findNode_steered _ _ _ key _ _ _ _ _ _ _ h.rep (key x)
    cases u with
    | node c l p r =>
      refine (h.insertElem_of_occupied (by simp) hrun).mono ?_
      rintro _ _ ⟨-, rfl⟩
      exact ⟨⟨_, free, d, h⟩, iff_of_true hf (not_sinks_of_found h.rep.node_ne hrun)⟩
    | nil =>
      cases free with
      | nil =>
        refine (h.insertElem_of_full x).mono ?_
        rintro _ _ ⟨-, rfl⟩
        exact ⟨⟨_, [], d, h⟩, iff_of_true hf fun hsink => hsink.1 (h.full_iff.mpr rfl)⟩
      | cons p free =>
        refine (h.insertElem_of_hole hsteered hrun).mono ?_
        rintro _ s' ⟨-, h'⟩
        refine ⟨⟨_, free, _, h'⟩, ?_⟩
        show Featured s' ↔ ¬ Sinks key s (key x)
        rw [h'.rep.featured_iff, insertFix_leaf_redBlack_iff hrb, h.sinks_iff hsteered hrun]
  | erase k =>
    refine (h.eraseElem k).mono ?_
    rintro _ s' ⟨t', free', d', h', hkeep, -⟩
    exact ⟨⟨t', free', d', h'⟩, iff_of_true (h'.rep.featured_iff.mpr (hkeep hrb)) id⟩

/-- **From `Init` on, the features hold in all states of a run of insertions and removals exactly
when none of its insertions sinks,** whatever destructors do to the elements. The operations of
`Map` are those for the keys of the pairs, and the operations of `Set` those for the elements
themselves. -/
theorem features_hold_iff_no_insertion_sinks (hn : 1 ≤ n) (L : Layout) (mem : ℕ → Node α)
    (key : α → κ) (dtor : α → α) : ∃ s₀, init L mem (calcByteSize L n) = some s₀ ∧
      ∀ ops, Throughout (updateStep key dtor) Featured ops s₀ ↔
        Guarded (updateStep key dtor) (fun op s => ¬ op.Sinks key s) ops s₀ := by
  obtain ⟨s, d, hinit, hrep⟩ := exists_init L mem hn
  have hs : Shapes s n nil (List.range' 1 n) d := ⟨hrep, rfl⟩
  have hf : Featured s := hrep.featured_iff.mpr ⟨rfl, trivial, 0, rfl⟩
  refine ⟨s, hinit, fun ops => ?_⟩
  exact throughout_iff_guarded (I := fun s => ∃ t free d, Shapes s n t free d)
    (fun op s hs hf => ensures_updateStep op hs hf) ⟨_, _, _, hs⟩ hf

/-- A set of three elements: 1 and 3 are put below 2, and then 2, which has two children, is
removed. -/
theorem features_of_set_of_three : ∃ s₀, init ⟨8, 4, Nat.succ_pos 3⟩
    (fun _ => (⟨0, 0, 0, 0, .empty⟩ : Node ℕ)) (calcByteSize ⟨8, 4, Nat.succ_pos 3⟩ 3) = some s₀ ∧
      Throughout (updateStep id fun _ => 0) Featured
        [.insert 2, .insert 1, .insert 3, .insert 3, .erase 2] s₀ := by
  obtain ⟨s, hinit, hiff⟩ := features_hold_iff_no_insertion_sinks (n := 3) (by decide)
    ⟨8, 4, Nat.succ_pos 3⟩ (fun _ => (⟨0, 0, 0, 0, .empty⟩ : Node ℕ)) id fun _ => 0
  refine ⟨s, hinit, (hiff _).mpr (Guarded.mono (G := UpdateOp.BelowBlack id) ?_ ?_)⟩
  · rintro (x | k) s hblack
    · exact not_sinks_of_black hblack
    · exact id
  · exact of_all_eq_true (by decide +kernel) hinit

/-- The features do not hold in all reached states: after 1, 3 and 2 have been inserted into an
empty set, the nodes of 1 and 2 are both red and
one is the child of the other. -/
theorem features_broken_by_insertions : ¬ ∀ (n : ℕ) (L : Layout) (mem : ℕ → Node ℕ)
    (s₀ : State ℕ) (ops : List (UpdateOp ℕ ℕ)), 1 ≤ n → init L mem (calcByteSize L n) = some s₀ →
      Throughout (updateStep id id) Featured ops s₀ := by
  intro hall
  obtain ⟨s, d, hinit, hrep⟩ := exists_init ⟨8, 4, Nat.succ_pos 3⟩
    (fun _ => (⟨0, 0, 0, 0, .empty⟩ : Node ℕ)) (n := 3) (by omega)
  have hs : Stores id s 3 nil [1, 2, 3] d := ⟨hrep, rfl, List.Pairwise.nil⟩
  obtain ⟨-, hrun⟩ := hall 3 _ _ s [.insert 1, .insert 3, .insert 2] (by omega) hinit
  -- 1 becomes the root
  obtain ⟨_, s₁, -, ⟨-, hrun⟩, -, ctx, _, d₁, ht, hsought, -, rfl, hs₁, hd₁⟩ :=
    hrun.and (hs.insertElem_of_new 1 (by simp))
  obtain rfl := plug_eq_nil ht
  have h1 : d₁ 1 = 1 := by simpa [elems, insertFix, insertBy] using hd₁
  -- 3 becomes its right child
  obtain ⟨_, s₂, -, ⟨-, hrun⟩, -, ctx, _, d₂, ht, hsought, -, rfl, hs₂, hd₂⟩ :=
    hrun.and (hs₁.insertElem_of_new 3 (by simp [insertFix, h1]))
  obtain rfl : ctx = [⟨.right, .black, 1, nil⟩] := by
    obtain ⟨ctx', ⟨rfl, hnil⟩ | ⟨rfl, hnil⟩⟩ := plug_eq_node ht
    all_goals obtain rfl := plug_eq_nil hnil
    · have habove := hsought.above 1 (by simp [Frame.after])
      simp [h1] at habove
    · rfl
  have h12 : d₂ 1 = 1 ∧ d₂ 2 = 3 := by simpa [elems, insertFix, insertBy, h1] using hd₂
  -- 2 goes to the left of 3
  obtain ⟨_, s₃, -, hfeatured, -, ctx, _, d₃, ht, hsought, -, rfl, hs₃, -⟩ :=
    hrun.and (hs₂.insertElem_of_new 2 (by simp [insertFix, h12]))
  obtain rfl : ctx = [⟨.left, .red, 2, nil⟩, ⟨.right, .black, 1, nil⟩] := by
    obtain ⟨ctx₁, ⟨rfl, hright⟩ | ⟨rfl, hright⟩⟩ := plug_eq_node ht
    · have habove := hsought.above 1 (by simp [Frame.after, after_append])
      simp [h12] at habove
    obtain ⟨ctx₂, ⟨rfl, hnil⟩ | ⟨rfl, hnil⟩⟩ := plug_eq_node hright
    all_goals obtain rfl := plug_eq_nil hnil
    · rfl
    · have hbelow := hsought.below 2 (by simp [Frame.before])
      simp [h12] at hbelow
  -- the red leaf 2 sinks below the red grandparent
  have hlaw := (hs₃.rep.featured_iff.mp hfeatured).red_law
  simp [insertFix, raise] at hlaw

end Run

end Lsf.RBTree
