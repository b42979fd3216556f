import Lsf.Container.TreeMemory

/-!
# Structural changes of the tree

Every structural operation of the source ends by making the parent of the place it worked at point
to a new subtree. `State.hang` is that assignment, and `Rep.replace` says what has to hold of a
block for it to store a new tree at the focus; rotations, removals and insertions all go through it.

## Main results

* `Rep.replace` — a new tree at the focus
* `Rep.rotate` — a rotation exchanges two neighbouring frames
-/

namespace Lsf.RBTree

open ColorTree

variable {α : Type}

/-- Let the parent of a context, or the root pointer, point to `top`. -/
def State.hang (s : State α) (ctx : List (Frame ℕ)) (top : ℕ) : State α :=
  match ctx with
  | [] => { s with rootPos := top }
  | f :: _ => s.relink f.pos (Links.setChild f.side top)

namespace State

section Hang

variable (s : State α) (ctx : List (Frame ℕ)) (top : ℕ)

@[simp] theorem slots_hang : (s.hang ctx top).slots = s.slots := by cases ctx <;> rfl

@[simp] theorem maxSize_hang : (s.hang ctx top).maxSize = s.maxSize := by cases ctx <;> rfl

@[simp] theorem size_hang : (s.hang ctx top).size = s.size := by cases ctx <;> rfl

@[simp] theorem emptyHeadPos_hang : (s.hang ctx top).emptyHeadPos = s.emptyHeadPos := by
  cases ctx <;> rfl

@[simp] theorem data_hang : (s.hang ctx top).data = s.data := by
  cases ctx <;> simp [hang]

theorem links_hang_of_notMem {x : ℕ} (hx : x ∉ contextList ctx) :
    (s.hang ctx top).links x = s.links x := by
  cases ctx with
  | nil => rfl
  | cons f ctx =>
    rw [hang, links_relink]
    refine Function.update_of_ne ?_ _ _
    rintro rfl
    simp at hx

theorem links_hang_congr {s s' : State α} {ctx : List (Frame ℕ)} {top x : ℕ}
    (h : ∀ x ∈ contextList ctx, s'.links x = s.links x) (hx : x ∈ contextList ctx) :
    (s'.hang ctx top).links x = (s.hang ctx top).links x := by
  cases ctx with
  | nil => cases hx
  | cons f ctx =>
    simp only [hang, links_relink, Function.update_apply, h x hx, h f.pos (by simp)]

end Hang

end State

namespace Rep

variable {s s' : State α} {n m m' : ℕ} {t u b : ColorTree ℕ} {f g : Frame ℕ}
  {ctx : List (Frame ℕ)} {free loose free' loose' : List ℕ} {d d' : ℕ → α}

/-- Replace the tree at the focus: the context is hung onto the new tree. -/
theorem replace (h : Rep s n m (plug ctx t) free loose d)
    (hslots : s'.slots = s.slots) (hmax : s'.maxSize = s.maxSize) (hsize : s'.size = m')
    (hroot : s'.rootPos = (s.hang ctx u.pos).rootPos) (hu : Holds s'.links (contextPos ctx) u)
    (hctx : ∀ x ∈ contextList ctx, s'.links x = (s.hang ctx u.pos).links x)
    (hnil : s'.links NPOS = s.links NPOS) (hhead : s'.emptyHeadPos = free'.headD NPOS)
    (hring : IsRing (fun x => (s'.links x).rchild) (fun x => (s'.links x).lchild) free')
    (hpart : (u.toList ++ contextList ctx ++ free' ++ loose').Perm (List.range' 1 n))
    (hdata : s'.data = d') : Rep s' n m' (plug ctx u) free' loose' d' := by
  have hn : (contextList ctx).Nodup := by
    have := h.nodup
    simp only [List.nodup_append] at this
    tauto
  refine ⟨hslots.trans h.slots, hmax.trans h.maxSize, hsize, ?_, holds_plug.mpr ⟨hu, ?_⟩,
    by rw [hnil, h.nil_black], hhead, hring, ?_, hdata⟩
  · rw [hroot]
    cases ctx with
    | nil => rfl
    | cons e ctx =>
      show s.rootPos = _
      rw [h.root, plug_cons, plug_cons]
      exact pos_plug_congr ctx (by simp)
  · refine h.holdsContext.rehang hn (fun e he => ?_) fun x hx hne => ?_
    · cases ctx with
      | nil => cases he
      | cons e' ctx =>
        obtain rfl : e' = e := by simpa using he
        rw [hctx _ (by simp), State.hang, State.links_relink, Function.update_self]
    · rw [hctx x hx]
      cases ctx with
      | nil => rfl
      | cons e ctx =>
        rw [State.hang, State.links_relink]
        exact Function.update_of_ne hne _ _
  · exact (((toList_plug_perm ctx u).append_right free').append_right loose').trans hpart

end Rep

/-! ### Rotations -/

/-- `SetLChildPos` and `SetRChildPos`. -/
def setChildPos : Side → ℕ → ℕ → Prog α Unit
  | .left, pos, v => setLChildPos pos v
  | .right, pos, v => setRChildPos pos v

/-- Both rotations are one program that is told the side. -/
def rotateOn (side : Side) (pos : ℕ) : Prog α Unit := do
  let parent ← getParentPos pos
  let top ← getChildPos side pos
  let inner ← getChildPos side.other top
  replaceInParent pos parent top
  setParentPos top parent
  setChildPos side.other top pos
  setParentPos pos top
  setChildPos side pos inner
  if inner ≠ NPOS then setParentPos inner pos

theorem rotate_eq (side : Side) (pos : ℕ) :
    (rotate side pos : Prog α Unit) = rotateOn side pos := by
  cases side <;> rfl

@[simp] theorem ensures_getChildPos {s : State α} {side : Side} {pos : ℕ} (hp : pos < s.slots)
    {Q : ℕ → State α → Prop} : Ensures (getChildPos side pos) s Q ↔ Q (s.child side pos) s := by
  cases side
  · exact ensures_getLChildPos hp
  · exact ensures_getRChildPos hp

@[simp] theorem ensures_setChildPos {s : State α} {side : Side} {pos v : ℕ} (hp : pos < s.slots)
    {Q : Unit → State α → Prop} :
    Ensures (setChildPos side pos v) s Q ↔ Q () (s.relink pos (Links.setChild side v)) := by
  cases side
  · exact ensures_setLChildPos hp
  · exact ensures_setRChildPos hp

namespace Rep

variable {s s' : State α} {n m m' : ℕ} {t u b : ColorTree ℕ} {f g : Frame ℕ}
  {ctx : List (Frame ℕ)} {free loose free' loose' : List ℕ} {d d' : ℕ → α}

theorem ensures_replaceInParent (h : Rep s n m (plug ctx t) free loose d) (ht : t ≠ nil) (top : ℕ)
    {Q : Unit → State α → Prop} :
    Ensures (replaceInParent t.pos (contextPos ctx) top) s Q ↔ Q () (s.hang ctx top) := by
  cases ctx with
  | nil => simp [replaceInParent, State.hang]
  | cons e ctx =>
    have hne := h.frame_ne
    have hlt := h.frame_lt
    have hchild := h.frame_child
    have hsib := h.sibling_ne ht
    rcases e with ⟨_ | _, c, p, a⟩
    · simp_all [replaceInParent, State.hang]
    · simp_all [replaceInParent, State.hang, hsib.symm]

/-- What a block has to satisfy after two neighbouring frames have been exchanged. -/
theorem exchange (h : Rep s n m (plug (g :: f :: ctx) b) free loose d)
    (hside : g.side = f.side.other)
    (hslots : s'.slots = s.slots) (hmax : s'.maxSize = s.maxSize) (hsize : s'.size = s.size)
    (hroot : s'.rootPos = (s.hang ctx g.pos).rootPos) (hhead : s'.emptyHeadPos = s.emptyHeadPos)
    (hdata : s'.data = s.data) (hg : s'.links g.pos = g.links f.pos (contextPos ctx))
    (hf : s'.links f.pos = f.links b.pos g.pos)
    (hb : b ≠ nil → s'.links b.pos = { s.links b.pos with parent := f.pos })
    (hrest : ∀ x, x ≠ g.pos → x ≠ f.pos → (b ≠ nil → x ≠ b.pos) →
      s'.links x = (s.hang ctx g.pos).links x) :
    Rep s' n m (plug (f :: g :: ctx) b) free loose d := by
  obtain ⟨hgn, -, hgs, hfn, -, hfs, -⟩ := h.holdsContext
  have hzero := fun x => h.ne_npos (x := x)
  have hnodup := h.nodup
  have hbpos := fun hne : b ≠ nil => pos_mem hne
  simp only [contextList_cons, List.nodup_append, List.nodup_cons, List.mem_append, List.mem_cons]
    at hnodup hzero
  have hoff : ∀ x, x ∈ g.sibling.toList ∨ x ∈ f.sibling.toList ∨ x ∈ free ∨ x = NPOS →
      s'.links x = s.links x := by
    intro x hx
    rw [hrest, State.links_hang_of_notMem]
    all_goals grind
  have hctx : ∀ x ∈ contextList ctx, s'.links x = (s.hang ctx g.pos).links x := by
    intro x hx
    apply hrest
    all_goals grind
  have hbh : Holds s'.links f.pos b := by
    refine h.holds.reparent hb (fun x hx hne => ?_) (by tauto)
    rw [hrest, State.links_hang_of_notMem]
    all_goals grind
  have hgf : Holds s'.links (contextPos ctx) (g.fill (f.fill b)) := by
    refine holds_fill.mpr ⟨hgn, by rw [pos_fill, hg], ?_, holds_fill.mpr ⟨hfn, hf, ?_, hbh⟩⟩
    · exact hgs.congr fun x hx => hoff x (.inl hx)
    · exact hfs.congr fun x hx => hoff x (.inr (.inl hx))
  refine h.up.up.replace (u := g.fill (f.fill b)) hslots hmax (hsize.trans h.size)
    (by rw [hroot, pos_fill]) hgf (by simpa using hctx) (hoff NPOS (by simp))
    (hhead.trans h.head) ?_ ?_ (hdata.trans h.data)
  · refine h.ring.congr (fun x hx => ?_) fun x hx => ?_
    all_goals rw [hoff x (by simp [hx])]
  · rw [Frame.toList_exchange hside]
    exact h.up.up.focus_part

/-- **A rotation exchanges two neighbouring frames on opposite sides.** -/
theorem rotate (h : Rep s n m (plug (g :: f :: ctx) b) free loose d)
    (hside : g.side = f.side.other) :
    Ensures (RBTree.rotate f.side f.pos) s fun _ s' =>
      Rep s' n m (plug (f :: g :: ctx) b) free loose d := by
  have hf := h.up.frame_links
  have hg := h.frame_links
  have hfl := h.up.frame_lt
  have hfc := h.up.frame_child.1
  have hgc := h.frame_child.1
  have hgl := h.frame_lt
  have hbl := h.pos_lt
  have hpar := fun Q => h.up.up.ensures_replaceInParent (f.fill_ne_nil _) g.pos (Q := Q)
  rw [pos_fill] at hpar hfc
  rw [hside] at hgc
  have hparent := h.up.frame_parent
  have hnodup := h.nodup
  have hbpos := fun hne : b ≠ nil => pos_mem hne
  simp only [contextList_cons, List.nodup_append, List.nodup_cons, List.mem_append, List.mem_cons]
    at hnodup
  have hgf : g.pos ≠ f.pos := by grind
  have hbg : b ≠ nil → b.pos ≠ g.pos ∧ b.pos ≠ f.pos := by grind
  have hgo : (s.hang ctx g.pos).links g.pos = _ :=
    (s.links_hang_of_notMem ctx g.pos (by grind)).trans hg
  have hfo : (s.hang ctx g.pos).links f.pos = _ :=
    (s.links_hang_of_notMem ctx g.pos (by grind)).trans hf
  have hbo : b ≠ nil → (s.hang ctx g.pos).links b.pos = _ := fun hb =>
    s.links_hang_of_notMem ctx g.pos (by grind)
  rw [rotate_eq]
  simp only [rotateOn, ensures_bind, ensures_getParentPos, ensures_getChildPos, hfl, hparent, hfc,
    hgl, hgc, hpar, State.slots_hang, State.slots_relink, ensures_setParentPos, ensures_setChildPos,
    ensures_ite]
  by_cases hb : b = nil
  · subst hb
    rw [if_neg (by simp), ensures_pure]
    refine h.exchange hside (by simp) (by simp) (by simp) (by simp) (by simp) (by simp) ?_ ?_ ?_ ?_
    · simp [hgf, hgo, parent_links, ← hside, setChild_links]
    · simp [hgf.symm, hfo, parent_links, setChild_links]
    · simp
    · intro x hxg hxf hxb
      simp [hxg, hxf]
  · obtain ⟨hbg', hbf⟩ := hbg hb
    rw [if_pos (h.ne_npos (by simp [hbpos hb]))]
    rw [ensures_setParentPos (by simpa)]
    refine h.exchange hside (by simp) (by simp) (by simp) (by simp) (by simp) (by simp) ?_ ?_ ?_ ?_
    · simp [hgf, hbg'.symm, hgo, parent_links, ← hside, setChild_links]
    · simp [hgf.symm, hbf.symm, hfo, parent_links, setChild_links]
    · simp [hbg', hbf, hbo hb]
    · intro x hxg hxf hxb
      simp [hxg, hxf, hxb hb]

end Rep

end Lsf.RBTree
