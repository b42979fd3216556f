import Lsf.Container.TreeEmptyList
import Lsf.Container.TreeErase
import Lsf.Container.TreeInsert
import Lsf.Container.TreeSearch

/-!
# Insertion and removal

`GetNewNodeAndInsert` and `EraseNode` as operations on the represented tree: a new leaf followed by
`insertFix`, and a node with at most one child spliced out, followed by `eraseFix` where it was
black.

## Main definitions

* `spliceOut` — what `EraseNode` does at a node with at most one child

## Main results

* `Rep.getNewNodeAndInsert_of_occupied`, `Rep.getNewNodeAndInsert_of_hole`
* `Rep.getNewNodeAndInsert_of_found`, `Rep.getNewNodeAndInsert` — in a search tree
* `Rep.eraseNode_of_leafward`, `Rep.eraseNode_of_two`
-/

namespace Lsf.RBTree

open ColorTree

variable {α κ ι : Type}

/-! ### Insertion -/

section Insert

variable [LinearOrder κ] {key : α → κ} {d : ℕ → α} {s : State α} {n m : ℕ} {t : ColorTree ℕ}
  {ctx : List (Frame ℕ)} {free loose : List ℕ} {k : κ} {p : ℕ}

namespace Rep

/-- The new node becomes a red leaf where the comparisons with its key lead. -/
theorem linkNewNode (h : Rep s n m (plug ctx nil) free [p] d) (hk : Steered key d k ctx nil) :
    Ensures (RBTree.linkNewNode key p (contextPos ctx) k) s fun _ s' =>
      Rep s' n m (plug ctx (node .red nil p nil)) free [] d := by
  have hp : p < s.slots := h.lt_slots (by simp)
  have hpn : p ≠ NPOS := h.ne_npos (by simp)
  have hclt := h.contextPos_lt
  have hnodup := h.nodup
  simp only [toList_nil, List.nil_append, List.nodup_append, List.mem_append] at hnodup
  have hpctx : p ∉ contextList ctx := fun hmem => hnodup.2.2 p (.inl hmem) p (by simp) rfl
  have hpfree : p ∉ free := fun hmem => hnodup.2.2 p (.inr hmem) p (by simp) rfl
  rw [RBTree.linkNewNode]
  simp only [ensures_bind, ensures_setLChildPos, ensures_setRChildPos, ensures_setParentPos,
    ensures_setColor, State.slots_relink, hp]
  generalize hs₁ : (((s.relink p (Links.setChild .left NPOS)).relink p
    (Links.setChild .right NPOS)).relink p fun x => { x with parent := contextPos ctx }).relink p
    (fun x => { x with color := .red }) = s₁
  have hag : s.Agrees s₁ := by
    rw [← hs₁]
    exact ((((State.Agrees.refl s).relink _ _).relink _ _).relink _ _).relink _ _
  have hlinks : ∀ x, x ≠ p → s₁.links x = s.links x := fun x hx => by
    rw [← hs₁]
    simp [hx]
  have hplinks : s₁.links p = ⟨NPOS, NPOS, contextPos ctx, .red⟩ := by
    rw [← hs₁]
    simp
  -- the child pointer of the parent is the one on the side of the hole
  have hhang : Ensures (if contextPos ctx = NPOS then setRootPos p
      else do
        if key (← getData (contextPos ctx)) < k then setRChildPos (contextPos ctx) p
        else setLChildPos (contextPos ctx) p) s₁ fun _ s' => s' = s₁.hang ctx p := by
    cases ctx with
    | nil =>
      rw [contextPos_nil, if_pos rfl, ensures_setRootPos]
      rfl
    | cons f ctx =>
      have hf : f.pos < s₁.slots := by rwa [hag.slots]
      rw [contextPos_cons, if_neg h.frame_ne, ensures_bind, ensures_getData hf, hag.data, h.data]
      have hside := hk.side f (by simp)
      rcases f with ⟨_ | _, c, q, b⟩
      · have hlt : ¬ key (d q) < k := fun hlt => by simp [hlt] at hside
        rw [if_neg hlt, ensures_setLChildPos hf]
        rfl
      · have hlt : key (d q) < k := by
          by_contra hlt
          simp [hlt] at hside
        rw [if_pos hlt, ensures_setRChildPos hf]
        rfl
  refine hhang.mono ?_
  rintro _ _ rfl
  have hout : ∀ x, x ∉ contextList ctx → x ≠ p → (s₁.hang ctx p).links x = s.links x := by
    intro x hx hxp
    rw [s₁.links_hang_of_notMem ctx p hx, hlinks x hxp]
  have hroot : (s₁.hang ctx p).rootPos = (s.hang ctx p).rootPos := by
    cases ctx with
    | nil => rfl
    | cons f ctx => exact hag.rootPos
  refine h.replace (by simp [hag.slots]) (by simp [hag.maxSize]) (by simp [hag.size, h.size])
    hroot ?_ (fun x hx => State.links_hang_congr (fun y hy => hlinks y ?_) hx) ?_
    (by simp [hag.emptyHeadPos, h.head]) ?_ ?_ (by simp [hag.data, h.data])
  · rw [holds_node, s₁.links_hang_of_notMem ctx p hpctx]
    exact ⟨hpn, hplinks, trivial, trivial⟩
  · rintro rfl
    exact hpctx hy
  · exact hout NPOS (fun hmem => h.ne_npos (by simp [hmem]) rfl) hpn.symm
  · have hfree : ∀ x ∈ free, (s₁.hang ctx p).links x = s.links x := fun x hx =>
      hout x (fun hmem => hnodup.1.2.2 x hmem x hx rfl) (fun hxp => hpfree (hxp ▸ hx))
    refine h.ring.congr (fun x hx => ?_) fun x hx => ?_
    all_goals rw [hfree x hx]
  · have hpart := h.focus_part
    refine List.Perm.trans ?_ hpart
    simpa using (List.perm_append_singleton p (contextList ctx ++ free)).symm

theorem setSize (h : Rep s n m t free loose d) (m' : ℕ) :
    Rep { s with size := m' } n m' t free loose d :=
  ⟨h.slots, h.maxSize, rfl, h.root, h.tree, h.nil_black, h.head, h.ring, h.part, h.data⟩

/-- A key that `FindNode` finds is not inserted again. -/
theorem getNewNodeAndInsert_of_occupied {u : ColorTree ℕ} {parentPos : ℕ}
    (h : Rep s n m (plug ctx u) free loose d) (hu : u ≠ nil)
    (hrun : (RBTree.findNode key k).run s = some ((u.pos, parentPos), s)) :
    Ensures (RBTree.getNewNodeAndInsert key k) s fun q s' => q = NPOS ∧ s' = s := by
  rw [RBTree.getNewNodeAndInsert]
  refine Ensures.bind_of_run hrun ?_
  show Ensures (if u.pos ≠ NPOS then _ else _) _ _
  rw [if_pos (h.ne_npos (by simp [pos_mem hu])), ensures_pure]
  exact ⟨rfl, rfl⟩

/-- Where `FindNode` ends at a hole, a red leaf is put there, and `insertFix` follows. -/
theorem getNewNodeAndInsert_of_hole (h : Rep s n m (plug ctx nil) (p :: free) [] d)
    (hroot : (plug ctx nil).rootHue = .black) (hk : Steered key d k ctx nil)
    (hrun : (RBTree.findNode key k).run s = some ((NPOS, contextPos ctx), s)) :
    Ensures (RBTree.getNewNodeAndInsert key k) s fun q s' => q = p ∧
      Rep s' n (m + 1) (insertFix ctx (node .red nil p nil)) free [] d := by
  rw [RBTree.getNewNodeAndInsert]
  refine Ensures.bind_of_run hrun ?_
  show Ensures (if NPOS ≠ NPOS then _ else _) _ _
  rw [if_neg (by simp), ensures_bind, ensures_incSize, h.size]
  refine (h.setSize (m + 1)).getNodeFromEmptyList.bind ?_
  rintro q s₁ ⟨hq, h₁⟩
  obtain rfl : p = q := hq.symm
  refine (h₁.linkNewNode hk).bind fun _ s₂ h₂ => ?_
  have hroot' : ctx = [] ∨ (plug ctx (node .red nil p nil)).rootHue = .black := by
    cases ctx with
    | nil => exact .inl rfl
    | cons f ctx => exact .inr (rootHue_plug_cons hroot)
  have hdepth := h₂.depth_lt
  rw [ensures_bind, ensures_get, ensures_bind]
  refine (h₂.insertFixup hroot' rfl (by omega)).mono fun _ s₃ h₃ => ?_
  rw [ensures_pure]
  exact ⟨rfl, h₃⟩

/-- A key that is stored is not inserted again. -/
theorem getNewNodeAndInsert_of_found (h : Rep s n m t free loose d) (ho : Ordered key d t)
    (hk : ∃ x ∈ t.toList, key (d x) = k) :
    Ensures (RBTree.getNewNodeAndInsert key k) s fun q s' => q = NPOS ∧ s' = s := by
  obtain ⟨_, s, hrun, rfl, ctx, u, rfl, hsought, rfl⟩ := h.findNode ho k
  exact h.getNewNodeAndInsert_of_occupied (hsought.ne_nil_iff.mpr hk) hrun

/-- **A new key becomes a red leaf at its place, and `insertFix` follows.** -/
theorem getNewNodeAndInsert (h : Rep s n m t (p :: free) [] d) (ho : Ordered key d t)
    (hroot : t.rootHue = .black) (hk : ¬ ∃ x ∈ t.toList, key (d x) = k) :
    Ensures (RBTree.getNewNodeAndInsert key k) s fun q s' => q = p ∧
      ∃ ctx, plug ctx nil = t ∧ Sought key d k ctx nil ∧
        (RBTree.findNode key k).run s = some ((NPOS, contextPos ctx), s) ∧
          Rep s' n (m + 1) (insertFix ctx (node .red nil p nil)) free [] d := by
  obtain ⟨_, s, hrun, rfl, ctx, u, rfl, hsought, rfl⟩ := h.findNode ho k
  obtain rfl : u = nil := by
    by_contra hu
    exact hk (hsought.ne_nil_iff.mp hu)
  refine (h.getNewNodeAndInsert_of_hole hroot hsought.steered hrun).mono ?_
  rintro q s' ⟨rfl, h'⟩
  exact ⟨rfl, ctx, rfl, hsought, hrun, h'⟩

end Rep

end Insert

/-! ### Removal -/

/-- What `EraseNode` does where a node of hue `c` with the only child `u` is in the hole. -/
def spliceOut (ctx : List (Frame ι)) (c : Hue) (u : ColorTree ι) : ColorTree ι :=
  if c = .red then plug ctx u
  else if u.rootHue = .red then plug ctx (u.paint .black)
  else eraseFix ctx u

theorem toList_spliceOut (ctx : List (Frame ι)) (c : Hue) (u : ColorTree ι) :
    (spliceOut ctx c u).toList = before ctx ++ u.toList ++ after ctx := by
  rw [spliceOut]
  split_ifs
  · exact toList_plug ctx u
  · rw [toList_plug, toList_paint]
  · rw [toList_eraseFix, toList_plug]

/-- The root stays black when a node is spliced out below it. -/
theorem rootHue_spliceOut {f : Frame ι} {ctx : List (Frame ι)}
    (h : (plug ctx (f.fill nil)).rootHue = .black) :
    (spliceOut ctx f.hue f.sibling).rootHue = .black := by
  rw [spliceOut]
  split_ifs with hc hu
  · exact rootHue_plug_black h fun hf => by simp [hc] at hf
  · exact rootHue_plug_black h fun _ => rootHue_paint_black _
  · exact rootHue_eraseFix (rootHue_plug_black h fun _ => Hue.ne_red_iff.mp hu)

/-- Splicing a node out of a red-black tree leaves a red-black tree. -/
theorem redBlack_spliceOut {f : Frame ι} {ctx : List (Frame ι)}
    (h : RedBlack (plug ctx (f.fill nil))) : RedBlack (spliceOut ctx f.hue f.sibling) := by
  have hroot := rootHue_spliceOut h.root_black
  obtain ⟨hr, hrc⟩ := redLaw_plug.mp h.red_law
  obtain ⟨k, hb, hbc⟩ := blackHeight_plug.mp h.black_height
  obtain ⟨hchild, -, hsr⟩ := redLaw_fill.mp hr
  obtain ⟨hk, hsh⟩ : k = f.hue.weight ∧ BlackHeight f.sibling 0 := by
    rcases f with ⟨_ | _, c, p, b⟩ <;> obtain ⟨k', rfl, hl, hr⟩ := hb <;> simp_all
  have hctx : RedContext ctx .black := hrc.black
  rw [spliceOut] at hroot ⊢
  split_ifs at hroot ⊢ with hc hu
  · have hs : f.sibling.rootHue = .black := (hchild hc).2
    refine ⟨hroot, redLaw_plug.mpr ⟨hsr, hs.symm ▸ hctx⟩, blackHeight_plug.mpr ⟨0, hsh, ?_⟩⟩
    rwa [hk, hc] at hbc
  · have hc := Hue.ne_red_iff.mp hc
    obtain ⟨l, p, r, hs⟩ := rootHue_eq_red hu
    refine ⟨hroot, redLaw_plug.mpr ⟨hsr.paint_black, by simpa using hctx⟩,
      blackHeight_plug.mpr ⟨1, ?_, ?_⟩⟩
    · rw [hs] at hsh ⊢
      exact blackHeight_black_succ.mpr (blackHeight_red.mp hsh)
    · rwa [hk, hc] at hbc
  · have hc := Hue.ne_red_iff.mp hc
    have hu := Hue.ne_red_iff.mp hu
    rw [hk, hc] at hbc
    have hplug : (plug ctx f.sibling).rootHue = .black :=
      rootHue_plug_black h.root_black fun _ => hu
    exact eraseFix_redBlack hplug hu hsr hsh hctx hbc

namespace Rep

variable {d : ℕ → α} {s : State α} {n m : ℕ} {t : ColorTree ℕ} {f : Frame ℕ}
  {ctx : List (Frame ℕ)} {free loose : List ℕ}

/-- The node of a frame with an empty hole gives its place to the other child. -/
theorem deleteAndFreeNode (h : Rep s n m (plug ctx (f.fill nil)) free [] d) :
    Ensures (RBTree.deleteAndFreeNode f.pos f.sibling.pos) s fun _ s' =>
      Rep s' n m (plug ctx f.sibling) (f.pos :: free) [] d := by
  have hlt := h.down.frame_lt
  have hpar := h.down.frame_parent
  have hslt := h.down.across.pos_lt
  have hrep := h.ensures_replaceInParent (f.fill_ne_nil nil) f.sibling.pos
    (Q := fun _ s' => s' = s.hang ctx f.sibling.pos)
  rw [pos_fill] at hrep
  have hnodup := h.down.nodup
  simp only [toList_nil, List.nil_append, contextList_cons, List.append_nil, List.nodup_append,
    List.nodup_cons, List.mem_append, List.cons_append] at hnodup
  rw [RBTree.deleteAndFreeNode, if_neg h.down.frame_ne, ensures_bind, ensures_getParentPos hlt,
    hpar]
  refine (hrep.mpr rfl).bind ?_
  rintro _ _ rfl
  -- the freed node is loose for a moment
  suffices hloose : Ensures
      (if f.sibling.pos ≠ NPOS then setParentPos f.sibling.pos (contextPos ctx) else pure ())
      (s.hang ctx f.sibling.pos) (fun _ s' => Rep s' n m (plug ctx f.sibling) free [f.pos] d) by
    by_cases hs : f.sibling.pos = NPOS
    · rw [if_neg (by simp [hs]), ensures_pure] at hloose
      rw [if_neg (by simp [hs])]
      exact hloose.insertNodeToEmptyList
    · rw [if_pos hs] at hloose ⊢
      exact hloose.bind fun _ s' h' => h'.insertNodeToEmptyList
  have hpart : (f.sibling.toList ++ contextList ctx ++ free ++ [f.pos]).Perm
      (List.range' 1 n) := by
    refine List.Perm.trans ?_ h.down.focus_part
    simpa using List.perm_append_singleton f.pos (f.sibling.toList ++ contextList ctx ++ free)
  have hpos := fun hne : f.sibling ≠ nil => pos_mem hne
  have hzero := fun x => h.down.ne_npos (x := x)
  simp only [toList_nil, List.nil_append, contextList_cons, List.mem_append, List.cons_append,
    List.mem_cons] at hzero
  have hoff : ∀ x, x ∈ f.sibling.toList ∨ x ∈ free ∨ x = NPOS →
      (s.hang ctx f.sibling.pos).links x = s.links x := by
    intro x hx
    apply s.links_hang_of_notMem
    grind
  have hsib : f.sibling.toList.Nodup := by grind
  have hold : Holds s.links f.pos f.sibling := h.down.holdsContext.2.2.1
  by_cases hs : f.sibling = nil
  · rw [if_neg (by simp [hs]), ensures_pure]
    refine h.replace (by simp) (by simp) (by simp [h.size]) rfl ?_ (fun _ _ => rfl)
      (hoff NPOS (by simp)) (by simp [h.head]) ?_ hpart (by simp [h.data])
    · rw [hs]
      trivial
    · refine h.ring.congr (fun x hx => ?_) fun x hx => ?_
      all_goals rw [hoff x (by simp [hx])]
  · have hne : f.sibling.pos ≠ NPOS := hzero _ (by simp [hpos hs])
    rw [if_pos hne, ensures_setParentPos (by simpa using hslt)]
    have hrest : ∀ x, x ≠ f.sibling.pos → ((s.hang ctx f.sibling.pos).relink f.sibling.pos
        fun x => { x with parent := contextPos ctx }).links x =
          (s.hang ctx f.sibling.pos).links x := fun x hx => by
      rw [State.links_relink, Function.update_of_ne hx]
    refine h.replace (by simp) (by simp) (by simp [h.size]) rfl ?_ (fun x hx => hrest x ?_)
      ((hrest NPOS hne.symm).trans (hoff NPOS (by simp))) (by simp [h.head]) ?_ hpart
      (by simp [h.data])
    · refine hold.reparent (fun _ => ?_) (fun x hx hxs => ?_) hsib
      · rw [State.links_relink, Function.update_self, hoff _ (by simp [hpos hs])]
      · rw [hrest x hxs, hoff x (by simp [hx])]
    · rintro rfl
      grind
    · have hfree : ∀ x ∈ free, x ≠ f.sibling.pos := by grind
      refine h.ring.congr (fun x hx => ?_) fun x hx => ?_
      all_goals rw [hrest x (hfree x hx), hoff x (by simp [hx])]

/-- The two children of a node of which one is missing. -/
theorem children_fill (f : Frame ℕ) : (((f.fill nil).near .left).pos = f.sibling.pos ∧
    ((f.fill nil).near .right).pos = NPOS) ∨ (((f.fill nil).near .left).pos = NPOS ∧
      ((f.fill nil).near .right).pos = f.sibling.pos) := by
  rcases f with ⟨_ | _, c, p, u⟩
  · exact .inr ⟨rfl, rfl⟩
  · exact .inl ⟨rfl, rfl⟩

/-- **Removing a node with at most one child.** -/
theorem eraseLeafward (h : Rep s n m (plug ctx (f.fill nil)) free [] d) :
    Ensures (RBTree.eraseLeafward f.pos (contextPos ctx) ((f.fill nil).near .left).pos
      ((f.fill nil).near .right).pos) s fun _ s' =>
        Rep s' n m (spliceOut ctx f.hue f.sibling) (f.pos :: free) [] d := by
  have hlt := h.down.frame_lt
  have hcolor := h.down.frame_color
  have hslt := h.down.across.pos_lt
  have hscol := h.down.across.color_pos
  have hnlt := h.npos_lt
  have hncol := h.nil_black
  have hpos : f.sibling ≠ nil → f.sibling.pos ≠ NPOS := fun hs =>
    h.down.ne_npos (by simp [pos_mem hs])
  have hdel := h.deleteAndFreeNode
  have hchildren := children_fill f
  rw [RBTree.eraseLeafward, ensures_bind, ensures_getColor hlt, hcolor]
  by_cases hc : f.hue = .red
  · -- [2.1]
    rw [show spliceOut ctx f.hue f.sibling = plug ctx f.sibling from if_pos hc, hc]
    obtain ⟨hl, hr⟩ | ⟨hl, hr⟩ := hchildren <;> by_cases hs : f.sibling.pos = NPOS
    all_goals simpa [hl, hr, hs] using hdel
  have hc : f.hue = .black := Hue.ne_red_iff.mp hc
  by_cases hu : f.sibling.rootHue = .red
  · -- [2.2]
    have hs : f.sibling ≠ nil := by
      intro hs
      rw [hs] at hu
      cases hu
    have hpaint : Ensures (do
        setColor f.sibling.pos .black
        RBTree.deleteAndFreeNode f.pos f.sibling.pos) s fun _ s' =>
          Rep s' n m (plug ctx (f.sibling.paint .black)) (f.pos :: free) [] d := by
      refine (h.down.setColor_sibling hs .black).bind fun _ s₁ h₁ => ?_
      simpa using h₁.up.deleteAndFreeNode
    have hsplice : spliceOut ctx f.hue f.sibling = plug ctx (f.sibling.paint .black) := by
      simp [spliceOut, hc, hu]
    rw [hsplice, hc]
    obtain ⟨hl, hr⟩ | ⟨hl, hr⟩ := hchildren
    all_goals simpa [hl, hr, hslt, hscol, hu, hnlt, hncol] using hpaint
  · -- [2.3]
    have hu : f.sibling.rootHue = .black := Hue.ne_red_iff.mp hu
    have hfix : Ensures (do
        RBTree.deleteAndFreeNode f.pos f.sibling.pos
        RBTree.eraseFixup (← get).slots (contextPos ctx) f.sibling.pos) s fun _ s' =>
          Rep s' n m (eraseFix ctx f.sibling) (f.pos :: free) [] d := by
      refine hdel.bind fun _ s₁ h₁ => ?_
      have hdepth := h₁.depth_lt
      rw [ensures_bind, ensures_get]
      exact h₁.eraseFixup (by omega)
    have hsplice : spliceOut ctx f.hue f.sibling = eraseFix ctx f.sibling := by
      simp [spliceOut, hc, hu]
    rw [hsplice, hc]
    obtain ⟨hl, hr⟩ | ⟨hl, hr⟩ := hchildren <;> by_cases hs : f.sibling.pos = NPOS
    all_goals simpa [hl, hr, hs, hslt, hscol, hu, hnlt, hncol] using hfix

/-- The data of a slot is assigned. -/
theorem withData (h : Rep s n m t free loose d) (p : ℕ) (val : α) :
    Rep (s.withData p val) n m t free loose (Function.update d p val) :=
  ⟨h.slots, h.maxSize, h.size, h.root, by rw [State.links_withData]; exact h.tree,
    by rw [State.links_withData]; exact h.nil_black, h.head,
    by rw [State.links_withData]; exact h.ring, h.part, by rw [State.data_withData, h.data]⟩

theorem decSize (h : Rep s n m t free loose d) :
    Ensures RBTree.decSize s fun _ s' => Rep s' n (m - 1) t free loose d := by
  rw [ensures_decSize, h.size]
  exact h.setSize (m - 1)

/-- **`EraseNode` at a node with at most one child.** -/
theorem eraseNode_of_leafward (h : Rep s n m (plug ctx (f.fill nil)) free [] d) :
    Ensures (RBTree.eraseNode f.pos (contextPos ctx)) s fun _ s' =>
      Rep s' n (m - 1) (spliceOut ctx f.hue f.sibling) (f.pos :: free) [] d := by
  refine h.decSize.bind fun _ s₁ h₁ => ?_
  have hl := h₁.child_pos .left
  have hr := h₁.child_pos .right
  rw [pos_fill] at hl hr
  rw [ensures_bind, ensures_getLChildPos h₁.down.frame_lt, ensures_bind,
    ensures_getRChildPos h₁.down.frame_lt, hl, hr, if_neg]
  · exact h₁.eraseLeafward
  · rintro ⟨hln, hrn⟩
    obtain ⟨-, h0⟩ | ⟨h0, -⟩ := children_fill f
    · exact hrn h0
    · exact hln h0

/-- **`EraseNode` at a node with two children** moves the biggest node of the left subtree, which
has no right child, into its place. -/
theorem eraseNode_of_two {c : Hue} {l r : ColorTree ℕ} {p : ℕ} (hl : l ≠ nil) (hr : r ≠ nil)
    (h : Rep s n m (plug ctx (node c l p r)) free [] d) :
    Ensures (RBTree.eraseNode p (contextPos ctx)) s fun _ s' =>
      ∃ spine c' b q, l = plug spine (node c' b q nil) ∧ after spine = [] ∧
        Rep s' n (m - 1) (spliceOut (spine ++ ⟨.left, c, p, r⟩ :: ctx) c' b) (q :: free) []
          (Function.update d p (d q)) := by
  refine h.decSize.bind fun _ s₁ h₁ => ?_
  have hleft : Rep s₁ n (m - 1) (plug (⟨.left, c, p, r⟩ :: ctx) l) free [] d := h₁
  have hright : Rep s₁ n (m - 1) (plug (⟨.right, c, p, l⟩ :: ctx) r) free [] d := h₁
  have hlpos : l.pos ≠ NPOS := hleft.ne_npos (by simp [pos_mem hl])
  have hrpos : r.pos ≠ NPOS := hright.ne_npos (by simp [pos_mem hr])
  rw [ensures_bind, ensures_getLChildPos h₁.node_lt, ensures_bind,
    ensures_getRChildPos h₁.node_lt, h₁.node_child.1, h₁.node_child.2, if_pos ⟨hlpos, hrpos⟩]
  have hlen : l.toList.length ≤ s₁.slots := by
    have := hleft.depth_lt
    omega
  rw [RBTree.findBiggestPosFrom, if_neg hlpos, ensures_bind, ensures_bind, ensures_get]
  refine (hleft.findBiggestLoop hl hlen).mono ?_
  rintro q s₂ ⟨rfl, spine, c', b, rfl, hspine⟩
  have hq : Rep s₂ n (m - 1) (plug (spine ++ ⟨.left, c, p, r⟩ :: ctx) (node c' b q nil)) free []
      d := by
    rw [plug_append]
    exact hleft
  have hdata : s₂.data q = d q := congrFun h₁.data q
  rw [ensures_bind, ensures_getData hq.node_lt, hdata, ensures_bind, ensures_setData h₁.node_lt]
  have hd := hq.withData p (d q)
  rw [ensures_bind, ensures_getParentPos hd.node_lt, hd.node_links, ensures_bind,
    ensures_getLChildPos hd.node_lt, ensures_bind, ensures_getRChildPos hd.node_lt,
    hd.node_child.1, hd.node_child.2]
  refine (eraseLeafward (f := ⟨.right, c', q, b⟩) hd).mono fun _ s₃ h₃ => ?_
  exact ⟨spine, c', b, q, rfl, hspine, h₃⟩

end Rep

end Lsf.RBTree
