import Lsf.Container.TreeRotation

/-!
# The empty list of a tree

The unused slots of a block form a ring through their child fields. Taking its head out makes a
position loose, and a loose position can be put back in front of the head. Neither touches a node
of the tree.

## Main results

* `Rep.getNodeFromEmptyList`, `Rep.insertNodeToEmptyList`
-/

namespace Lsf.RBTree

open ColorTree

variable {α : Type}

/-! ### The links of the empty list -/

namespace State

section Fields

variable {β : Type} (s : State α) (φ : Links → β) (pos v : ℕ)

/-- A field of the links after an assignment. -/
theorem field_relink (g : Links → Links) : (fun x => φ ((s.relink pos g).links x)) =
    Function.update (fun x => φ (s.links x)) pos (φ (g (s.links pos))) := by
  rw [links_relink]
  exact Function.comp_update φ s.links pos _

/-- A field of the links after an assignment to another field. -/
theorem field_relink_of_eq {g : Links → Links} (hg : φ (g (s.links pos)) = φ (s.links pos)) :
    (fun x => φ ((s.relink pos g).links x)) = fun x => φ (s.links x) := by
  rw [field_relink, hg]
  exact Function.update_eq_self pos _

theorem next_setRight : (fun x => ((s.relink pos (Links.setChild .right v)).links x).rchild) =
    Function.update (fun x => (s.links x).rchild) pos v := s.field_relink Links.rchild pos _

theorem prev_setRight : (fun x => ((s.relink pos (Links.setChild .right v)).links x).lchild) =
    fun x => (s.links x).lchild := s.field_relink_of_eq Links.lchild pos rfl

theorem next_setLeft : (fun x => ((s.relink pos (Links.setChild .left v)).links x).rchild) =
    fun x => (s.links x).rchild := s.field_relink_of_eq Links.rchild pos rfl

theorem prev_setLeft : (fun x => ((s.relink pos (Links.setChild .left v)).links x).lchild) =
    Function.update (fun x => (s.links x).lchild) pos v := s.field_relink Links.lchild pos _

/-- What `InsertNodeToEmptyList` sets besides the neighbours. -/
def unuse : State α :=
  (s.relink pos fun x => { x with parent := NPOS }).relink pos fun x => { x with color := .empty }

theorem next_unuse : (fun x => ((s.unuse pos).links x).rchild) = fun x => (s.links x).rchild :=
  (State.field_relink_of_eq _ Links.rchild pos rfl).trans
    (s.field_relink_of_eq Links.rchild pos rfl)

theorem prev_unuse : (fun x => ((s.unuse pos).links x).lchild) = fun x => (s.links x).lchild :=
  (State.field_relink_of_eq _ Links.lchild pos rfl).trans
    (s.field_relink_of_eq Links.lchild pos rfl)

theorem links_unuse_of_ne {x : ℕ} (hx : x ≠ pos) : (s.unuse pos).links x = s.links x := by
  rw [unuse, links_relink, links_relink, Function.update_of_ne hx, Function.update_of_ne hx]

theorem links_relink_of_ne {x : ℕ} (hx : x ≠ pos) (g : Links → Links) :
    (s.relink pos g).links x = s.links x := by
  rw [links_relink, Function.update_of_ne hx]

end Fields

theorem Agrees.unuse {s s' : State α} (h : s.Agrees s') (pos : ℕ) : s.Agrees (s'.unuse pos) :=
  (h.relink _ _).relink _ _

end State

section Execution

variable {s : State α} {p a z : ℕ}

/-- `GetNodeFromEmptyList` assigns to the neighbours `z` and `a` of the head. -/
theorem ensures_getNodeFromEmptyList (hhead : s.emptyHeadPos = p) (hpn : p ≠ NPOS)
    (hp : p < s.slots) (ha : a < s.slots) (hz : z < s.slots) (hap : a ≠ p) (hzp : z ≠ p)
    (hnext : (s.links p).rchild = a) (hprev : (s.links p).lchild = z)
    {Q : ℕ → State α → Prop} : Ensures getNodeFromEmptyList s Q ↔
      Q p { (s.relink a (Links.setChild .left z)).relink z (Links.setChild .right a) with
        emptyHeadPos := a } := by
  have hl : s.child .left p = z := (if_neg hpn).trans hprev
  have hr : s.child .right p = a := (if_neg hpn).trans hnext
  rw [getNodeFromEmptyList]
  simp only [ensures_bind, ensures_getEmptyHeadPos, hhead, ensures_getRChildPos hp, hr, if_neg hap,
    ensures_getLChildPos hp, hl, ensures_setLChildPos ha]
  generalize hs₁ : s.relink a (Links.setChild .left z) = s₁
  have hslots₁ : s₁.slots = s.slots := by rw [← hs₁, State.slots_relink]
  have hchild₁ : ∀ side, s₁.child side p = s.child side p := fun side => by
    rw [← hs₁, State.child_relink_of_ne _ hap.symm]
  rw [← hslots₁] at hp hz
  simp only [ensures_getLChildPos hp, ensures_getRChildPos hp, hchild₁, hl, hr,
    ensures_setRChildPos hz]
  have hp₂ : p < (s₁.relink z (Links.setChild .right a)).slots := by rwa [State.slots_relink]
  have hchild₂ : (s₁.relink z (Links.setChild .right a)).child .right p = a := by
    rw [State.child_relink_of_ne _ hzp.symm, hchild₁, hr]
  rw [ensures_getRChildPos hp₂, hchild₂, ensures_setEmptyHeadPos, ensures_pure]

theorem ensures_insertNodeToEmptyList_nil (hhead : s.emptyHeadPos = NPOS) (hp : p < s.slots)
    {Q : Unit → State α → Prop} : Ensures (insertNodeToEmptyList p) s Q ↔
      Q () { ((s.relink p (Links.setChild .right p)).relink p (Links.setChild .left p)).unuse p with
        emptyHeadPos := p } := by
  rw [insertNodeToEmptyList, ensures_bind, ensures_getEmptyHeadPos, hhead, if_pos rfl]
  simp only [ensures_bind, ensures_setRChildPos, State.slots_relink, hp, ensures_setLChildPos,
    ensures_setParentPos, ensures_setColor, ensures_setEmptyHeadPos, State.unuse]

/-- `InsertNodeToEmptyList` assigns to the node, to the head `a` and to its predecessor `z`. -/
theorem ensures_insertNodeToEmptyList (hhead : s.emptyHeadPos = a) (han : a ≠ NPOS) (hpn : p ≠ NPOS)
    (hp : p < s.slots) (ha : a < s.slots) (hz : z < s.slots) (hap : a ≠ p)
    (hprev : (s.links a).lchild = z) {Q : Unit → State α → Prop} :
    Ensures (insertNodeToEmptyList p) s Q ↔
      Q () { ((((s.relink p (Links.setChild .right a)).relink p (Links.setChild .left z)).relink a
        (Links.setChild .left p)).relink z (Links.setChild .right p)).unuse p with
          emptyHeadPos := p } := by
  rw [insertNodeToEmptyList, ensures_bind, ensures_getEmptyHeadPos, hhead, if_neg han]
  simp only [ensures_bind, ensures_setRChildPos, State.slots_relink, hp, ha, hz,
    ensures_setLChildPos, ensures_setParentPos, ensures_setColor,
    ensures_getLChildPos, ensures_getRChildPos, State.child, if_neg han, if_neg hpn,
    State.links_relink, Function.update_of_ne hap, Function.update_of_ne hap.symm,
    Function.update_self, Links.child_left, Links.child_right, Links.setChild_left,
    Links.setChild_right, hprev, ensures_setEmptyHeadPos, State.unuse]

end Execution

/-! ### The empty list beside the tree -/

namespace Rep

variable {s s' : State α} {n m m' : ℕ} {t : ColorTree ℕ} {free free' loose loose' : List ℕ}
  {d d' : ℕ → α} {p : ℕ}

/-- A change of links outside the tree, followed by the choice of a head for the empty list. -/
theorem outside (h : Rep s n m t free loose d) (ha : s.Agrees s')
    (hlinks : ∀ x, x ∈ t.toList ∨ x = NPOS → s'.links x = s.links x)
    (hring : IsRing (fun x => (s'.links x).rchild) (fun x => (s'.links x).lchild) free')
    (hpart : (t.toList ++ free' ++ loose').Perm (t.toList ++ free ++ loose)) :
    Rep { s' with emptyHeadPos := free'.headD NPOS } n m t free' loose' d :=
  ⟨ha.slots.trans h.slots, ha.maxSize.trans h.maxSize, ha.size.trans h.size,
    ha.rootPos.trans h.root, h.tree.congr fun x hx => hlinks x (.inl hx),
    (congrArg Links.color (hlinks NPOS (.inr rfl))).trans h.nil_black, rfl, hring,
    hpart.trans h.part, ha.data.trans h.data⟩

/-- The unused positions are neither nodes of the tree nor the NIL position. -/
theorem ne_of_unused (h : Rep s n m t free loose d) {x y : ℕ} (hx : x ∈ t.toList ∨ x = NPOS)
    (hy : y ∈ free ++ loose) : x ≠ y := by
  have h₀ : Rep s n m (plug [] t) free loose d := h
  have hnodup := h₀.nodup
  rw [contextList_nil, List.append_nil, List.append_assoc, List.nodup_append] at hnodup
  obtain hx | rfl := hx
  · exact hnodup.2.2 x hx y hy
  · refine (h₀.ne_npos ?_).symm
    rw [List.append_assoc]
    exact List.mem_append_right _ hy

theorem lt_slots_of_unused (h : Rep s n m t free loose d) {x : ℕ} (hx : x ∈ free ++ loose) :
    x < s.slots := by
  have h₀ : Rep s n m (plug [] t) free loose d := h
  refine h₀.lt_slots ?_
  rw [List.append_assoc]
  exact List.mem_append_right _ hx

theorem nodup_unused (h : Rep s n m t free loose d) : (free ++ loose).Nodup := by
  have h₀ : Rep s n m (plug [] t) free loose d := h
  have hnodup := h₀.nodup
  rw [List.append_assoc] at hnodup
  exact (List.nodup_append.mp hnodup).2.1

theorem getNodeFromEmptyList (h : Rep s n m t (p :: free) [] d) :
    Ensures (RBTree.getNodeFromEmptyList) s fun q s' => q = p ∧ Rep s' n m t free [p] d := by
  have hunused : ∀ x ∈ p :: free, x ∈ p :: free ++ [] := fun x hx => List.mem_append_left _ hx
  have hp : p < s.slots := h.lt_slots_of_unused (hunused p List.mem_cons_self)
  have hpn : p ≠ NPOS := (h.ne_of_unused (.inr rfl) (hunused p List.mem_cons_self)).symm
  have hnodup : (p :: free).Nodup := (List.nodup_append.mp h.nodup_unused).1
  have hperm : (t.toList ++ free ++ [p]).Perm (t.toList ++ (p :: free) ++ []) := by
    simpa using (List.perm_append_singleton p free).append_left t.toList
  cases free with
  | nil =>
    have hr : s.child .right p = p := (if_neg hpn).trans (IsRing.singleton_iff.mp h.ring).1
    have hhead : s.emptyHeadPos = p := h.head
    rw [RBTree.getNodeFromEmptyList]
    simp only [ensures_bind, ensures_getEmptyHeadPos, hhead, ensures_getRChildPos hp, hr]
    rw [if_pos trivial, ensures_bind, ensures_setEmptyHeadPos, ensures_pure]
    exact ⟨rfl, h.outside (State.Agrees.refl s) (fun x _ => rfl) IsRing.nil hperm⟩
  | cons a free =>
    have ha : (s.links p).rchild = a := h.ring.next_head
    have hap : a ≠ p := (List.ne_of_not_mem_cons (List.nodup_cons.mp hnodup).1).symm
    obtain ⟨z, hz⟩ : ∃ z, (s.links p).lchild = z := ⟨_, rfl⟩
    have hzmem : z ∈ p :: a :: free := hz ▸ h.ring.prev_head_mem
    have hzp : z ≠ p := by
      rintro rfl
      have hnext := h.ring.next_prev_head
      rw [hz, ha] at hnext
      exact hap hnext
    have hamem : a ∈ p :: a :: free := List.mem_cons_of_mem p List.mem_cons_self
    rw [ensures_getNodeFromEmptyList h.head hpn hp (h.lt_slots_of_unused (hunused a hamem))
      (h.lt_slots_of_unused (hunused z hzmem)) hap hzp ha hz]
    refine ⟨rfl,
      h.outside (((State.Agrees.refl s).relink _ _).relink _ _) (fun x hx => ?_) ?_ hperm⟩
    · rw [State.links_relink_of_ne _ _ (h.ne_of_unused hx (hunused z hzmem)),
        State.links_relink_of_ne _ _ (h.ne_of_unused hx (hunused a hamem))]
    · have hring := h.ring.takeOut hnodup
      rw [State.next_setRight, State.next_setLeft, State.prev_setRight, State.prev_setLeft]
      rwa [ha, hz] at hring

theorem insertNodeToEmptyList (h : Rep s n m t free [p] d) :
    Ensures (RBTree.insertNodeToEmptyList p) s fun _ s' => Rep s' n m t (p :: free) [] d := by
  have hloose : p ∈ free ++ [p] := List.mem_append_right _ (List.mem_singleton_self p)
  have hp : p < s.slots := h.lt_slots_of_unused hloose
  have hpn : p ≠ NPOS := (h.ne_of_unused (.inr rfl) hloose).symm
  have hnodup := List.nodup_append.mp h.nodup_unused
  have hpfree : p ∉ free := fun hmem => hnodup.2.2 p hmem p (List.mem_singleton_self p) rfl
  have hperm : (t.toList ++ (p :: free) ++ []).Perm (t.toList ++ free ++ [p]) := by
    simpa using (List.perm_append_singleton p free).symm.append_left t.toList
  cases free with
  | nil =>
    rw [ensures_insertNodeToEmptyList_nil h.head hp]
    refine h.outside ((((State.Agrees.refl s).relink _ _).relink _ _).unuse p) (fun x hx => ?_) ?_
      hperm
    · have hxp := h.ne_of_unused hx hloose
      rw [State.links_unuse_of_ne _ _ hxp, State.links_relink_of_ne _ _ hxp,
        State.links_relink_of_ne _ _ hxp]
    · rw [State.next_unuse, State.prev_unuse, State.next_setLeft, State.next_setRight,
        State.prev_setLeft]
      exact IsRing.singleton_iff.mpr ⟨Function.update_self _ _ _, Function.update_self _ _ _⟩
  | cons a free =>
    have hmem : ∀ x ∈ a :: free, x ∈ a :: free ++ [p] := fun x hx => List.mem_append_left _ hx
    have han : a ≠ NPOS := (h.ne_of_unused (.inr rfl) (hmem a List.mem_cons_self)).symm
    have hap : a ≠ p := (List.ne_of_not_mem_cons hpfree).symm
    obtain ⟨z, hz⟩ : ∃ z, (s.links a).lchild = z := ⟨_, rfl⟩
    have hzmem : z ∈ a :: free := hz ▸ h.ring.prev_head_mem
    have hhead : s.emptyHeadPos = a := h.head
    rw [ensures_insertNodeToEmptyList hhead han hpn hp
      (h.lt_slots_of_unused (hmem a List.mem_cons_self)) (h.lt_slots_of_unused (hmem z hzmem)) hap
      hz]
    have hag := (((State.Agrees.refl s).relink p (Links.setChild .right a)).relink p
      (Links.setChild .left z)).relink a (Links.setChild .left p)
    refine h.outside ((hag.relink z (Links.setChild .right p)).unuse p) (fun x hx => ?_) ?_ hperm
    · have hxp := h.ne_of_unused hx hloose
      rw [State.links_unuse_of_ne _ _ hxp,
        State.links_relink_of_ne _ _ (h.ne_of_unused hx (hmem z hzmem)),
        State.links_relink_of_ne _ _ (h.ne_of_unused hx (hmem a List.mem_cons_self)),
        State.links_relink_of_ne _ _ hxp, State.links_relink_of_ne _ _ hxp]
    · have hring := h.ring.linkBefore hnodup.1 hpfree
      rw [State.next_unuse, State.prev_unuse, State.next_setRight, State.next_setLeft,
        State.next_setLeft, State.next_setRight, State.prev_setRight, State.prev_setLeft,
        State.prev_setLeft, State.prev_setRight]
      rwa [hz] at hring

end Rep

end Lsf.RBTree
