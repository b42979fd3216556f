import Lsf.Container.TreeMemory

/-!
# Searching and walking

`FindNode` descends along a zipper and ends at the only place where an element with the sought key
can be. `FindNextBigPos` and `FindNextSmallPos` move to the neighbour of a position in the in-order
list of the tree, where the NIL position stands before the first and behind the last one.

## Main definitions

* `Ordered` — the search order
* `Steered` — where the comparisons with a key lead, in whatever order a tree is
* `Sought` — the place of a key in a tree

## Main results

* `Rep.findNode`
* `Rep.findNextBigPos`, `Rep.findNextSmallPos`
-/

namespace Lsf.RBTree

open ColorTree

variable {α κ : Type}

/-! ### FindNode -/

section Find

variable [LinearOrder κ] (key : α → κ) (d : ℕ → α)

/-- The positions of the tree are in strictly increasing order of their keys. -/
def Ordered (t : ColorTree ℕ) : Prop := t.toList.Pairwise fun x y => key (d x) < key (d y)

/-- The focus `u` of a tree is where the comparisons with the key `k` lead: it is empty or has the
key at its root, and it is on the side of its parent that the comparison with this says. -/
structure Steered (k : κ) (ctx : List (Frame ℕ)) (u : ColorTree ℕ) : Prop where
  here : u ≠ nil → key (d u.pos) = k
  side : ∀ f ∈ ctx.head?, (if key (d f.pos) < k then Side.right else Side.left) = f.side

/-- The focus `u` of a tree is the place of the key `k`: it is empty or has the key at its root,
and all that is before it is smaller and all that is after it bigger. -/
structure Sought (k : κ) (ctx : List (Frame ℕ)) (u : ColorTree ℕ) : Prop where
  here : u ≠ nil → key (d u.pos) = k
  below : ∀ x ∈ before ctx, key (d x) < k
  above : ∀ x ∈ after ctx, k < key (d x)

variable {key d} {s : State α} {n m : ℕ} {t : ColorTree ℕ} {ctx : List (Frame ℕ)}
  {free loose : List ℕ} {k : κ}

theorem Ordered.left_lt {c : Hue} {l r : ColorTree ℕ} {p : ℕ}
    (ho : Ordered key d (plug ctx (node c l p r))) {x : ℕ} (hx : x ∈ l.toList) :
    key (d x) < key (d p) := by
  simp only [Ordered, toList_plug, toList_node, List.pairwise_append, List.pairwise_cons] at ho
  exact ho.1.2.1.2.2 x hx p (by simp)

theorem Ordered.lt_right {c : Hue} {l r : ColorTree ℕ} {p : ℕ}
    (ho : Ordered key d (plug ctx (node c l p r))) {x : ℕ} (hx : x ∈ r.toList) :
    key (d p) < key (d x) := by
  simp only [Ordered, toList_plug, toList_node, List.pairwise_append, List.pairwise_cons] at ho
  exact ho.1.2.1.2.1.1 x hx

namespace Rep

theorem findNodeLoop {rounds : ℕ} (h : Rep s n m (plug ctx t) free loose d)
    (hside : ∀ f ∈ ctx.head?, (if key (d f.pos) < k then Side.right else Side.left) = f.side)
    (hrounds : t.toList.length < rounds) :
    Ensures (RBTree.findNodeLoop key k rounds t.pos (contextPos ctx)) s fun r s' => s' = s ∧
      ∃ ctx' u, plug ctx' u = plug ctx t ∧ Steered key d k ctx' u ∧
        r = (u.pos, contextPos ctx') ∧ (Ordered key d (plug ctx t) →
          (∀ x ∈ before ctx, key (d x) < k) → (∀ x ∈ after ctx, k < key (d x)) →
            Sought key d k ctx' u) := by
  obtain _ | rounds := rounds
  · exact absurd hrounds (Nat.not_lt_zero _)
  induction t generalizing ctx rounds with
  | nil =>
    rw [RBTree.findNodeLoop, pos_nil, if_pos rfl, ensures_pure]
    exact ⟨rfl, ctx, nil, rfl, ⟨fun hn => absurd rfl hn, hside⟩, rfl,
      fun _ hb ha => ⟨fun hn => absurd rfl hn, hb, ha⟩⟩
  | node c l p r ihl ihr =>
    have hdata : s.data p = d p := congrFun h.data p
    obtain ⟨hcl, hcr⟩ := h.node_child
    simp only [toList_node, List.length_append, List.length_cons] at hrounds
    obtain _ | rounds := rounds
    · omega
    rw [RBTree.findNodeLoop, pos_node, if_neg h.node_ne, ensures_bind, ensures_getData h.node_lt,
      hdata]
    by_cases heq : key (d p) = k
    · rw [if_pos heq, ensures_pure]
      exact ⟨rfl, ctx, node c l p r, rfl, ⟨fun _ => heq, hside⟩, rfl,
        fun _ hb ha => ⟨fun _ => heq, hb, ha⟩⟩
    rw [if_neg heq]
    by_cases hlt : key (d p) < k
    · rw [if_pos hlt, ensures_bind, ensures_getRChildPos h.node_lt, hcr]
      refine (@ihr (⟨.right, c, p, l⟩ :: ctx) h (by simpa using hlt) rounds (by omega)).mono ?_
      rintro _ s' ⟨rfl, ctx', u, hplug, hsteered, rfl, hsought⟩
      refine ⟨rfl, ctx', u, hplug, hsteered, rfl, fun ho hb ha => ?_⟩
      refine hsought ho (fun x hx => ?_) (by simpa [Frame.after] using ha)
      simp only [before_cons, Frame.before, List.mem_append, List.mem_singleton] at hx
      obtain hx | hx | rfl := hx
      · exact hb x hx
      · exact (ho.left_lt hx).trans hlt
      · exact hlt
    · rw [if_neg hlt, ensures_bind, ensures_getLChildPos h.node_lt, hcl]
      refine (@ihl (⟨.left, c, p, r⟩ :: ctx) h (by simpa using not_lt.mp hlt) rounds
        (by omega)).mono ?_
      rintro _ s' ⟨rfl, ctx', u, hplug, hsteered, rfl, hsought⟩
      refine ⟨rfl, ctx', u, hplug, hsteered, rfl, fun ho hb ha => ?_⟩
      have hgt : k < key (d p) := lt_of_le_of_ne (not_lt.mp hlt) (Ne.symm heq)
      refine hsought ho (by simpa [Frame.before] using hb) fun x hx => ?_
      simp only [after_cons, Frame.after, List.cons_append, List.mem_cons, List.mem_append] at hx
      obtain rfl | hx | hx := hx
      · exact hgt
      · exact hgt.trans (ho.lt_right hx)
      · exact ha x hx

end Rep

/-- The place of a key is on the side of its parent that the comparison says. -/
theorem Sought.steered {u : ColorTree ℕ} (hk : Sought key d k ctx u) : Steered key d k ctx u := by
  refine ⟨hk.here, fun f hf => ?_⟩
  cases ctx with
  | nil => cases hf
  | cons g ctx =>
    obtain rfl : g = f := by simpa using hf
    rcases g with ⟨_ | _, c, p, b⟩
    · have hlt : k < key (d p) := hk.above p (by simp [Frame.after])
      exact if_neg hlt.asymm
    · have hlt : key (d p) < k := hk.below p (by simp [Frame.before])
      exact if_pos hlt

/-- A key is in the tree exactly when its place is occupied. -/
theorem Sought.ne_nil_iff {u : ColorTree ℕ} (hk : Sought key d k ctx u) :
    u ≠ nil ↔ ∃ x ∈ (plug ctx u).toList, key (d x) = k := by
  constructor
  · exact fun hu => ⟨u.pos, by simp [toList_plug, pos_mem hu], hk.here hu⟩
  · rintro ⟨x, hx, rfl⟩ rfl
    rw [toList_plug, toList_nil, List.append_nil, List.mem_append] at hx
    obtain hx | hx := hx
    · exact lt_irrefl _ (hk.below x hx)
    · exact lt_irrefl _ (hk.above x hx)

namespace Rep

/-- `FindNode` goes where the comparisons lead, which in a search tree is the place of the key. -/
theorem findNode_steered (h : Rep s n m t free loose d) (k : κ) :
    Ensures (RBTree.findNode key k) s fun r s' => s' = s ∧
      ∃ ctx u, plug ctx u = t ∧ Steered key d k ctx u ∧ r = (u.pos, contextPos ctx) ∧
        (Ordered key d t → Sought key d k ctx u) := by
  have h₀ : Rep s n m (plug [] t) free loose d := h
  rw [RBTree.findNode, ensures_bind, ensures_get, ensures_bind, ensures_getRootPos, h.root]
  refine (h₀.findNodeLoop (by simp) (by simpa using h₀.depth_lt)).mono ?_
  rintro _ s' ⟨rfl, ctx, u, hplug, hsteered, rfl, hsought⟩
  exact ⟨rfl, ctx, u, hplug, hsteered, rfl, fun ho => hsought ho (by simp) (by simp)⟩

/-- **`FindNode` returns the place of the key.** -/
theorem findNode (h : Rep s n m t free loose d) (ho : Ordered key d t) (k : κ) :
    Ensures (RBTree.findNode key k) s fun r s' => s' = s ∧
      ∃ ctx u, plug ctx u = t ∧ Sought key d k ctx u ∧ r = (u.pos, contextPos ctx) := by
  refine (h.findNode_steered k).mono ?_
  rintro _ s' ⟨rfl, ctx, u, hplug, -, rfl, hsought⟩
  exact ⟨rfl, ctx, u, hplug, hsought ho, rfl⟩

end Rep

end Find

/-! ### Walking -/

section Walk

variable {d : ℕ → α} {s : State α} {n m : ℕ} {t : ColorTree ℕ} {ctx : List (Frame ℕ)}
  {free loose : List ℕ}

namespace Rep

theorem findSmallestLoop {rounds : ℕ} (h : Rep s n m (plug ctx t) free loose d) (ht : t ≠ nil)
    (hrounds : t.toList.length ≤ rounds) :
    Ensures (RBTree.findSmallestLoop rounds t.pos) s fun p s' =>
      s' = s ∧ t.toList.head? = some p := by
  induction t generalizing ctx rounds with
  | nil => exact absurd rfl ht
  | node c l p r ihl ihr =>
    simp only [toList_node, List.length_append, List.length_cons] at hrounds
    obtain _ | rounds := rounds
    · omega
    rw [RBTree.findSmallestLoop, pos_node, ensures_bind, ensures_getLChildPos h.node_lt,
      h.node_child.1]
    by_cases hl : l = nil
    · subst hl
      rw [if_neg (by simp), ensures_pure]
      exact ⟨rfl, rfl⟩
    · have h' : Rep s n m (plug (⟨.left, c, p, r⟩ :: ctx) l) free loose d := h
      rw [if_pos (h'.ne_npos (by simp [pos_mem hl]))]
      refine (ihl h' hl (by omega)).mono fun q s' hq => ⟨hq.1, ?_⟩
      rw [toList_node, List.head?_append, hq.2]
      rfl

theorem findSmallestPosFrom (h : Rep s n m (plug ctx t) free loose d) :
    Ensures (RBTree.findSmallestPosFrom t.pos) s fun p s' =>
      s' = s ∧ p = t.toList.headD NPOS := by
  rw [RBTree.findSmallestPosFrom]
  by_cases ht : t = nil
  · subst ht
    rw [pos_nil, if_pos rfl, ensures_pure]
    exact ⟨rfl, rfl⟩
  · have hlen := h.depth_lt
    rw [if_neg (h.ne_npos (by simp [pos_mem ht])), ensures_bind, ensures_get]
    refine (h.findSmallestLoop ht (by omega)).mono fun p s' hp => ⟨hp.1, ?_⟩
    rw [List.headD_eq_head?_getD, hp.2]
    rfl

/-- The biggest node of a tree is at the end of its right spine. -/
theorem findBiggestLoop {rounds : ℕ} (h : Rep s n m (plug ctx t) free loose d) (ht : t ≠ nil)
    (hrounds : t.toList.length ≤ rounds) :
    Ensures (RBTree.findBiggestLoop rounds t.pos) s fun p s' => s' = s ∧
      ∃ spine c l, t = plug spine (node c l p nil) ∧ after spine = [] := by
  induction t generalizing ctx rounds with
  | nil => exact absurd rfl ht
  | node c l p r ihl ihr =>
    simp only [toList_node, List.length_append, List.length_cons] at hrounds
    obtain _ | rounds := rounds
    · omega
    rw [RBTree.findBiggestLoop, pos_node, ensures_bind, ensures_getRChildPos h.node_lt,
      h.node_child.2]
    by_cases hr : r = nil
    · subst hr
      rw [if_neg (by simp), ensures_pure]
      exact ⟨rfl, [], c, l, rfl, rfl⟩
    · have h' : Rep s n m (plug (⟨.right, c, p, l⟩ :: ctx) r) free loose d := h
      rw [if_pos (h'.ne_npos (by simp [pos_mem hr]))]
      refine (ihr h' hr (by omega)).mono ?_
      rintro q s' ⟨rfl, spine, c', l', rfl, hspine⟩
      refine ⟨rfl, spine ++ [⟨.right, c, p, l⟩], c', l', ?_, ?_⟩
      · rw [plug_append]
        rfl
      · rw [after_append, hspine]
        rfl

theorem findBiggestPosFrom (h : Rep s n m (plug ctx t) free loose d) :
    Ensures (RBTree.findBiggestPosFrom t.pos) s fun p s' =>
      s' = s ∧ p = t.toList.getLastD NPOS := by
  rw [RBTree.findBiggestPosFrom]
  by_cases ht : t = nil
  · subst ht
    rw [pos_nil, if_pos rfl, ensures_pure]
    exact ⟨rfl, rfl⟩
  · have hlen := h.depth_lt
    rw [if_neg (h.ne_npos (by simp [pos_mem ht])), ensures_bind, ensures_get]
    refine (h.findBiggestLoop ht (by omega)).mono ?_
    rintro p s' ⟨rfl, spine, c, l, rfl, hspine⟩
    refine ⟨rfl, ?_⟩
    rw [toList_plug, hspine]
    simp

/-- From a node without a bigger one below it, the next bigger node is the first ancestor on whose
left side it is. -/
theorem climbBigLoop {rounds : ℕ} (h : Rep s n m (plug ctx t) free loose d) (ht : t ≠ nil)
    (hrounds : ctx.length < rounds) :
    Ensures (RBTree.climbBigLoop rounds t.pos) s fun p s' =>
      s' = s ∧ p = (after ctx).headD NPOS := by
  obtain _ | rounds := rounds
  · exact absurd hrounds (Nat.not_lt_zero _)
  induction ctx generalizing t rounds with
  | nil =>
    rw [RBTree.climbBigLoop, ensures_bind, ensures_getParentPos h.pos_lt, h.parent_pos ht,
      contextPos_nil, if_pos rfl, ensures_pure]
    exact ⟨rfl, rfl⟩
  | cons f ctx ih =>
    have hside := h.child_eq_iff ht .left
    rw [RBTree.climbBigLoop, ensures_bind, ensures_getParentPos h.pos_lt, h.parent_pos ht,
      contextPos_cons, if_neg h.frame_ne, ensures_bind, ensures_getLChildPos h.frame_lt]
    by_cases hf : f.side = .left
    · rw [if_pos (hside.mpr hf), ensures_pure]
      refine ⟨rfl, ?_⟩
      simp [Frame.after, hf]
    · obtain _ | rounds := rounds
      · simp at hrounds
      rw [if_neg (mt hside.mp hf), after_cons, ← pos_fill f t]
      have hafter : f.after = [] := by
        rcases f with ⟨_ | _, c, p, b⟩
        · exact absurd rfl hf
        · rfl
      rw [hafter]
      exact ih h.up (f.fill_ne_nil t) rounds (by simpa using hrounds)

theorem climbSmallLoop {rounds : ℕ} (h : Rep s n m (plug ctx t) free loose d) (ht : t ≠ nil)
    (hrounds : ctx.length < rounds) :
    Ensures (RBTree.climbSmallLoop rounds t.pos) s fun p s' =>
      s' = s ∧ p = (before ctx).getLastD NPOS := by
  obtain _ | rounds := rounds
  · exact absurd hrounds (Nat.not_lt_zero _)
  induction ctx generalizing t rounds with
  | nil =>
    rw [RBTree.climbSmallLoop, ensures_bind, ensures_getParentPos h.pos_lt, h.parent_pos ht,
      contextPos_nil, if_pos rfl, ensures_pure]
    exact ⟨rfl, rfl⟩
  | cons f ctx ih =>
    have hside := h.child_eq_iff ht .right
    rw [RBTree.climbSmallLoop, ensures_bind, ensures_getParentPos h.pos_lt, h.parent_pos ht,
      contextPos_cons, if_neg h.frame_ne, ensures_bind, ensures_getRChildPos h.frame_lt]
    by_cases hf : f.side = .right
    · rw [if_pos (hside.mpr hf), ensures_pure]
      refine ⟨rfl, ?_⟩
      simp [Frame.before, hf]
    · obtain _ | rounds := rounds
      · simp at hrounds
      rw [if_neg (mt hside.mp hf), before_cons, ← pos_fill f t]
      have hbefore : f.before = [] := by
        rcases f with ⟨_ | _, c, p, b⟩
        · rfl
        · exact absurd rfl hf
      rw [hbefore, List.append_nil]
      exact ih h.up (f.fill_ne_nil t) rounds (by simpa using hrounds)

/-- A position of the tree in focus, with what is before and after it. -/
theorem focus {pre post : List ℕ} {p : ℕ} (h : Rep s n m t free loose d)
    (hp : t.toList = pre ++ p :: post) : ∃ ctx c l r, t = plug ctx (node c l p r) ∧
      pre = before ctx ++ l.toList ∧ post = r.toList ++ after ctx := by
  obtain ⟨ctx, c, l, r, rfl⟩ := exists_plug_of_mem (p := p) (t := t) (by simp [hp])
  have hnodup : (plug ctx (node c l p r)).toList.Nodup := by
    have := h.part.nodup_iff.mpr List.nodup_range'
    simp only [List.nodup_append] at this
    exact this.1.1
  rw [hp, List.perm_middle.nodup_iff, List.nodup_cons, List.mem_append, not_or] at hnodup
  have heq : pre ++ p :: post = (before ctx ++ l.toList) ++ p :: (r.toList ++ after ctx) := by
    rw [← hp, toList_plug]
    simp
  obtain ⟨hpre, -, hpost⟩ := (List.append_cons_inj_of_notMem hnodup.1.1 hnodup.1.2).mp heq
  exact ⟨ctx, c, l, r, rfl, hpre, hpost⟩

/-- **`FindNextBigPos` moves to the successor in the in-order list.** -/
theorem findNextBigPos {pre post : List ℕ} {p : ℕ} (h : Rep s n m t free loose d)
    (hp : t.toList = pre ++ p :: post) :
    Ensures (RBTree.findNextBigPos p) s fun q s' => s' = s ∧ q = post.headD NPOS := by
  obtain ⟨ctx, c, l, r, rfl, -, rfl⟩ := h.focus hp
  rw [RBTree.findNextBigPos, if_neg h.node_ne, ensures_bind, ensures_getRChildPos h.node_lt,
    h.node_child.2]
  have hr : Rep s n m (plug (⟨.right, c, p, l⟩ :: ctx) r) free loose d := h
  by_cases hn : r = nil
  · subst hn
    have hlen := h.depth_lt
    rw [if_neg (by simp), ensures_bind, ensures_get]
    exact h.climbBigLoop (by simp) (by omega)
  · rw [if_pos (hr.ne_npos (by simp [pos_mem hn]))]
    refine hr.findSmallestPosFrom.mono ?_
    rintro q s' ⟨rfl, rfl⟩
    refine ⟨rfl, ?_⟩
    cases hl : r.toList with
    | nil => exact absurd (pos_mem hn) (by simp [hl])
    | cons a l => rfl

/-- **`FindNextSmallPos` moves to the predecessor in the in-order list.** -/
theorem findNextSmallPos {pre post : List ℕ} {p : ℕ} (h : Rep s n m t free loose d)
    (hp : t.toList = pre ++ p :: post) :
    Ensures (RBTree.findNextSmallPos p) s fun q s' => s' = s ∧ q = pre.getLastD NPOS := by
  obtain ⟨ctx, c, l, r, rfl, rfl, -⟩ := h.focus hp
  rw [RBTree.findNextSmallPos, if_neg h.node_ne, ensures_bind, ensures_getLChildPos h.node_lt,
    h.node_child.1]
  have hl : Rep s n m (plug (⟨.left, c, p, r⟩ :: ctx) l) free loose d := h
  by_cases hn : l = nil
  · subst hn
    have hlen := h.depth_lt
    rw [if_neg (by simp), ensures_bind, ensures_get, toList_nil, List.append_nil]
    exact h.climbSmallLoop (by simp) (by omega)
  · rw [if_pos (hl.ne_npos (by simp [pos_mem hn]))]
    refine hl.findBiggestPosFrom.mono ?_
    rintro q s' ⟨rfl, rfl⟩
    refine ⟨rfl, ?_⟩
    have hlast := List.getLast?_isSome.mpr (List.ne_nil_of_mem (pos_mem hn))
    obtain ⟨x, hx⟩ := Option.isSome_iff_exists.mp hlast
    rw [List.getLastD_eq_getLast?, List.getLastD_eq_getLast?, List.getLast?_append, hx]
    rfl

theorem findSmallestPos (h : Rep s n m t free loose d) :
    Ensures RBTree.findSmallestPos s fun q s' => s' = s ∧ q = t.toList.headD NPOS := by
  rw [RBTree.findSmallestPos, ensures_bind, ensures_getRootPos, h.root]
  exact @findSmallestPosFrom _ _ _ _ _ _ [] _ _ h

theorem findBiggestPos (h : Rep s n m t free loose d) :
    Ensures RBTree.findBiggestPos s fun q s' => s' = s ∧ q = t.toList.getLastD NPOS := by
  rw [RBTree.findBiggestPos, ensures_bind, ensures_getRootPos, h.root]
  exact @findBiggestPosFrom _ _ _ _ _ _ [] _ _ h

/-- Stepping down from the end position. -/
theorem findNextSmallPos_end (h : Rep s n m t free loose d) :
    Ensures (RBTree.findNextSmallPos NPOS) s fun q s' => s' = s ∧ q = t.toList.getLastD NPOS := by
  rw [RBTree.findNextSmallPos, if_pos rfl]
  exact h.findBiggestPos

end Rep

end Walk

end Lsf.RBTree
