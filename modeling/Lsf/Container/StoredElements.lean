import Lsf.Container.MapSet
import Lsf.Container.TreeInit
import Lsf.Container.TreeUpdate
import Lsf.Foundations.SortedTable

/-!
# The elements of a container

`Stores` says that a state holds a search tree with a black root. The operations of the containers
keep it, and on the list of the stored elements, in the order of the tree, they are the operations
on sorted lists.

There is one exception. The destructor that `Erase` calls is that of the element at the position
that `FindNode` returned, and where the node there has two children another element has been moved
to this position. What the destructor leaves of it is all that is left of a stored element then, and
nothing is known of the order of the tree: `Shapes` says what stays true of it.

## Main definitions

* `Shapes` — the invariant of every state between two operations
* `Stores` — the invariant of every state of a search tree
* `elems` — the stored elements
* `ErasedAt` — what a removal does to a tree
* `Harms` — a removal that destroys an element that stays stored

## Main results

* `Shapes.eraseElem` — a removal in any tree
* `Stores.insertElem_of_new`, `Stores.eraseElem_at`, `Stores.findElem`
* `Shapes.walkForward`, `Shapes.walkBackward`
-/

namespace Lsf.RBTree

open ColorTree

variable {α κ : Type} [LinearOrder κ] {key : α → κ} {d : ℕ → α} {s : State α} {n : ℕ}
  {t : ColorTree ℕ} {free : List ℕ} {k : κ}

/-- The state holds the tree `t`, whose positions carry the data `d` in any order, and the empty
list `free`. -/
structure Shapes (s : State α) (n : ℕ) (t : ColorTree ℕ) (free : List ℕ) (d : ℕ → α) : Prop where
  rep : Rep s n t.toList.length t free [] d
  root_black : t.rootHue = .black

/-- The state holds the search tree `t`, whose positions carry the data `d`, and the empty list
`free`. -/
structure Stores (key : α → κ) (s : State α) (n : ℕ) (t : ColorTree ℕ) (free : List ℕ)
    (d : ℕ → α) : Prop where
  rep : Rep s n t.toList.length t free [] d
  root_black : t.rootHue = .black
  ordered : Ordered key d t

/-- The elements at the positions of the tree. -/
def elems (d : ℕ → α) (t : ColorTree ℕ) : List α := t.toList.map d

theorem sortedBy_elems : SortedBy key (elems d t) ↔ Ordered key d t := List.pairwise_map

/-- A key is stored if and only if the list of the elements has it. -/
theorem exists_key_iff : (∃ x ∈ t.toList, key (d x) = k) ↔ lookupBy key k (elems d t) ≠ none := by
  simp [lookupBy_eq_none, elems]

/-! ### The place of a key, on the list of the elements -/

section Place

variable {ctx : List (Frame ℕ)} {u : ColorTree ℕ}

theorem Sought.below_elems (hk : Sought key d k ctx u) :
    ∀ y ∈ (before ctx).map d, key y < k := by
  simpa using hk.below

theorem Sought.above_elems (hk : Sought key d k ctx u) :
    ∀ y ∈ (after ctx).map d, k < key y := by
  simpa using hk.above

/-- A free place of a new key. -/
theorem Sought.insertBy_elems {p : ℕ} {x : α} {t' : ColorTree ℕ}
    (hk : Sought key d (key x) ctx nil) (hp : p ∉ before ctx ++ after ctx)
    (ht : t'.toList = before ctx ++ p :: after ctx) :
    elems (Function.update d p x) t' = insertBy key x (elems d (plug ctx nil)) := by
  rw [List.mem_append, not_or] at hp
  rw [elems, elems, ht, toList_plug, toList_nil, List.append_nil, List.map_append, List.map_cons,
    List.map_append, Function.update_self, map_update_of_notMem hp.1, map_update_of_notMem hp.2,
    insertBy_split hk.below_elems hk.above_elems]

/-- The place of a stored key. -/
theorem Sought.elems_eq {c : Hue} {l r : ColorTree ℕ} {p : ℕ}
    (ho : Ordered key d (plug ctx (node c l p r))) (hk : Sought key d k ctx (node c l p r)) :
    elems d (plug ctx (node c l p r)) =
        (before ctx ++ l.toList).map d ++ d p :: (r.toList ++ after ctx).map d ∧
      (∀ y ∈ (before ctx ++ l.toList).map d, key y < k) ∧ key (d p) = k ∧
        ∀ y ∈ (r.toList ++ after ctx).map d, k < key y := by
  have hp : key (d p) = k := hk.here (by simp)
  refine ⟨by simp [elems, toList_plug], ?_, hp, ?_⟩
  · intro y hy
    obtain ⟨x, hx, rfl⟩ := List.mem_map.mp hy
    obtain hx | hx := List.mem_append.mp hx
    · exact hk.below x hx
    · exact hp ▸ ho.left_lt hx
  · intro y hy
    obtain ⟨x, hx, rfl⟩ := List.mem_map.mp hy
    obtain hx | hx := List.mem_append.mp hx
    · exact hp ▸ ho.lt_right hx
    · exact hk.above x hx

end Place

/-! ### Capacity -/

namespace Shapes

theorem length_add (h : Shapes s n t free d) : t.toList.length + free.length = n := by
  simpa using h.rep.part.length_eq

theorem full_iff (h : Shapes s n t free d) : full s = true ↔ free = [] := by
  have hlen := h.length_add
  rw [full, decide_eq_true_iff, h.rep.size, h.rep.maxSize, Nat.add_sub_cancel,
    ← List.length_eq_zero_iff]
  omega

theorem empty_iff (h : Shapes s n t free d) : empty s = true ↔ t = nil := by
  rw [empty, decide_eq_true_iff, h.rep.size, List.length_eq_zero_iff]
  cases t <;> simp

theorem nodup (h : Shapes s n t free d) : (t.toList ++ free).Nodup := by
  simpa using h.rep.part.nodup_iff.mpr List.nodup_range'

end Shapes

namespace Stores

theorem shapes (h : Stores key s n t free d) : Shapes s n t free d := ⟨h.rep, h.root_black⟩

theorem length_add (h : Stores key s n t free d) : t.toList.length + free.length = n :=
  h.shapes.length_add

theorem full_iff (h : Stores key s n t free d) : full s = true ↔ free = [] := h.shapes.full_iff

theorem empty_iff (h : Stores key s n t free d) : empty s = true ↔ t = nil := h.shapes.empty_iff

end Stores

/-! ### Insert -/

namespace Shapes

variable {ctx : List (Frame ℕ)}

/-- A full container is left alone. -/
theorem insertElem_of_full (h : Shapes s n t [] d) (x : α) :
    Ensures (insertElem key x) s fun r s' => r = false ∧ s' = s := by
  have hfull := h.full_iff.mpr rfl
  rw [insertElem, ensures_bind, ensures_get, if_pos hfull, ensures_pure]
  exact ⟨rfl, rfl⟩

/-- A container in which `FindNode` finds the key is left alone. -/
theorem insertElem_of_occupied {u : ColorTree ℕ} {parentPos : ℕ} {x : α}
    (h : Shapes s n (plug ctx u) free d) (hu : u ≠ nil)
    (hrun : (RBTree.findNode key (key x)).run s = some ((u.pos, parentPos), s)) :
    Ensures (insertElem key x) s fun r s' => r = false ∧ s' = s := by
  by_cases hfull : full s
  · rw [insertElem, ensures_bind, ensures_get, if_pos hfull, ensures_pure]
    exact ⟨rfl, rfl⟩
  · rw [insertElem, ensures_bind, ensures_get, if_neg hfull]
    refine (h.rep.getNewNodeAndInsert_of_occupied hu hrun).bind ?_
    rintro _ _ ⟨rfl, rfl⟩
    rw [if_pos rfl, ensures_pure]
    exact ⟨rfl, rfl⟩

/-- A new element becomes a red leaf where the comparisons lead, and `insertFix` follows. -/
theorem insertElem_of_hole {p : ℕ} {x : α} (h : Shapes s n (plug ctx nil) (p :: free) d)
    (hk : Steered key d (key x) ctx nil)
    (hrun : (RBTree.findNode key (key x)).run s = some ((NPOS, contextPos ctx), s)) :
    Ensures (insertElem key x) s fun r s' => r = true ∧
      Shapes s' n (insertFix ctx (node .red nil p nil)) free (Function.update d p x) := by
  have hfull : ¬ full s := by
    rw [h.full_iff]
    exact List.cons_ne_nil p free
  rw [insertElem, ensures_bind, ensures_get, if_neg hfull]
  refine (h.rep.getNewNodeAndInsert_of_hole h.root_black hk hrun).bind ?_
  rintro q s₁ ⟨rfl, h₁⟩
  have hlist : (insertFix ctx (node .red nil q nil)).toList = before ctx ++ q :: after ctx := by
    rw [toList_insertFix, toList_plug]
    simp
  have hq : q ∈ (insertFix ctx (node .red nil q nil)).toList := by
    rw [hlist]
    simp
  have hqn : q ≠ NPOS := (@Rep.ne_npos _ _ _ _ _ [] _ _ _ h₁) (by simp [hq])
  have hlt : q < s₁.slots := (@Rep.lt_slots _ _ _ _ _ [] _ _ _ h₁) (by simp [hq])
  rw [if_neg hqn, ensures_bind, ensures_setData hlt, ensures_pure]
  refine ⟨rfl, ?_, rootHue_insertFix ?_⟩
  · have hlen : (insertFix ctx (node .red nil q nil)).toList.length =
        (plug ctx nil).toList.length + 1 := by
      rw [hlist, toList_plug]
      simp
      omega
    rw [hlen]
    exact h₁.withData q x
  · cases ctx with
    | nil => exact .inl rfl
    | cons f ctx => exact .inr (rootHue_plug_cons h.root_black)

end Shapes

namespace Stores

/-- A full container is left alone. -/
theorem insertElem_of_full (h : Stores key s n t [] d) (x : α) :
    Ensures (insertElem key x) s fun r s' => r = false ∧ s' = s := h.shapes.insertElem_of_full x

/-- A container that has the key is left alone. -/
theorem insertElem_of_found (h : Stores key s n t free d) (x : α)
    (hk : ∃ y ∈ t.toList, key (d y) = key x) :
    Ensures (insertElem key x) s fun r s' => r = false ∧ s' = s := by
  obtain ⟨_, s, hrun, rfl, ctx, u, rfl, hsought, rfl⟩ := h.rep.findNode h.ordered (key x)
  exact h.shapes.insertElem_of_occupied (hsought.ne_nil_iff.mpr hk) hrun

/-- **A new element** becomes a red leaf in the first unused slot, and `insertFix` follows. -/
theorem insertElem_of_new {p : ℕ} (h : Stores key s n t (p :: free) d) (x : α)
    (hk : ¬ ∃ y ∈ t.toList, key (d y) = key x) :
    Ensures (insertElem key x) s fun r s' => r = true ∧ ∃ ctx t' d', plug ctx nil = t ∧
      Sought key d (key x) ctx nil ∧
      (RBTree.findNode key (key x)).run s = some ((NPOS, contextPos ctx), s) ∧
      t' = insertFix ctx (node .red nil p nil) ∧ Stores key s' n t' free d' ∧
      elems d' t' = insertBy key x (elems d t) := by
  obtain ⟨_, s, hrun, rfl, ctx, u, rfl, hsought, rfl⟩ := h.rep.findNode h.ordered (key x)
  obtain rfl : u = nil := by
    by_contra hu
    exact hk (hsought.ne_nil_iff.mp hu)
  refine (h.shapes.insertElem_of_hole hsought.steered hrun).mono ?_
  rintro _ s' ⟨rfl, h'⟩
  have hlist : (insertFix ctx (node .red nil p nil)).toList = before ctx ++ p :: after ctx := by
    rw [toList_insertFix, toList_plug]
    simp
  have hnodup : p ∉ before ctx ++ after ctx := by
    have hpart := h.shapes.nodup
    simp only [toList_plug, toList_nil, List.append_nil] at hpart
    rw [List.nodup_append] at hpart
    exact fun hp => hpart.2.2 p hp p (by simp) rfl
  have helems := hsought.insertBy_elems hnodup hlist
  refine ⟨rfl, ctx, _, _, rfl, hsought, hrun, rfl, ⟨h'.rep, h'.root_black, ?_⟩, helems⟩
  have hsorted := sortedBy_elems.mpr h.ordered
  rw [elems, toList_plug, toList_nil, List.append_nil, List.map_append] at hsorted
  rw [← sortedBy_elems, helems, elems, toList_plug, toList_nil, List.append_nil, List.map_append,
    insertBy_split hsought.below_elems hsought.above_elems]
  exact sortedBy_insert hsorted hsought.below_elems hsought.above_elems

end Stores

/-! ### Erase -/

/-- The state `s'` after the position `p` was erased in `s`, where `pre` and `post` are the
positions before and after it. It holds the tree `t'`, and the slot `q` is back on the empty list:
another one than `p` if `p` had two children, and then the element of `q`, the biggest one below the
left child, is at `p`. The elements before `p` are kept, and those after it are where they were. -/
structure ErasedTo (s s' : State α) (n : ℕ) (t : ColorTree ℕ) (free : List ℕ) (d : ℕ → α)
    (pre : List ℕ) (p : ℕ) (post : List ℕ) (t' : ColorTree ℕ) (q : ℕ) (d' : ℕ → α)
    (pre' : List ℕ) : Prop where
  shapes : Shapes s' n t' (q :: free) d'
  toList : t'.toList = pre' ++ post
  before : pre'.map d' = pre.map d
  after : ∀ y ∈ post, d' y = d y
  slot : q = p ↔ s.child .left p = NPOS ∨ s.child .right p = NPOS
  moved : q ≠ p → p ∈ pre' ∧ d' p = d q ∧
    (findBiggestPosFrom (s.child .left p)).run s = some (q, s)
  redBlack : RedBlack t → RedBlack t'

/-- The position `p` was erased in `s`. -/
def ErasedAt (s s' : State α) (n : ℕ) (t : ColorTree ℕ) (free : List ℕ) (d : ℕ → α)
    (pre : List ℕ) (p : ℕ) (post : List ℕ) : Prop :=
  ∃ t' q d' pre', ErasedTo s s' n t free d pre p post t' q d' pre'

namespace ErasedTo

variable {s' : State α} {pre post pre' : List ℕ} {p q : ℕ} {t' : ColorTree ℕ} {d' : ℕ → α}

theorem elems_eq (h : ErasedTo s s' n t free d pre p post t' q d' pre') :
    elems d' t' = pre.map d ++ post.map d := by
  rw [elems, h.toList, List.map_append, h.before, List.map_congr_left h.after]

/-- A slot that is given back is not in the tree. -/
theorem notMem (h : ErasedTo s s' n t free d pre p post t' q d' pre') : q ∉ t'.toList :=
  fun hmem => (List.nodup_append.mp h.shapes.nodup).2.2 q hmem q (by simp) rfl

/-- In a search tree the elements stay in order. -/
theorem stores (h : ErasedTo s s' n t free d pre p post t' q d' pre') (ho : Ordered key d t)
    (ht : t.toList = pre ++ p :: post) : Stores key s' n t' (q :: free) d' := by
  refine ⟨h.shapes.rep, h.shapes.root_black, ?_⟩
  rw [← sortedBy_elems, h.elems_eq, ← List.map_append]
  have hsorted := sortedBy_elems.mpr ho
  rw [elems, ht] at hsorted
  exact hsorted.sublist (((List.sublist_cons_self p post).append_left pre).map d)

/-- What is put at the position `p` afterwards changes nothing if the position is free, or if it is
what is there. -/
theorem withData (h : ErasedTo s s' n t free d pre p post t' q d' pre') {x : α}
    (hx : q ≠ p → x = d' p) :
    ErasedTo s (s'.withData p x) n t free d pre p post t' q (Function.update d' p x) pre' := by
  have hkeep : ∀ y ∈ t'.toList, Function.update d' p x y = d' y := by
    intro y hy
    by_cases hyp : y = p
    · subst hyp
      rw [Function.update_self]
      exact hx fun hq => h.notMem (hq ▸ hy)
    · exact Function.update_of_ne hyp _ _
  have hpre : ∀ y ∈ pre', Function.update d' p x y = d' y := fun y hy =>
    hkeep y (h.toList ▸ List.mem_append_left _ hy)
  have hpost : ∀ y ∈ post, Function.update d' p x y = d' y := fun y hy =>
    hkeep y (h.toList ▸ List.mem_append_right _ hy)
  refine ⟨⟨h.shapes.rep.withData p x, h.shapes.root_black⟩, h.toList, ?_,
    fun y hy => (hpost y hy).trans (h.after y hy), h.slot, fun hq => ?_, h.redBlack⟩
  · rw [List.map_congr_left hpre, h.before]
  · obtain ⟨hmem, hdata, hrun⟩ := h.moved hq
    exact ⟨hmem, (hpre p hmem).trans hdata, hrun⟩

end ErasedTo

/-- The children of a node that a state stores. -/
theorem Shapes.child_eq_npos_iff {ctx : List (Frame ℕ)} {c : Hue} {l r : ColorTree ℕ} {p : ℕ}
    (h : Shapes s n (plug ctx (node c l p r)) free d) :
    (s.child .left p = NPOS ↔ l = nil) ∧ (s.child .right p = NPOS ↔ r = nil) := by
  have hleft : Rep s n _ (plug (⟨.left, c, p, r⟩ :: ctx) l) free [] d := h.rep
  have hright : Rep s n _ (plug (⟨.right, c, p, l⟩ :: ctx) r) free [] d := h.rep
  rw [h.rep.node_child.1, h.rep.node_child.2]
  refine ⟨⟨fun h0 => ?_, fun h0 => h0 ▸ rfl⟩, ⟨fun h0 => ?_, fun h0 => h0 ▸ rfl⟩⟩
  · by_contra hl
    exact hleft.ne_npos (by simp [pos_mem hl]) h0
  · by_contra hr
    exact hright.ne_npos (by simp [pos_mem hr]) h0

/-- What is left after a node with at most one child was spliced out. -/
theorem Shapes.of_spliceOut {ctx : List (Frame ℕ)} {f : Frame ℕ} {d' : ℕ → α} {s' : State α}
    (h : (plug ctx (f.fill nil)).rootHue = .black)
    (hrep : Rep s' n ((plug ctx (f.fill nil)).toList.length - 1)
      (spliceOut ctx f.hue f.sibling) (f.pos :: free) [] d') :
    Shapes s' n (spliceOut ctx f.hue f.sibling) (f.pos :: free) d' := by
  refine ⟨?_, rootHue_spliceOut h⟩
  have hlen : (plug ctx (f.fill nil)).toList.length =
      (spliceOut ctx f.hue f.sibling).toList.length + 1 := by
    rw [toList_spliceOut, toList_plug]
    rcases f with ⟨_ | _, c, p, b⟩
    all_goals
      simp
      omega
  rwa [hlen, Nat.add_sub_cancel] at hrep

/-- **`EraseNode` at any node.** -/
theorem Shapes.eraseNode {ctx : List (Frame ℕ)} {c : Hue} {l r : ColorTree ℕ} {p : ℕ}
    (h : Shapes s n (plug ctx (node c l p r)) free d) :
    Ensures (RBTree.eraseNode p (contextPos ctx)) s fun _ s' => s'.slots = s.slots ∧
      ErasedAt s s' n (plug ctx (node c l p r)) free d (before ctx ++ l.toList) p
        (r.toList ++ after ctx) := by
  have hslots := h.rep.slots
  obtain ⟨hchildl, hchildr⟩ := h.child_eq_npos_iff
  by_cases hl : l = nil
  · subst hl
    have h' : Shapes s n (plug ctx ((⟨.left, c, p, r⟩ : Frame ℕ).fill nil)) free d := h
    refine (Rep.eraseNode_of_leafward (f := ⟨.left, c, p, r⟩) h'.rep).mono fun _ s' hrep => ?_
    have hlist : (spliceOut ctx c r).toList = before ctx ++ (r.toList ++ after ctx) := by
      rw [toList_spliceOut, List.append_assoc]
    have hpre : (before ctx).map d = (before ctx ++ (nil : ColorTree ℕ).toList).map d := by simp
    exact ⟨hrep.slots.trans hslots.symm, _, p, d, _, of_spliceOut h'.root_black hrep, hlist, hpre,
      fun _ _ => rfl, iff_of_true rfl (.inl (hchildl.mpr rfl)), fun hp => absurd rfl hp,
      redBlack_spliceOut (f := ⟨.left, c, p, r⟩)⟩
  by_cases hr : r = nil
  · subst hr
    have h' : Shapes s n (plug ctx ((⟨.right, c, p, l⟩ : Frame ℕ).fill nil)) free d := h
    refine (Rep.eraseNode_of_leafward (f := ⟨.right, c, p, l⟩) h'.rep).mono fun _ s' hrep => ?_
    have hlist : (spliceOut ctx c l).toList =
        before ctx ++ l.toList ++ ((nil : ColorTree ℕ).toList ++ after ctx) := by
      rw [toList_spliceOut, toList_nil, List.nil_append]
    exact ⟨hrep.slots.trans hslots.symm, _, p, d, _, of_spliceOut h'.root_black hrep, hlist, rfl,
      fun _ _ => rfl, iff_of_true rfl (.inr (hchildr.mpr rfl)), fun hp => absurd rfl hp,
      redBlack_spliceOut (f := ⟨.right, c, p, l⟩)⟩
  · have hleft : Rep s n _ (plug (⟨.left, c, p, r⟩ :: ctx) l) free [] d := h.rep
    have hbiggest : (findBiggestPosFrom (s.child .left p)).run s =
        some (l.toList.getLastD NPOS, s) := by
      obtain ⟨_, _, hrun, rfl, rfl⟩ := hleft.findBiggestPosFrom
      rwa [h.rep.node_child.1]
    refine (Rep.eraseNode_of_two hl hr h.rep).mono ?_
    rintro _ s' ⟨spine, c', b, q, rfl, hspine, hrep⟩
    have hplug : plug ctx (node c (plug spine (node c' b q nil)) p r) =
        plug (spine ++ ⟨.left, c, p, r⟩ :: ctx) ((⟨.right, c', q, b⟩ : Frame ℕ).fill nil) := by
      rw [plug_append]
      rfl
    have hp : p ∉ before ctx ++ before spine ++ b.toList ++ [q] ∧ p ∉ r.toList ++ after ctx := by
      have hnodup := h.rep.part.nodup_iff.mpr List.nodup_range'
      simp only [toList_plug, toList_node, toList_nil, hspine, List.append_nil] at hnodup
      grind
    have hlist : (spliceOut (spine ++ ⟨.left, c, p, r⟩ :: ctx) c' b).toList =
        before ctx ++ before spine ++ b.toList ++ [p] ++ (r.toList ++ after ctx) := by
      rw [toList_spliceOut, before_append, after_append, hspine]
      simp [Frame.before, Frame.after]
    -- the place of `p` is taken by the element of its predecessor `q`
    have hpre : (before ctx ++ before spine ++ b.toList ++ [p]).map (Function.update d p (d q)) =
        (before ctx ++ (plug spine (node c' b q nil)).toList).map d := by
      rw [List.map_append, map_update_of_notMem fun hmem => hp.1 (List.mem_append_left _ hmem)]
      simp [toList_plug, hspine]
    have hpost : ∀ y ∈ r.toList ++ after ctx, Function.update d p (d q) y = d y := fun y hy =>
      Function.update_of_ne (fun hyp : y = p => hp.2 (hyp ▸ hy)) _ _
    have hslot : q = p ↔ s.child .left p = NPOS ∨ s.child .right p = NPOS := by
      rw [hchildl, hchildr]
      refine iff_of_false (fun hqp => hp.1 (by simp [hqp])) ?_
      rintro (h0 | h0)
      · exact hl h0
      · exact hr h0
    have hlast : (plug spine (node c' b q nil)).toList.getLastD NPOS = q := by
      simp [toList_plug, hspine]
    rw [hlast] at hbiggest
    have hroot := h.root_black
    rw [hplug] at hroot hrep ⊢
    exact ⟨hrep.slots.trans hslots.symm, _, q, _, _, of_spliceOut hroot hrep, hlist, hpre,
      hpost, hslot, fun _ => ⟨by simp, Function.update_self _ _ _, hbiggest⟩,
      redBlack_spliceOut (f := ⟨.right, c', q, b⟩)⟩

/-! ### The destructor -/

/-- **The removal of `k` harms an element**: its node has two children, and what the destructor
leaves of the element that is moved into its place, the biggest one below the left child, is not
that element. -/
def Harms (key : α → κ) (dtor : α → α) (s : State α) (k : κ) : Prop :=
  Ensures (findNode key k) s fun r s => s.child .left r.1 ≠ NPOS ∧ s.child .right r.1 ≠ NPOS ∧
    Ensures (findBiggestPosFrom (s.child .left r.1)) s fun lbiggest s =>
      dtor (s.data lbiggest) ≠ s.data lbiggest

instance [DecidableEq α] (dtor : α → α) : Decidable (Harms key dtor s k) :=
  inferInstanceAs (Decidable (Ensures _ _ _))

/-- A destructor that leaves the elements alone harms none. -/
theorem not_harms_of_trivial {dtor : α → α} (h : ∀ x, dtor x = x) : ¬ Harms key dtor s k := by
  rintro ⟨_, _, -, -, -, _, _, -, hne⟩
  exact hne (h _)

/-- The state after `EraseNode` at the position `p`, and the one after the destructor call. -/
def DestroyedAt (dtor : α → α) (s s' : State α) (n : ℕ) (t : ColorTree ℕ) (free : List ℕ)
    (d : ℕ → α) (pre : List ℕ) (p : ℕ) (post : List ℕ) : Prop :=
  ∃ s₁ t' q d' pre', ErasedTo s s₁ n t free d pre p post t' q d' pre' ∧
    s' = s₁.withData p (dtor (d' p))

namespace Shapes

variable {dtor : α → α} {ctx : List (Frame ℕ)}

/-- A key that `FindNode` does not find. -/
theorem eraseElem_of_hole {parentPos : ℕ}
    (hrun : (RBTree.findNode key k).run s = some ((NPOS, parentPos), s)) :
    Ensures (eraseElem key dtor k) s fun r s' => r = false ∧ s' = s := by
  by_cases hempty : empty s
  · rw [eraseElem, ensures_bind, ensures_get, if_pos hempty, ensures_pure]
    exact ⟨rfl, rfl⟩
  · rw [eraseElem, ensures_bind, ensures_get, if_neg hempty]
    refine Ensures.bind_of_run hrun ?_
    show Ensures (if NPOS = NPOS then _ else _) _ _
    rw [if_pos rfl, ensures_pure]
    exact ⟨rfl, rfl⟩

/-- **`Erase` at the node that `FindNode` finds.** -/
theorem eraseElem_at {c : Hue} {l r : ColorTree ℕ} {p : ℕ}
    (h : Shapes s n (plug ctx (node c l p r)) free d)
    (hrun : (RBTree.findNode key k).run s = some ((p, contextPos ctx), s)) :
    Ensures (eraseElem key dtor k) s fun r' s' => r' = true ∧
      DestroyedAt dtor s s' n (plug ctx (node c l p r)) free d (before ctx ++ l.toList) p
        (r.toList ++ after ctx) := by
  have hne : ¬ empty s := by
    rw [h.empty_iff]
    intro hnil
    have hmem : p ∈ (plug ctx (node c l p r)).toList := by simp [toList_plug]
    rw [hnil] at hmem
    exact absurd hmem List.not_mem_nil
  rw [eraseElem, ensures_bind, ensures_get, if_neg hne]
  refine Ensures.bind_of_run hrun ?_
  show Ensures (if p = NPOS then _ else _) _ _
  rw [if_neg h.rep.node_ne]
  refine h.eraseNode.bind ?_
  rintro _ s₁ ⟨hslots, t', q, d', pre', herased⟩
  have hlt : p < s₁.slots := by
    rw [hslots]
    exact h.rep.node_lt
  rw [ensures_bind, ensures_getData hlt, ensures_bind, ensures_setData hlt, ensures_pure,
    herased.shapes.rep.data]
  exact ⟨rfl, s₁, t', q, d', pre', herased, rfl⟩

/-- **`Erase` in any tree** keeps its shape, and red-black trees stay red-black. All elements that
are stored then were stored before, or are what a destructor has left. -/
theorem eraseElem (h : Shapes s n t free d) (k : κ) :
    Ensures (RBTree.eraseElem key dtor k) s fun _ s' => ∃ t' free' d', Shapes s' n t' free' d' ∧
      (RedBlack t → RedBlack t') ∧ ∀ y ∈ elems d' t', y ∈ elems d t ∨ ∃ x, dtor x = y := by
  obtain ⟨_, s, hrun, rfl, ctx, u, rfl, -, rfl, -⟩ := @Rep.findNode_steered _ _ _ key _ _ _ _ _ _ _
    h.rep k
  cases u with
  | nil =>
    refine (eraseElem_of_hole hrun).mono ?_
    rintro _ _ ⟨-, rfl⟩
    exact ⟨_, _, _, h, id, fun y hy => .inl hy⟩
  | node c l p r =>
    refine (h.eraseElem_at hrun).mono ?_
    rintro _ s' ⟨-, s₁, t', q, d', pre', herased, rfl⟩
    refine ⟨t', q :: free, _, ⟨herased.shapes.rep.withData _ _, herased.shapes.root_black⟩,
      herased.redBlack, fun y hy => ?_⟩
    obtain ⟨x, hx, rfl⟩ := List.mem_map.mp hy
    by_cases hxp : x = p
    · subst hxp
      rw [Function.update_self]
      exact .inr ⟨_, rfl⟩
    · rw [Function.update_of_ne hxp]
      have hmem : d' x ∈ elems d' t' := List.mem_map_of_mem hx
      rw [herased.elems_eq, ← List.map_append] at hmem
      refine .inl (List.map_subset d ?_ hmem)
      rw [toList_plug, toList_node]
      intro z hz
      simp only [List.mem_append, List.mem_cons] at hz ⊢
      tauto

end Shapes

namespace Stores

variable {dtor : α → α}

/-- `FindNode` returns the NIL position for a key that is not stored. -/
theorem findNode_of_absent (h : Stores key s n t free d)
    (hk : ¬ ∃ y ∈ t.toList, key (d y) = k) :
    Ensures (RBTree.findNode key k) s fun r s' => s' = s ∧ r.1 = NPOS := by
  refine (h.rep.findNode h.ordered k).mono ?_
  rintro _ s ⟨rfl, ctx, u, rfl, hsought, rfl⟩
  obtain rfl : u = nil := by
    by_contra hu
    exact hk (hsought.ne_nil_iff.mp hu)
  exact ⟨rfl, rfl⟩

/-- A container without the key is left alone. -/
theorem eraseElem_of_absent (h : Stores key s n t free d)
    (hk : ¬ ∃ y ∈ t.toList, key (d y) = k) :
    Ensures (eraseElem key dtor k) s fun r s' => r = false ∧ s' = s := by
  obtain ⟨⟨pos, parentPos⟩, _, hrun, rfl, hpos⟩ := h.findNode_of_absent hk
  obtain rfl : pos = NPOS := hpos
  exact Shapes.eraseElem_of_hole hrun

/-- The state after an erasure of the key `k` from the tree `t`. -/
def Erased (key : α → κ) (s' : State α) (n : ℕ) (t : ColorTree ℕ) (d : ℕ → α) (k : κ) : Prop :=
  ∃ t' free' d', Stores key s' n t' free' d' ∧ elems d' t' = eraseBy key k (elems d t) ∧
    (RedBlack t → RedBlack t')

/-- No element is stored twice. -/
theorem inj {x y : ℕ} (h : Stores key s n t free d) (hx : x ∈ t.toList) (hy : y ∈ t.toList)
    (heq : d x = d y) : x = y := by
  have hnodup : (t.toList.map d).Nodup :=
    (sortedBy_elems.mpr h.ordered).imp fun hlt heq => hlt.ne (congrArg key heq)
  exact List.inj_on_of_nodup_map hnodup hx hy heq

/-- What is left without the key of a position. -/
theorem eraseBy_elems {pre post : List ℕ} {p : ℕ} (h : Stores key s n t free d)
    (ht : t.toList = pre ++ p :: post) :
    eraseBy key (key (d p)) (elems d t) = pre.map d ++ post.map d := by
  have hsorted := h.ordered
  simp only [Ordered, ht, List.pairwise_append, List.pairwise_cons] at hsorted
  rw [elems, ht, List.map_append, List.map_cons, eraseBy_split]
  · simpa using fun y hy => hsorted.2.2 y hy p (by simp)
  · rfl
  · simpa using hsorted.2.1.1

/-- The element that was erased is the one with the key, and no other. -/
theorem erased_of_erasedAt {s' : State α} {pre post : List ℕ} {p : ℕ}
    (h : Stores key s n t free d) (ht : t.toList = pre ++ p :: post)
    (he : ErasedAt s s' n t free d pre p post) : Erased key s' n t d (key (d p)) := by
  obtain ⟨t', q, d', pre', herased⟩ := he
  exact ⟨t', q :: free, d', herased.stores h.ordered ht,
    herased.elems_eq.trans (h.eraseBy_elems ht).symm, herased.redBlack⟩

/-- `FindNode` finds a stored key. -/
theorem findNode_of_found (h : Stores key s n t free d) (hk : ∃ y ∈ t.toList, key (d y) = k) :
    ∃ ctx c l p r, t = plug ctx (node c l p r) ∧ key (d p) = k ∧
      (RBTree.findNode key k).run s = some ((p, contextPos ctx), s) := by
  obtain ⟨_, s, hrun, rfl, ctx, u, rfl, hsought, rfl⟩ := h.rep.findNode h.ordered k
  have hu : u ≠ nil := hsought.ne_nil_iff.mpr hk
  cases u with
  | nil => exact absurd rfl hu
  | node c l p r => exact ⟨ctx, c, l, p, r, rfl, hsought.here hu, hrun⟩

/-- **A stored element is removed from its place.** Where the removal harms no element it does what
`EraseNode` does. Where it does, an element before the place is not stored any more. -/
theorem eraseElem_at (h : Stores key s n t free d) (hk : ∃ y ∈ t.toList, key (d y) = k) :
    Ensures (RBTree.eraseElem key dtor k) s fun r s' => r = true ∧ ∃ pre p post,
      t.toList = pre ++ p :: post ∧ key (d p) = k ∧
        (¬ Harms key dtor s k → ErasedAt s s' n t free d pre p post) ∧
        (Harms key dtor s k → ∃ y ∈ pre.map d, ∃ t' free' d', Shapes s' n t' free' d' ∧
          y ∉ elems d' t') := by
  obtain ⟨ctx, c, l, p, r, rfl, rfl, hrun⟩ := h.findNode_of_found hk
  have ht : (plug ctx (node c l p r)).toList =
      (before ctx ++ l.toList) ++ p :: (r.toList ++ after ctx) := by simp [toList_plug]
  refine (h.shapes.eraseElem_at hrun).mono ?_
  rintro _ s' ⟨rfl, s₁, t', q, d', pre', herased, rfl⟩
  refine ⟨rfl, _, p, _, ht, rfl, fun hspares => ?_, fun hharms => ?_⟩
  · refine ⟨t', q, _, pre', herased.withData fun hq => ?_⟩
    obtain ⟨-, hmoved, hbiggest⟩ := herased.moved hq
    obtain ⟨hleft, hright⟩ := not_or.mp (herased.slot.not.mp hq)
    rw [Harms, Ensures.iff_of_run hrun] at hspares
    by_contra hne
    rw [hmoved, ← h.rep.data] at hne
    exact hspares ⟨hleft, hright, .of_run hbiggest hne⟩
  · rw [Harms, Ensures.iff_of_run hrun] at hharms
    obtain ⟨hleft, hright, hne⟩ := hharms
    have hq : q ≠ p := fun hq => (herased.slot.mp hq).elim hleft hright
    obtain ⟨hmem, hmoved, hbiggest⟩ := herased.moved hq
    rw [Ensures.iff_of_run hbiggest, h.rep.data] at hne
    have hlost : d q ∈ (before ctx ++ l.toList).map d := by
      rw [← herased.before, ← hmoved]
      exact List.mem_map_of_mem hmem
    refine ⟨d q, hlost, t', q :: free, _,
      ⟨herased.shapes.rep.withData _ _, herased.shapes.root_black⟩, fun hin => hne ?_⟩
    obtain ⟨y, hy, heq⟩ := List.mem_map.mp hin
    by_cases hyp : y = p
    · rwa [hyp, Function.update_self, hmoved] at heq
    · rw [Function.update_of_ne hyp, ← hmoved] at heq
      exact absurd ((herased.stores h.ordered ht).inj hy
        (herased.toList ▸ List.mem_append_left _ hmem) heq) hyp

/-- **A stored element is removed**, and red-black trees stay red-black. -/
theorem eraseElem_of_found (h : Stores key s n t free d)
    (hk : ∃ y ∈ t.toList, key (d y) = k) (hspares : ¬ Harms key dtor s k) :
    Ensures (eraseElem key dtor k) s fun r s' => r = true ∧ Erased key s' n t d k := by
  refine (h.eraseElem_at hk).mono ?_
  rintro _ s' ⟨rfl, pre, p, post, ht, rfl, herased, -⟩
  exact ⟨rfl, h.erased_of_erasedAt ht (herased hspares)⟩

end Stores

/-! ### Find -/

namespace Stores

/-- **`Find` reaches the element with the key**, and the end where there is none. -/
theorem findElem (h : Stores key s n t free d) (k : κ) :
    Ensures (RBTree.findElem key k) s fun q s' => s' = s ∧
      ((q = NPOS ∧ lookupBy key k (elems d t) = none) ∨
        ∃ pre post, t.toList = pre ++ q :: post ∧ q ≠ NPOS ∧ q < s.slots ∧
          (∀ y ∈ pre.map d, key y < k) ∧ key (d q) = k ∧ ∀ y ∈ post.map d, k < key y) := by
  rw [RBTree.findElem]
  refine (h.rep.findNode h.ordered k).bind ?_
  rintro _ s ⟨rfl, ctx, u, rfl, hsought, rfl⟩
  cases u with
  | nil =>
    have hnone : ¬ ∃ x ∈ (plug ctx nil).toList, key (d x) = k := fun hk =>
      hsought.ne_nil_iff.mpr hk rfl
    show Ensures (if NPOS = NPOS then _ else _) _ _
    rw [if_pos rfl, ensures_pure]
    rw [exists_key_iff, not_not] at hnone
    exact ⟨rfl, .inl ⟨rfl, hnone⟩⟩
  | node c l p r =>
    obtain ⟨-, hpre, hp, hpost⟩ := hsought.elems_eq h.ordered
    show Ensures (if p = NPOS then _ else _) _ _
    rw [if_neg h.rep.node_ne, ensures_pure]
    refine ⟨rfl, .inr ⟨before ctx ++ l.toList, r.toList ++ after ctx, ?_, h.rep.node_ne,
      h.rep.node_lt, hpre, hp, hpost⟩⟩
    simp [toList_plug]

end Stores

/-! ### Iteration -/

namespace Shapes

theorem walkForwardLoop {rounds : ℕ} {pre post : List ℕ} (h : Shapes s n t free d)
    (hpost : t.toList = pre ++ post) (hrounds : post.length < rounds) :
    Ensures (RBTree.walkForwardLoop rounds (post.headD NPOS)) s fun xs s' =>
      s' = s ∧ xs = post.map d := by
  induction rounds generalizing pre post with
  | zero => exact absurd hrounds (Nat.not_lt_zero _)
  | succ rounds ih =>
    rw [RBTree.walkForwardLoop, endPos, ensures_bind, ensures_pure]
    cases post with
    | nil =>
      rw [List.headD_nil, if_pos rfl, ensures_pure]
      exact ⟨rfl, rfl⟩
    | cons p post =>
      have hmem : p ∈ t.toList := by simp [hpost]
      have hp : p ≠ NPOS := (@Rep.ne_npos _ _ _ _ _ [] _ _ _ h.rep) (by simp [hmem])
      have hlt : p < s.slots := (@Rep.lt_slots _ _ _ _ _ [] _ _ _ h.rep) (by simp [hmem])
      rw [List.headD_cons, if_neg hp, ensures_bind, ensures_getData hlt]
      refine (h.rep.findNextBigPos hpost).bind ?_
      rintro _ s ⟨rfl, rfl⟩
      refine (@ih (pre ++ [p]) post (by simp [hpost]) (by simpa using hrounds)).bind ?_
      rintro _ s ⟨rfl, rfl⟩
      rw [ensures_pure, List.map_cons, ← h.rep.data]
      exact ⟨rfl, rfl⟩

/-- **`begin()` to `end()`** yields the elements in their order. -/
theorem walkForward (h : Shapes s n t free d) :
    Ensures RBTree.walkForward s fun xs s' => s' = s ∧ xs = elems d t := by
  rw [RBTree.walkForward, ensures_bind, ensures_get]
  refine h.rep.findSmallestPos.bind ?_
  rintro _ s ⟨rfl, rfl⟩
  refine (@walkForwardLoop _ _ _ _ _ _ _ [] _ h) rfl ?_
  simpa using @Rep.depth_lt _ _ _ _ _ [] _ _ _ h.rep

/-- In a list without repetitions only the first position is `begin()`. -/
theorem headD_ne_headD {pre post : List ℕ} (hpre : pre ≠ []) (hn : (pre ++ post).Nodup)
    (h0 : NPOS ∉ pre) : post.headD NPOS ≠ (pre ++ post).headD NPOS := by
  cases pre with
  | nil => exact absurd rfl hpre
  | cons b pre =>
    rw [List.cons_append, List.headD_cons]
    intro heq
    cases post with
    | nil => exact h0 (by simp [show NPOS = b from heq])
    | cons a post =>
      obtain rfl : a = b := heq
      simp at hn

/-- The position before the one at which the last part of the list starts. -/
theorem findNextSmallPos {pre post : List ℕ} {q : ℕ} (h : Shapes s n t free d)
    (ht : t.toList = pre ++ [q] ++ post) :
    Ensures (RBTree.findNextSmallPos (post.headD NPOS)) s fun r s' => s' = s ∧ r = q := by
  cases post with
  | nil =>
    refine h.rep.findNextSmallPos_end.mono ?_
    rintro _ s ⟨rfl, rfl⟩
    simp [ht]
  | cons p post =>
    refine (h.rep.findNextSmallPos ht).mono ?_
    rintro _ s ⟨rfl, rfl⟩
    simp

theorem walkBackwardLoop {rounds : ℕ} {pre post : List ℕ} (h : Shapes s n t free d)
    (ht : t.toList = pre ++ post) (hrounds : pre.length < rounds) :
    Ensures (RBTree.walkBackwardLoop rounds (post.headD NPOS)) s fun xs s' =>
      s' = s ∧ xs = (pre.map d).reverse := by
  induction rounds generalizing pre post with
  | zero => exact absurd hrounds (Nat.not_lt_zero _)
  | succ rounds ih =>
    rw [RBTree.walkBackwardLoop]
    refine h.rep.findSmallestPos.bind ?_
    rintro _ s ⟨rfl, rfl⟩
    obtain rfl | ⟨pre, q, rfl⟩ := List.eq_nil_or_concat' pre
    · rw [if_pos (by rw [ht, List.nil_append]), ensures_pure]
      exact ⟨rfl, rfl⟩
    · have hmem : q ∈ t.toList := by simp [ht]
      have hq : q ≠ NPOS := (@Rep.ne_npos _ _ _ _ _ [] _ _ _ h.rep) (by simp [hmem])
      have hlt : q < s.slots := (@Rep.lt_slots _ _ _ _ _ [] _ _ _ h.rep) (by simp [hmem])
      have hbegin : post.headD NPOS ≠ t.toList.headD NPOS := by
        have hnodup : t.toList.Nodup := by
          have hpart := @Rep.nodup _ _ _ _ _ [] _ _ _ h.rep
          simp only [List.nodup_append] at hpart
          exact hpart.1.1.1
        have hzero : NPOS ∉ t.toList := fun hx =>
          (@Rep.ne_npos _ _ _ _ _ [] _ _ _ h.rep) (by simp [hx]) rfl
        rw [ht] at hnodup hzero ⊢
        exact headD_ne_headD (by simp) hnodup fun hx => hzero (List.mem_append_left _ hx)
      rw [if_neg hbegin]
      refine (h.findNextSmallPos ht).bind ?_
      rintro r s ⟨rfl, hr⟩
      obtain rfl : q = r := hr.symm
      rw [ensures_bind, ensures_getData hlt]
      refine (@ih pre (q :: post) (by simp [ht]) (by simpa using hrounds)).bind ?_
      rintro _ s ⟨rfl, rfl⟩
      rw [ensures_pure, ← h.rep.data]
      simp

/-- **`end()` to `begin()`** yields them in the reverse order. -/
theorem walkBackward (h : Shapes s n t free d) :
    Ensures RBTree.walkBackward s fun xs s' => s' = s ∧ xs = (elems d t).reverse := by
  rw [RBTree.walkBackward, ensures_bind, ensures_get, endPos, ensures_bind, ensures_pure]
  refine (@walkBackwardLoop _ _ _ _ _ _ _ _ [] h) (by simp) ?_
  simpa using @Rep.depth_lt _ _ _ _ _ [] _ _ _ h.rep

end Shapes

end Lsf.RBTree
