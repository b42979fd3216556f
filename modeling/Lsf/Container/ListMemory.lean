import Lsf.Container.BidirectionalList
import Lsf.Foundations.LinkedRing

/-!
# The rings of a list

A state of the list is seen as four functions on positions, one per field of a node, and the two
ways of changing a ring as assignments to `next` and `prev`. `Rep` says that the end node and the
used positions form one ring and the empty positions another, and that together they are all slots.

## Main definitions

* `Rep` — the two rings of a state

## Main results

* `Rep.getNewNodeAndInsert`, `Rep.freeNode`
-/

namespace Lsf.ListState

variable {α : Type}

/-! ### Fields -/

namespace State

variable (s : State α)

/-- The position after one. -/
def next (pos : ℕ) : ℕ := (s.node pos).nextPos

/-- The position before one. -/
def prev (pos : ℕ) : ℕ := (s.node pos).prevPos

/-- The element at a position. -/
def data (pos : ℕ) : α := (s.node pos).data

/-- The position is used. -/
def isUse (pos : ℕ) : Bool := (s.node pos).isUse

/-- The same state with other nodes that have the given fields. -/
def withNodes (next prev : ℕ → ℕ) (isUse : ℕ → Bool) (data : ℕ → α) : State α :=
  { s with node := fun pos => ⟨prev pos, next pos, data pos, isUse pos⟩ }

variable {s} {next prev : ℕ → ℕ} {isUse : ℕ → Bool} {data : ℕ → α}

@[simp] theorem next_withNodes : (s.withNodes next prev isUse data).next = next := rfl

@[simp] theorem prev_withNodes : (s.withNodes next prev isUse data).prev = prev := rfl

@[simp] theorem isUse_withNodes : (s.withNodes next prev isUse data).isUse = isUse := rfl

@[simp] theorem data_withNodes : (s.withNodes next prev isUse data).data = data := rfl

@[simp] theorem size_withNodes : (s.withNodes next prev isUse data).size = s.size := rfl

@[simp] theorem maxSize_withNodes : (s.withNodes next prev isUse data).maxSize = s.maxSize := rfl

@[simp] theorem slots_withNodes : (s.withNodes next prev isUse data).slots = s.slots := rfl

@[simp] theorem headPos_withNodes : (s.withNodes next prev isUse data).headPos = s.headPos := rfl

@[simp] theorem emptyHeadPos_withNodes :
    (s.withNodes next prev isUse data).emptyHeadPos = s.emptyHeadPos := rfl

@[simp] theorem withNodes_withNodes {next' prev' : ℕ → ℕ} {isUse' : ℕ → Bool} {data' : ℕ → α} :
    (s.withNodes next prev isUse data).withNodes next' prev' isUse' data' =
      s.withNodes next' prev' isUse' data' := rfl

end State

/-! ### Execution -/

section Execution

variable {s : State α} {pos v : ℕ} (hp : pos < s.slots)

include hp

theorem ensures_load {Q : Node α → State α → Prop} :
    Ensures (load pos) s Q ↔ Q (s.node pos) s := by
  exact Ensures.iff_of_run (if_pos hp)

/-- A store changes the four fields of one position. -/
theorem ensures_store {f : Node α → Node α} {Q : Unit → State α → Prop} :
    Ensures (store pos f) s Q ↔ Q () (s.withNodes
      (Function.update s.next pos (f (s.node pos)).nextPos)
      (Function.update s.prev pos (f (s.node pos)).prevPos)
      (Function.update s.isUse pos (f (s.node pos)).isUse)
      (Function.update s.data pos (f (s.node pos)).data)) := by
  have hrun : (store pos f : Prog α Unit).run s =
      some ((), { s with node := Function.update s.node pos (f (s.node pos)) }) := if_pos hp
  have hstate : { s with node := Function.update s.node pos (f (s.node pos)) } = s.withNodes
      (Function.update s.next pos (f (s.node pos)).nextPos)
      (Function.update s.prev pos (f (s.node pos)).prevPos)
      (Function.update s.isUse pos (f (s.node pos)).isUse)
      (Function.update s.data pos (f (s.node pos)).data) := by
    rw [State.withNodes]
    congr 1
    funext x
    by_cases hx : x = pos
    · subst hx
      simp only [Function.update_self]
    · simp only [Function.update_of_ne hx]
      rfl
  rw [Ensures.iff_of_run hrun, hstate]

theorem ensures_getNextPos {Q : ℕ → State α → Prop} :
    Ensures (getNextPos pos) s Q ↔ Q (s.next pos) s := by
  rw [getNextPos, ensures_bind, ensures_load hp, ensures_pure]
  rfl

theorem ensures_getPrevPos {Q : ℕ → State α → Prop} :
    Ensures (getPrevPos pos) s Q ↔ Q (s.prev pos) s := by
  rw [getPrevPos, ensures_bind, ensures_load hp, ensures_pure]
  rfl

theorem ensures_setNextPos {Q : Unit → State α → Prop} :
    Ensures (setNextPos pos v) s Q ↔
      Q () (s.withNodes (Function.update s.next pos v) s.prev s.isUse s.data) := by
  rw [setNextPos, ensures_store hp]
  show Q () (s.withNodes _ (Function.update s.prev pos (s.prev pos))
    (Function.update s.isUse pos (s.isUse pos)) (Function.update s.data pos (s.data pos))) ↔ _
  simp only [Function.update_eq_self]

theorem ensures_setPrevPos {Q : Unit → State α → Prop} :
    Ensures (setPrevPos pos v) s Q ↔
      Q () (s.withNodes s.next (Function.update s.prev pos v) s.isUse s.data) := by
  rw [setPrevPos, ensures_store hp]
  show Q () (s.withNodes (Function.update s.next pos (s.next pos)) _
    (Function.update s.isUse pos (s.isUse pos)) (Function.update s.data pos (s.data pos))) ↔ _
  simp only [Function.update_eq_self]

theorem ensures_setIsUse {b : Bool} {Q : Unit → State α → Prop} :
    Ensures (setIsUse pos b) s Q ↔
      Q () (s.withNodes s.next s.prev (Function.update s.isUse pos b) s.data) := by
  rw [setIsUse, ensures_store hp]
  show Q () (s.withNodes (Function.update s.next pos (s.next pos))
    (Function.update s.prev pos (s.prev pos)) _ (Function.update s.data pos (s.data pos))) ↔ _
  simp only [Function.update_eq_self]

theorem ensures_getDataPtr (hmax : s.slots = s.maxSize) {Q : Option ℕ → State α → Prop} :
    Ensures (getDataPtr pos) s Q ↔ Q (if s.isUse pos then some pos else none) s := by
  rw [getDataPtr, ensures_bind, ensures_get, if_neg (by omega), ensures_bind, ensures_load hp]
  cases hu : s.isUse pos with
  | true =>
    have hnode : (s.node pos).isUse = true := hu
    rw [hnode]
    simp
  | false =>
    have hnode : (s.node pos).isUse = false := hu
    rw [hnode]
    simp

theorem ensures_getData (hmax : s.slots = s.maxSize) (hu : s.isUse pos = true)
    {Q : α → State α → Prop} : Ensures (getData pos) s Q ↔ Q (s.data pos) s := by
  rw [getData, ensures_bind, ensures_getDataPtr hp hmax, if_pos hu, ensures_bind, ensures_load hp,
    ensures_pure]
  rfl

theorem ensures_setData (hmax : s.slots = s.maxSize) (hu : s.isUse pos = true) {val : α}
    {Q : Unit → State α → Prop} : Ensures (setData pos val) s Q ↔
      Q () (s.withNodes s.next s.prev s.isUse (Function.update s.data pos val)) := by
  rw [setData, ensures_bind, ensures_getDataPtr hp hmax, if_pos hu, ensures_store hp]
  show Q () (s.withNodes (Function.update s.next pos (s.next pos))
    (Function.update s.prev pos (s.prev pos)) (Function.update s.isUse pos (s.isUse pos)) _) ↔ _
  simp only [Function.update_eq_self]

end Execution

section Registers

variable {s : State α} {v : ℕ}

@[simp] theorem ensures_getHeadPos {Q : ℕ → State α → Prop} :
    Ensures getHeadPos s Q ↔ Q s.headPos s := by
  rw [getHeadPos, ensures_bind, ensures_get, ensures_pure]

@[simp] theorem ensures_getEmptyHeadPos {Q : ℕ → State α → Prop} :
    Ensures getEmptyHeadPos s Q ↔ Q s.emptyHeadPos s := by
  rw [getEmptyHeadPos, ensures_bind, ensures_get, ensures_pure]

@[simp] theorem ensures_setHeadPos {Q : Unit → State α → Prop} :
    Ensures (setHeadPos v) s Q ↔ Q () { s with headPos := v } := ensures_modify

@[simp] theorem ensures_setEmptyHeadPos {Q : Unit → State α → Prop} :
    Ensures (setEmptyHeadPos v) s Q ↔ Q () { s with emptyHeadPos := v } := ensures_modify

@[simp] theorem ensures_incSize {Q : Unit → State α → Prop} :
    Ensures incSize s Q ↔ Q () { s with size := s.size + 1 } := ensures_modify

@[simp] theorem ensures_decSize {Q : Unit → State α → Prop} :
    Ensures decSize s Q ↔ Q () { s with size := s.size - 1 } := ensures_modify

end Registers

/-! ### Rings -/

section Rings

variable {s : State α} {p a : ℕ} {l : List ℕ}

/-- `takeOut` assigns to the neighbours of a member of a ring. -/
theorem ensures_takeOut (hr : IsRing s.next s.prev (p :: l)) (hl : ∀ x ∈ p :: l, x < s.slots)
    {Q : Unit → State α → Prop} : Ensures (takeOut p) s Q ↔
      Q () (s.withNodes (Function.update s.next (s.prev p) (s.next p))
        (Function.update s.prev (s.next p) (s.prev p)) s.isUse s.data) := by
  have hp : p < s.slots := hl p List.mem_cons_self
  have hprev : s.prev p < s.slots := hl _ hr.prev_head_mem
  have hnext : s.next p < s.slots := hl _ hr.next_head_mem
  have hsame : Function.update s.prev (s.next p) (s.prev p) p = s.prev p := by
    by_cases h : p = s.next p
    · rw [← h, Function.update_self]
    · rw [Function.update_of_ne h]
  rw [takeOut, ensures_bind, ensures_getNextPos hp, ensures_bind, ensures_getPrevPos hp,
    ensures_bind, ensures_setPrevPos hnext, ensures_bind, ensures_getPrevPos (by simpa),
    ensures_bind, ensures_getNextPos (by simpa)]
  simp only [State.prev_withNodes, State.next_withNodes, hsame]
  rw [ensures_setNextPos (by simpa)]
  simp

/-- `linkBefore` puts a new member before `a`. -/
theorem ensures_linkBefore (hr : IsRing s.next s.prev (a :: l)) (hp : p < s.slots)
    (hl : ∀ x ∈ a :: l, x < s.slots) (hpl : p ∉ a :: l) {Q : Unit → State α → Prop} :
    Ensures (linkBefore p a) s Q ↔
      Q () (s.withNodes (Function.update (Function.update s.next p a) (s.prev a) p)
        (Function.update (Function.update s.prev p (s.prev a)) a p) s.isUse s.data) := by
  have ha : a < s.slots := hl a List.mem_cons_self
  have hprev : s.prev a < s.slots := hl _ hr.prev_head_mem
  have hpa : p ≠ a := fun heq => hpl (heq ▸ List.mem_cons_self)
  rw [linkBefore, ensures_bind, ensures_setNextPos hp, ensures_bind, ensures_getPrevPos (by simpa),
    ensures_bind, ensures_setPrevPos (by simpa), ensures_bind, ensures_getNextPos (by simpa)]
  simp only [State.next_withNodes, State.prev_withNodes, State.isUse_withNodes,
    State.data_withNodes, State.withNodes_withNodes, Function.update_self]
  rw [ensures_bind, ensures_setPrevPos (by simpa), ensures_bind, ensures_getPrevPos (by simpa)]
  simp only [State.next_withNodes, State.prev_withNodes, State.isUse_withNodes,
    State.data_withNodes, State.withNodes_withNodes, Function.update_of_ne hpa,
    Function.update_self]
  rw [ensures_setNextPos (by simpa)]
  simp

end Rings

/-! ### The two rings of a list -/

/-- The end node and the positions `used` form a ring, the positions `free` form the empty ring,
and with the positions `loose`, which are in neither, they are all slots. -/
structure Rings (s : State α) (n : ℕ) (used free loose : List ℕ) : Prop where
  slots : s.slots = n + 1
  maxSize : s.maxSize = n + 1
  ring : IsRing s.next s.prev (ENDPOS :: used)
  emptyRing : IsRing s.next s.prev free
  emptyHead : s.emptyHeadPos = free.headD ENDPOS
  part : (used ++ free ++ loose).Perm (List.range' 1 n)

/-- What the changes of the rings leave alone. -/
structure Keeps (s s' : State α) : Prop where
  size : s'.size = s.size
  headPos : s'.headPos = s.headPos
  isUse : s'.isUse = s.isUse
  data : s'.data = s.data

namespace Rings

variable {s s' : State α} {n p : ℕ} {used free loose pre post : List ℕ}

theorem slots_eq (h : Rings s n used free loose) : s.slots = s.maxSize :=
  h.slots.trans h.maxSize.symm

theorem nodup (h : Rings s n used free loose) : (ENDPOS :: (used ++ free ++ loose)).Nodup := by
  refine List.nodup_cons.mpr ⟨fun hmem => ?_, h.part.nodup_iff.mpr List.nodup_range'⟩
  have hle : 1 ≤ ENDPOS := (List.mem_range'_1.mp (h.part.mem_iff.mp hmem)).1
  exact absurd hle (by decide)

theorem lt_slots (h : Rings s n used free loose) {x : ℕ}
    (hx : x ∈ ENDPOS :: (used ++ free ++ loose)) : x < s.slots := by
  rw [h.slots]
  obtain rfl | hx := List.mem_cons.mp hx
  · exact Nat.succ_pos n
  · have := List.mem_range'_1.mp (h.part.mem_iff.mp hx)
    omega

/-- No position is in both rings. -/
theorem not_mem_of_mem (h : Rings s n used free loose) {x : ℕ} (hx : x ∈ free ++ loose) :
    x ∉ ENDPOS :: used := by
  have hnodup := h.nodup
  rw [List.append_assoc, ← List.cons_append, List.nodup_append] at hnodup
  exact fun hu => hnodup.2.2 x hu x hx rfl

theorem nodup_used (h : Rings s n used free loose) : (ENDPOS :: used).Nodup := by
  have hnodup := h.nodup
  rw [List.append_assoc, ← List.cons_append] at hnodup
  exact (List.nodup_append.mp hnodup).1

theorem nodup_free (h : Rings s n used free loose) : (free ++ loose).Nodup := by
  have hnodup := h.nodup
  rw [List.append_assoc, ← List.cons_append] at hnodup
  exact (List.nodup_append.mp hnodup).2.1

/-- The rings depend on the links and the head of the empty ring only. -/
theorem congr (h : Rings s n used free loose) (hslots : s'.slots = s.slots)
    (hmax : s'.maxSize = s.maxSize) (hnext : s'.next = s.next) (hprev : s'.prev = s.prev)
    (hhead : s'.emptyHeadPos = s.emptyHeadPos) : Rings s' n used free loose :=
  ⟨hslots.trans h.slots, hmax.trans h.maxSize, by rw [hnext, hprev]; exact h.ring,
    by rw [hnext, hprev]; exact h.emptyRing, hhead.trans h.emptyHead, h.part⟩

/-- The used ring, read from the position where the second part of the list starts. -/
theorem ring_at (h : Rings s n (pre ++ post) free loose) :
    IsRing s.next s.prev (post ++ ENDPOS :: pre) := h.ring.rotate (l := ENDPOS :: pre)

theorem perm_at (pre post : List ℕ) :
    (post ++ ENDPOS :: pre).Perm (ENDPOS :: (pre ++ post)) :=
  @List.perm_append_comm _ post (ENDPOS :: pre)

/-- Taking the first position out of the empty ring. -/
theorem getNewNode (h : Rings s n used (p :: free) []) :
    Ensures ListState.getNewNode s fun q s' => q = p ∧ Rings s' n used free [p] ∧ Keeps s s' := by
  have hp : p < s.slots := h.lt_slots (by simp)
  have hhead : s.emptyHeadPos = p := h.emptyHead
  have hfree : (p :: free).Nodup := by simpa using h.nodup_free
  have hoff : ∀ x ∈ p :: free, x ∉ ENDPOS :: used := fun x hx =>
    h.not_mem_of_mem (by simpa using hx)
  have hperm : (used ++ free ++ [p]).Perm (List.range' 1 n) := by
    refine List.Perm.trans ?_ h.part
    simpa using (List.perm_append_singleton p free).append_left used
  have hiff := h.emptyRing.next_head_eq_iff hfree
  rw [ListState.getNewNode, ensures_bind, ensures_getEmptyHeadPos, hhead, ensures_bind,
    ensures_getNextPos hp]
  by_cases hnil : free = []
  · subst hnil
    rw [if_pos (hiff.mpr rfl), ensures_bind, ensures_setEmptyHeadPos, ensures_pure]
    exact ⟨rfl, ⟨h.slots, h.maxSize, h.ring, IsRing.nil, rfl, hperm⟩, rfl, rfl, rfl, rfl⟩
  · have hlt : ∀ x ∈ p :: free, x < s.slots := fun x hx =>
      h.lt_slots (List.mem_cons_of_mem _ (by simpa using .inr (by simpa using hx)))
    have hprev : s.prev p ≠ p := by
      intro heq
      have hnext := h.emptyRing.next_prev_head
      rw [heq] at hnext
      exact hnil (hiff.mp hnext)
    rw [if_neg (mt hiff.mp hnil), ensures_bind, ensures_takeOut h.emptyRing hlt, ensures_bind,
      ensures_getNextPos (by simpa), ensures_bind, ensures_setEmptyHeadPos, ensures_pure]
    refine ⟨rfl, ⟨h.slots, h.maxSize, ?_, h.emptyRing.takeOut hfree, ?_, hperm⟩, rfl, rfl, rfl, rfl⟩
    · exact h.ring.update_of_notMem (hoff _ h.emptyRing.prev_head_mem)
        (hoff _ h.emptyRing.next_head_mem)
    · obtain ⟨a, free, rfl⟩ := List.exists_cons_of_ne_nil hnil
      show Function.update s.next (s.prev p) (s.next p) p = a
      rw [Function.update_of_ne hprev.symm, h.emptyRing.next_head]

/-- Linking a loose position into the used ring. -/
theorem linkBefore (h : Rings s n (pre ++ post) free [p]) :
    Ensures (ListState.linkBefore p (post.headD ENDPOS)) s fun _ s' =>
      Rings s' n (pre ++ p :: post) free [] ∧ Keeps s s' := by
  have hp : p < s.slots := h.lt_slots (by simp)
  have hpu : p ∉ ENDPOS :: (pre ++ post) := h.not_mem_of_mem (by simp)
  have hnodup := (perm_at pre post).nodup_iff.mpr h.nodup_used
  have hpfree : p ∉ free := by
    have := h.nodup_free
    rw [List.nodup_append] at this
    exact fun hmem => this.2.2 p hmem p (by simp) rfl
  have hfree : ∀ x ∈ ENDPOS :: (pre ++ post), x ∉ free := fun x hx hf =>
    h.not_mem_of_mem (List.mem_append_left _ hf) hx
  have hmem := fun x => (perm_at pre post).mem_iff (a := x)
  obtain ⟨a, l, hal⟩ : ∃ a l, post ++ ENDPOS :: pre = a :: l := by cases post <;> exact ⟨_, _, rfl⟩
  have ha : post.headD ENDPOS = a := by
    cases post <;> exact (List.cons.inj hal).1
  have hring := h.ring_at
  rw [hal] at hring hnodup hmem
  have hlt : ∀ x ∈ a :: l, x < s.slots := fun x hx =>
    h.lt_slots (by
      have := (hmem x).mp hx
      simp only [List.mem_cons, List.mem_append] at this ⊢
      tauto)
  have hpl : p ∉ a :: l := fun hx => hpu ((hmem p).mp hx)
  rw [ha, ensures_linkBefore hring hp hlt hpl]
  refine ⟨⟨h.slots, h.maxSize, ?_, ?_, h.emptyHead, ?_⟩, rfl, rfl, rfl, rfl⟩
  · have hlink := hring.linkBefore hnodup hpl
    rw [← hal] at hlink
    exact hlink.rotate (l := p :: post) (m := ENDPOS :: pre)
  · refine (h.emptyRing.update_of_notMem hpfree hpfree).update_of_notMem ?_ ?_
    · exact hfree _ ((hmem _).mp hring.prev_head_mem)
    · exact hfree _ ((hmem _).mp List.mem_cons_self)
  · have hlast := List.perm_append_singleton p (pre ++ post ++ free)
    refine List.Perm.trans ?_ (hlast.symm.trans h.part)
    simp

/-- Taking a position out of the used ring. -/
theorem takeOut (h : Rings s n (pre ++ p :: post) free []) :
    Ensures (ListState.takeOut p) s fun _ s' => Rings s' n (pre ++ post) free [p] ∧ Keeps s s' ∧
      s'.next p = post.headD ENDPOS := by
  have hring := h.ring_at
  have hmem := fun x => (perm_at pre (p :: post)).mem_iff (a := x)
  have hnodup := (perm_at pre (p :: post)).nodup_iff.mpr h.nodup_used
  rw [List.cons_append] at hring hnodup hmem
  have hlt : ∀ x ∈ p :: (post ++ ENDPOS :: pre), x < s.slots := fun x hx =>
    h.lt_slots (by
      have := (hmem x).mp hx
      simp only [List.mem_cons, List.mem_append] at this ⊢
      tauto)
  have hfree : ∀ x ∈ p :: (post ++ ENDPOS :: pre), x ∉ free := fun x hx hf =>
    h.not_mem_of_mem (List.mem_append_left _ hf) ((hmem x).mp hx)
  rw [ensures_takeOut hring hlt]
  refine ⟨⟨h.slots, h.maxSize, ?_, ?_, h.emptyHead, ?_⟩, ⟨rfl, rfl, rfl, rfl⟩, ?_⟩
  · exact (hring.takeOut hnodup).rotate (l := post) (m := ENDPOS :: pre)
  · exact h.emptyRing.update_of_notMem (hfree _ hring.prev_head_mem) (hfree _ hring.next_head_mem)
  · refine List.Perm.trans ?_ h.part
    simp only [List.append_nil]
    refine (List.perm_append_singleton p (pre ++ post ++ free)).trans ?_
    simp only [List.append_assoc, List.cons_append]
    exact List.perm_middle.symm
  · have hnext : s.next p = post.headD ENDPOS := by
      cases post <;> exact hring.next_head
    have hprev : p ≠ s.prev p := by
      intro heq
      have hnp := hring.next_prev_head
      rw [← heq] at hnp
      have hnil := (hring.next_head_eq_iff hnodup).mp hnp
      simp at hnil
    show Function.update s.next (s.prev p) (s.next p) p = _
    rw [Function.update_of_ne hprev, hnext]

/-- Putting a loose position at the end of the empty ring. -/
theorem putEmptyNode (h : Rings s n used free [p]) :
    Ensures (ListState.putEmptyNode p) s fun _ s' =>
      Rings s' n used (free ++ [p]) [] ∧ Keeps s s' := by
  have hp : p < s.slots := h.lt_slots (by simp)
  have hpu : p ∉ ENDPOS :: used := h.not_mem_of_mem (by simp)
  have hnodup := h.nodup_free
  have hperm : (used ++ (free ++ [p]) ++ []).Perm (List.range' 1 n) := by
    rw [List.append_nil, ← List.append_assoc]
    exact h.part
  rw [ListState.putEmptyNode, ensures_bind, ensures_getEmptyHeadPos, h.emptyHead]
  cases free with
  | nil =>
    rw [List.headD_nil, if_pos rfl, ensures_bind, ensures_setNextPos hp, ensures_bind,
      ensures_setPrevPos (by simpa), ensures_setEmptyHeadPos]
    refine ⟨⟨h.slots, h.maxSize, h.ring.update_of_notMem hpu hpu, ?_, rfl, hperm⟩,
      rfl, rfl, rfl, rfl⟩
    exact IsRing.singleton_iff.mpr ⟨Function.update_self .., Function.update_self ..⟩
  | cons a free =>
    have ha : a ≠ ENDPOS := fun heq => h.not_mem_of_mem (x := a) (by simp) (by simp [heq])
    have hlt : ∀ x ∈ a :: free, x < s.slots := fun x hx =>
      h.lt_slots (by
        simp only [List.mem_cons, List.mem_append] at hx ⊢
        tauto)
    have hfree : (a :: free).Nodup := (List.nodup_append.mp hnodup).1
    have hpf : p ∉ a :: free := fun hmem =>
      (List.nodup_append.mp hnodup).2.2 p hmem p (by simp) rfl
    have hoff : ∀ x ∈ a :: free, x ∉ ENDPOS :: used := fun x hx =>
      h.not_mem_of_mem (List.mem_append_left _ hx)
    rw [List.headD_cons, if_neg ha, ensures_linkBefore h.emptyRing hp hlt hpf]
    refine ⟨⟨h.slots, h.maxSize, ?_, ?_, h.emptyHead, hperm⟩, rfl, rfl, rfl, rfl⟩
    · refine (h.ring.update_of_notMem hpu hpu).update_of_notMem ?_ ?_
      · exact hoff _ h.emptyRing.prev_head_mem
      · exact hoff _ List.mem_cons_self
    · exact (h.emptyRing.linkBefore hfree hpf).rotate (l := [p]) (m := a :: free)

end Rings

/-! ### The list -/

/-- The state between two operations: every used position is in use and is counted. -/
structure Rep (s : State α) (n : ℕ) (used free : List ℕ) : Prop where
  rings : Rings s n used free []
  size : s.size = used.length
  head : s.headPos = used.headD ENDPOS
  inUse : ∀ p ∈ used, s.isUse p = true

namespace Rep

variable {s : State α} {n p : ℕ} {used free pre post : List ℕ}

theorem length_add (h : Rep s n used free) : used.length + free.length = n := by
  simpa using h.rings.part.length_eq

theorem lt_slots (h : Rep s n used free) (hp : p ∈ ENDPOS :: used) : p < s.slots :=
  h.rings.lt_slots (by
    simp only [List.mem_cons, List.mem_append] at hp ⊢
    tauto)

theorem ne_endPos (h : Rep s n used free) (hp : p ∈ used) : p ≠ ENDPOS := by
  rintro rfl
  exact (List.nodup_cons.mp h.rings.nodup_used).1 hp

/-- **`GetNewNodeAndInsert`** puts the first empty position before the one it is given. -/
theorem getNewNodeAndInsert (h : Rep s n (pre ++ post) (p :: free)) :
    Ensures (ListState.getNewNodeAndInsert (post.headD ENDPOS)) s fun q s' => q = p ∧
      Rep s' n (pre ++ p :: post) free ∧ s'.data = s.data ∧
      s'.isUse = Function.update s.isUse p true := by
  rw [ListState.getNewNodeAndInsert]
  refine h.rings.getNewNode.bind ?_
  rintro _ s₁ ⟨rfl, h₁, hk₁⟩
  rename_i p
  have hp : p < s₁.slots := h₁.lt_slots (by simp)
  rw [ensures_bind, ensures_incSize, ensures_bind, ensures_setIsUse (by simpa)]
  have h₂ : Rings (State.withNodes { s₁ with size := s₁.size + 1 } s₁.next s₁.prev
      (Function.update s₁.isUse p true) s₁.data) n (pre ++ post) free [p] :=
    h₁.congr rfl rfl rfl rfl rfl
  refine h₂.linkBefore.bind ?_
  rintro _ s₃ ⟨h₃, hk₃⟩
  have hsize : s₃.size = (pre ++ p :: post).length := by
    rw [hk₃.size]
    show s₁.size + 1 = _
    rw [hk₁.size, h.size]
    simp
    omega
  have hupdate : s₃.isUse = Function.update s.isUse p true := by
    rw [hk₃.isUse]
    show Function.update s₁.isUse p true = _
    rw [hk₁.isUse]
  have huse : ∀ x ∈ pre ++ p :: post, s₃.isUse x = true := by
    intro x hx
    rw [hupdate]
    by_cases hxp : x = p
    · rw [hxp, Function.update_self]
    · rw [Function.update_of_ne hxp]
      refine h.inUse x ?_
      simp only [List.mem_append, List.mem_cons] at hx ⊢
      tauto
  have hdata : s₃.data = s.data := hk₃.data.trans hk₁.data
  have hhead : s₃.headPos = (pre ++ post).headD ENDPOS :=
    hk₃.headPos.trans (hk₁.headPos.trans h.head)
  rw [ensures_bind, ensures_getHeadPos, hhead]
  cases pre with
  | nil =>
    rw [if_pos (.inl rfl), ensures_bind, ensures_setHeadPos, ensures_pure]
    exact ⟨rfl, ⟨h₃.congr rfl rfl rfl rfl rfl, hsize, rfl, huse⟩, hdata, hupdate⟩
  | cons a pre =>
    have ha : a ≠ ENDPOS := h.ne_endPos (by simp)
    have hpost : a ≠ post.headD ENDPOS := by
      cases post with
      | nil => exact ha
      | cons b post =>
        rintro rfl
        have := h.rings.nodup_used
        simp at this
    rw [List.cons_append, List.headD_cons, if_neg (not_or.mpr ⟨hpost, ha⟩), ensures_pure]
    exact ⟨rfl, ⟨h₃, hsize, hhead, huse⟩, hdata, hupdate⟩

/-- **`FreeNode`** takes a used position out and puts it at the end of the empty list. -/
theorem freeNode (h : Rep s n (pre ++ p :: post) free) :
    Ensures (ListState.freeNode p) s fun _ s' =>
      Rep s' n (pre ++ post) (free ++ [p]) ∧ s'.data = s.data ∧
      s'.isUse = Function.update s.isUse p false := by
  have hused : p ∉ pre ++ post := by
    have hnodup := (List.nodup_cons.mp h.rings.nodup_used).2
    rw [List.perm_middle.nodup_iff] at hnodup
    exact (List.nodup_cons.mp hnodup).1
  rw [ListState.freeNode]
  refine h.rings.takeOut.bind ?_
  rintro _ s₁ ⟨h₁, hk₁, hnext⟩
  have hp : p < s₁.slots := h₁.lt_slots (by simp)
  -- the head of the list, after it has been moved where it was the freed position
  have hhead : Ensures (leaveHead p) (s₁.withNodes s₁.next s₁.prev
      (Function.update s₁.isUse p false) s₁.data) fun _ s' =>
        Rings s' n (pre ++ post) free [p] ∧ s'.size = s.size ∧
          s'.headPos = (pre ++ post).headD ENDPOS ∧
          s'.isUse = Function.update s.isUse p false ∧ s'.data = s.data := by
    have hsize := hk₁.size
    have huse : Function.update s₁.isUse p false = Function.update s.isUse p false := by
      rw [hk₁.isUse]
    rw [leaveHead, ensures_bind, ensures_getHeadPos, State.headPos_withNodes, hk₁.headPos, h.head]
    cases pre with
    | nil =>
      rw [List.nil_append, List.headD_cons, if_pos rfl, ensures_bind,
        ensures_getNextPos (by simpa), ensures_setHeadPos]
      exact ⟨h₁.congr rfl rfl rfl rfl rfl, hsize, hnext, huse, hk₁.data⟩
    | cons a pre =>
      have hap : a ≠ p := by
        rintro rfl
        simp at hused
      rw [List.cons_append, List.headD_cons, if_neg hap, ensures_pure]
      refine ⟨h₁.congr rfl rfl rfl rfl rfl, hsize, ?_, huse, hk₁.data⟩
      exact hk₁.headPos.trans h.head
  rw [ensures_bind, ensures_setIsUse hp]
  refine hhead.bind ?_
  rintro _ s₂ ⟨h₂, hsize, hhead, huse, hdata⟩
  have hp₂ : p < s₂.slots := h₂.lt_slots (by simp)
  rw [ensures_bind, ensures_decSize, ensures_bind, ensures_setIsUse (by simpa)]
  have h₃ : Rings (State.withNodes { s₂ with size := s₂.size - 1 } s₂.next s₂.prev
      (Function.update s₂.isUse p false) s₂.data) n (pre ++ post) free [p] :=
    h₂.congr rfl rfl rfl rfl rfl
  refine h₃.putEmptyNode.mono ?_
  rintro _ s₄ ⟨h₄, hk₄⟩
  have hupdate : s₄.isUse = Function.update s.isUse p false := by
    rw [hk₄.isUse]
    show Function.update s₂.isUse p false = _
    rw [huse, Function.update_idem]
  refine ⟨⟨h₄, ?_, hk₄.headPos.trans hhead, fun x hx => ?_⟩, hk₄.data.trans hdata, hupdate⟩
  · rw [hk₄.size]
    show s₂.size - 1 = _
    rw [hsize, h.size]
    simp
  · have hxp : x ≠ p := by
      rintro rfl
      exact hused hx
    rw [hupdate, Function.update_of_ne hxp]
    refine h.inUse x ?_
    simp only [List.mem_append, List.mem_cons] at hx ⊢
    tauto

end Rep

end Lsf.ListState
