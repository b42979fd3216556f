import Lsf.Container.RedBlackFeatures

/-!
# The objects in the slots

`Insert` constructs an object in the slot of the new node, and `Erase` calls the destructor of the
object in the slot that `FindNode` returned. Here both are recorded. For a node with two children
`EraseNode` moves the data of the predecessor into that slot and gives the predecessor's slot back,
so the destructor is called for an object that stays in use, and the one in the free slot is never
destroyed.

## Main definitions

* `Tracked` — a container with the record of its objects
* `insertObject`, `eraseObject` — the operations with their constructor and destructor calls
* `ObjectsMatch` — what should hold of the objects after an operation
* `RemovesInner` — the removal of a node with two children

## Main results

* `tracks_insertObject`, `tracks_eraseObject` — the record changes nothing else
* `objects_match_iff_no_inner_removal`
-/

namespace Lsf.RBTree

open ColorTree

variable {α β κ : Type}

/-! ### The record -/

/-- A constructor or destructor call for the object in a slot. -/
inductive Lifetime
  | constructed (pos : ℕ)
  | destroyed (pos : ℕ)
  deriving DecidableEq, Repr

/-- A container, and the calls since its initialization, the newest first. -/
structure Tracked (α : Type) where
  state : State α
  calls : List Lifetime

/-- There is an object in the slot that was constructed and not destroyed since. -/
def Alive : List Lifetime → ℕ → Prop
  | [], _ => False
  | .constructed pos :: calls, x => x = pos ∨ Alive calls x
  | .destroyed pos :: calls, x => x ≠ pos ∧ Alive calls x

/-- The slot is that of a node of the tree. -/
def InTree (s : State α) (pos : ℕ) : Prop := Reached s pos ∧ pos ≠ NPOS

/-- The objects are those of the nodes. -/
def Tidy (x : Tracked α) : Prop := ∀ pos, Alive x.calls pos ↔ InTree x.state pos

/-! ### The operations -/

/-- A program of the tree that keeps track of the objects. -/
abbrev TrackedProg (α β : Type) := StateT (Tracked α) Option β

/-- A program that calls neither constructors nor destructors. -/
def silently (m : Prog α β) : TrackedProg α β := fun x =>
  (m.run x.state).map fun r => (r.1, { x with state := r.2 })

/-- `new (GetDataPtr(pos)) value_type(val)`. -/
def construct (pos : ℕ) (val : α) : TrackedProg α Unit := do
  silently (setData pos val)
  modify fun x => { x with calls := .constructed pos :: x.calls }

/-- `GetDataPtr(pos)->~value_type()`. -/
def destroy (dtor : α → α) (pos : ℕ) : TrackedProg α Unit := do
  let data ← silently (getData pos)
  silently (setData pos (dtor data))
  modify fun x => { x with calls := .destroyed pos :: x.calls }

section Operations

variable [LinearOrder κ] (key : α → κ) (dtor : α → α)

/-- `Insert` of an element. -/
def insertObject (val : α) : TrackedProg α Bool := do
  if full (← get).state then return false
  else do
    let pos ← silently (getNewNodeAndInsert key (key val))
    if pos = NPOS then return false
    else do
      construct pos val
      return true

/-- `Erase` of the element with a key. -/
def eraseObject (k : κ) : TrackedProg α Bool := do
  if empty (← get).state then return false
  else do
    let (pos, parentPos) ← silently (findNode key k)
    if pos = NPOS then return false
    else do
      silently (eraseNode pos parentPos)
      destroy dtor pos
      return true

/-- A call of `Insert` or `Erase` with its answer. -/
def trackedStep : UpdateOp α κ → TrackedProg α Bool
  | .insert x => insertObject key x
  | .erase k => eraseObject key dtor k

end Operations

theorem run_silently (m : Prog α β) (x : Tracked α) : (silently m).run x =
    (m.run x.state).map fun r => (r.1, { x with state := r.2 }) := rfl

@[simp] theorem ensures_silently {m : Prog α β} {x : Tracked α} {Q : β → Tracked α → Prop} :
    Ensures (silently m) x Q ↔ Ensures m x.state fun r s' => Q r { x with state := s' } := by
  constructor
  · rintro ⟨r, x', hrun, hq⟩
    obtain ⟨⟨r', s'⟩, hm, heq⟩ := Option.map_eq_some_iff.mp hrun
    obtain ⟨rfl, rfl⟩ := Prod.mk.inj heq
    exact ⟨r', s', hm, hq⟩
  · rintro ⟨r, s', hm, hq⟩
    exact ⟨r, _, by rw [run_silently, hm, Option.map_some], hq⟩

/-! ### The record changes nothing else -/

/-- But for the record, `m` does what `m'` does. -/
def Tracks (m : TrackedProg α β) (m' : Prog α β) : Prop :=
  ∀ x, (m.run x).map (fun r => (r.1, r.2.state)) = m'.run x.state

namespace Tracks

variable {γ : Type} {m : TrackedProg α β} {m' : Prog α β}

theorem pure (b : β) : Tracks (α := α) (Pure.pure b) (Pure.pure b) := fun _ => rfl

theorem silently (m' : Prog α β) : Tracks (RBTree.silently m') m' := by
  intro x
  rw [run_silently, Option.map_map]
  exact Option.map_id'

/-- An entry of the record. -/
theorem record (call : Lifetime) (b : β) : Tracks (α := α) (do
    modify fun x => { x with calls := call :: x.calls }
    return b) (Pure.pure b) := fun _ => rfl

theorem bind {f : β → TrackedProg α γ} {f' : β → Prog α γ} (hm : Tracks m m')
    (hf : ∀ b, Tracks (f b) (f' b)) : Tracks (m >>= f) (m' >>= f') := by
  intro x
  rw [StateT.run_bind, StateT.run_bind, ← hm x]
  cases m.run x with
  | none => rfl
  | some r => exact hf r.1 r.2

/-- What is ensured of the program is ensured of the one with the record. -/
theorem ensures (h : Tracks m m') {x : Tracked α} {Q : β → State α → Prop}
    (hQ : Ensures m' x.state Q) : Ensures m x fun r x' => Q r x'.state := by
  obtain ⟨r, s', hrun, hq⟩ := hQ
  rw [← h x, Option.map_eq_some_iff] at hrun
  obtain ⟨⟨r', x'⟩, hm, heq⟩ := hrun
  obtain ⟨rfl, rfl⟩ := Prod.mk.inj heq
  exact ⟨r', x', hm, hq⟩

end Tracks

section Tracks

variable [LinearOrder κ] (key : α → κ) (dtor : α → α)

/-- **With the record, `Insert` is `Insert`.** -/
theorem tracks_insertObject (val : α) : Tracks (insertObject key val) (insertElem key val) := by
  intro x
  rw [insertObject, insertElem, StateT.run_bind, StateT.run_bind]
  show Option.map _ (StateT.run (if full x.state then _ else _) x) =
    StateT.run (if full x.state then _ else _) x.state
  by_cases hfull : full x.state
  · rw [if_pos hfull, if_pos hfull]
    exact Tracks.pure false x
  · rw [if_neg hfull, if_neg hfull]
    refine Tracks.bind (Tracks.silently _) (fun pos => ?_) x
    by_cases hpos : pos = NPOS
    · rw [if_pos hpos, if_pos hpos]
      exact Tracks.pure false
    · rw [if_neg hpos, if_neg hpos]
      rw [construct, bind_assoc]
      exact (Tracks.silently _).bind fun _ => Tracks.record _ true

/-- **With the record, `Erase` is `Erase`.** -/
theorem tracks_eraseObject (k : κ) :
    Tracks (eraseObject key dtor k) (eraseElem key dtor k) := by
  intro x
  rw [eraseObject, eraseElem, StateT.run_bind, StateT.run_bind]
  show Option.map _ (StateT.run (if empty x.state then _ else _) x) =
    StateT.run (if empty x.state then _ else _) x.state
  by_cases hempty : empty x.state
  · rw [if_pos hempty, if_pos hempty]
    exact Tracks.pure false x
  · rw [if_neg hempty, if_neg hempty]
    refine Tracks.bind (Tracks.silently _) (fun r => ?_) x
    obtain ⟨pos, parentPos⟩ := r
    show Tracks (if pos = NPOS then _ else _) (if pos = NPOS then _ else _)
    by_cases hpos : pos = NPOS
    · rw [if_pos hpos, if_pos hpos]
      exact Tracks.pure false
    · rw [if_neg hpos, if_neg hpos]
      refine (Tracks.silently _).bind fun _ => ?_
      rw [destroy, bind_assoc]
      refine (Tracks.silently _).bind fun _ => ?_
      rw [bind_assoc]
      exact (Tracks.silently _).bind fun _ => Tracks.record _ true

end Tracks

/-! ### One operation -/

/-- What should hold after an operation with the answer `r`: the objects are those of the nodes; an
insertion has constructed one; and a removal has destroyed one, that of the slot at the head of the
empty list, where the slot it gave back is, which is not that of a node. -/
def ObjectsMatch (op : UpdateOp α κ) (x : Tracked α) (r : Bool) (x' : Tracked α) : Prop :=
  Tidy x' ∧ match op, r with
    | _, false => x'.calls = x.calls
    | .insert _, true => ∃ pos, x'.calls = .constructed pos :: x.calls
    | .erase _, true => ∃ pos, x'.calls = .destroyed pos :: x.calls ∧
        x'.state.emptyHeadPos = pos ∧ ¬ InTree x'.state pos

/-- The operation removes a key whose node has two children. -/
def UpdateOp.RemovesInner [LinearOrder κ] (key : α → κ) (s : State α) : UpdateOp α κ → Prop
  | .insert _ => False
  | .erase k => ∃ pos parentPos, (findNode key k).run s = some ((pos, parentPos), s) ∧
      s.child .left pos ≠ NPOS ∧ s.child .right pos ≠ NPOS

/-- If the operation is a removal, the node that `FindNode` returns lacks a child. -/
def UpdateOp.OuterOnly [LinearOrder κ] (key : α → κ) (op : UpdateOp α κ) (s : State α) : Prop :=
  match op with
  | .insert _ => True
  | .erase k => Ensures (findNode key k) s fun r s =>
      s.child .left r.1 = NPOS ∨ s.child .right r.1 = NPOS

instance [LinearOrder κ] (key : α → κ) (op : UpdateOp α κ) (s : State α) :
    Decidable (op.OuterOnly key s) :=
  match op with
  | .insert _ => isTrue trivial
  | .erase _ => inferInstanceAs (Decidable (Ensures _ _ _))

/-- A node that `FindNode` finds without one of its children. -/
theorem not_removesInner [LinearOrder κ] {key : α → κ} {s : State α} {op : UpdateOp α κ}
    (h : op.OuterOnly key s) : ¬ op.RemovesInner key s := by
  cases op with
  | insert x => exact id
  | erase k =>
    rintro ⟨pos, parentPos, hrun, hleft, hright⟩
    exact (Ensures.elim h hrun).elim hleft hright

namespace Stores

variable [LinearOrder κ] {key : α → κ} {dtor : α → α} {s : State α} {x : Tracked α} {n : ℕ}
  {t : ColorTree ℕ} {free : List ℕ} {d : ℕ → α} {k : κ}

theorem inTree_iff (h : Stores key s n t free d) {pos : ℕ} : InTree s pos ↔ pos ∈ t.toList := by
  constructor
  · rintro ⟨hreach, hne⟩
    obtain ⟨ctx, u, rfl, rfl⟩ := h.rep.reached_iff.mp hreach
    have hu : u ≠ nil := fun hu => hne (by rw [hu, pos_nil])
    rw [toList_plug]
    simp [pos_mem hu]
  · intro hpos
    obtain ⟨pre, post, ht⟩ := List.append_of_mem hpos
    obtain ⟨ctx, c, l, r, rfl, -⟩ := h.rep.focus ht
    exact ⟨h.rep.reached_iff.mpr ⟨ctx, _, rfl, rfl⟩, h.rep.node_ne⟩

/-- A removal takes the slot that it gives back out of the tree. -/
theorem erased_perm {s' : State α} {t' : ColorTree ℕ} {d' : ℕ → α} {q : ℕ}
    (h : Stores key s n t free d) (h' : Stores key s' n t' (q :: free) d') :
    (q :: t'.toList).Perm t.toList := by
  have hpart := h'.rep.part.trans h.rep.part.symm
  rw [List.append_nil, List.append_nil] at hpart
  exact (List.perm_append_right_iff free).mp (List.perm_middle.symm.trans hpart)

theorem insertObject_of_refused (h : Stores key x.state n t free d) (val : α)
    (hr : free = [] ∨ ∃ y ∈ t.toList, key (d y) = key val) :
    Ensures (insertObject key val) x fun r x' => r = false ∧ x' = x := by
  rw [insertObject, ensures_bind, ensures_get]
  by_cases hfull : full x.state
  · rw [if_pos hfull, ensures_pure]
    exact ⟨rfl, rfl⟩
  · rw [if_neg hfull, ensures_bind, ensures_silently]
    have hk := hr.resolve_left fun hfree => hfull (h.full_iff.mpr hfree)
    refine (h.rep.getNewNodeAndInsert_of_found h.ordered hk).mono ?_
    rintro _ _ ⟨rfl, rfl⟩
    rw [if_pos rfl, ensures_pure]
    exact ⟨rfl, rfl⟩

/-- The object of a new element is constructed in the slot of its node. -/
theorem insertObject_of_new {p : ℕ} (h : Stores key x.state n t (p :: free) d) (val : α)
    (hk : ¬ ∃ y ∈ t.toList, key (d y) = key val) :
    Ensures (insertObject key val) x fun r x' => r = true ∧
      x'.calls = .constructed p :: x.calls ∧ ∃ t' d', Stores key x'.state n t' free d' ∧
        ∀ pos, pos ∈ t'.toList ↔ pos = p ∨ pos ∈ t.toList := by
  have hfull : ¬ full x.state := by
    rw [h.full_iff]
    exact List.cons_ne_nil p free
  have hp : p ≠ NPOS := (@Rep.ne_npos _ _ _ _ _ [] _ _ _ h.rep) (by simp)
  have hlt : p < x.state.slots := (@Rep.lt_slots _ _ _ _ _ [] _ _ _ h.rep) (by simp)
  have hcalls : Ensures (insertObject key val) x fun _ x' =>
      x'.calls = .constructed p :: x.calls := by
    rw [insertObject, ensures_bind, ensures_get, if_neg hfull, ensures_bind, ensures_silently]
    refine (h.rep.getNewNodeAndInsert h.ordered h.root_black hk).mono ?_
    rintro q s₁ ⟨rfl, ctx, -, -, -, h₁⟩
    have hlt₁ : q < s₁.slots := by rwa [h₁.slots, ← h.rep.slots]
    rw [if_neg hp, ensures_bind, construct, ensures_bind, ensures_silently, ensures_setData hlt₁,
      ensures_modify, ensures_pure]
  have hstores := (tracks_insertObject key val).ensures (h.insertElem_of_new val hk)
  refine (hcalls.and hstores).mono ?_
  rintro _ x' ⟨hcalls, rfl, ctx, t', d', rfl, -, -, rfl, h', -⟩
  refine ⟨rfl, hcalls, _, d', h', fun pos => ?_⟩
  rw [toList_insertFix, toList_plug, toList_plug]
  simp only [toList_node, toList_nil, List.mem_append, List.mem_cons, List.not_mem_nil]
  tauto

theorem eraseObject_of_absent (h : Stores key x.state n t free d)
    (hk : ¬ ∃ y ∈ t.toList, key (d y) = k) :
    Ensures (eraseObject key dtor k) x fun r x' => r = false ∧ x' = x := by
  rw [eraseObject, ensures_bind, ensures_get]
  by_cases hempty : empty x.state
  · rw [if_pos hempty, ensures_pure]
    exact ⟨rfl, rfl⟩
  · rw [if_neg hempty, ensures_bind, ensures_silently]
    refine (h.findNode_of_absent hk).mono ?_
    rintro ⟨pos, parentPos⟩ _ ⟨rfl, rfl⟩
    show Ensures (if NPOS = NPOS then _ else _) _ _
    rw [if_pos rfl, ensures_pure]
    exact ⟨rfl, rfl⟩

/-- The destructor is called for the slot that `FindNode` returned. -/
theorem eraseObject_of_found (h : Stores key x.state n t free d)
    (hk : ∃ y ∈ t.toList, key (d y) = k) :
    ∃ p parentPos pre post, t.toList = pre ++ p :: post ∧
      (findNode key k).run x.state = some ((p, parentPos), x.state) ∧
      Ensures (eraseObject key dtor k) x fun r x' => r = true ∧
        x'.calls = .destroyed p :: x.calls ∧
          DestroyedAt dtor x.state x'.state n t free d pre p post := by
  obtain ⟨ctx, c, l, p, r, rfl, rfl, hrun⟩ := h.findNode_of_found hk
  refine ⟨p, _, before ctx ++ l.toList, r.toList ++ after ctx, by simp [toList_plug], hrun, ?_⟩
  have hne : ¬ empty x.state := by
    rw [h.empty_iff]
    exact fun hnil => by simp [hnil] at hk
  have hcalls : Ensures (eraseObject key dtor (key (d p))) x fun _ x' =>
      x'.calls = .destroyed p :: x.calls := by
    rw [eraseObject, ensures_bind, ensures_get, if_neg hne, ensures_bind, ensures_silently,
      Ensures.iff_of_run hrun]
    show Ensures (if p = NPOS then _ else _) _ _
    rw [if_neg h.rep.node_ne, ensures_bind, ensures_silently]
    refine h.shapes.eraseNode.mono ?_
    rintro _ s₁ ⟨hslots, -⟩
    have hlt₁ : p < s₁.slots := by
      rw [hslots]
      exact h.rep.node_lt
    rw [ensures_bind, destroy, ensures_bind, ensures_silently, ensures_getData hlt₁, ensures_bind,
      ensures_silently, ensures_setData hlt₁, ensures_modify, ensures_pure]
  have hdestroyed := (tracks_eraseObject key dtor _).ensures (h.shapes.eraseElem_at hrun)
  exact (hcalls.and hdestroyed).mono fun _ _ ⟨hcalls, hr, hat⟩ => ⟨hr, hcalls, hat⟩

/-- Where the slot of the object that is destroyed becomes free, the objects are those of the nodes.
-/
theorem tidy_of_erased {x' : Tracked α} {q : ℕ} {t' : ColorTree ℕ} {d' : ℕ → α}
    (h : Stores key x.state n t free d) (hx : Tidy x) (h' : Stores key x'.state n t' (q :: free) d')
    (hcalls : x'.calls = .destroyed q :: x.calls) : Tidy x' ∧ q ∉ t'.toList := by
  have hperm := h.erased_perm h'
  have hq : q ∉ t'.toList := by
    have hnodup := hperm.nodup_iff.mpr (h.rep.part.nodup_iff.mpr List.nodup_range' |>.sublist
      (by simp))
    exact (List.nodup_cons.mp hnodup).1
  refine ⟨fun pos => ?_, hq⟩
  have hmem : pos ∈ q :: t'.toList ↔ pos ∈ t.toList := hperm.mem_iff
  rw [hcalls, h'.inTree_iff]
  show pos ≠ q ∧ Alive x.calls pos ↔ _
  rw [hx pos, h.inTree_iff, ← hmem, List.mem_cons]
  constructor
  · rintro ⟨hne, hpos⟩
    exact hpos.resolve_left hne
  · exact fun hpos => ⟨fun heq => hq (heq ▸ hpos), .inr hpos⟩

/-- **The objects match the nodes after an operation exactly if it does not remove a node with two
children.** -/
theorem ensures_trackedStep (h : Stores key x.state n t free d) (hx : Tidy x)
    (op : UpdateOp α κ) : Ensures (trackedStep key dtor op) x fun r x' =>
      (ObjectsMatch op x r x' ↔ ¬ op.RemovesInner key x.state) ∧
        (¬ op.RemovesInner key x.state →
          (∃ t free d, Stores key x'.state n t free d) ∧ Tidy x') := by
  cases op with
  | insert val =>
    by_cases hr : free = [] ∨ ∃ y ∈ t.toList, key (d y) = key val
    · refine (h.insertObject_of_refused val hr).mono ?_
      rintro _ _ ⟨rfl, rfl⟩
      exact ⟨iff_of_true ⟨hx, rfl⟩ id, fun _ => ⟨⟨t, free, d, h⟩, hx⟩⟩
    rw [not_or] at hr
    obtain ⟨p, free, rfl⟩ := List.exists_cons_of_ne_nil hr.1
    refine (h.insertObject_of_new val hr.2).mono ?_
    rintro _ x' ⟨rfl, hcalls, t', d', h', ht'⟩
    have hx' : Tidy x' := by
      intro pos
      rw [hcalls, h'.inTree_iff, ht' pos, ← h.inTree_iff, ← hx pos]
      rfl
    exact ⟨iff_of_true ⟨hx', p, hcalls⟩ id, fun _ => ⟨⟨t', free, d', h'⟩, hx'⟩⟩
  | erase k =>
    by_cases hk : ∃ y ∈ t.toList, key (d y) = k
    · obtain ⟨p, parentPos, pre, post, ht, hrun, herase⟩ := h.eraseObject_of_found hk
      have hinner : (UpdateOp.erase k).RemovesInner key x.state ↔
          x.state.child .left p ≠ NPOS ∧ x.state.child .right p ≠ NPOS := by
        constructor
        · rintro ⟨pos, parentPos', hrun', hchildren⟩
          rw [hrun] at hrun'
          obtain ⟨rfl, rfl⟩ : p = pos ∧ parentPos = parentPos' := by simpa using hrun'
          exact hchildren
        · exact fun hchildren => ⟨p, parentPos, hrun, hchildren⟩
      refine herase.mono ?_
      rintro _ x' ⟨rfl, hcalls, s₁, t', q, d', pre', herased, hstate⟩
      have hhead : x'.state.emptyHeadPos = q := hstate ▸ herased.shapes.rep.head
      rw [hinner, not_and_or, not_not, not_not, ← herased.slot]
      have hmatch : q = p → (∃ t free d, Stores key x'.state n t free d) ∧
          ObjectsMatch (UpdateOp.erase k) x true x' ∧ Tidy x' := by
        rintro rfl
        have h' := (herased.withData (x := dtor (d' q)) fun hq => absurd rfl hq).stores h.ordered ht
        rw [← hstate] at h'
        obtain ⟨hx', hq⟩ := h.tidy_of_erased hx h' hcalls
        exact ⟨⟨_, _, _, h'⟩, ⟨hx', q, hcalls, hhead, h'.inTree_iff.not.mpr hq⟩, hx'⟩
      refine ⟨⟨?_, fun hqp => (hmatch hqp).2.1⟩, fun hqp => ⟨(hmatch hqp).1, (hmatch hqp).2.2⟩⟩
      rintro ⟨-, pos, hcalls', hhead', -⟩
      obtain rfl : p = pos := by simpa [hcalls] using hcalls'
      exact hhead.symm.trans hhead'
    · refine (h.eraseObject_of_absent hk).mono ?_
      rintro _ x ⟨rfl, rfl⟩
      have hinner : ¬ (UpdateOp.erase k).RemovesInner key x.state := by
        rintro ⟨pos, parentPos, hrun, hleft, -⟩
        obtain rfl : pos = NPOS := ((h.findNode_of_absent hk).elim hrun).2
        exact hleft rfl
      exact ⟨iff_of_true ⟨hx, rfl⟩ hinner, fun _ => ⟨⟨t, free, d, h⟩, hx⟩⟩

end Stores

/-! ### Whole runs -/

section Run

variable [LinearOrder κ]

/-- **From `Init` on, the objects are those of the nodes after every operation of a run, and every
removal destroys the object of the slot it gives back, exactly when the run removes no node with two
children.** The operations of `Map` are those for the keys of the pairs, and the operations of `Set`
those for the elements themselves. -/
theorem objects_match_iff_no_inner_removal {n : ℕ} (hn : 1 ≤ n) (L : Layout) (mem : ℕ → Node α)
    (key : α → κ) (dtor : α → α) : ∃ s₀, init L mem (calcByteSize L n) = some s₀ ∧ ∀ ops,
      EachStep (trackedStep key dtor) ObjectsMatch ops ⟨s₀, []⟩ ↔
        Guarded (trackedStep key dtor) (fun op x => ¬ op.RemovesInner key x.state) ops
          ⟨s₀, []⟩ := by
  obtain ⟨s, d, hinit, hrep⟩ := exists_init L mem hn
  have hs : Stores key s n nil (List.range' 1 n) d := ⟨hrep, rfl, List.Pairwise.nil⟩
  refine ⟨s, hinit, fun ops => ?_⟩
  refine eachStep_iff_guarded
    (I := fun x => (∃ t free d, Stores key x.state n t free d) ∧ Tidy x) ?_ ⟨⟨_, _, _, hs⟩, ?_⟩
  · rintro op x ⟨⟨t, free, d, h⟩, hx⟩
    exact h.ensures_trackedStep hx op
  · intro pos
    rw [hs.inTree_iff]
    exact iff_of_false id (by simp)

/-- A set of three elements, of which 1 and then 2 are removed when they have no left child. -/
theorem objects_match_in_set_of_three : ∃ s₀, init ⟨8, 4, Nat.succ_pos 3⟩
    (fun _ => (⟨0, 0, 0, 0, .empty⟩ : Node ℕ)) (calcByteSize ⟨8, 4, Nat.succ_pos 3⟩ 3) = some s₀ ∧
      EachStep (trackedStep id fun _ => 0) ObjectsMatch
        [.insert 2, .insert 1, .insert 3, .insert 3, .erase 1, .erase 2, .insert 4] ⟨s₀, []⟩ := by
  obtain ⟨s, hinit, hiff⟩ := objects_match_iff_no_inner_removal (n := 3) (by decide)
    ⟨8, 4, Nat.succ_pos 3⟩ (fun _ => (⟨0, 0, 0, 0, .empty⟩ : Node ℕ)) id fun _ => 0
  refine ⟨s, hinit, (hiff _).mpr (Guarded.mono (G := fun op x => op.OuterOnly id x.state) ?_ ?_)⟩
  · exact fun op x => not_removesInner
  · have hstart := congrArg (Option.map fun s => (⟨s, []⟩ : Tracked ℕ)) hinit
    exact of_all_eq_true (by decide +kernel) hstart

/-- A set has the elements 2, 1 and 3, and 2 is erased: the slot of the element 1 is given back, and
the destructor is called for the slot that 1 has been moved to. -/
theorem stored_object_is_destroyed : ¬ ∀ (n : ℕ) (L : Layout) (mem : ℕ → Node ℕ) (s₀ : State ℕ)
    (ops : List (UpdateOp ℕ ℕ)), 1 ≤ n → init L mem (calcByteSize L n) = some s₀ →
      EachStep (trackedStep id id) ObjectsMatch ops ⟨s₀, []⟩ := by
  intro hall
  let s₀ : Option (State ℕ) := init ⟨8, 4, Nat.succ_pos 3⟩
    (fun _ => ⟨0, 0, 0, 0, .empty⟩) (calcByteSize ⟨8, 4, Nat.succ_pos 3⟩ 3)
  let run : TrackedProg ℕ Bool := do
    let _ ← runAll (trackedStep id id) [.insert 2, .insert 1, .insert 3]
    trackedStep id id (.erase 2)
  have hrun : (s₀.bind fun s => (run.run ⟨s, []⟩).map fun r =>
      (r.1, r.2.calls.head?, r.2.state.emptyHeadPos)) = some (true, some (.destroyed 1), 2) := by
    decide +kernel
  obtain ⟨s, hinit, hrun⟩ := Option.bind_eq_some_iff.mp hrun
  obtain ⟨⟨r, x'⟩, hrun, heq⟩ := Option.map_eq_some_iff.mp hrun
  simp only [Prod.mk.injEq] at heq
  obtain ⟨rfl, hcalls, hhead⟩ := heq
  have hsteps := hall 3 _ _ s ([.insert 2, .insert 1, .insert 3] ++ [.erase 2]) (by omega) hinit
  have hlast : Ensures run ⟨s, []⟩ fun r x' =>
      r = true → x'.calls.head? = some (.destroyed x'.state.emptyHeadPos) := by
    refine hsteps.last.bind fun _ x₁ hstep => hstep.mono ?_
    rintro _ x' ⟨-, hmatch⟩ rfl
    obtain ⟨pos, hcalls, rfl, -⟩ := hmatch
    rw [hcalls, List.head?_cons]
  have hfinal := hlast.elim hrun rfl
  rw [hcalls, hhead] at hfinal
  exact absurd hfinal (by decide)

end Run

end Lsf.RBTree
