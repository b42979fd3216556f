import Lsf.Container.ListMemory
import Lsf.Foundations.BoundedSeq
import Lsf.Foundations.Refinement
import Mathlib.Data.List.Range

/-!
# List as a bounded sequence

What a `List` is for is a sequence of at most `n` elements. Every operation refines the operation
of the sequence, except `PopBack` on a list that is not empty: that one frees the end node instead
of the last node (`popBack_frees_the_end_node`), and later operations then lose elements.

An iterator is given by where it points: `begin() + i`, or `end()`. Any iterator to an element of
the list is the iterator `begin() + i` for the index of the element, however it was obtained.

## Main definitions

* `Models` — the state stands for a bounded sequence
* `ListOp` — the operations, with `listStep` and `listSpec`

## Main results

* `refines_list`
* `list_is_bounded_sequence_without_popBack`
-/

namespace Lsf.ListState

variable {α : Type}

/-! ### Init -/

theorem ensures_initLoop {s : State α} {rounds pos : ℕ} (hlt : pos + rounds ≤ s.slots) :
    Ensures (initLoop rounds pos) s fun _ s' => s'.slots = s.slots ∧ s'.maxSize = s.maxSize ∧
      s'.size = s.size ∧ s'.headPos = s.headPos ∧ s'.emptyHeadPos = s.emptyHeadPos ∧
      s'.next = (fun x => if pos ≤ x ∧ x < pos + rounds then x + 1 else s.next x) ∧
      s'.prev = (fun x => if pos ≤ x ∧ x < pos + rounds then x - 1 else s.prev x) ∧
      s'.isUse = fun x => if pos ≤ x ∧ x < pos + rounds then false else s.isUse x := by
  induction rounds generalizing s pos with
  | zero =>
    rw [initLoop, ensures_pure]
    refine ⟨rfl, rfl, rfl, rfl, rfl, ?_, ?_, ?_⟩
    all_goals
      funext x
      rw [if_neg (by omega)]
  | succ rounds ih =>
    have hp : pos < s.slots := by omega
    rw [initLoop, ensures_bind, ensures_setIsUse hp, ensures_bind, ensures_setNextPos (by simpa),
      ensures_bind, ensures_setPrevPos (by simpa)]
    refine (ih ?_).mono ?_
    · show pos + 1 + rounds ≤ s.slots
      omega
    rintro _ s' ⟨hslots, hmax, hsize, hhead, hempty, hnext, hprev, huse⟩
    refine ⟨hslots, hmax, hsize, hhead, hempty, ?_, ?_, ?_⟩
    · rw [hnext]
      funext x
      exact ite_range_update (fun y => y + 1) s.next pos rounds x
    · rw [hprev]
      funext x
      exact ite_range_update (fun y => y - 1) s.prev pos rounds x
    · rw [huse]
      funext x
      exact ite_range_update (fun _ => false) s.isUse pos rounds x

theorem ensures_initNodes {s : State α} {n : ℕ} (hn : 1 ≤ n) (hslots : s.slots = n + 1)
    (hmax : s.maxSize = n + 1) (hsize : s.size = 0) (hhead : s.headPos = ENDPOS)
    (hempty : s.emptyHeadPos = 1) :
    Ensures initNodes s fun _ s' => Rep s' n [] (List.range' 1 n) ∧
      ∀ pos < s'.slots, s'.isUse pos = false := by
  have h0 : ENDPOS < s.slots := by rw [hslots]; exact Nat.succ_pos n
  rw [initNodes, ensures_bind, ensures_get, ensures_bind, ensures_setIsUse h0, ensures_bind,
    ensures_setNextPos (by simpa), ensures_bind, ensures_setPrevPos (by simpa), hmax,
    Nat.add_sub_cancel]
  refine (ensures_initLoop ?_).bind ?_
  · show 1 + n ≤ s.slots
    omega
  rintro _ s₁ ⟨hslots₁, hmax₁, hsize₁, hhead₁, hempty₁, hnext, hprev, huse⟩
  have hslots₁ : s₁.slots = n + 1 := hslots₁.trans hslots
  rw [ensures_bind, ensures_setPrevPos (by omega), ensures_setNextPos (by
    show n < s₁.slots
    omega)]
  have hnext' : ∀ x, Function.update s₁.next n 1 x =
      if x = n then 1 else if 1 ≤ x ∧ x < 1 + n then x + 1 else Function.update s.next 0 0 x := by
    intro x
    rw [hnext, Function.update_apply]
    rfl
  have hprev' : ∀ x, Function.update s₁.prev 1 n x =
      if x = 1 then n else if 1 ≤ x ∧ x < 1 + n then x - 1 else Function.update s.prev 0 0 x := by
    intro x
    rw [hprev, Function.update_apply]
    rfl
  refine ⟨⟨⟨hslots₁, hmax₁.trans hmax, ?_, ?_, ?_, by simp⟩, hsize₁.trans hsize,
    hhead₁.trans hhead, by simp⟩, fun pos hpos => ?_⟩
  · refine IsRing.singleton_iff.mpr ⟨?_, ?_⟩
    · show Function.update s₁.next n 1 0 = 0
      rw [hnext', if_neg (by omega), if_neg (by omega), Function.update_self]
    · show Function.update s₁.prev 1 n 0 = 0
      rw [hprev', if_neg (by omega), if_neg (by omega), Function.update_self]
  · refine IsRing.range' (fun x hx hxn => ?_) (fun x hx hxn => ?_) ?_ ?_
    · show Function.update s₁.next n 1 x = x + 1
      rw [hnext', if_neg (by omega), if_pos (by omega)]
    · show Function.update s₁.prev 1 n (x + 1) = x
      rw [hprev', if_neg (by omega), if_pos (by omega), Nat.add_sub_cancel]
    · show Function.update s₁.next n 1 n = 1
      rw [Function.update_self]
    · show Function.update s₁.prev 1 n 1 = n
      rw [Function.update_self]
  · show s₁.emptyHeadPos = _
    rw [hempty₁]
    show s.emptyHeadPos = _
    rw [hempty]
    cases n with
    | zero => omega
    | succ n => rfl
  · have hpos : pos < n + 1 := Nat.lt_of_lt_of_eq hpos hslots₁
    show s₁.isUse pos = false
    rw [huse]
    show (if _ then false else Function.update s.isUse ENDPOS false pos) = false
    by_cases hzero : pos = ENDPOS
    · rw [hzero, Function.update_self, ite_self]
    · rw [if_pos ⟨Nat.pos_of_ne_zero hzero, by omega⟩]

/-- **`Init` on `CalcByteSize(n)` bytes** succeeds, whatever the memory held, and leaves an empty
list of capacity `n`. -/
theorem exists_init (L : Layout) (mem : ℕ → Node α) {n : ℕ} (hn : 1 ≤ n) :
    ∃ s, init L mem (calcByteSize L n) = some s ∧ Rep s n [] (List.range' 1 n) ∧
      ∀ pos < s.slots, s.isUse pos = false := by
  have hslots : (calcByteSize L n - L.stateSize) / L.nodeSize = n + 1 := by
    rw [calcByteSize, Nat.add_sub_cancel, Nat.mul_div_cancel _ L.nodeSize_pos]
  let s₀ : State α := ⟨0, n + 1, 1, 0, n + 1, mem⟩
  obtain ⟨_, s, hrun, hrep⟩ := ensures_initNodes (s := s₀) hn rfl rfl rfl rfl rfl
  refine ⟨s, ?_, hrep⟩
  simp only [init, hslots]
  rw [hrun]
  rfl

/-! ### What a list shows -/

/-- The elements from `pos` to `end()`, by `++iter`. -/
def walkLoop : ℕ → ℕ → Prog α (List α)
  | 0, _ => stuck
  | rounds + 1, pos => do
    if pos = (← endPos) then return []
    else do
      let elem ← getData pos
      let rest ← walkLoop rounds (← getNextPos pos)
      return elem :: rest

/-- `for (iter = begin(); iter != end(); ++iter)`. -/
def walk : Prog α (List α) := do
  walkLoop (← get).slots (← beginPos)

/-- The element at an iterator, unless it is `end()`. -/
def deref (pos : ℕ) : Prog α (Option α) := do
  if pos = (← endPos) then return none
  else return some (← getData pos)

/-- `begin()..end()`, `GetFront`, `GetBack` and `size()`. -/
structure Shown (α : Type) where
  elements : List α
  front : Option α
  back : Option α
  size : ℕ
  deriving DecidableEq

/-- All that a caller can see of a list. -/
def showList : Prog α (Shown α) := do
  let elements ← walk
  let front ← deref (← getFront)
  let back ← deref (← getBack)
  return ⟨elements, front, back, (← get).size⟩

namespace Rep

variable {s : State α} {n p : ℕ} {used free pre post : List ℕ}

/-- `end()` is the end node. -/
theorem ensures_endPos (h : Rep s n used free) {Q : ℕ → State α → Prop} :
    Ensures endPos s Q ↔ Q ENDPOS s := by
  have hlt : s.headPos < s.slots := by
    rw [h.head]
    refine h.lt_slots ?_
    cases used <;> simp
  have hprev : s.prev s.headPos = ENDPOS := by
    rw [h.head]
    cases used with
    | nil => exact (IsRing.singleton_iff.mp h.rings.ring).2
    | cons a used => exact h.rings.ring.prev_second
  rw [endPos, ensures_bind, ensures_getHeadPos, ensures_getPrevPos hlt, hprev]

theorem ensures_data (h : Rep s n used free) (hp : p ∈ used) {Q : α → State α → Prop} :
    Ensures (getData p) s Q ↔ Q (s.data p) s :=
  ensures_getData (h.lt_slots (List.mem_cons_of_mem _ hp)) h.rings.slots_eq (h.inUse p hp)

/-- `++iter` moves to the next position. -/
theorem ensures_next (h : Rep s n (pre ++ p :: post) free) {Q : ℕ → State α → Prop} :
    Ensures (getNextPos p) s Q ↔ Q (post.headD ENDPOS) s := by
  have hnext : s.next p = post.headD ENDPOS := by
    have hring := h.rings.ring_at
    cases post <;> exact hring.next_head
  rw [ensures_getNextPos (h.lt_slots (by simp)), hnext]

theorem ensures_walkLoop {rounds : ℕ} (h : Rep s n (pre ++ post) free)
    (hrounds : post.length < rounds) :
    Ensures (walkLoop rounds (post.headD ENDPOS)) s fun xs s' =>
      s' = s ∧ xs = post.map s.data := by
  induction rounds generalizing pre post with
  | zero => exact absurd hrounds (Nat.not_lt_zero _)
  | succ rounds ih =>
    rw [walkLoop, ensures_bind, h.ensures_endPos]
    cases post with
    | nil =>
      rw [List.headD_nil, if_pos rfl, ensures_pure]
      exact ⟨rfl, rfl⟩
    | cons p post =>
      rw [List.headD_cons, if_neg (h.ne_endPos (by simp)), ensures_bind,
        h.ensures_data (by simp), ensures_bind, h.ensures_next]
      refine (@ih (pre ++ [p]) post (by simpa using h) (by simpa using hrounds)).bind ?_
      rintro _ s ⟨rfl, rfl⟩
      rw [ensures_pure]
      exact ⟨rfl, rfl⟩

theorem ensures_deref (h : Rep s n used free) :
    Ensures (deref (used.headD ENDPOS)) s (fun x s' => s' = s ∧ x = (used.map s.data).head?) ∧
      Ensures (deref (used.getLastD ENDPOS)) s
        fun x s' => s' = s ∧ x = (used.map s.data).getLast? := by
  rw [deref, deref, ensures_bind, ensures_bind, h.ensures_endPos, h.ensures_endPos]
  obtain rfl | ⟨pre, p, rfl⟩ := List.eq_nil_or_concat' used
  · rw [List.headD_nil, List.getLastD_nil, if_pos rfl, ensures_pure, ensures_pure]
    exact ⟨⟨rfl, rfl⟩, rfl, rfl⟩
  · constructor
    · obtain ⟨a, l, hal⟩ : ∃ a l, pre ++ [p] = a :: l := by cases pre <;> exact ⟨_, _, rfl⟩
      rw [hal] at h ⊢
      rw [List.headD_cons, if_neg (h.ne_endPos (by simp)), ensures_bind,
        h.ensures_data (by simp), ensures_pure]
      exact ⟨rfl, rfl⟩
    · rw [List.getLastD_concat, if_neg (h.ne_endPos (by simp)), ensures_bind,
        h.ensures_data (by simp), ensures_pure]
      exact ⟨rfl, by simp⟩

theorem ensures_getBack (h : Rep s n used free) {Q : ℕ → State α → Prop} :
    Ensures getBack s Q ↔ Q (used.getLastD ENDPOS) s := by
  have hend := h.lt_slots (p := ENDPOS) (by simp)
  have hlast : s.prev ENDPOS = used.getLastD ENDPOS := by
    obtain rfl | ⟨pre, p, rfl⟩ := List.eq_nil_or_concat' used
    · exact (IsRing.singleton_iff.mp h.rings.ring).2
    · rw [List.getLastD_concat]
      exact (h.rings.ring.closes (z := p) (by simp [List.getLast?_cons])).2
  rw [getBack, ← bind_assoc]
  show Ensures (endPos >>= _) s Q ↔ _
  rw [ensures_bind, h.ensures_endPos, ensures_getPrevPos hend, hlast]

/-- **What is shown are the elements of the used positions.** -/
theorem ensures_showList (h : Rep s n used free) :
    Ensures showList s fun x s' => s' = s ∧ x = ⟨used.map s.data, (used.map s.data).head?,
      (used.map s.data).getLast?, (used.map s.data).length⟩ := by
  have hlen : used.length < s.slots := by
    have := h.length_add
    rw [h.rings.slots]
    omega
  rw [showList, walk, ensures_bind, ensures_bind, ensures_get, ensures_bind, beginPos,
    ensures_getHeadPos, h.head]
  refine ((@ensures_walkLoop _ _ _ _ [] _ _ h) hlen).mono ?_
  rintro _ s ⟨rfl, rfl⟩
  rw [ensures_bind, getFront, ensures_getHeadPos, h.head]
  refine h.ensures_deref.1.bind ?_
  rintro _ s ⟨rfl, rfl⟩
  rw [ensures_bind, h.ensures_getBack]
  refine h.ensures_deref.2.bind ?_
  rintro _ s ⟨rfl, rfl⟩
  rw [ensures_bind, ensures_get, ensures_pure, h.size, List.length_map]
  exact ⟨rfl, rfl⟩

end Rep

/-! ### Operations -/

/-- An iterator, by where it points. -/
inductive Iter
  | fromBegin (i : ℕ)
  | atEnd

/-- The position of the iterator. -/
def Iter.pos : Iter → Prog α ℕ
  | .fromBegin i => do advance i (← beginPos)
  | .atEnd => endPos

/-- The index it points to in a sequence. -/
def Iter.index (items : List α) : Iter → ℕ
  | .fromBegin i => i
  | .atEnd => items.length

/-- A call that changes a list. -/
inductive ListOp (α : Type)
  | pushBack (val : α)
  | pushFront (val : α)
  | popFront
  | popBack
  | insert (iter : Iter) (val : α)
  | erase (iter : Iter)

/-- One operation, and what the list shows after it. -/
def listStep : ListOp α → Prog α (Bool × Shown α)
  | .pushBack val => do return (← pushBack val, ← showList)
  | .pushFront val => do return (← pushFront val, ← showList)
  | .popFront => do return (← popFront, ← showList)
  | .popBack => do return (← popBack, ← showList)
  | .insert iter val => do return (← insert (← iter.pos) val, ← showList)
  | .erase iter => do return (← erase (← iter.pos), ← showList)

/-- What a sequence shows. -/
def shown {n : ℕ} (t : BoundedSeq α n) : Shown α :=
  ⟨t.items, t.items.head?, t.items.getLast?, t.items.length⟩

/-- The operation on sequences. -/
def seqStep {n : ℕ} : ListOp α → BoundedSeq α n → Bool × BoundedSeq α n
  | .pushBack val, t => t.pushBack val
  | .pushFront val, t => t.pushFront val
  | .popFront, t => t.popFront
  | .popBack, t => t.popBack
  | .insert iter val, t => t.insertAt (iter.index t.items) val
  | .erase iter, t => t.eraseAt (iter.index t.items)

/-- A call on a bounded sequence, with what is then seen. -/
def listSpec {n : ℕ} (op : ListOp α) (t : BoundedSeq α n) :
    (Bool × Shown α) × BoundedSeq α n :=
  (((seqStep op t).1, shown (seqStep op t).2), (seqStep op t).2)

/-- Iterators to insert at point into the list or to its end, iterators to erase at point to an
element. -/
def ListOp.Valid {n : ℕ} : ListOp α → BoundedSeq α n → Prop
  | .insert iter _, t => iter.index t.items ≤ t.items.length
  | .erase iter, t => iter.index t.items < t.items.length
  | _, _ => True

/-- The operation is not a `PopBack` that has something to take. -/
def ListOp.SparesEnd {n : ℕ} (op : ListOp α) (t : BoundedSeq α n) : Prop :=
  match op with
  | .popBack => t.items = []
  | _ => True

/-! ### Refinement -/

/-- The state stands for the sequence. -/
def Models {n : ℕ} (s : State α) (t : BoundedSeq α n) : Prop :=
  ∃ used free, Rep s n used free ∧ t.items = used.map s.data

namespace Rep

variable {s : State α} {n p : ℕ} {used free pre post : List ℕ}

theorem full_iff (h : Rep s n used free) : full s = true ↔ free = [] := by
  have hlen := h.length_add
  rw [full, decide_eq_true_iff, h.size, h.rings.maxSize, Nat.add_sub_cancel,
    ← List.length_eq_zero_iff]
  omega

theorem empty_iff (h : Rep s n used free) : empty s = true ↔ used = [] := by
  rw [empty, decide_eq_true_iff, h.size, List.length_eq_zero_iff]

/-- Constructing a value in the node that was put before a position. -/
theorem construct {val : α} (h : Rep s n (pre ++ post) (p :: free)) :
    Ensures (do
      let pos ← ListState.getNewNodeAndInsert (post.headD ENDPOS)
      setData pos val
      return true) s fun b s' => b = true ∧ Rep s' n (pre ++ p :: post) free ∧
        (pre ++ p :: post).map s'.data = pre.map s.data ++ val :: post.map s.data := by
  refine h.getNewNodeAndInsert.bind ?_
  rintro q s₁ ⟨rfl, h₁, hdata, -⟩
  have hq : q ∉ pre ++ post := by
    have hnodup := (List.nodup_cons.mp h₁.rings.nodup_used).2
    rw [List.perm_middle.nodup_iff] at hnodup
    exact (List.nodup_cons.mp hnodup).1
  rw [List.mem_append, not_or] at hq
  rw [ensures_bind, ensures_setData (h₁.lt_slots (by simp)) h₁.rings.slots_eq
    (h₁.inUse q (by simp)), ensures_pure]
  refine ⟨rfl, ⟨h₁.rings.congr rfl rfl rfl rfl rfl, h₁.size, h₁.head, h₁.inUse⟩, ?_⟩
  show (pre ++ q :: post).map (Function.update s₁.data q val) = _
  rw [hdata, List.map_append, List.map_cons, Function.update_self, map_update_of_notMem hq.1,
    map_update_of_notMem hq.2]

/-- `begin() + i`. -/
theorem ensures_advance (h : Rep s n (pre ++ post) free) {i : ℕ} (hi : i ≤ post.length)
    {Q : ℕ → State α → Prop} :
    Ensures (advance i (post.headD ENDPOS)) s Q ↔ Q ((post.drop i).headD ENDPOS) s := by
  induction i generalizing pre post with
  | zero => rw [advance, ensures_pure, List.drop_zero]
  | succ i ih =>
    cases post with
    | nil => simp at hi
    | cons p post =>
      rw [advance, ensures_bind, List.headD_cons, h.ensures_next]
      exact @ih (pre ++ [p]) post (by simpa using h) (by simpa using hi)

/-- The position of an iterator that points between two parts of the list. -/
theorem ensures_iterPos (h : Rep s n (pre ++ post) free) {iter : Iter}
    (hi : pre.length = iter.index ((pre ++ post).map s.data)) {Q : ℕ → State α → Prop} :
    Ensures iter.pos s Q ↔ Q (post.headD ENDPOS) s := by
  cases iter with
  | fromBegin i =>
    have hadv := @ensures_advance _ _ _ _ [] (pre ++ post) h i
      (by rw [show i = pre.length from hi.symm]; simp)
    rw [Iter.pos, ensures_bind, beginPos, ensures_getHeadPos, h.head, hadv,
      show i = pre.length from hi.symm, List.drop_left]
  | atEnd =>
    rw [Iter.index, List.length_map, List.length_append] at hi
    have hpost : post = [] := List.length_eq_zero_iff.mp (by omega)
    rw [Iter.pos, h.ensures_endPos, hpost, List.headD_nil]

/-- `Insert` before the position at which the second part of the list starts. -/
theorem ensures_insert (h : Rep s n (pre ++ post) free) (val : α) :
    Ensures (insert (post.headD ENDPOS) val) s fun b s' => ∃ used' free', Rep s' n used' free' ∧
      ((free = [] ∧ b = false ∧ used'.map s'.data = (pre ++ post).map s.data) ∨
        (free ≠ [] ∧ b = true ∧
          used'.map s'.data = pre.map s.data ++ val :: post.map s.data)) := by
  rw [insert, ensures_bind, ensures_get]
  cases free with
  | nil =>
    rw [if_pos (h.full_iff.mpr rfl), ensures_pure]
    exact ⟨_, _, h, .inl ⟨rfl, rfl, rfl⟩⟩
  | cons p free =>
    rw [if_neg (by simp [h.full_iff])]
    refine h.construct.mono ?_
    rintro b s' ⟨rfl, h', hitems⟩
    exact ⟨_, _, h', .inr ⟨by simp, rfl, hitems⟩⟩

/-- `PushBack` inserts at `end()`. -/
theorem ensures_pushBack (h : Rep s n used free) {val : α} {Q : Bool → State α → Prop} :
    Ensures (pushBack val) s Q ↔ Ensures (insert ENDPOS val) s Q := by
  rw [pushBack, insert, ensures_bind, ensures_bind, ensures_get, ensures_get]
  by_cases hf : full s
  · rw [if_pos hf, if_pos hf]
  · rw [if_neg hf, if_neg hf, ← bind_assoc]
    show Ensures (endPos >>= _) s Q ↔ _
    rw [ensures_bind, h.ensures_endPos]

/-- `PushFront` inserts at `begin()`. -/
theorem ensures_pushFront (h : Rep s n used free) {val : α} {Q : Bool → State α → Prop} :
    Ensures (pushFront val) s Q ↔ Ensures (insert (used.headD ENDPOS) val) s Q := by
  rw [pushFront, insert, ensures_bind, ensures_bind, ensures_get, ensures_get]
  by_cases hf : full s
  · rw [if_pos hf, if_pos hf]
  · rw [if_neg hf, if_neg hf, ensures_bind, ensures_getHeadPos, h.head]

/-- Freeing a used node takes its element out of the sequence. -/
theorem ensures_freeNode (h : Rep s n (pre ++ p :: post) free) :
    Ensures (do
      ListState.freeNode p
      return true) s fun b s' => b = true ∧ ∃ used' free', Rep s' n used' free' ∧
        used'.map s'.data = pre.map s.data ++ post.map s.data := by
  refine h.freeNode.bind ?_
  rintro _ s' ⟨h', hdata, -⟩
  rw [ensures_pure, ← List.map_append, ← hdata]
  exact ⟨rfl, _, _, h', rfl⟩

theorem ensures_popFront (h : Rep s n used free) :
    Ensures popFront s fun b s' => b = (!(used.map s.data).isEmpty) ∧ ∃ used' free',
      Rep s' n used' free' ∧ used'.map s'.data = (used.map s.data).tail := by
  rw [popFront, ensures_bind, ensures_get]
  cases used with
  | nil =>
    rw [if_pos (h.empty_iff.mpr rfl), ensures_pure]
    exact ⟨rfl, _, _, h, rfl⟩
  | cons p used =>
    rw [if_neg (by simp [h.empty_iff]), ensures_bind, ensures_getHeadPos, h.head]
    exact @ensures_freeNode _ _ _ _ _ [] _ h

theorem ensures_erase (h : Rep s n (pre ++ p :: post) free) :
    Ensures (erase p) s fun b s' => b = true ∧ ∃ used' free', Rep s' n used' free' ∧
      used'.map s'.data = pre.map s.data ++ post.map s.data := by
  rw [erase, ensures_bind, ensures_get, if_neg (by simp [h.empty_iff]), ensures_bind,
    h.ensures_data (by simp)]
  exact h.ensures_freeNode

/-- **`PopBack` frees the end node**, not the last node of the list. -/
theorem popBack_frees_the_end_node (h : Rep s n used free) (hu : used ≠ [])
    {Q : Bool → State α → Prop} :
    Ensures popBack s Q ↔ Ensures (do
      ListState.freeNode ENDPOS
      return true) s Q := by
  rw [popBack, ensures_bind, ensures_get, if_neg (by simp [h.empty_iff, hu]), ← bind_assoc]
  show Ensures (endPos >>= _) s Q ↔ _
  rw [ensures_bind, h.ensures_endPos]

end Rep

/-- What the list shows after a call, where the state stands for a sequence. -/
theorem ensures_shown {n : ℕ} {m : Prog α Bool} {s : State α} {r : Bool × BoundedSeq α n}
    (h : Ensures m s fun b s' => b = r.1 ∧ Models s' r.2) :
    Ensures (do return (← m, ← showList)) s fun x s' =>
      x = (r.1, shown r.2) ∧ Models s' r.2 := by
  refine h.bind ?_
  rintro _ s' ⟨rfl, used, free, hrep, hitems⟩
  refine hrep.ensures_showList.bind ?_
  rintro _ s' ⟨rfl, rfl⟩
  rw [ensures_pure, shown, hitems]
  exact ⟨rfl, used, free, hrep, hitems⟩

/-- An insertion at a place of the list, on the side of the sequence. -/
theorem Models.insert {n : ℕ} {s : State α} {t : BoundedSeq α n} {pre post free : List ℕ} {val : α}
    (h : Rep s n (pre ++ post) free) (ht : t.items = (pre ++ post).map s.data)
    {r : Bool × BoundedSeq α n} (hfull : ¬ t.items.length < n → r = (false, t))
    (hroom : t.items.length < n → r.1 = true ∧
      r.2.items = pre.map s.data ++ val :: post.map s.data) :
    Ensures (ListState.insert (post.headD ENDPOS) val) s fun b s' => b = r.1 ∧ Models s' r.2 := by
  have hlen := h.length_add
  have htlen : t.items.length = (pre ++ post).length := by rw [ht, List.length_map]
  refine (h.ensures_insert val).mono ?_
  rintro _ s' ⟨used', free', h', ⟨rfl, rfl, hitems⟩ | ⟨hfree, rfl, hitems⟩⟩
  · rw [hfull (by rw [htlen]; simp at hlen ⊢; omega)]
    exact ⟨rfl, used', free', h', ht.trans hitems.symm⟩
  · have hpos := List.length_pos_iff.mpr hfree
    obtain ⟨hr, hr'⟩ := hroom (by omega)
    exact ⟨hr.symm, used', free', h', hr'.trans hitems.symm⟩

/-- **Every valid operation that spares the end node refines the operation on sequences.** -/
theorem refines_list {n : ℕ} : Refines (listStep (α := α)) (listSpec (n := n))
    (fun op t => op.Valid t ∧ op.SparesEnd t) Models := by
  rintro op s t ⟨hvalid, hspares⟩ ⟨used, free, h, ht⟩
  cases op with
  | pushBack val =>
    refine ensures_shown ?_
    rw [h.ensures_pushBack]
    refine @Models.insert _ _ _ t used [] _ _ (by simpa using h) (by simpa using ht) _
      (fun hn => dif_neg hn) fun hn => ?_
    rw [seqStep, BoundedSeq.pushBack, dif_pos hn]
    exact ⟨rfl, by simp [ht]⟩
  | pushFront val =>
    refine ensures_shown ?_
    rw [h.ensures_pushFront]
    refine @Models.insert _ _ _ t [] _ _ _ h ht _ (fun hn => dif_neg hn) fun hn => ?_
    rw [seqStep, BoundedSeq.pushFront, dif_pos hn]
    exact ⟨rfl, by simp [ht]⟩
  | popFront =>
    refine ensures_shown (h.ensures_popFront.mono ?_)
    rintro _ s' ⟨rfl, used', free', h', hitems⟩
    refine ⟨by simp [seqStep, BoundedSeq.popFront, ht], used', free', h', ?_⟩
    simp [seqStep, BoundedSeq.popFront, ht, hitems]
  | popBack =>
    have hitems : t.items = [] := hspares
    have hnil : used = [] := by simpa [hitems] using ht.symm
    have hsame : (t.popBack).2 = t := by
      apply BoundedSeq.ext
      show t.items.dropLast = t.items
      rw [hitems, List.dropLast_nil]
    refine ensures_shown ?_
    rw [popBack, ensures_bind, ensures_get, if_pos (h.empty_iff.mpr hnil), ensures_pure, seqStep,
      hsame]
    exact ⟨by simp [BoundedSeq.popBack, hitems], used, free, h, ht⟩
  | insert iter val =>
    have hi : iter.index t.items ≤ used.length := by
      have hle : iter.index t.items ≤ t.items.length := hvalid
      rwa [ht, List.length_map, ← ht] at hle
    obtain ⟨pre, post, rfl, hlen⟩ := exists_split_at hi
    rw [ht] at hlen
    rw [listStep, ensures_bind, h.ensures_iterPos hlen]
    refine ensures_shown (Models.insert h ht (fun hn => dif_neg hn) fun hn => ?_)
    refine BoundedSeq.insertAt_of_split hn (by rw [ht, List.map_append]) ?_
    rw [List.length_map, hlen, ht]
  | erase iter =>
    have hi : iter.index t.items < used.length := by
      have hlt : iter.index t.items < t.items.length := hvalid
      rwa [ht, List.length_map, ← ht] at hlt
    obtain ⟨pre, post, rfl, hlen⟩ := exists_split_at (Nat.le_of_lt hi)
    obtain ⟨p, post, rfl⟩ : ∃ p l, post = p :: l := by
      refine List.exists_cons_of_ne_nil ?_
      rintro rfl
      simp [hlen] at hi
    rw [ht] at hlen
    rw [listStep, ensures_bind, h.ensures_iterPos hlen, List.headD_cons]
    refine ensures_shown (h.ensures_erase.mono ?_)
    rintro _ s' ⟨rfl, used', free', h', hitems⟩
    obtain ⟨hb, he⟩ := BoundedSeq.eraseAt_of_split (t := t) (l := pre.map s.data)
      (x := s.data p) (m := post.map s.data) (i := iter.index t.items) (by simp [ht])
      (by rw [List.length_map, hlen, ht])
    exact ⟨hb.symm, used', free', h', he.trans hitems.symm⟩

/-- **A `List` of capacity `n` is a sequence bounded by `n`**, from `Init` on `CalcByteSize(n)`
bytes, in every run in which no `PopBack` has something to take. -/
theorem list_is_bounded_sequence_without_popBack {n : ℕ} (hn : 1 ≤ n) (L : Layout)
    (mem : ℕ → Node α) : ∃ s₀, init L mem (calcByteSize L n) = some s₀ ∧
      ∀ ops, AdmissibleAll listSpec (fun op t => op.Valid t ∧ op.SparesEnd t) ops
          (BoundedSeq.empty : BoundedSeq α n) →
        ((runAll listStep ops).run s₀).map Prod.fst =
          some (traceAll listSpec ops (BoundedSeq.empty : BoundedSeq α n)).1 := by
  obtain ⟨s, hinit, hrep, -⟩ := exists_init L mem hn
  refine ⟨s, hinit, fun ops hadm => ?_⟩
  obtain ⟨_, s', hrun, rfl, -⟩ := refines_list.runAll hadm ⟨[], _, hrep, rfl⟩
  rw [hrun]
  rfl

/-- A list of three elements is filled from both ends and in the middle, refuses a fourth, and is
emptied again. -/
theorem list_of_three_is_bounded_sequence : ∃ s₀, init ⟨8, 4, Nat.succ_pos 3⟩
    (fun _ => (⟨0, 0, 0, false⟩ : Node ℕ)) (calcByteSize ⟨8, 4, Nat.succ_pos 3⟩ 3) = some s₀ ∧
      ((runAll listStep [.popBack, .pushBack 5, .pushFront 4, .insert (.fromBegin 1) 6, .pushBack 7,
          .erase (.fromBegin 2), .pushBack 8, .popFront, .popFront, .popFront, .popFront]).run
            s₀).map Prod.fst =
        some (traceAll listSpec [.popBack, .pushBack 5, .pushFront 4, .insert (.fromBegin 1) 6,
          .pushBack 7, .erase (.fromBegin 2), .pushBack 8, .popFront, .popFront, .popFront,
          .popFront] (BoundedSeq.empty : BoundedSeq ℕ 3)).1 := by
  obtain ⟨s, hinit, hruns⟩ := list_is_bounded_sequence_without_popBack (n := 3) (by decide)
    ⟨8, 4, Nat.succ_pos 3⟩ fun _ => (⟨0, 0, 0, false⟩ : Node ℕ)
  refine ⟨s, hinit, hruns _ ⟨⟨trivial, rfl⟩, ⟨trivial, trivial⟩, ⟨trivial, trivial⟩, ⟨?_, trivial⟩,
    ⟨trivial, trivial⟩, ⟨?_, trivial⟩, ⟨trivial, trivial⟩, ⟨trivial, trivial⟩, ⟨trivial, trivial⟩,
    ⟨trivial, trivial⟩, ⟨trivial, trivial⟩, trivial⟩⟩
  · exact Nat.le_of_ble_eq_true rfl
  · exact Nat.le_of_ble_eq_true rfl

/-- With `PopBack` among the operations a list is no sequence: after the end node has been freed it
is handed out as an element, and an element is lost. -/
theorem popBack_loses_an_element : ¬ ∀ (n : ℕ) (L : Layout) (mem : ℕ → Node ℕ) (s₀ : State ℕ)
    (ops : List (ListOp ℕ)), 1 ≤ n → init L mem (calcByteSize L n) = some s₀ →
      AdmissibleAll listSpec ListOp.Valid ops (BoundedSeq.empty : BoundedSeq ℕ n) →
        ((runAll listStep ops).run s₀).map Prod.fst =
          some (traceAll listSpec ops (BoundedSeq.empty : BoundedSeq ℕ n)).1 := by
  intro hall
  obtain ⟨s, hinit, -⟩ := exists_init ⟨8, 4, Nat.succ_pos 3⟩
    (fun _ => (⟨0, 0, 0, false⟩ : Node ℕ)) (n := 2) (by decide)
  have hrun := hall 2 _ _ s [.pushBack 5, .popBack, .pushBack 6, .pushBack 7, .popFront,
    .pushBack 8] (by decide) hinit ⟨trivial, trivial, trivial, trivial, trivial, trivial, trivial⟩
  have hdiff : (init ⟨8, 4, Nat.succ_pos 3⟩ (fun _ => (⟨0, 0, 0, false⟩ : Node ℕ))
      (calcByteSize ⟨8, 4, Nat.succ_pos 3⟩ 2)).map (fun s => ((runAll listStep [.pushBack 5,
        .popBack, .pushBack 6, .pushBack 7, .popFront, .pushBack 8]).run s).map Prod.fst) ≠
      some (some (traceAll listSpec [.pushBack 5, .popBack, .pushBack 6, .pushBack 7, .popFront,
        .pushBack 8] (BoundedSeq.empty : BoundedSeq ℕ 2)).1) := by
    decide +kernel
  rw [hinit] at hdiff
  exact hdiff (congrArg some hrun)

end Lsf.ListState
