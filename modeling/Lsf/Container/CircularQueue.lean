import Lsf.Foundations.BoundedSeq
import Lsf.Foundations.CircularWindow
import Lsf.Foundations.Refinement

/-!
# Queue as a bounded sequence

A `Queue` keeps its elements in a block of `_max_size` slots that is read as a circle: from
`_head_pos` up to `_tail_pos`, which is always an empty slot. All positions are of type `size_t`, so
every subtraction may wrap below zero and every sum above `2 ^ 64`.

A program faults when it touches a slot outside the block.

## Main definitions

* `QueueOp` — the operations, with `queueStep` and `queueSpec`
* `Models` — the state stands for a bounded sequence

## Main results

* `refines_queue`
* `queue_is_bounded_deque`
-/

namespace Lsf.QueueState

/-- `QueueState` together with the block of elements behind it. `slots` is the number of elements
the block has room for. -/
structure State (α : Type) where
  maxSize : UInt64
  headPos : UInt64
  tailPos : UInt64
  slots : ℕ
  elem : ℕ → α

/-- A program over the queue; it faults when it leaves the block. -/
abbrev Prog (α β : Type) := StateT (State α) Option β

variable {α : Type}

/-! ### The functions -/

/-- The element in a slot, none outside the memory. -/
def load (slot : UInt64) : Prog α α := fun s =>
  if slot.toNat < s.slots then some (s.elem slot.toNat, s) else none

/-- The element in a slot is assigned. -/
def store (slot : UInt64) (val : α) : Prog α Unit := fun s =>
  if slot.toNat < s.slots then
    some ((), { s with elem := Function.update s.elem slot.toNat val })
  else none

namespace State

variable (s : State α)

/-- `size()`. -/
def size : UInt64 := (s.tailPos - s.headPos + s.maxSize) % s.maxSize

/-- `empty()`. -/
def empty : Bool := s.headPos = s.tailPos

/-- `full()`. -/
def full : Bool := s.headPos = (s.tailPos + 1) % s.maxSize

/-- The slot behind `GetDataPtr(pos)`. -/
def getDataPtr (pos : UInt64) : UInt64 := pos % s.maxSize

/-- `CalcAbsolutePos`. -/
def calcAbsolutePos (pos : UInt64) : UInt64 := (pos + s.maxSize) % s.maxSize

/-- `HeadPosInc`. -/
def headPosInc : State α := { s with headPos := (s.headPos + 1) % s.maxSize }

/-- `HeadPosDec`. -/
def headPosDec : State α := { s with headPos := (s.headPos - 1 + s.maxSize) % s.maxSize }

/-- `TailPosInc`. -/
def tailPosInc : State α := { s with tailPos := (s.tailPos + 1) % s.maxSize }

/-- `TailPosDec`. -/
def tailPosDec : State α := { s with tailPos := (s.tailPos - 1 + s.maxSize) % s.maxSize }

/-- The position of `QueueIterator(state, idx)`. -/
def iterator (idx : UInt64) : UInt64 := s.calcAbsolutePos (s.headPos + idx)

/-- `++iter`. -/
def iterInc (pos : UInt64) : UInt64 := s.calcAbsolutePos (pos + 1)

/-- `--iter`. -/
def iterDec (pos : UInt64) : UInt64 := s.calcAbsolutePos (pos - 1)

/-- The position of `begin()`. -/
def beginPos : UInt64 := s.iterator 0

/-- The position of `end()`. -/
def endPos : UInt64 := s.iterator s.size

/-- The position of `GetFront()`. -/
def getFront : UInt64 := s.iterator 0

/-- `(int)size`. -/
def intSize : ℤ := (s.size.toNat : ℤ).bmod (2 ^ 32)

/-- The position of `GetBack()`. -/
def getBack : UInt64 := s.iterator (UInt64.ofNat (max (s.intSize - 1) 0).toNat)

end State

/-- `*iter`. -/
def deref (pos : UInt64) : Prog α α := do
  load ((← get).getDataPtr pos)

/-- The destructor of the element at `*iter`. -/
def destroy (pos : UInt64) : Prog α Unit := do
  let _ ← deref pos

/-- `PushFront`. -/
def pushFront (val : α) : Prog α Bool := do
  let s ← get
  if s.full then return false
  else do
    store (s.getDataPtr (s.iterDec s.beginPos)) val
    modify State.headPosDec
    return true

/-- `PushBack`. -/
def pushBack (val : α) : Prog α Bool := do
  let s ← get
  if s.full then return false
  else do
    store (s.getDataPtr s.endPos) val
    modify State.tailPosInc
    return true

/-- `PopFront`. -/
def popFront : Prog α Bool := do
  let s ← get
  if s.empty then return false
  else do
    destroy s.getFront
    modify State.headPosInc
    return true

/-- `PopBack`. -/
def popBack : Prog α Bool := do
  let s ← get
  if s.empty then return false
  else do
    destroy s.getBack
    modify State.tailPosDec
    return true

/-! ### Init -/

/-- `sizeof(this_type)` and `sizeof(value_type)` of one instantiation of the template. -/
structure Layout where
  stateSize : UInt64
  elemSize : UInt64
  elemSize_pos : 0 < elemSize

/-- `CalcByteSize`, in 64 bits. -/
def calcByteSize (L : Layout) (size : UInt64) : UInt64 := (size + 1) * L.elemSize + L.stateSize

/-- `Init` on a block of `byteSize` bytes whose slots hold the arbitrary contents `mem`. -/
def init (L : Layout) (mem : ℕ → α) (byteSize : UInt64) : State α where
  maxSize := (byteSize - L.stateSize) / L.elemSize
  headPos := 0
  tailPos := 0
  slots := (byteSize.toNat - L.stateSize.toNat) / L.elemSize.toNat
  elem := mem

/-! ### What a queue shows -/

/-- The elements from `pos` to `end()`, by `++iter`. -/
def walkLoop : ℕ → UInt64 → Prog α (List α)
  | 0, _ => fun _ => none
  | rounds + 1, pos => do
    if pos = (← get).endPos then return []
    else do
      let elem ← deref pos
      let rest ← walkLoop rounds ((← get).iterInc pos)
      return elem :: rest

/-- The elements from the reverse iterator with base `pos` to `rend()`: each is the one before its
base. -/
def walkBackLoop : ℕ → UInt64 → Prog α (List α)
  | 0, _ => fun _ => none
  | rounds + 1, pos => do
    let s ← get
    if pos = s.beginPos then return []
    else do
      let elem ← deref (s.iterDec pos)
      let rest ← walkBackLoop rounds (s.iterDec pos)
      return elem :: rest

/-- `begin()..end()`, `rbegin()..rend()`, `GetFront`, `GetBack` and `size()`. -/
structure Shown (α : Type) where
  forward : List α
  backward : List α
  front : Option α
  back : Option α
  size : ℕ
  deriving DecidableEq

/-- The element at an iterator, unless the queue is empty. -/
def derefUnlessEmpty (pos : UInt64) : Prog α (Option α) := do
  if (← get).empty then return none
  else return some (← deref pos)

/-- All that a caller can see of a queue. -/
def showQueue : Prog α (Shown α) := do
  let s ← get
  let forward ← walkLoop s.slots s.beginPos
  let backward ← walkBackLoop s.slots s.endPos
  let front ← derefUnlessEmpty s.getFront
  let back ← derefUnlessEmpty s.getBack
  return ⟨forward, backward, front, back, s.size.toNat⟩

/-! ### Operations -/

/-- A call that changes a queue. -/
inductive QueueOp (α : Type)
  | pushFront (val : α)
  | pushBack (val : α)
  | popFront
  | popBack

/-- One operation, and what the queue shows after it. -/
def queueStep : QueueOp α → Prog α (Bool × Shown α)
  | .pushFront val => do return (← pushFront val, ← showQueue)
  | .pushBack val => do return (← pushBack val, ← showQueue)
  | .popFront => do return (← popFront, ← showQueue)
  | .popBack => do return (← popBack, ← showQueue)

/-- The operation on sequences. -/
def seqStep {n : ℕ} : QueueOp α → BoundedSeq α n → Bool × BoundedSeq α n
  | .pushFront val, t => t.pushFront val
  | .pushBack val, t => t.pushBack val
  | .popFront, t => t.popFront
  | .popBack, t => t.popBack

/-- What a sequence shows. -/
def shown {n : ℕ} (t : BoundedSeq α n) : Shown α :=
  ⟨t.items, t.items.reverse, t.items.head?, t.items.getLast?, t.items.length⟩

/-- A call on a bounded sequence, with what is then seen. -/
def queueSpec {n : ℕ} (op : QueueOp α) (t : BoundedSeq α n) :
    (Bool × Shown α) × BoundedSeq α n :=
  (((seqStep op t).1, shown (seqStep op t).2), (seqStep op t).2)

/-! ### Positions -/

/-- The elements are those of the window from `_head_pos` to `_tail_pos`. -/
structure Rep (s : State α) (n : ℕ) (items : List α) : Prop where
  small : n < 2 ^ 31
  slots : s.slots = n + 1
  maxSize : s.maxSize.toNat = n + 1
  head : s.headPos.toNat < n + 1
  tail : s.tailPos.toNat = (s.headPos.toNat + items.length) % (n + 1)
  bounded : items.length ≤ n
  items : items = window (n + 1) s.elem s.headPos.toNat items.length

/-- A number below `2 ^ 31` is the same `int`. -/
theorem bmod_of_lt {k : ℕ} (hk : k < 2 ^ 31) : (k : ℤ).bmod (2 ^ 32) = k := by
  rw [Int.bmod_def]
  omega

section Positions

variable {m : UInt64} {pos : UInt64} {n : ℕ}

theorem toNat_add_mod (hm : m.toNat = n + 1) (hpos : pos.toNat + (n + 1) < 2 ^ 64) :
    ((pos + m) % m).toNat = pos.toNat % (n + 1) := by
  rw [UInt64.toNat_mod, UInt64.toNat_add, hm, Nat.mod_eq_of_lt hpos, Nat.add_mod_right]

theorem toNat_succ (hpos : pos.toNat + 1 < 2 ^ 64) : (pos + 1).toNat = pos.toNat + 1 := by
  rw [UInt64.toNat_add, UInt64.toNat_one, Nat.mod_eq_of_lt hpos]

/-- Below zero the subtraction wraps, and the addition of `_max_size` wraps back. -/
theorem toNat_pred_mod (hm : m.toNat = n + 1) (hn : n < 2 ^ 31) (hpos : pos.toNat < n + 1) :
    ((pos - 1 + m) % m).toNat = (pos.toNat + n) % (n + 1) := by
  have hsum : (pos - 1 + m).toNat = pos.toNat + n := by
    rw [UInt64.toNat_add, UInt64.toNat_sub, UInt64.toNat_one, hm]
    omega
  rw [UInt64.toNat_mod, hsum, hm]

end Positions

/-- The position lies `i` slots after `_head_pos`. -/
def State.At (s : State α) (n i : ℕ) (pos : UInt64) : Prop :=
  pos.toNat = (s.headPos.toNat + i) % (n + 1)

namespace Rep

variable {s : State α} {n i j : ℕ} {items : List α} {pos pos' : UInt64}

theorem lt_of_at (h : s.At n i pos) : pos.toNat < n + 1 := by
  rw [h]
  exact Nat.mod_lt _ (Nat.succ_pos n)

/-- Positions less than one round apart are equal only if they are the same place. -/
theorem at_inj (hi : s.At n i pos) (hj : s.At n j pos') (hin : i ≤ n) (hjn : j ≤ n) :
    pos = pos' ↔ i = j := by
  rw [← UInt64.toNat_inj, hi, hj]
  exact ⟨fun heq => offset_inj (Nat.lt_succ_of_le hin) (Nat.lt_succ_of_le hjn) heq,
    fun heq => by rw [heq]⟩

theorem headPos_at (h : Rep s n items) : s.At n 0 s.headPos :=
  (Nat.mod_eq_of_lt h.head).symm

theorem iterator_at (h : Rep s n items) (idx : UInt64) (hidx : idx.toNat ≤ n) :
    s.At n idx.toNat (s.iterator idx) := by
  have hsmall := h.small
  have hhead := h.head
  have hsum : (s.headPos + idx).toNat = s.headPos.toNat + idx.toNat := by
    rw [UInt64.toNat_add]
    omega
  rw [State.At, State.iterator, State.calcAbsolutePos, toNat_add_mod h.maxSize (by omega), hsum]

theorem iterInc_at (h : Rep s n items) (hpos : s.At n i pos) :
    s.At n (i + 1) (s.iterInc pos) := by
  have hsmall := h.small
  have hlt := lt_of_at hpos
  have hsucc : (pos + 1).toNat = pos.toNat + 1 := toNat_succ (by omega)
  rw [State.At, State.iterInc, State.calcAbsolutePos, toNat_add_mod h.maxSize (by omega), hsucc,
    hpos, Nat.mod_add_mod, Nat.add_assoc]

theorem iterDec_at (h : Rep s n items) (hpos : s.At n (i + 1) pos) :
    s.At n i (s.iterDec pos) := by
  rw [State.At, State.iterDec, State.calcAbsolutePos,
    toNat_pred_mod h.maxSize h.small (lt_of_at hpos), hpos, Nat.mod_add_mod,
    show s.headPos.toNat + (i + 1) + n = s.headPos.toNat + i + (n + 1) by omega, Nat.add_mod_right]

/-- **`size()`** is the number of elements, on whichever side of the head the tail is. -/
theorem toNat_size (h : Rep s n items) : s.size.toNat = items.length := by
  have hsmall := h.small
  have hhead := h.head
  have hbounded := h.bounded
  have htail : s.tailPos.toNat = s.headPos.toNat + items.length ∨
      s.tailPos.toNat + (n + 1) = s.headPos.toNat + items.length := by
    rw [h.tail]
    by_cases hlt : s.headPos.toNat + items.length < n + 1
    · exact .inl (Nat.mod_eq_of_lt hlt)
    · rw [Nat.mod_eq_sub_mod (by omega), Nat.mod_eq_of_lt (by omega)]
      omega
  rw [State.size, UInt64.toNat_mod, UInt64.toNat_add, UInt64.toNat_sub, h.maxSize]
  obtain htail | htail := htail
  · rw [show (2 ^ 64 - s.headPos.toNat + s.tailPos.toNat) % 2 ^ 64 = items.length by omega,
      Nat.mod_eq_of_lt (a := items.length + (n + 1)) (by omega), Nat.add_mod_right,
      Nat.mod_eq_of_lt (by omega)]
  · rw [show ((2 ^ 64 - s.headPos.toNat + s.tailPos.toNat) % 2 ^ 64 + (n + 1)) % 2 ^ 64 =
      items.length by omega, Nat.mod_eq_of_lt (by omega)]

theorem beginPos_at (h : Rep s n items) : s.At n 0 s.beginPos :=
  h.iterator_at 0 (Nat.zero_le n)

theorem endPos_at (h : Rep s n items) : s.At n items.length s.endPos := by
  have hat := h.iterator_at s.size (by rw [h.toNat_size]; exact h.bounded)
  rwa [h.toNat_size] at hat

/-- `GetBack` converts the size to `int`, which does not change it below `2 ^ 31`. -/
theorem getBack_at (h : Rep s n items) : s.At n (items.length - 1) s.getBack := by
  have hsmall := h.small
  have hbounded := h.bounded
  have hsize : s.size.toNat < 2 ^ 31 := by
    rw [h.toNat_size]
    exact Nat.lt_of_le_of_lt hbounded hsmall
  have hint : s.intSize = s.size.toNat := bmod_of_lt hsize
  have hmax : (max ((items.length : ℤ) - 1) 0).toNat = items.length - 1 := by omega
  have hidx : (UInt64.ofNat (items.length - 1)).toNat = items.length - 1 := by
    rw [UInt64.toNat_ofNat']
    exact Nat.mod_eq_of_lt (by omega)
  have hat := h.iterator_at _ (Nat.le_trans (Nat.le_of_eq hidx) (by omega))
  rw [hidx] at hat
  rwa [State.getBack, hint, h.toNat_size, hmax]

theorem empty_iff (h : Rep s n items) : s.empty = true ↔ items = [] := by
  rw [State.empty, decide_eq_true_iff, at_inj h.headPos_at h.tail (Nat.zero_le n) h.bounded,
    eq_comm, List.length_eq_zero_iff]

theorem toNat_next (h : Rep s n items) (hpos : s.At n i pos) :
    ((pos + 1) % s.maxSize).toNat = (s.headPos.toNat + (i + 1)) % (n + 1) := by
  have hsmall := h.small
  have hlt := lt_of_at hpos
  rw [UInt64.toNat_mod, toNat_succ (by omega), h.maxSize, hpos, Nat.mod_add_mod, Nat.add_assoc]

theorem full_iff (h : Rep s n items) : s.full = true ↔ items.length = n := by
  have hhead := h.head
  have hbounded := h.bounded
  have hnext := h.toNat_next h.tail
  rw [State.full, decide_eq_true_iff, ← UInt64.toNat_inj, hnext]
  constructor
  · intro heq
    by_contra hne
    have hzero := offset_inj (i := 0) (j := items.length + 1) (Nat.succ_pos n) (by omega)
      (h.headPos_at.symm.trans heq)
    omega
  · intro heq
    rw [heq, Nat.add_mod_right, Nat.mod_eq_of_lt hhead]

theorem toNat_getDataPtr (h : Rep s n items) (hpos : s.At n i pos) :
    (s.getDataPtr pos).toNat = (s.headPos.toNat + i) % (n + 1) := by
  rw [State.getDataPtr, UInt64.toNat_mod, h.maxSize, Nat.mod_eq_of_lt (lt_of_at hpos), hpos]

/-- The element at a position of the queue. -/
theorem ensures_deref (h : Rep s n items) (hpos : s.At n i pos) (hi : i < items.length)
    {Q : α → State α → Prop} : Ensures (deref pos) s Q ↔ Q items[i] s := by
  have hslot := h.toNat_getDataPtr hpos
  have hlt : (s.getDataPtr pos).toNat < s.slots := by
    rw [hslot, h.slots]
    exact Nat.mod_lt _ (Nat.succ_pos n)
  have hitem : items[i] = s.elem ((s.headPos.toNat + i) % (n + 1)) := by
    have hget := List.getElem_of_eq h.items hi
    rw [hget]
    simp [window]
  have hload : (load (s.getDataPtr pos)).run s = some (s.elem (s.getDataPtr pos).toNat, s) :=
    if_pos hlt
  rw [deref, ensures_bind, ensures_get, Ensures.iff_of_run hload, hslot, hitem]

/-! ### Iteration -/

theorem ensures_walkLoop {rounds : ℕ} (h : Rep s n items) (hpos : s.At n i pos)
    (hi : i ≤ items.length) (hrounds : items.length < rounds + i) :
    Ensures (walkLoop rounds pos) s fun xs s' => s' = s ∧ xs = items.drop i := by
  induction rounds generalizing pos i with
  | zero => omega
  | succ rounds ih =>
    have hbounded := h.bounded
    have hend := at_inj hpos h.endPos_at (by omega) hbounded
    rw [walkLoop, ensures_bind, ensures_get]
    by_cases heq : i = items.length
    · rw [if_pos (hend.mpr heq), ensures_pure, heq, List.drop_length]
      exact ⟨rfl, rfl⟩
    · have hlt : i < items.length := by omega
      rw [if_neg (mt hend.mp heq), ensures_bind, h.ensures_deref hpos hlt, ensures_bind,
        ensures_get]
      refine (ih (h.iterInc_at hpos) hlt (by omega)).bind ?_
      rintro _ s ⟨rfl, rfl⟩
      rw [ensures_pure, List.drop_eq_getElem_cons hlt]
      exact ⟨rfl, rfl⟩

theorem ensures_walkBackLoop {rounds : ℕ} (h : Rep s n items) (hpos : s.At n i pos)
    (hi : i ≤ items.length) (hrounds : i < rounds) :
    Ensures (walkBackLoop rounds pos) s fun xs s' => s' = s ∧ xs = (items.take i).reverse := by
  induction rounds generalizing pos i with
  | zero => omega
  | succ rounds ih =>
    have hbounded := h.bounded
    have hbegin := at_inj hpos h.beginPos_at (by omega) (Nat.zero_le n)
    rw [walkBackLoop, ensures_bind, ensures_get]
    cases i with
    | zero =>
      rw [if_pos (hbegin.mpr rfl), ensures_pure]
      exact ⟨rfl, rfl⟩
    | succ i =>
      have hdec := h.iterDec_at hpos
      rw [if_neg (mt hbegin.mp (Nat.succ_ne_zero i)), ensures_bind, h.ensures_deref hdec hi]
      refine (ih hdec (by omega) (by omega)).bind ?_
      rintro _ s ⟨rfl, rfl⟩
      rw [ensures_pure, List.take_succ_eq_append_getElem hi, List.reverse_append]
      exact ⟨rfl, rfl⟩

theorem ensures_derefUnlessEmpty (h : Rep s n items) (hpos : s.At n i pos)
    (hi : items ≠ [] → i < items.length) :
    Ensures (derefUnlessEmpty pos) s fun x s' => s' = s ∧ x = items[i]? := by
  rw [derefUnlessEmpty, ensures_bind, ensures_get]
  by_cases hnil : items = []
  · rw [if_pos (h.empty_iff.mpr hnil), ensures_pure, hnil]
    exact ⟨rfl, rfl⟩
  · rw [if_neg (mt h.empty_iff.mp hnil), ensures_bind, h.ensures_deref hpos (hi hnil),
      ensures_pure, List.getElem?_eq_getElem (hi hnil)]
    exact ⟨rfl, rfl⟩

/-- **What is shown are the elements of the window.** -/
theorem ensures_showQueue (h : Rep s n items) :
    Ensures showQueue s fun x s' => s' = s ∧
      x = ⟨items, items.reverse, items.head?, items.getLast?, items.length⟩ := by
  have hrounds : items.length < s.slots := by
    rw [h.slots]
    exact Nat.lt_succ_of_le h.bounded
  have hpos : items ≠ [] → 0 < items.length := List.length_pos_iff.mpr
  have hlast : items ≠ [] → items.length - 1 < items.length := fun hne =>
    Nat.sub_lt (hpos hne) Nat.one_pos
  rw [showQueue, ensures_bind, ensures_get]
  refine (h.ensures_walkLoop h.beginPos_at (Nat.zero_le _) hrounds).bind ?_
  rintro _ s ⟨rfl, rfl⟩
  refine (h.ensures_walkBackLoop h.endPos_at (Nat.le_refl _) hrounds).bind ?_
  rintro _ s ⟨rfl, rfl⟩
  refine (h.ensures_derefUnlessEmpty h.beginPos_at hpos).bind ?_
  rintro _ s ⟨rfl, rfl⟩
  refine (h.ensures_derefUnlessEmpty h.getBack_at hlast).bind ?_
  rintro _ s ⟨rfl, rfl⟩
  rw [ensures_pure, h.toNat_size, List.take_length, List.head?_eq_getElem?,
    List.getLast?_eq_getElem?]
  exact ⟨rfl, rfl⟩

/-! ### The two ends -/

theorem length_lt (h : Rep s n items) (hfull : ¬ s.full = true) : items.length < n :=
  Nat.lt_of_le_of_ne h.bounded (mt h.full_iff.mpr hfull)

theorem ensures_store (h : Rep s n items) {slot : UInt64} (hslot : slot.toNat < n + 1) {val : α}
    {Q : Unit → State α → Prop} : Ensures (store slot val) s Q ↔
      Q () { s with elem := Function.update s.elem slot.toNat val } := by
  have hlt : slot.toNat < s.slots := by rwa [h.slots]
  have hstore : (store slot val).run s =
      some ((), { s with elem := Function.update s.elem slot.toNat val }) := if_pos hlt
  exact Ensures.iff_of_run hstore

/-- `PushBack` fills the empty slot at the tail. -/
theorem ensures_pushBack (h : Rep s n items) (val : α) : Ensures (pushBack val) s fun b s' =>
    (items.length = n ∧ b = false ∧ Rep s' n items) ∨
      (items.length < n ∧ b = true ∧ Rep s' n (items ++ [val])) := by
  rw [pushBack, ensures_bind, ensures_get]
  by_cases hfull : s.full
  · rw [if_pos hfull, ensures_pure]
    exact .inl ⟨h.full_iff.mp hfull, rfl, h⟩
  · have hlen := h.length_lt hfull
    have hslot := h.toNat_getDataPtr h.endPos_at
    have hlt : (s.getDataPtr s.endPos).toNat < n + 1 := by
      rw [hslot]
      exact Nat.mod_lt _ (Nat.succ_pos n)
    have htail : ((s.tailPos + 1) % s.maxSize).toNat =
        (s.headPos.toNat + (items ++ [val]).length) % (n + 1) := by
      rw [h.toNat_next h.tail, List.length_append]
      rfl
    rw [if_neg hfull, ensures_bind, h.ensures_store hlt, ensures_bind, ensures_modify, ensures_pure]
    refine .inr ⟨hlen, rfl, h.small, h.slots, h.maxSize, h.head, htail, ?_, ?_⟩
    · rw [List.length_append]
      exact hlen
    · show items ++ [val] = window (n + 1) (Function.update s.elem _ val) s.headPos.toNat _
      rw [List.length_append, hslot, List.length_singleton, window_update_back (by omega),
        ← h.items]

/-- The slot before the head, of which `HeadPosDec` makes the head. -/
theorem toNat_headPosDec (h : Rep s n items) :
    s.headPosDec.headPos.toNat = (s.headPos.toNat + n) % (n + 1) :=
  toNat_pred_mod h.maxSize h.small h.head

/-- **The two formulas agree**: `--begin()` is where `HeadPosDec` puts the head. -/
theorem toNat_iterDec_beginPos (h : Rep s n items) :
    (s.getDataPtr (s.iterDec s.beginPos)).toNat = s.headPosDec.headPos.toNat := by
  have hbegin : s.beginPos = s.headPos :=
    (at_inj h.beginPos_at h.headPos_at (Nat.zero_le n) (Nat.zero_le n)).mpr rfl
  have hdec : s.iterDec s.beginPos = s.headPosDec.headPos := by
    rw [hbegin]
    rfl
  have hlt : s.headPosDec.headPos.toNat < n + 1 := by
    rw [h.toNat_headPosDec]
    exact Nat.mod_lt _ (Nat.succ_pos n)
  rw [hdec, State.getDataPtr, UInt64.toNat_mod, h.maxSize, Nat.mod_eq_of_lt hlt]

theorem ensures_pushFront (h : Rep s n items) (val : α) : Ensures (pushFront val) s fun b s' =>
    (items.length = n ∧ b = false ∧ Rep s' n items) ∨
      (items.length < n ∧ b = true ∧ Rep s' n (val :: items)) := by
  rw [pushFront, ensures_bind, ensures_get]
  by_cases hfull : s.full
  · rw [if_pos hfull, ensures_pure]
    exact .inl ⟨h.full_iff.mp hfull, rfl, h⟩
  · have hlen := h.length_lt hfull
    have hhead := h.toNat_headPosDec
    have hslot := h.toNat_iterDec_beginPos
    have hlt : s.headPosDec.headPos.toNat < n + 1 := by
      rw [hhead]
      exact Nat.mod_lt _ (Nat.succ_pos n)
    rw [if_neg hfull, ensures_bind, h.ensures_store (by rwa [hslot]), ensures_bind, ensures_modify,
      ensures_pure]
    refine .inr ⟨hlen, rfl, h.small, h.slots, h.maxSize, hlt, ?_, hlen, ?_⟩
    · show s.tailPos.toNat = (s.headPosDec.headPos.toNat + (items.length + 1)) % (n + 1)
      rw [hhead, Nat.mod_add_mod, h.tail, ← Nat.add_mod_right]
      congr 1
      omega
    · show val :: items = window (n + 1) (Function.update s.elem _ val)
        s.headPosDec.headPos.toNat (items.length + 1)
      rw [hslot, hhead]
      have hlen : items.length < n + 1 := Nat.lt_succ_of_lt hlen
      have hwindow := window_update_front (f := s.elem) (x := val) hlen h.head
      rw [Nat.add_sub_cancel, ← h.items] at hwindow
      exact hwindow.symm

theorem ensures_popFront (h : Rep s n items) : Ensures popFront s fun b s' =>
    b = (!items.isEmpty) ∧ Rep s' n items.tail := by
  rw [popFront, ensures_bind, ensures_get]
  cases items with
  | nil =>
    rw [if_pos (h.empty_iff.mpr rfl), ensures_pure]
    exact ⟨rfl, h⟩
  | cons x items =>
    have hhead := h.toNat_next h.headPos_at
    have hlt : s.headPosInc.headPos.toNat < n + 1 := by
      show ((s.headPos + 1) % s.maxSize).toNat < n + 1
      rw [hhead]
      exact Nat.mod_lt _ (Nat.succ_pos n)
    have hbounded := h.bounded
    have hitems := h.items
    rw [List.length_cons, window_pred] at hitems
    rw [if_neg (mt h.empty_iff.mp (List.cons_ne_nil _ _)), ensures_bind, destroy, ensures_bind,
      h.ensures_deref (show s.At n 0 s.getFront from h.beginPos_at) (Nat.succ_pos _),
      ensures_pure, ensures_bind, ensures_modify,
      ensures_pure]
    refine ⟨rfl, h.small, h.slots, h.maxSize, hlt, ?_, Nat.le_of_succ_le hbounded, ?_⟩
    · show s.tailPos.toNat = (((s.headPos + 1) % s.maxSize).toNat + items.length) % (n + 1)
      rw [hhead, Nat.mod_add_mod, h.tail, List.length_cons]
      congr 1
      omega
    · show items = window (n + 1) s.elem ((s.headPos + 1) % s.maxSize).toNat items.length
      rw [hhead]
      exact (List.cons.inj hitems).2

theorem ensures_popBack (h : Rep s n items) : Ensures popBack s fun b s' =>
    b = (!items.isEmpty) ∧ Rep s' n items.dropLast := by
  rw [popBack, ensures_bind, ensures_get]
  obtain rfl | ⟨items, x, rfl⟩ := List.eq_nil_or_concat' items
  · rw [if_pos (h.empty_iff.mpr rfl), ensures_pure]
    exact ⟨rfl, h⟩
  · have hlen : (items ++ [x]).length = items.length + 1 := List.length_append
    have hne : items ++ [x] ≠ [] := List.append_ne_nil_of_right_ne_nil _ (List.cons_ne_nil _ _)
    have hbounded := h.bounded
    have hitems := h.items
    have htail := h.tail
    rw [hlen] at hbounded hitems htail
    rw [window_succ] at hitems
    have hdec : s.At n items.length s.tailPosDec.tailPos := h.iterDec_at htail
    rw [if_neg (mt h.empty_iff.mp hne), ensures_bind, destroy, ensures_bind,
      h.ensures_deref h.getBack_at (by omega), ensures_pure, ensures_bind, ensures_modify,
      ensures_pure]
    refine ⟨by simp, h.small, h.slots, h.maxSize, h.head, ?_, ?_, ?_⟩
    · rw [List.dropLast_concat]
      exact hdec
    · rw [List.dropLast_concat]
      omega
    · rw [List.dropLast_concat]
      exact (List.append_inj' hitems rfl).1

end Rep

/-! ### Refinement -/

/-- The state stands for the sequence. -/
def Models {n : ℕ} (s : State α) (t : BoundedSeq α n) : Prop := Rep s n t.items

/-- What the queue shows after a call, where the state stands for a sequence. -/
theorem ensures_shown {n : ℕ} {m : Prog α Bool} {s : State α} {r : Bool × BoundedSeq α n}
    (h : Ensures m s fun b s' => b = r.1 ∧ Models s' r.2) :
    Ensures (do return (← m, ← showQueue)) s fun x s' =>
      x = (r.1, shown r.2) ∧ Models s' r.2 := by
  refine h.bind ?_
  rintro _ s' ⟨rfl, hrep⟩
  refine hrep.ensures_showQueue.bind ?_
  rintro _ s' ⟨rfl, rfl⟩
  rw [ensures_pure]
  exact ⟨rfl, hrep⟩

/-- **Every operation refines the operation on sequences.** -/
theorem refines_queue {n : ℕ} : Refines (queueStep (α := α)) (queueSpec (n := n))
    (fun _ _ => True) Models := by
  rintro op s t - h
  have h : Rep s n t.items := h
  cases op with
  | pushFront val =>
    refine ensures_shown ((h.ensures_pushFront val).mono ?_)
    rintro _ s' (⟨hlen, rfl, h'⟩ | ⟨hlen, rfl, h'⟩)
    · rw [seqStep, BoundedSeq.pushFront, dif_neg (by omega)]
      exact ⟨rfl, h'⟩
    · rw [seqStep, BoundedSeq.pushFront, dif_pos hlen]
      exact ⟨rfl, h'⟩
  | pushBack val =>
    refine ensures_shown ((h.ensures_pushBack val).mono ?_)
    rintro _ s' (⟨hlen, rfl, h'⟩ | ⟨hlen, rfl, h'⟩)
    · rw [seqStep, BoundedSeq.pushBack, dif_neg (by omega)]
      exact ⟨rfl, h'⟩
    · rw [seqStep, BoundedSeq.pushBack, dif_pos hlen]
      exact ⟨rfl, h'⟩
  | popFront => exact ensures_shown h.ensures_popFront
  | popBack => exact ensures_shown h.ensures_popBack

/-- `Init` on `CalcByteSize(n)` bytes leaves an empty queue of capacity `n`. -/
theorem rep_init {n : ℕ} (hn : n < 2 ^ 31) (L : Layout)
    (hblock : (n + 1) * L.elemSize.toNat + L.stateSize.toNat < 2 ^ 64) (mem : ℕ → α) :
    Rep (init L mem (calcByteSize L (UInt64.ofNat n))) n [] := by
  have hpos : 0 < L.elemSize.toNat := L.elemSize_pos
  have hnat : (UInt64.ofNat n).toNat = n := by
    rw [UInt64.toNat_ofNat']
    exact Nat.mod_eq_of_lt (by omega)
  have hsucc : (UInt64.ofNat n + 1).toNat = n + 1 := by
    rw [toNat_succ (by omega), hnat]
  have hbytes : (calcByteSize L (UInt64.ofNat n)).toNat =
      (n + 1) * L.elemSize.toNat + L.stateSize.toNat := by
    rw [calcByteSize, UInt64.toNat_add, UInt64.toNat_mul, hsucc,
      Nat.mod_eq_of_lt (Nat.lt_of_le_of_lt (Nat.le_add_right _ _) hblock), Nat.mod_eq_of_lt hblock]
  have hrest : (calcByteSize L (UInt64.ofNat n) - L.stateSize).toNat =
      (n + 1) * L.elemSize.toNat := by
    rw [UInt64.toNat_sub_of_le, hbytes, Nat.add_sub_cancel]
    rw [UInt64.le_iff_toNat_le, hbytes]
    exact Nat.le_add_left _ _
  refine ⟨hn, ?_, ?_, Nat.succ_pos n, (Nat.zero_mod _).symm, Nat.zero_le n, rfl⟩
  · show ((calcByteSize L (UInt64.ofNat n)).toNat - L.stateSize.toNat) / L.elemSize.toNat = n + 1
    rw [hbytes, Nat.add_sub_cancel, Nat.mul_div_cancel _ hpos]
  · show ((calcByteSize L (UInt64.ofNat n) - L.stateSize) / L.elemSize).toNat = n + 1
    rw [UInt64.toNat_div, hrest, Nat.mul_div_cancel _ hpos]

/-- **A `Queue` of capacity `n` is a deque bounded by `n`**, from `Init` on the `CalcByteSize(n)`
bytes of a block that exists in the address space. -/
theorem queue_is_bounded_deque {n : ℕ} (hn : n < 2 ^ 31) (L : Layout)
    (hblock : (n + 1) * L.elemSize.toNat + L.stateSize.toNat < 2 ^ 64) (mem : ℕ → α)
    (ops : List (QueueOp α)) :
    (init L mem (calcByteSize L (UInt64.ofNat n))).slots = n + 1 ∧
      ((runAll queueStep ops).run (init L mem (calcByteSize L (UInt64.ofNat n)))).map Prod.fst =
        some (traceAll queueSpec ops (BoundedSeq.empty : BoundedSeq α n)).1 := by
  have hrep := rep_init hn L hblock mem
  refine ⟨hrep.slots, ?_⟩
  obtain ⟨_, s', hrun, rfl, -⟩ := refines_queue.runAll
    (admissibleAll_true _ ops (BoundedSeq.empty : BoundedSeq α n)) hrep
  rw [hrun]
  rfl

/-- A queue of three elements wraps around in both directions, refuses a fourth element and is
emptied again. -/
theorem queue_of_three_is_bounded_deque :
    (init ⟨40, 4, by decide⟩ (fun _ => 0)
      (calcByteSize ⟨40, 4, by decide⟩ (UInt64.ofNat 3))).slots = 3 + 1 ∧
      ((runAll queueStep [.pushFront 5, .pushBack 6, .pushFront 4, .pushBack 7, .popBack, .popBack,
          .pushBack 8, .popFront, .pushBack 9, .popFront, .popFront, .popBack]).run (init
        ⟨40, 4, by decide⟩ (fun _ => 0) (calcByteSize ⟨40, 4, by decide⟩ (UInt64.ofNat 3)))).map
          Prod.fst = some (traceAll queueSpec [.pushFront 5, .pushBack 6, .pushFront 4, .pushBack 7,
            .popBack, .popBack, .pushBack 8, .popFront, .pushBack 9, .popFront, .popFront,
            .popBack] (BoundedSeq.empty : BoundedSeq ℕ 3)).1 :=
  queue_is_bounded_deque (by decide) ⟨40, 4, by decide⟩ (by decide) (fun _ => 0) _

end Lsf.QueueState
