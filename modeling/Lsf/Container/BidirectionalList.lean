import Lsf.Foundations.Ensures
import Mathlib.Data.Nat.Notation
import Mathlib.Logic.Function.Basic

/-!
# The doubly linked list in a block of slots

`ListState` keeps two rings in one flat array of nodes: the used nodes, closed by the end node in
slot 0, and the empty nodes. Slot 0 doubles as the mark for "no node".

A program faults when it touches a slot outside the block, and when it uses the data of a slot that
is not in use, for which `GetDataPtr` returns a null pointer.
-/

namespace Lsf.ListState

/-- The source's `ListNode`. -/
structure Node (α : Type) where
  prevPos : ℕ
  nextPos : ℕ
  data : α
  isUse : Bool

/-- `ListState` together with the block of nodes behind it. `slots` is the number of nodes the
block has room for. -/
structure State (α : Type) where
  size : ℕ
  maxSize : ℕ
  emptyHeadPos : ℕ
  headPos : ℕ
  slots : ℕ
  node : ℕ → Node α

/-- The end node. -/
abbrev ENDPOS : ℕ := 0

/-- A program over the list; it faults when it leaves the block. -/
abbrev Prog (α β : Type) := StateT (State α) Option β

variable {α : Type}

/-! ### Memory -/

/-- The node in a slot, none outside the memory. -/
def load (pos : ℕ) : Prog α (Node α) := fun s =>
  if pos < s.slots then some (s.node pos, s) else none

/-- The node in a slot is changed. -/
def store (pos : ℕ) (f : Node α → Node α) : Prog α Unit := fun s =>
  if pos < s.slots then
    some ((), { s with node := Function.update s.node pos (f (s.node pos)) })
  else none

/-- The use of a null pointer, or a loop that has used up its rounds. -/
def stuck {β : Type} : Prog α β := fun _ => none

/-- `GetHeadPos`. -/
def getHeadPos : Prog α ℕ := do
  return (← get).headPos

/-- `_head_pos` is assigned. -/
def setHeadPos (pos : ℕ) : Prog α Unit := modify fun s => { s with headPos := pos }

/-- `_empty_head_pos` is read. -/
def getEmptyHeadPos : Prog α ℕ := do
  return (← get).emptyHeadPos

/-- `_empty_head_pos` is assigned. -/
def setEmptyHeadPos (pos : ℕ) : Prog α Unit := modify fun s => { s with emptyHeadPos := pos }

/-- `_size++`. -/
def incSize : Prog α Unit := modify fun s => { s with size := s.size + 1 }

/-- `_size--`. -/
def decSize : Prog α Unit := modify fun s => { s with size := s.size - 1 }

/-- `GetNextPos`. -/
def getNextPos (pos : ℕ) : Prog α ℕ := do
  return (← load pos).nextPos

/-- `GetPrevPos`. -/
def getPrevPos (pos : ℕ) : Prog α ℕ := do
  return (← load pos).prevPos

/-- `GetNextPos(pos)` is assigned. -/
def setNextPos (pos nextPos : ℕ) : Prog α Unit :=
  store pos fun x => { x with nextPos := nextPos }

/-- `GetPrevPos(pos)` is assigned. -/
def setPrevPos (pos prevPos : ℕ) : Prog α Unit :=
  store pos fun x => { x with prevPos := prevPos }

/-- `GetIsUse(pos)` is assigned. -/
def setIsUse (pos : ℕ) (isUse : Bool) : Prog α Unit :=
  store pos fun x => { x with isUse := isUse }

/-- `GetDataPtr`, where a null pointer is no position. -/
def getDataPtr (pos : ℕ) : Prog α (Option ℕ) := do
  if pos ≥ (← get).maxSize then return none
  else if !(← load pos).isUse then return none
  else return some pos

/-- `*GetDataPtr(pos)`. -/
def getData (pos : ℕ) : Prog α α := do
  match ← getDataPtr pos with
  | none => stuck
  | some ptr => return (← load ptr).data

/-- Placement construction of `val` at `GetDataPtr(pos)`. -/
def setData (pos : ℕ) (val : α) : Prog α Unit := do
  match ← getDataPtr pos with
  | none => stuck
  | some ptr => store ptr fun x => { x with data := val }

/-- `full()`. -/
def full (s : State α) : Bool := s.size = s.maxSize - 1

/-- `empty()`. -/
def empty (s : State α) : Bool := s.size = 0

/-! ### Init -/

/-- The rounds of the loop of `Init` from `pos` up to `_max_size`. -/
def initLoop : ℕ → ℕ → Prog α Unit
  | 0, _ => pure ()
  | rounds + 1, pos => do
    setIsUse pos false
    setNextPos pos (pos + 1)
    setPrevPos pos (pos - 1)
    initLoop rounds (pos + 1)

/-- `Init`, once `_max_size` has been computed from the byte size. -/
def initNodes : Prog α Unit := do
  let maxSize := (← get).maxSize
  -- make list a loop
  setIsUse ENDPOS false
  setNextPos ENDPOS ENDPOS
  setPrevPos ENDPOS ENDPOS
  -- make empty list a loop
  initLoop (maxSize - 1) 1
  setPrevPos 1 (maxSize - 1)
  setNextPos (maxSize - 1) 1

/-- `sizeof(this_type)` and `sizeof(node_type)` of one instantiation of the template. -/
structure Layout where
  stateSize : ℕ
  nodeSize : ℕ
  nodeSize_pos : 0 < nodeSize

/-- `CalcByteSize`, in unbounded numbers. -/
def calcByteSize (L : Layout) (size : ℕ) : ℕ := (size + 1) * L.nodeSize + L.stateSize

/-- `Init` on a block of `byteSize` bytes whose nodes hold the arbitrary contents `mem`. -/
def init (L : Layout) (mem : ℕ → Node α) (byteSize : ℕ) : Option (State α) :=
  let maxSize := (byteSize - L.stateSize) / L.nodeSize
  (initNodes.run
    { size := 0, maxSize, emptyHeadPos := 1, headPos := 0,
      slots := (byteSize - L.stateSize) / L.nodeSize, node := mem }).map (·.2)

/-! ### Nodes -/

/-- The two assignments that take a node out of its ring. -/
def takeOut (pos : ℕ) : Prog α Unit := do
  setPrevPos (← getNextPos pos) (← getPrevPos pos)
  setNextPos (← getPrevPos pos) (← getNextPos pos)

/-- The four assignments that link a node before another one. -/
def linkBefore (pos insertPos : ℕ) : Prog α Unit := do
  setNextPos pos insertPos
  setPrevPos pos (← getPrevPos insertPos)
  setPrevPos (← getNextPos pos) pos
  setNextPos (← getPrevPos pos) pos

/-- Get a node from the empty list: the first part of `GetNewNodeAndInsert`. -/
def getNewNode : Prog α ℕ := do
  let pos ← getEmptyHeadPos
  if (← getNextPos pos) = pos then setEmptyHeadPos ENDPOS
  else do
    takeOut pos
    setEmptyHeadPos (← getNextPos pos)
  return pos

/-- `GetNewNodeAndInsert`, which links a new node before a position. -/
def getNewNodeAndInsert (insertPos : ℕ) : Prog α ℕ := do
  let pos ← getNewNode
  -- insert pos before the insert_pos in list
  incSize
  setIsUse pos true
  linkBefore pos insertPos
  let headPos ← getHeadPos
  if headPos = insertPos ∨ headPos = ENDPOS then setHeadPos pos
  return pos

/-- Put a node at the tail of the empty list: the last part of `FreeNode`. -/
def putEmptyNode (pos : ℕ) : Prog α Unit := do
  let emptyHeadPos ← getEmptyHeadPos
  if emptyHeadPos = ENDPOS then do
    setNextPos pos pos
    setPrevPos pos pos
    setEmptyHeadPos pos
  else linkBefore pos emptyHeadPos

/-- A freed head gives its place to the next node: the middle part of `FreeNode`. -/
def leaveHead (pos : ℕ) : Prog α Unit := do
  if (← getHeadPos) = pos then setHeadPos (← getNextPos pos)

/-- `FreeNode`. -/
def freeNode (pos : ℕ) : Prog α Unit := do
  -- free node from list
  takeOut pos
  setIsUse pos false
  leaveHead pos
  -- insert node into empty list's tail
  decSize
  setIsUse pos false
  putEmptyNode pos

/-! ### List -/

/-- The position of `begin()`. -/
def beginPos : Prog α ℕ := getHeadPos

/-- The position of `end()`. -/
def endPos : Prog α ℕ := do getPrevPos (← getHeadPos)

/-- The position of `GetFront()`. -/
def getFront : Prog α ℕ := getHeadPos

/-- The position of `GetBack()`. -/
def getBack : Prog α ℕ := do getPrevPos (← getPrevPos (← getHeadPos))

/-- `iter + diff`, for a `diff` that is not negative. -/
def advance : ℕ → ℕ → Prog α ℕ
  | 0, pos => pure pos
  | diff + 1, pos => do advance diff (← getNextPos pos)

/-- `Insert` before the iterator at `iterPos`. -/
def insert (iterPos : ℕ) (val : α) : Prog α Bool := do
  if full (← get) then return false
  else do
    let pos ← getNewNodeAndInsert iterPos
    setData pos val
    return true

/-- `PushBack`. -/
def pushBack (val : α) : Prog α Bool := do
  if full (← get) then return false
  else do
    let pos ← getNewNodeAndInsert (← getPrevPos (← getHeadPos))
    setData pos val
    return true

/-- `PushFront`. -/
def pushFront (val : α) : Prog α Bool := do
  if full (← get) then return false
  else do
    let pos ← getNewNodeAndInsert (← getHeadPos)
    setData pos val
    return true

/-- `PopFront`. -/
def popFront : Prog α Bool := do
  if empty (← get) then return false
  else do
    freeNode (← getHeadPos)
    return true

/-- `PopBack`. -/
def popBack : Prog α Bool := do
  if empty (← get) then return false
  else do
    freeNode (← getPrevPos (← getHeadPos))
    return true

/-- `Erase` of the element at the iterator. -/
def erase (iterPos : ℕ) : Prog α Bool := do
  if empty (← get) then return false
  else do
    let _ ← getData iterPos
    -- move to empty list
    freeNode iterPos
    return true

end Lsf.ListState
