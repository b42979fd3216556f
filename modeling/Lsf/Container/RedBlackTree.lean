import Lsf.Foundations.ColorTree
import Lsf.Foundations.Ensures
import Mathlib.Logic.Function.Basic
import Mathlib.Order.Lattice
import Mathlib.Data.Nat.Notation

/-!
# The red-black tree in a block of slots

`RBTreeState` keeps a red-black tree and the list of its unused nodes in one flat array of nodes;
a position is an index into that array, and position `NPOS` is the NIL node. The child fields of an
unused node are the links of the empty list.

Every access to a node is checked against the number of slots of the block: a program that touches
a position outside it faults, and so does a loop that has not stopped after as many rounds as there
are slots. The block is otherwise arbitrary memory, so `init` starts from any contents.

Elements are compared by a key. For a `Set` the key of an element is the element itself, for a
`Map` it is the key of the pair; the source's `==` and `<` of an element are those of its key.
-/

namespace Lsf.RBTree

/-- The color field of a node. -/
inductive Color
  | black
  | red
  | empty
  deriving DecidableEq, Repr

/-- One slot: the source's `RBTreeNode`. -/
structure Node (α : Type) where
  lchildPos : ℕ
  rchildPos : ℕ
  parentPos : ℕ
  data : α
  color : Color

/-- `RBTreeState` together with the block of nodes behind it. `slots` is the number of nodes the
block has room for. -/
structure State (α : Type) where
  size : ℕ
  maxSize : ℕ
  rootPos : ℕ
  emptyHeadPos : ℕ
  slots : ℕ
  node : ℕ → Node α

/-- The NIL position. -/
abbrev NPOS : ℕ := 0

/-- A program over the tree; it faults when it leaves the block or runs out of rounds. -/
abbrev Prog (α β : Type) := StateT (State α) Option β

variable {α κ : Type}

/-! ### Memory -/

/-- Read the node at a position of the block. -/
def load (pos : ℕ) : Prog α (Node α) := fun s =>
  if pos < s.slots then some (s.node pos, s) else none

/-- Change the node at a position of the block. -/
def store (pos : ℕ) (f : Node α → Node α) : Prog α Unit := fun s =>
  if pos < s.slots then
    some ((), { s with node := Function.update s.node pos (f (s.node pos)) })
  else none

/-- A loop that has used up its rounds. -/
def stuck {β : Type} : Prog α β := fun _ => none

/-- `GetRootPos`. -/
def getRootPos : Prog α ℕ := do
  return (← get).rootPos

/-- `_root_pos` is assigned. -/
def setRootPos (pos : ℕ) : Prog α Unit := modify fun s => { s with rootPos := pos }

/-- `_empty_head_pos` is read. -/
def getEmptyHeadPos : Prog α ℕ := do
  return (← get).emptyHeadPos

/-- `_empty_head_pos` is assigned. -/
def setEmptyHeadPos (pos : ℕ) : Prog α Unit := modify fun s => { s with emptyHeadPos := pos }

/-- `_size++`. -/
def incSize : Prog α Unit := modify fun s => { s with size := s.size + 1 }

/-- `_size--`. -/
def decSize : Prog α Unit := modify fun s => { s with size := s.size - 1 }

/-- `GetLChildPos`. -/
def getLChildPos (pos : ℕ) : Prog α ℕ :=
  if pos = NPOS then pure NPOS else do
    return (← load pos).lchildPos

/-- `GetRChildPos`. -/
def getRChildPos (pos : ℕ) : Prog α ℕ :=
  if pos = NPOS then pure NPOS else do
    return (← load pos).rchildPos

/-- `GetParentPos`. -/
def getParentPos (pos : ℕ) : Prog α ℕ := do
  return (← load pos).parentPos

/-- `GetColor`. -/
def getColor (pos : ℕ) : Prog α Color := do
  return (← load pos).color

/-- `*GetDataPtr(pos)`. -/
def getData (pos : ℕ) : Prog α α := do
  return (← load pos).data

/-- `SetLChildPos`. -/
def setLChildPos (pos lchildPos : ℕ) : Prog α Unit :=
  store pos fun x => { x with lchildPos := lchildPos }

/-- `SetRChildPos`. -/
def setRChildPos (pos rchildPos : ℕ) : Prog α Unit :=
  store pos fun x => { x with rchildPos := rchildPos }

/-- `SetParentPos`. -/
def setParentPos (pos parentPos : ℕ) : Prog α Unit :=
  store pos fun x => { x with parentPos := parentPos }

/-- `SetColor`. -/
def setColor (pos : ℕ) (color : Color) : Prog α Unit :=
  store pos fun x => { x with color := color }

/-- `*GetDataPtr(pos) = val`, and placement construction of `val` at `pos`. -/
def setData (pos : ℕ) (val : α) : Prog α Unit :=
  store pos fun x => { x with data := val }

/-- `full()`. -/
def full (s : State α) : Bool := s.size = s.maxSize - 1

/-- `empty()`. -/
def empty (s : State α) : Bool := s.size = 0

/-- `GetBrotherPos`, the other child of the parent. -/
def getBrotherPos (pos : ℕ) : Prog α ℕ :=
  if pos = NPOS then pure NPOS else do
    let parentPos ← getParentPos pos
    if (← getLChildPos parentPos) = pos then getRChildPos parentPos
    else getLChildPos parentPos

/-- The overload of `GetBrotherPos` that is told the parent, for a `pos` that may be `NPOS`. -/
def getBrotherPosOf (parentPos pos : ℕ) : Prog α ℕ :=
  if pos = NPOS then do
    if (← getLChildPos parentPos) = NPOS then getRChildPos parentPos
    else getLChildPos parentPos
  else getBrotherPos pos

/-! ### Init -/

/-- The rounds of the loop of `Init` from `pos` up to `_max_size`. -/
def initLoop : ℕ → ℕ → Prog α Unit
  | 0, _ => pure ()
  | rounds + 1, pos => do
    setLChildPos pos (pos - 1)
    setRChildPos pos (pos + 1)
    setColor pos .empty
    initLoop rounds (pos + 1)

/-- `Init`, once `_max_size` has been computed from the byte size. -/
def initNodes : Prog α Unit := do
  let maxSize := (← get).maxSize
  initLoop (maxSize - 1) 1
  setLChildPos 1 (maxSize - 1)
  setRChildPos (maxSize - 1) 1
  setColor NPOS .black
  setParentPos NPOS NPOS
  setLChildPos NPOS NPOS
  setRChildPos NPOS NPOS

/-- `sizeof(this_type)` and `sizeof(node_type)` of one instantiation of the template. -/
structure Layout where
  stateSize : ℕ
  nodeSize : ℕ
  nodeSize_pos : 0 < nodeSize

/-- `CalcByteSize`, in unbounded numbers. -/
def calcByteSize (L : Layout) (size : ℕ) : ℕ := (size + 1) * L.nodeSize + L.stateSize

/-- `Init` on a block of `byteSize` bytes whose nodes hold the arbitrary contents `mem`. -/
def init (L : Layout) (mem : ℕ → Node α) (byteSize : ℕ) : Option (State α) :=
  let maxSize := (byteSize - L.stateSize) / L.nodeSize
  (initNodes.run
    { size := 0, maxSize, rootPos := NPOS, emptyHeadPos := 1,
      slots := (byteSize - L.stateSize) / L.nodeSize, node := mem }).map (·.2)

/-! ### The empty list -/

/-- `GetNodeFromEmptyList`, which takes the first node of the list. -/
def getNodeFromEmptyList : Prog α ℕ := do
  let pos ← getEmptyHeadPos
  if (← getRChildPos pos) = pos then setEmptyHeadPos NPOS
  else do
    setLChildPos (← getRChildPos pos) (← getLChildPos pos)
    setRChildPos (← getLChildPos pos) (← getRChildPos pos)
    setEmptyHeadPos (← getRChildPos pos)
  return pos

/-- `InsertNodeToEmptyList`, which makes a node the head of the list. -/
def insertNodeToEmptyList (pos : ℕ) : Prog α Unit := do
  let head ← getEmptyHeadPos
  if head = NPOS then do
    setRChildPos pos pos
    setLChildPos pos pos
  else do
    setRChildPos pos head
    setLChildPos pos (← getLChildPos head)
    setLChildPos (← getRChildPos pos) pos
    setRChildPos (← getLChildPos pos) pos
  setParentPos pos NPOS
  setColor pos .empty
  setEmptyHeadPos pos

/-! ### Rotate -/

/-- `RotateRight` and `RotateLeft` after their three reads: `top` takes the place of `pos`. -/
def replaceInParent (pos parent top : ℕ) : Prog α Unit := do
  if parent = NPOS then setRootPos top
  else if pos = (← getLChildPos parent) then setLChildPos parent top
  else setRChildPos parent top

/-- `RotateRight`. -/
def rotateRight (pos : ℕ) : Prog α Unit := do
  let parent ← getParentPos pos
  let lpos ← getLChildPos pos
  let lrpos ← getRChildPos lpos
  replaceInParent pos parent lpos
  setParentPos lpos parent
  setRChildPos lpos pos
  setParentPos pos lpos
  setLChildPos pos lrpos
  if lrpos ≠ NPOS then setParentPos lrpos pos

/-- `RotateLeft`. -/
def rotateLeft (pos : ℕ) : Prog α Unit := do
  let parent ← getParentPos pos
  let rpos ← getRChildPos pos
  let rlpos ← getLChildPos rpos
  replaceInParent pos parent rpos
  setParentPos rpos parent
  setLChildPos rpos pos
  setParentPos pos rpos
  setRChildPos pos rlpos
  if rlpos ≠ NPOS then setParentPos rlpos pos

/-! ### FindNode -/

section Find

variable [LinearOrder κ] (key : α → κ)

/-- The loop of `FindNode`, with the position and that of the parent. -/
def findNodeLoop (k : κ) : ℕ → ℕ → ℕ → Prog α (ℕ × ℕ)
  | 0, _, _ => stuck
  | rounds + 1, pos, parentPos =>
    if pos = NPOS then pure (pos, parentPos)
    else do
      let data ← getData pos
      if key data = k then pure (pos, parentPos)
      else if key data < k then do findNodeLoop k rounds (← getRChildPos pos) pos
      else do findNodeLoop k rounds (← getLChildPos pos) pos

/-- `FindNode` for an element with key `k`: its position and the position of its parent. -/
def findNode (k : κ) : Prog α (ℕ × ℕ) := do
  findNodeLoop key k (← get).slots (← getRootPos) NPOS

end Find

/-- The loop of `FindSmallestPos`. -/
def findSmallestLoop : ℕ → ℕ → Prog α ℕ
  | 0, _ => stuck
  | rounds + 1, pos => do
    let lchildPos ← getLChildPos pos
    if lchildPos ≠ NPOS then findSmallestLoop rounds lchildPos else pure pos

/-- `FindSmallestPos` of a subtree. -/
def findSmallestPosFrom (fromPos : ℕ) : Prog α ℕ := do
  if fromPos = NPOS then pure NPOS else findSmallestLoop (← get).slots fromPos

/-- `FindSmallestPos` of the tree. -/
def findSmallestPos : Prog α ℕ := do findSmallestPosFrom (← getRootPos)

/-- The loop of `FindBiggestPos`. -/
def findBiggestLoop : ℕ → ℕ → Prog α ℕ
  | 0, _ => stuck
  | rounds + 1, pos => do
    let rchildPos ← getRChildPos pos
    if rchildPos ≠ NPOS then findBiggestLoop rounds rchildPos else pure pos

/-- `FindBiggestPos` of a subtree. -/
def findBiggestPosFrom (fromPos : ℕ) : Prog α ℕ := do
  if fromPos = NPOS then pure NPOS else findBiggestLoop (← get).slots fromPos

/-- `FindBiggestPos` of the tree. -/
def findBiggestPos : Prog α ℕ := do findBiggestPosFrom (← getRootPos)

/-- The upward loop of `FindNextBigPos`. -/
def climbBigLoop : ℕ → ℕ → Prog α ℕ
  | 0, _ => stuck
  | rounds + 1, pos => do
    let parentPos ← getParentPos pos
    if parentPos = NPOS then pure NPOS
    else if (← getLChildPos parentPos) = pos then pure parentPos
    else climbBigLoop rounds parentPos

/-- `FindNextBigPos`. -/
def findNextBigPos (pos : ℕ) : Prog α ℕ := do
  if pos = NPOS then findSmallestPos
  else do
    let rchildPos ← getRChildPos pos
    if rchildPos ≠ NPOS then findSmallestPosFrom rchildPos
    else climbBigLoop (← get).slots pos

/-- The upward loop of `FindNextSmallPos`. -/
def climbSmallLoop : ℕ → ℕ → Prog α ℕ
  | 0, _ => stuck
  | rounds + 1, pos => do
    let parentPos ← getParentPos pos
    if parentPos = NPOS then pure NPOS
    else if (← getRChildPos parentPos) = pos then pure parentPos
    else climbSmallLoop rounds parentPos

/-- `FindNextSmallPos`. -/
def findNextSmallPos (pos : ℕ) : Prog α ℕ := do
  if pos = NPOS then findBiggestPos
  else do
    let lchildPos ← getLChildPos pos
    if lchildPos ≠ NPOS then findBiggestPosFrom lchildPos
    else climbSmallLoop (← get).slots pos

/-! ### GetNewNodeAndInsert -/

/-- `InsertFixup`. The second of the two inner cases carries the condition the source gives it,
which is that of the first. -/
def insertFixup : ℕ → ℕ → Prog α Unit
  | 0, _ => stuck
  | rounds + 1, newPos => do
    let parentPos ← getParentPos newPos
    -- [1]
    if parentPos = NPOS then setColor newPos .black
    -- [2]
    else if (← getColor parentPos) = .black then pure ()
    else do
      let grandParentPos ← getParentPos parentPos
      let unclePos ← getBrotherPos parentPos
      -- [3]
      if (← getColor unclePos) = .red then do
        setColor unclePos .black
        setColor parentPos .black
        setColor grandParentPos .red
        insertFixup rounds grandParentPos
      -- [4.1]
      else if (← getRChildPos parentPos) = newPos ∧
          (← getLChildPos grandParentPos) = parentPos then do
        rotateLeft parentPos
        insertFixup rounds parentPos
      -- [4.2]
      else if (← getRChildPos parentPos) = newPos ∧
          (← getLChildPos grandParentPos) = parentPos then do
        rotateRight parentPos
        insertFixup rounds parentPos
      -- [5]
      else do
        setColor parentPos .black
        setColor grandParentPos .red
        if parentPos = (← getLChildPos grandParentPos) then rotateRight grandParentPos
        else rotateLeft grandParentPos

section Insert

variable [LinearOrder κ] (key : α → κ)

/-- Hang the new node below the parent `FindNode` returned. -/
def linkNewNode (newPos parentPos : ℕ) (k : κ) : Prog α Unit := do
  setLChildPos newPos NPOS
  setRChildPos newPos NPOS
  setParentPos newPos parentPos
  setColor newPos .red
  if parentPos = NPOS then setRootPos newPos
  else if key (← getData parentPos) < k then setRChildPos parentPos newPos
  else setLChildPos parentPos newPos

/-- `GetNewNodeAndInsert` for an element with key `k`: the new position, or `NPOS`. -/
def getNewNodeAndInsert (k : κ) : Prog α ℕ := do
  let (pos, parentPos) ← findNode key k
  if pos ≠ NPOS then pure NPOS
  else do
    incSize
    let newPos ← getNodeFromEmptyList
    linkNewNode key newPos parentPos k
    insertFixup (← get).slots newPos
    return newPos

end Insert

/-! ### EraseNode -/

/-- `DeleteAndFreeNode`, which puts the replacement in the place of the node. -/
def deleteAndFreeNode (pos replacePos : ℕ) : Prog α Unit := do
  if pos = NPOS then pure ()
  else do
    let parentPos ← getParentPos pos
    replaceInParent pos parentPos replacePos
    if replacePos ≠ NPOS then setParentPos replacePos parentPos
    insertNodeToEmptyList pos

/-- `brother_pos`, `blchild_pos` and `brchild_pos` of `EraseFixup`. -/
structure Brother where
  pos : ℕ
  lchildPos : ℕ
  rchildPos : ℕ

/-- `blchild_pos` or `brchild_pos`. -/
def Brother.childPos : Side → Brother → ℕ
  | .left, b => b.lchildPos
  | .right, b => b.rchildPos

/-- The brother and its children, as the loop of `EraseFixup` reads them. -/
def calcBrother (parentPos pos : ℕ) : Prog α Brother := do
  let brotherPos ← getBrotherPosOf parentPos pos
  let blchildPos ← getLChildPos brotherPos
  let brchildPos ← getRChildPos brotherPos
  return ⟨brotherPos, blchildPos, brchildPos⟩

/-! The steps [1], [4] and [5] of `EraseFixup` come twice in the source: for a `pos` that is the
left child, and mirrored for a `pos` that is the right child. They are given once, for the side on
which `pos` has to be. -/

/-- `GetLChildPos` and `GetRChildPos`. -/
def getChildPos : Side → ℕ → Prog α ℕ
  | .left, pos => getLChildPos pos
  | .right, pos => getRChildPos pos

/-- `RotateRight` and `RotateLeft`: the child on the given side comes up. -/
def rotate : Side → ℕ → Prog α Unit
  | .left, pos => rotateRight pos
  | .right, pos => rotateLeft pos

/-- Step [1]: a red brother. -/
def turnRedBrother (side : Side) (parentPos pos : ℕ) (brother : Brother) : Prog α Brother := do
  if (← getColor brother.pos) = .red ∧ (← getChildPos side parentPos) = pos then do
    setColor parentPos .red
    setColor brother.pos .black
    rotate side.other parentPos
    calcBrother parentPos pos
  else pure brother

/-- Step [4]: the child of the brother next to `pos` is red, the other one is black. -/
def turnRedNephew (side : Side) (parentPos pos : ℕ) (brother : Brother) : Prog α Brother := do
  if (← getChildPos side parentPos) = pos ∧ (← getColor (brother.childPos side)) = .red ∧
      (← getColor (brother.childPos side.other)) = .black then do
    setColor brother.pos .red
    setColor (brother.childPos side) .black
    rotate side brother.pos
    calcBrother parentPos pos
  else pure brother

/-- Step [5]: the child of the brother away from `pos` is red. -/
def turnBrother (side : Side) (parentPos pos : ℕ) (brother : Brother) : Prog α Unit := do
  if (← getChildPos side parentPos) = pos ∧
      (← getColor (brother.childPos side.other)) = .red then do
    setColor brother.pos (← getColor parentPos)
    setColor parentPos .black
    setColor (brother.childPos side.other) .black
    rotate side.other parentPos

/-- `EraseFixup` for a `pos` whose paths miss one black node. -/
def eraseFixup : ℕ → ℕ → ℕ → Prog α Unit
  | 0, _, _ => stuck
  | rounds + 1, parentPos, pos => do
    if parentPos = NPOS then pure ()
    else do
      let brother ← calcBrother parentPos pos
      -- [1]
      let brother ← turnRedBrother .left parentPos pos brother
      let brother ← turnRedBrother .right parentPos pos brother
      -- [2]
      if (← getColor parentPos) = .black ∧ (← getColor brother.pos) = .black ∧
          (← getColor brother.lchildPos) = .black ∧ (← getColor brother.rchildPos) = .black then do
        if brother.pos ≠ NPOS then setColor brother.pos .red
        eraseFixup rounds (← getParentPos parentPos) parentPos
      -- [3]
      else if (← getColor parentPos) = .red ∧ (← getColor brother.pos) = .black ∧
          (← getColor brother.lchildPos) = .black ∧ (← getColor brother.rchildPos) = .black then do
        setColor parentPos .black
        if brother.pos ≠ NPOS then setColor brother.pos .red
      else do
        -- [4]
        let brother ← turnRedNephew .left parentPos pos brother
        let brother ← turnRedNephew .right parentPos pos brother
        -- [5]
        turnBrother .left parentPos pos brother
        turnBrother .right parentPos pos brother

/-- The part of `EraseNode` that removes a node with at most one child. -/
def eraseLeafward (pos parentPos lchildPos rchildPos : ℕ) : Prog α Unit := do
  let color ← getColor pos
  -- [2.1]
  if color = .red ∧ lchildPos ≠ NPOS then deleteAndFreeNode pos lchildPos
  else if color = .red ∧ rchildPos ≠ NPOS then deleteAndFreeNode pos rchildPos
  else if color = .red ∧ lchildPos = NPOS ∧ rchildPos = NPOS then deleteAndFreeNode pos NPOS
  -- [2.2]
  else if color = .black ∧ (← getColor lchildPos) = .red then do
    setColor lchildPos .black
    deleteAndFreeNode pos lchildPos
  else if color = .black ∧ (← getColor rchildPos) = .red then do
    setColor rchildPos .black
    deleteAndFreeNode pos rchildPos
  -- [2.3]
  else if color = .black ∧ lchildPos ≠ NPOS then do
    deleteAndFreeNode pos lchildPos
    eraseFixup (← get).slots parentPos lchildPos
  else if color = .black ∧ rchildPos ≠ NPOS then do
    deleteAndFreeNode pos rchildPos
    eraseFixup (← get).slots parentPos rchildPos
  else if color = .black ∧ lchildPos = NPOS ∧ rchildPos = NPOS then do
    deleteAndFreeNode pos NPOS
    eraseFixup (← get).slots parentPos NPOS

/-- `EraseNode` on the pair `FindNode` returned. -/
def eraseNode (pos parentPos : ℕ) : Prog α Unit := do
  decSize
  let lchildPos ← getLChildPos pos
  let rchildPos ← getRChildPos pos
  -- [1]
  if lchildPos ≠ NPOS ∧ rchildPos ≠ NPOS then do
    let lbiggestPos ← findBiggestPosFrom lchildPos
    setData pos (← getData lbiggestPos)
    let parentPos ← getParentPos lbiggestPos
    let lchildPos ← getLChildPos lbiggestPos
    let rchildPos ← getRChildPos lbiggestPos
    eraseLeafward lbiggestPos parentPos lchildPos rchildPos
  else eraseLeafward pos parentPos lchildPos rchildPos

end Lsf.RBTree
