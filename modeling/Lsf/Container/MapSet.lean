import Lsf.Container.RedBlackTree

/-!
# Map and Set

The operations of `Map` and `Set` are the same few steps around the tree: a `Map` looks elements up
by the key of its pairs, a `Set` by the elements themselves. They are written once, for a key
function, and `Map` and `Set` apply them to their own.

What a destructor leaves of an element is taken from the outside. A trivial destructor leaves the
element as it is, and what others leave may be anything.
-/

namespace Lsf.RBTree

variable {α κ : Type}

/-! ### The common steps -/

section Container

variable [LinearOrder κ] (key : α → κ) (dtor : α → α)

/-- `Insert` of an element. -/
def insertElem (val : α) : Prog α Bool := do
  if full (← get) then return false
  else do
    let pos ← getNewNodeAndInsert key (key val)
    if pos = NPOS then return false
    else do
      setData pos val
      return true

/-- `Erase` of the element with a key. -/
def eraseElem (k : κ) : Prog α Bool := do
  if empty (← get) then return false
  else do
    let (pos, parentPos) ← findNode key k
    if pos = NPOS then return false
    else do
      eraseNode pos parentPos
      -- call destructor
      setData pos (dtor (← getData pos))
      return true

/-- `Find`: the position of the iterator it returns. -/
def findElem (k : κ) : Prog α ℕ := do
  let (pos, _) ← findNode key k
  if pos = NPOS then return NPOS
  else return pos

end Container

/-- The position of `begin()`. -/
def beginPos : Prog α ℕ := findSmallestPos

/-- The position of `end()`. -/
def endPos : Prog α ℕ := pure NPOS

/-- The elements from `iter` to `end()`, by `++iter`. -/
def walkForwardLoop : ℕ → ℕ → Prog α (List α)
  | 0, _ => stuck
  | rounds + 1, iter => do
    if iter = (← endPos) then return []
    else do
      let elem ← getData iter
      let rest ← walkForwardLoop rounds (← findNextBigPos iter)
      return elem :: rest

/-- `for (iter = begin(); iter != end(); ++iter)`. -/
def walkForward : Prog α (List α) := do
  walkForwardLoop (← get).slots (← beginPos)

/-- The elements from `iter` down to `begin()`, by `--iter`. -/
def walkBackwardLoop : ℕ → ℕ → Prog α (List α)
  | 0, _ => stuck
  | rounds + 1, iter => do
    if iter = (← beginPos) then return []
    else do
      let iter ← findNextSmallPos iter
      let elem ← getData iter
      let rest ← walkBackwardLoop rounds iter
      return elem :: rest

/-- `for (iter = end(); iter != begin();) use(*--iter)`. -/
def walkBackward : Prog α (List α) := do
  walkBackwardLoop (← get).slots (← endPos)

/-- `size()`. -/
def getSize : Prog α ℕ := do
  return (← get).size

/-! ### Map -/

/-- The elements of a `Map`. -/
structure MapData (κ υ : Type) where
  key : κ
  value : υ
  deriving DecidableEq, Repr

namespace Map

variable {υ : Type} [LinearOrder κ]

/-- `Map::Insert`. -/
def insert (key : κ) (val : υ) : Prog (MapData κ υ) Bool :=
  insertElem MapData.key ⟨key, val⟩

/-- `Map::Erase`, with the destructor of the elements. -/
def erase (dtor : MapData κ υ → MapData κ υ) (key : κ) : Prog (MapData κ υ) Bool :=
  eraseElem MapData.key dtor key

/-- `Map::Find`. -/
def find (key : κ) : Prog (MapData κ υ) ℕ :=
  findElem MapData.key key

/-- `operator[]`: the position of the value it refers to. It throws, here returns none, when the
key is absent and cannot be inserted. -/
def index [Inhabited υ] (key : κ) : Prog (MapData κ υ) (Option ℕ) := do
  let iter ← find key
  if iter = (← endPos) then do
    if !(← insert key default) then return none
    else do
      let iter ← find key
      return some iter
  else return some iter

end Map

/-! ### Set -/

namespace Set

variable [LinearOrder κ]

/-- `Set::Insert`. -/
def insert (val : κ) : Prog κ Bool :=
  insertElem id val

/-- `Set::Erase`, with the destructor of the elements. -/
def erase (dtor : κ → κ) (val : κ) : Prog κ Bool :=
  eraseElem id dtor val

/-- `Set::Find`. -/
def find (val : κ) : Prog κ ℕ :=
  findElem id val

end Set

end Lsf.RBTree
