import Lsf.Container.BoundedList
import Lsf.Container.TreeInit
import Mathlib.Data.Nat.ModEq

/-!
# Storage for a capacity

`CalcByteSize` computes how many bytes a container of a capacity needs, in 64 bits. `Init` is given
these bytes and divides them by the size of a node. The quotient is kept as a `size_type`, which may
have fewer bits. One of the nodes is not for an element, and `max_size()` is one less.

`Init` of the tree takes the bytes as a `size_type` already, where the list and the queue take a
`size_t`. The tree and the list then write the nodes, among them node 1, which a container without
capacity does not have; the queue writes none.

## Main definitions

* `Sizes` — one instantiation of a template
* `treeInit`, `listInit`, `queueInit` — what `Init` keeps as `_max_size`, and the nodes that it
  writes
* `Right` — `max_size()` is the capacity, and only nodes up to it are written

## Main results

* `slotCount_calcByteSize_iff`, `slotCount_truncated_iff` — when the quotient is right
* `rbTree_init_isSome_iff`, `listState_init_isSome_iff` — a container needs a capacity
-/

namespace Lsf.InitStorage

/-- The bits of `size_type`, `sizeof(this_type)` and the size of a node, which for the queue is an
element. -/
structure Sizes where
  width : ℕ
  stateSize : ℕ
  nodeSize : ℕ
  width_le : width ≤ 64
  stateSize_lt : stateSize < 2 ^ 64
  nodeSize_pos : 0 < nodeSize

namespace Sizes

/-- `CalcByteSize`. The sum is an `int` if `size_type` is narrower. -/
def calcByteSize (L : Sizes) (size : ℕ) : ℕ :=
  ((size + 1) % 2 ^ max L.width 32 * L.nodeSize + L.stateSize) % 2 ^ 64

/-- The quotient in 64 bits, as a `size_type`. -/
def slotCount (L : Sizes) (byteSize : ℕ) : ℕ :=
  (byteSize + 2 ^ 64 - L.stateSize) % 2 ^ 64 / L.nodeSize % 2 ^ L.width

/-- One less, as a `size_type`. -/
def pred (L : Sizes) (pos : ℕ) : ℕ := (pos + 2 ^ L.width - 1) % 2 ^ L.width

end Sizes

/-- What `Init` leaves. -/
structure Init where
  maxSize : ℕ
  written : List ℕ

/-- The nodes that the loop of `Init` writes, three members of each. -/
def loopWrites (maxSize : ℕ) : List ℕ :=
  (List.range' 1 (maxSize - 1)).flatMap fun pos => [pos, pos, pos]

/-- `RBTreeState::Init(size_type byte_size)`. -/
def treeInit (L : Sizes) (byteSize : ℕ) : Init :=
  let maxSize := L.slotCount (byteSize % 2 ^ L.width)
  ⟨maxSize, loopWrites maxSize ++ [1, L.pred maxSize] ++ [0, 0, 0, 0]⟩

/-- `ListState::Init(size_t byte_size)`. -/
def listInit (L : Sizes) (byteSize : ℕ) : Init :=
  let maxSize := L.slotCount byteSize
  ⟨maxSize, [0, 0, 0] ++ loopWrites maxSize ++ [1, L.pred maxSize]⟩

/-- `QueueState::Init(size_t byte_size)`. -/
def queueInit (L : Sizes) (byteSize : ℕ) : Init := ⟨L.slotCount byteSize, []⟩

/-- `max_size()` is the capacity, and nothing is written outside the nodes up to it. -/
structure Right (L : Sizes) (n : ℕ) (i : Init) : Prop where
  maxSize : L.pred i.maxSize = n
  written : ∀ pos ∈ i.written, pos ≤ n

/-- The bytes that a capacity needs. -/
def bytes (L : Sizes) (n : ℕ) : ℕ := (n + 1) * L.nodeSize + L.stateSize

/-- What `size_type` keeps of the bytes is less than the state. The difference is then near
`2 ^ 64`, and by chance its quotient is right. -/
def WrapsBack (L : Sizes) (n : ℕ) : Prop :=
  bytes L n % 2 ^ L.width < L.stateSize ∧
    (2 ^ 64 + bytes L n % 2 ^ L.width - L.stateSize) / L.nodeSize ≡ n + 1 [MOD 2 ^ L.width]

/-! ### The number of nodes -/

section SlotCount

variable {L : Sizes} {n m : ℕ}

theorem pow_width_le (L : Sizes) : 2 ^ L.width ≤ 2 ^ 64 :=
  Nat.pow_le_pow_right (by decide) L.width_le

theorem slotCount_lt (L : Sizes) (byteSize : ℕ) : L.slotCount byteSize < 2 ^ L.width :=
  Nat.mod_lt _ (Nat.two_pow_pos _)

/-- The sum does not wrap for a capacity that `size_type` can count the nodes of. -/
theorem calcByteSize_eq (hn : n + 1 < 2 ^ L.width) : L.calcByteSize n = bytes L n % 2 ^ 64 := by
  have hlt : n + 1 < 2 ^ max L.width 32 :=
    Nat.lt_of_lt_of_le hn (Nat.pow_le_pow_right (by decide) (Nat.le_max_left _ _))
  rw [Sizes.calcByteSize, Nat.mod_eq_of_lt hlt, bytes]

/-- Fewer bytes than the nodes need are not enough for all of them. -/
theorem div_nodeSize_ne {d : ℕ} (hd : d < (n + 1) * L.nodeSize) : d / L.nodeSize % m ≠ n + 1 := by
  have hlt : d / L.nodeSize < n + 1 := (Nat.div_lt_iff_lt_mul L.nodeSize_pos).mpr hd
  exact Nat.ne_of_lt (Nat.lt_of_le_of_lt (Nat.mod_le _ _) hlt)

theorem div_nodeSize_eq (hn : n + 1 < m) : (n + 1) * L.nodeSize / L.nodeSize % m = n + 1 := by
  rw [Nat.mul_div_cancel _ L.nodeSize_pos, Nat.mod_eq_of_lt hn]

/-- **Bytes in 64 bits** give the right number of nodes exactly if the nodes have fewer than
`2 ^ 64`. -/
theorem slotCount_calcByteSize_iff (hn : n + 1 < 2 ^ L.width) :
    L.slotCount (L.calcByteSize n) = n + 1 ↔ (n + 1) * L.nodeSize < 2 ^ 64 := by
  have hstate := L.stateSize_lt
  have hrest : (bytes L n % 2 ^ 64 + 2 ^ 64 - L.stateSize) % 2 ^ 64 =
      (n + 1) * L.nodeSize % 2 ^ 64 := by
    rw [bytes]
    omega
  rw [calcByteSize_eq hn, Sizes.slotCount, hrest]
  by_cases hfits : (n + 1) * L.nodeSize < 2 ^ 64
  · rw [Nat.mod_eq_of_lt hfits]
    exact iff_of_true (div_nodeSize_eq hn) hfits
  · refine iff_of_false (div_nodeSize_ne ?_) hfits
    exact Nat.lt_of_lt_of_le (Nat.mod_lt _ (by decide)) (Nat.not_lt.mp hfits)

/-- **Bytes in fewer bits** do so exactly if they fit there, or by chance. -/
theorem slotCount_truncated_iff (hn : n + 1 < 2 ^ L.width) :
    L.slotCount (L.calcByteSize n % 2 ^ L.width) = n + 1 ↔
      bytes L n < 2 ^ L.width ∨ WrapsBack L n := by
  have hstate := L.stateSize_lt
  have hwidth := pow_width_le L
  have hkept : bytes L n % 2 ^ L.width < 2 ^ L.width := Nat.mod_lt _ (Nat.two_pow_pos _)
  have hpos : L.stateSize ≤ bytes L n := Nat.le_add_left _ _
  rw [calcByteSize_eq hn, Nat.mod_mod_of_dvd _ (Nat.pow_dvd_pow 2 L.width_le), Sizes.slotCount,
    WrapsBack]
  generalize hkeep : bytes L n % 2 ^ L.width = kept at hkept ⊢
  rcases Nat.lt_or_ge kept L.stateSize with hless | hmore
  · have hbig : ¬bytes L n < 2 ^ L.width := by
      intro hfits
      rw [Nat.mod_eq_of_lt hfits] at hkeep
      omega
    have hwrap : (kept + 2 ^ 64 - L.stateSize) % 2 ^ 64 = 2 ^ 64 + kept - L.stateSize := by omega
    rw [hwrap, or_iff_right hbig, and_iff_right hless, Nat.ModEq, Nat.mod_eq_of_lt hn]
  · have hrest : (kept + 2 ^ 64 - L.stateSize) % 2 ^ 64 = kept - L.stateSize := by omega
    rw [hrest, or_iff_left fun h => Nat.not_lt.mpr hmore h.1]
    by_cases hfits : bytes L n < 2 ^ L.width
    · rw [Nat.mod_eq_of_lt hfits] at hkeep
      rw [← hkeep, bytes, Nat.add_sub_cancel]
      exact iff_of_true (div_nodeSize_eq hn) hfits
    · refine iff_of_false (div_nodeSize_ne ?_) hfits
      rw [bytes] at hfits
      omega

theorem pred_eq_iff (hm : m < 2 ^ L.width) (hn : n + 1 < 2 ^ L.width) :
    L.pred m = n ↔ m = n + 1 := by
  rw [Sizes.pred]
  rcases m with _ | m
  · rw [Nat.zero_add, Nat.mod_eq_of_lt (by omega)]
    omega
  · rw [Nat.add_right_comm, Nat.add_sub_cancel, Nat.add_mod_right, Nat.mod_eq_of_lt (by omega)]
    omega

end SlotCount

/-! ### The nodes that are written -/

section Written

variable {L : Sizes} {n : ℕ}

theorem mem_loopWrites {maxSize pos : ℕ} :
    pos ∈ loopWrites maxSize ↔ 1 ≤ pos ∧ pos < maxSize := by
  simp only [loopWrites, List.mem_flatMap, List.mem_range'_1, List.mem_cons, List.not_mem_nil,
    or_false, or_self]
  constructor
  · rintro ⟨_, hpos, rfl⟩
    omega
  · intro hpos
    exact ⟨pos, by omega, rfl⟩

theorem mem_treeInit {byteSize pos : ℕ} : pos ∈ (treeInit L byteSize).written ↔
    pos = 0 ∨ pos = 1 ∨ pos = L.pred (treeInit L byteSize).maxSize ∨
      pos ∈ loopWrites (treeInit L byteSize).maxSize := by
  simp only [treeInit, List.mem_append, List.mem_cons, List.not_mem_nil, or_false, or_self]
  tauto

theorem mem_listInit {byteSize pos : ℕ} : pos ∈ (listInit L byteSize).written ↔
    pos = 0 ∨ pos = 1 ∨ pos = L.pred (listInit L byteSize).maxSize ∨
      pos ∈ loopWrites (listInit L byteSize).maxSize := by
  simp only [listInit, List.mem_append, List.mem_cons, List.not_mem_nil, or_false, or_self]
  tauto

/-- With the right number of nodes they are written up to the last, and node 1 always is. -/
theorem right_iff_of_nodes (hn : n + 1 < 2 ^ L.width) {i : Init} (hlt : i.maxSize < 2 ^ L.width)
    (hwritten : ∀ pos, pos ∈ i.written ↔
      pos = 0 ∨ pos = 1 ∨ pos = L.pred i.maxSize ∨ pos ∈ loopWrites i.maxSize) :
    Right L n i ↔ 1 ≤ n ∧ i.maxSize = n + 1 := by
  constructor
  · rintro ⟨hmax, hle⟩
    exact ⟨hle 1 ((hwritten 1).mpr (.inr (.inl rfl))), (pred_eq_iff hlt hn).mp hmax⟩
  · rintro ⟨hpos, hmax⟩
    have hpred := (pred_eq_iff hlt hn).mpr hmax
    refine ⟨hpred, fun pos hmem => ?_⟩
    rcases (hwritten pos).mp hmem with rfl | rfl | rfl | hloop
    · exact Nat.zero_le n
    · exact hpos
    · exact Nat.le_of_eq hpred
    · have hbound := mem_loopWrites.mp hloop
      omega

/-! ### The programs on a block of nodes -/

/-- The tree of a block of nodes faults without a capacity, as its `Init` writes node 1. -/
theorem rbTree_init_isSome_iff {α : Type} (L' : RBTree.Layout) (mem : ℕ → RBTree.Node α) (n : ℕ) :
    (RBTree.init L' mem (RBTree.calcByteSize L' n)).isSome = true ↔ 1 ≤ n := by
  rcases Nat.eq_zero_or_pos n with rfl | hpos
  · have hslots : (RBTree.calcByteSize L' 0 - L'.stateSize) / L'.nodeSize = 0 + 1 := by
      rw [RBTree.calcByteSize, Nat.add_sub_cancel, Nat.mul_div_cancel _ L'.nodeSize_pos]
    refine iff_of_false ?_ (Nat.not_succ_le_zero 0)
    simp only [RBTree.init, hslots]
    exact Bool.false_ne_true
  · obtain ⟨s, d, hs, -⟩ := RBTree.exists_init L' mem hpos
    exact iff_of_true (Option.isSome_of_mem hs) hpos

theorem listState_init_isSome_iff {α : Type} (L' : ListState.Layout) (mem : ℕ → ListState.Node α)
    (n : ℕ) : (ListState.init L' mem (ListState.calcByteSize L' n)).isSome = true ↔ 1 ≤ n := by
  rcases Nat.eq_zero_or_pos n with rfl | hpos
  · have hslots : (ListState.calcByteSize L' 0 - L'.stateSize) / L'.nodeSize = 0 + 1 := by
      rw [ListState.calcByteSize, Nat.add_sub_cancel, Nat.mul_div_cancel _ L'.nodeSize_pos]
    refine iff_of_false ?_ (Nat.not_succ_le_zero 0)
    simp only [ListState.init, hslots]
    exact Bool.false_ne_true
  · obtain ⟨s, hs, -⟩ := ListState.exists_init L' mem hpos
    exact iff_of_true (Option.isSome_of_mem hs) hpos

/-- Where `Init` is right it keeps as many nodes as the program on a block of them. -/
theorem rbTree_init_maxSize {α : Type} (L' : RBTree.Layout) (mem : ℕ → RBTree.Node α)
    (hn : n + 1 < 2 ^ L.width) (h : Right L n (treeInit L (L.calcByteSize n))) :
    ∃ s, RBTree.init L' mem (RBTree.calcByteSize L' n) = some s ∧
      s.maxSize = (treeInit L (L.calcByteSize n)).maxSize := by
  have hmax : (treeInit L (L.calcByteSize n)).maxSize = n + 1 :=
    (pred_eq_iff (slotCount_lt L _) hn).mp h.maxSize
  have hpos : 1 ≤ n := h.written 1 (mem_treeInit.mpr (.inr (.inl rfl)))
  obtain ⟨s, d, hs, hrep⟩ := RBTree.exists_init L' mem hpos
  exact ⟨s, hs, hrep.maxSize.trans hmax.symm⟩

theorem listState_init_maxSize {α : Type} (L' : ListState.Layout) (mem : ℕ → ListState.Node α)
    (hn : n + 1 < 2 ^ L.width) (h : Right L n (listInit L (L.calcByteSize n))) :
    ∃ s, ListState.init L' mem (ListState.calcByteSize L' n) = some s ∧
      s.maxSize = (listInit L (L.calcByteSize n)).maxSize := by
  have hmax : (listInit L (L.calcByteSize n)).maxSize = n + 1 :=
    (pred_eq_iff (slotCount_lt L _) hn).mp h.maxSize
  have hpos : 1 ≤ n := h.written 1 (mem_listInit.mpr (.inr (.inl rfl)))
  obtain ⟨s, hs, hrep, -⟩ := ListState.exists_init L' mem hpos
  exact ⟨s, hs, hrep.rings.maxSize.trans hmax.symm⟩

/-- **Init is right** for the tree if the bytes fit in `size_type`, or by chance, and for the list
if the nodes have fewer than `2 ^ 64` bytes, where there is a capacity, and for the queue if its
elements have. -/
theorem init_right_iff (L : Sizes) (n : ℕ) (hn : n + 1 < 2 ^ L.width) :
    (Right L n (treeInit L (L.calcByteSize n)) ↔
      1 ≤ n ∧ (bytes L n < 2 ^ L.width ∨ WrapsBack L n)) ∧
    (Right L n (listInit L (L.calcByteSize n)) ↔ 1 ≤ n ∧ (n + 1) * L.nodeSize < 2 ^ 64) ∧
    (Right L n (queueInit L (L.calcByteSize n)) ↔ (n + 1) * L.nodeSize < 2 ^ 64) := by
  refine ⟨?_, ?_, ?_⟩
  · rw [← slotCount_truncated_iff hn]
    exact right_iff_of_nodes hn (slotCount_lt L _) fun pos => mem_treeInit
  · rw [← slotCount_calcByteSize_iff hn]
    exact right_iff_of_nodes hn (slotCount_lt L _) fun pos => mem_listInit
  · rw [← slotCount_calcByteSize_iff hn]
    constructor
    · exact fun h => (pred_eq_iff (slotCount_lt L _) hn).mp h.maxSize
    · exact fun h => ⟨(pred_eq_iff (slotCount_lt L _) hn).mpr h, fun pos hpos =>
        absurd hpos List.not_mem_nil⟩

/-- Numbers of 32 bits in a tree with positions of 16 bits. -/
def intTree : Sizes := ⟨16, 12, 16, by decide, by decide, by decide⟩

theorem intTree_right : Right intTree 1000 (treeInit intTree (intTree.calcByteSize 1000)) ∧
    Right intTree 1000 (listInit intTree (intTree.calcByteSize 1000)) ∧
    Right intTree 1000 (queueInit intTree (intTree.calcByteSize 1000)) := by
  obtain ⟨htree, hlist, hqueue⟩ := init_right_iff intTree 1000 (by decide)
  exact ⟨htree.mpr ⟨by decide, .inl (by decide)⟩, hlist.mpr ⟨by decide, by decide⟩,
    hqueue.mpr (by decide)⟩

/-- A tree for 5000 elements has room for 904, and a list without capacity writes a node that it
does not have. -/
theorem intTree_not_right : ¬Right intTree 5000 (treeInit intTree (intTree.calcByteSize 5000)) ∧
    ¬Right intTree 0 (listInit intTree (intTree.calcByteSize 0)) := by
  constructor
  · intro h
    have hn : 5000 + 1 < 2 ^ intTree.width := by decide
    have hcount := (pred_eq_iff (slotCount_lt intTree _) hn).mp h.maxSize
    rcases (slotCount_truncated_iff hn).mp hcount with hfits | hwraps
    · exact absurd hfits (by decide)
    · exact absurd hwraps.1 (by decide)
  · exact fun h => absurd (h.written 1 (by decide)) (by decide)

end Written

end Lsf.InitStorage
