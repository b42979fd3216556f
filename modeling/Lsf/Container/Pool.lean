import Lsf.Container.BoundedList

/-!
# Pools

A `Pool` gives out the nodes of a `ListState` by their indexes. `Malloc` takes a node from the empty
list and puts it at the end of the list, and `Free` puts it back; with an index that is not
allocated `Free` and `Get` throw.

What a pool is for is the list of the indexes that are allocated, in the order of their allocation,
each with the value that was stored there last. Which index `Malloc` chooses is left open.

## Main definitions

* `Pool.malloc`, `Pool.free`, `Pool.get`, … — the source's functions
* `poolSpec` — what the operations do to the allocated indexes
* `ShowsPool` — what can be seen of a pool

## Main results

* `pool_allocates`
-/

namespace Lsf.ListState

variable {α : Type}

/-! ### The functions -/

namespace Pool

/-- `Malloc`, or none where it throws. -/
def malloc (val : α) : Prog α (Option ℕ) := do
  if full (← get) then return none
  else do
    let pos ← getNewNodeAndInsert (← getPrevPos (← getHeadPos))
    setData pos val
    return some pos

/-- `Free`, or none where it throws. -/
def free (index : ℕ) : Prog α (Option ℕ) := do
  match ← getDataPtr index with
  | none => return none
  | some _ => do
    -- move to empty list
    freeNode index
    return some index

/-- `GetPtr`. -/
def getPtr (index : ℕ) : Prog α (Option ℕ) := getDataPtr index

/-- `Get`, or none where it throws. -/
def get (index : ℕ) : Prog α (Option α) := do
  match ← getDataPtr index with
  | none => return none
  | some ptr => return some (← load ptr).data

/-- `Get(index) = val`, or none where it throws. -/
def set (index : ℕ) (val : α) : Prog α (Option ℕ) := do
  match ← getDataPtr index with
  | none => return none
  | some ptr => do
    store ptr fun x => { x with data := val }
    return some index

/-- The indexes from `pos` to `end()`, by `++iter` and `GetPos`. -/
def walkLoop : ℕ → ℕ → Prog α (List ℕ)
  | 0, _ => stuck
  | rounds + 1, pos => do
    if pos = (← endPos) then return []
    else do
      let rest ← walkLoop rounds (← getNextPos pos)
      return pos :: rest

/-- `for (iter = begin(); iter != end(); ++iter)`. -/
def walk : Prog α (List ℕ) := do
  walkLoop (← MonadState.get).slots (← beginPos)

end Pool

/-! ### Allocation -/

/-- The two forms of `Malloc`, `Free`, and an assignment through a reference. -/
inductive PoolOp (α : Type)
  | malloc
  | mallocVal (val : α)
  | free (index : ℕ)
  | set (index : ℕ) (val : α)

/-- A call of the pool. -/
def poolStep [Inhabited α] : PoolOp α → Prog α (Option ℕ)
  | .malloc => Pool.malloc default
  | .mallocVal val => Pool.malloc val
  | .free index => Pool.free index
  | .set index val => Pool.set index val

/-- The allocated indexes. -/
def indexes (t : List (ℕ × α)) : List ℕ := t.map Prod.fst

/-- `Malloc` throws if `n` indexes are allocated, and gives an index that is not allocated else. -/
def mallocSpec (n : ℕ) (val : α) (t : List (ℕ × α)) (r : Option ℕ) (t' : List (ℕ × α)) : Prop :=
  if t.length = n then r = none ∧ t' = t
  else ∃ i, 1 ≤ i ∧ i ≤ n ∧ i ∉ indexes t ∧ r = some i ∧ t' = t ++ [(i, val)]

/-- What an operation answers and does to the allocated indexes of a pool of capacity `n`. -/
def poolSpec [Inhabited α] (n : ℕ) :
    PoolOp α → List (ℕ × α) → Option ℕ → List (ℕ × α) → Prop
  | .malloc, t, r, t' => mallocSpec n default t r t'
  | .mallocVal val, t, r, t' => mallocSpec n val t r t'
  | .free i, t, r, t' =>
    if i ∈ indexes t then r = some i ∧ t' = t.filter (fun e => e.1 ≠ i) else r = none ∧ t' = t
  | .set i val, t, r, t' =>
    if i ∈ indexes t then r = some i ∧ t' = t.map (fun e => if e.1 = i then (i, val) else e)
    else r = none ∧ t' = t

/-- What can be seen of the pool: the indexes from `begin()` to `end()`, `GetPtr` and `Get` of any
index, and that nothing happens when an index is freed that is not allocated. -/
structure ShowsPool (s : State α) (t : List (ℕ × α)) : Prop where
  nodup : (indexes t).Nodup
  walk : Ensures Pool.walk s fun is s' => s' = s ∧ is = indexes t
  getPtr : ∀ i, Ensures (Pool.getPtr i) s fun ptr s' => s' = s ∧ (ptr.isSome = true ↔ i ∈ indexes t)
  get : ∀ i val, (i, val) ∈ t → Ensures (Pool.get i) s fun x s' => s' = s ∧ x = some val
  free : ∀ i, i ∉ indexes t → Ensures (Pool.free i) s fun r s' => s' = s ∧ r = none

/-- The used ring has the allocated indexes in order, and no other node is in use. -/
structure PoolRep (s : State α) (n : ℕ) (t : List (ℕ × α)) (free : List ℕ) : Prop where
  rep : Rep s n (indexes t) free
  unused : ∀ pos < s.slots, s.isUse pos = true → pos ∈ indexes t
  data : ∀ e ∈ t, s.data e.1 = e.2

namespace PoolRep

variable {s : State α} {n i : ℕ} {t : List (ℕ × α)} {free : List ℕ} {val : α}

theorem nodup (h : PoolRep s n t free) : (indexes t).Nodup :=
  (List.nodup_cons.mp h.rep.rings.nodup_used).2

theorem rings_slots (h : PoolRep s n t free) : s.slots = n + 1 := h.rep.rings.slots

/-- `GetDataPtr` tells what is allocated. -/
theorem ensures_getDataPtr (h : PoolRep s n t free) {Q : Option ℕ → State α → Prop} :
    Ensures (getDataPtr i) s Q ↔ Q (if i ∈ indexes t then some i else none) s := by
  by_cases hi : i < s.slots
  · rw [ListState.ensures_getDataPtr hi h.rep.rings.slots_eq]
    by_cases hmem : i ∈ indexes t
    · rw [if_pos (h.rep.inUse i hmem), if_pos hmem]
    · rw [if_neg (fun hu => hmem (h.unused i hi hu)), if_neg hmem]
  · have hmem : i ∉ indexes t := fun hmem => hi (h.rep.lt_slots (List.mem_cons_of_mem _ hmem))
    have hge : i ≥ s.maxSize := by
      rw [← h.rep.rings.slots_eq]
      omega
    rw [getDataPtr, ensures_bind, ensures_get, if_pos hge, ensures_pure, if_neg hmem]

theorem ensures_walkLoop {pre post : List ℕ} {rounds : ℕ} (h : Rep s n (pre ++ post) free)
    (hrounds : post.length < rounds) :
    Ensures (Pool.walkLoop rounds (post.headD ENDPOS)) s fun is s' => s' = s ∧ is = post := by
  induction rounds generalizing pre post with
  | zero => exact absurd hrounds (Nat.not_lt_zero _)
  | succ rounds ih =>
    rw [Pool.walkLoop, ensures_bind, h.ensures_endPos]
    cases post with
    | nil =>
      rw [List.headD_nil, if_pos rfl, ensures_pure]
      exact ⟨rfl, rfl⟩
    | cons p post =>
      rw [List.headD_cons, if_neg (h.ne_endPos (by simp)), ensures_bind, h.ensures_next]
      refine (@ih (pre ++ [p]) post (by simpa using h) (by simpa using hrounds)).bind ?_
      rintro _ s ⟨rfl, rfl⟩
      rw [ensures_pure]
      exact ⟨rfl, rfl⟩

theorem shows (h : PoolRep s n t free) : ShowsPool s t where
  nodup := h.nodup
  walk := by
    have hlen := h.rep.length_add
    have hslots := h.rep.rings.slots
    rw [Pool.walk, ensures_bind, ensures_get, ensures_bind, beginPos, ensures_getHeadPos,
      h.rep.head]
    exact @ensures_walkLoop _ _ _ _ [] _ _ h.rep (by omega)
  getPtr i := by
    rw [Pool.getPtr, h.ensures_getDataPtr]
    refine ⟨rfl, ?_⟩
    split_ifs with hmem
    · exact iff_of_true rfl hmem
    · exact iff_of_false Bool.false_ne_true hmem
  get i val hmem := by
    have hi : i ∈ indexes t := List.mem_map_of_mem (f := Prod.fst) hmem
    rw [Pool.get, ensures_bind, h.ensures_getDataPtr, if_pos hi, ensures_bind,
      ensures_load (h.rep.lt_slots (List.mem_cons_of_mem _ hi)), ensures_pure]
    exact ⟨rfl, congrArg some (h.data (i, val) hmem)⟩
  free i hmem := by
    rw [Pool.free, ensures_bind, h.ensures_getDataPtr, if_neg hmem, ensures_pure]
    exact ⟨rfl, rfl⟩

/-! ### Operations -/

theorem malloc (h : PoolRep s n t free) (val : α) : Ensures (Pool.malloc val) s fun r s' =>
    ∃ t', mallocSpec n val t r t' ∧ ∃ free', PoolRep s' n t' free' := by
  have hlen := h.rep.length_add
  have ht : (indexes t).length = t.length := List.length_map ..
  rw [Pool.malloc, ensures_bind, ensures_get]
  cases free with
  | nil =>
    rw [if_pos (h.rep.full_iff.mpr rfl), ensures_pure]
    refine ⟨t, ?_, [], h⟩
    rw [mallocSpec, if_pos (by simpa [ht] using hlen)]
    exact ⟨rfl, rfl⟩
  | cons p free =>
    rw [if_neg (by simp [h.rep.full_iff]), ← bind_assoc]
    show Ensures (endPos >>= _) s _
    rw [ensures_bind, h.rep.ensures_endPos]
    have hrep : Rep s n (indexes t ++ []) (p :: free) := by simpa using h.rep
    refine hrep.getNewNodeAndInsert.bind ?_
    rintro q s₁ ⟨rfl, h₁, hdata, huse⟩
    have hnot : q ∉ indexes t := by
      have hq := h.rep.rings.not_mem_of_mem (x := q) (by simp)
      exact fun hmem => hq (List.mem_cons_of_mem _ hmem)
    have hpart := h.rep.rings.part.mem_iff (a := q)
    have hrange := List.mem_range'_1.mp (hpart.mp (by simp))
    rw [ensures_bind, ensures_setData (h₁.lt_slots (by simp)) h₁.rings.slots_eq
      (h₁.inUse q (by simp)), ensures_pure]
    have hindexes : indexes (t ++ [(q, val)]) = indexes t ++ [q] := by
      rw [indexes, List.map_append]
      rfl
    have hn : t.length ≠ n := by
      rw [← ht, ← hlen, List.length_cons]
      omega
    have hspec : mallocSpec n val t (some q) (t ++ [(q, val)]) := by
      rw [mallocSpec, if_neg hn]
      exact ⟨q, hrange.1, by omega, hnot, rfl, rfl⟩
    refine ⟨t ++ [(q, val)], hspec, free, ⟨?_, fun pos hpos hu => ?_, fun e he => ?_⟩⟩
    · rw [hindexes]
      exact ⟨h₁.rings.congr rfl rfl rfl rfl rfl, h₁.size, h₁.head, h₁.inUse⟩
    · have hu : s₁.isUse pos = true := hu
      rw [hindexes, List.mem_append, List.mem_singleton]
      by_cases hpq : pos = q
      · exact .inr hpq
      · rw [huse, Function.update_of_ne hpq] at hu
        refine .inl (h.unused pos ?_ hu)
        rw [h.rings_slots]
        exact Nat.lt_of_lt_of_eq hpos h₁.rings.slots
    · show Function.update s₁.data q val e.1 = e.2
      rw [hdata]
      obtain he | he := List.mem_append.mp he
      · have hne : e.1 ≠ q := fun heq => hnot (heq ▸ List.mem_map_of_mem he)
        rw [Function.update_of_ne hne, h.data e he]
      · rw [List.mem_singleton.mp he, Function.update_self]

theorem indexes_filter_ne {pre post : List ℕ} (ht : indexes t = pre ++ i :: post)
    (hi : i ∉ pre ++ post) : indexes (t.filter fun e => e.1 ≠ i) = pre ++ post := by
  have hkeep : ∀ l : List ℕ, i ∉ l → (l.filter fun j => j ≠ i) = l := by
    intro l hl
    refine List.filter_eq_self.mpr fun j hj => decide_eq_true ?_
    rintro rfl
    exact hl hj
  rw [List.mem_append, not_or] at hi
  have hfilter : indexes (t.filter fun e => e.1 ≠ i) = (indexes t).filter fun j => j ≠ i := by
    rw [indexes, indexes, List.filter_map]
    rfl
  rw [hfilter, ht, List.filter_append, hkeep pre hi.1, List.filter_cons_of_neg (by simp),
    hkeep post hi.2]

theorem freeIndex (h : PoolRep s n t free) (i : ℕ) : Ensures (Pool.free i) s fun r s' =>
    ∃ t', (if i ∈ indexes t then r = some i ∧ t' = t.filter (fun e => e.1 ≠ i)
      else r = none ∧ t' = t) ∧ ∃ free', PoolRep s' n t' free' := by
  rw [Pool.free, ensures_bind, h.ensures_getDataPtr]
  by_cases hi : i ∈ indexes t
  · obtain ⟨pre, post, ht⟩ := List.append_of_mem hi
    have hnodup := h.nodup
    rw [ht, List.perm_middle.nodup_iff, List.nodup_cons] at hnodup
    have hrep := h.rep
    rw [ht] at hrep
    rw [if_pos hi]
    refine hrep.freeNode.bind ?_
    rintro _ s' ⟨h', hdata, huse⟩
    have hindexes := indexes_filter_ne ht hnodup.1
    rw [ensures_pure]
    refine ⟨_, by rw [if_pos hi]; exact ⟨rfl, rfl⟩, free ++ [i], ⟨?_, fun pos hpos hu => ?_,
      fun e he => ?_⟩⟩
    · rw [hindexes]
      exact h'
    · have hne : pos ≠ i := by
        rintro rfl
        rw [huse, Function.update_self] at hu
        cases hu
      rw [huse, Function.update_of_ne hne] at hu
      have hmem := h.unused pos (by rwa [h.rings_slots, ← h'.rings.slots]) hu
      rw [ht] at hmem
      rw [hindexes]
      simp only [List.mem_append, List.mem_cons] at hmem ⊢
      tauto
    · rw [hdata]
      exact h.data e (List.mem_of_mem_filter he)
  · rw [if_neg hi, ensures_pure]
    exact ⟨t, by rw [if_neg hi]; exact ⟨rfl, rfl⟩, free, h⟩

theorem set (h : PoolRep s n t free) (i : ℕ) (val : α) : Ensures (Pool.set i val) s fun r s' =>
    ∃ t', (if i ∈ indexes t then r = some i ∧ t' = t.map (fun e => if e.1 = i then (i, val) else e)
      else r = none ∧ t' = t) ∧ ∃ free', PoolRep s' n t' free' := by
  rw [Pool.set, ensures_bind, h.ensures_getDataPtr]
  by_cases hi : i ∈ indexes t
  · have hlt := h.rep.lt_slots (List.mem_cons_of_mem _ hi)
    have hindexes : indexes (t.map fun e => if e.1 = i then (i, val) else e) = indexes t := by
      rw [indexes, indexes, List.map_map]
      refine List.map_congr_left fun e _ => ?_
      show (if e.1 = i then (i, val) else e).1 = e.1
      split_ifs with he
      · exact he.symm
      · rfl
    rw [if_pos hi]
    show Ensures (store i _ >>= _) s _
    rw [ensures_bind, ensures_store hlt, ensures_pure]
    show ∃ t', _ ∧ ∃ free', PoolRep (s.withNodes (Function.update s.next i (s.next i))
      (Function.update s.prev i (s.prev i)) (Function.update s.isUse i (s.isUse i))
      (Function.update s.data i val)) n t' free'
    rw [Function.update_eq_self, Function.update_eq_self, Function.update_eq_self]
    refine ⟨_, by rw [if_pos hi]; exact ⟨rfl, rfl⟩, free, ⟨?_, fun pos hpos hu => ?_,
      fun e he => ?_⟩⟩
    · rw [hindexes]
      exact ⟨h.rep.rings.congr rfl rfl rfl rfl rfl, h.rep.size, h.rep.head, h.rep.inUse⟩
    · rw [hindexes]
      exact h.unused pos hpos hu
    · obtain ⟨e, hmem, rfl⟩ := List.mem_map.mp he
      rw [State.data_withNodes]
      split_ifs with he
      · rw [Function.update_self]
      · rw [Function.update_of_ne he, h.data e hmem]
  · rw [if_neg hi, ensures_pure]
    exact ⟨t, by rw [if_neg hi]; exact ⟨rfl, rfl⟩, free, h⟩

theorem step [Inhabited α] (op : PoolOp α) (h : PoolRep s n t free) :
    Ensures (poolStep op) s fun r s' =>
      ∃ t', poolSpec n op t r t' ∧ ∃ free', PoolRep s' n t' free' := by
  cases op with
  | malloc => exact h.malloc default
  | mallocVal val => exact h.malloc val
  | free i => exact h.freeIndex i
  | set i val => exact h.set i val

end PoolRep

/-- **A pool of capacity `n` gives out the indexes from 1 to `n`**, from `Init` on `CalcByteSize(n)`
bytes, whatever the memory held. Every access to a node that is no slot would end the run. -/
theorem pool_allocates [Inhabited α] {n : ℕ} (hn : 1 ≤ n) (L : Layout) (mem : ℕ → Node α) :
    ∃ s₀, init L mem (calcByteSize L n) = some s₀ ∧ s₀.slots = n + 1 ∧
      ∀ ops, Ensures (runAll poolStep ops) s₀ fun rs s =>
        ∃ t, PermitsAll (poolSpec n) ops [] rs t ∧ ShowsPool s t := by
  obtain ⟨s, hinit, hrep, hunused⟩ := exists_init L mem hn
  have hpool : PoolRep s n ([] : List (ℕ × α)) (List.range' 1 n) :=
    ⟨hrep, fun pos hpos hu => absurd hu (by simp [hunused pos hpos]), by simp⟩
  refine ⟨s, hinit, hrep.rings.slots, fun ops => ?_⟩
  have hrun := @runAll_permits _ _ _ _ _ _ (fun s t => ∃ free, PoolRep s n t free)
    (fun op _ _ ⟨_, h⟩ => h.step op) ops _ _ ⟨_, hpool⟩
  exact hrun.mono fun rs s' ⟨t, hpermits, _, h⟩ => ⟨t, hpermits, h.shows⟩

/-- A pool of three indexes refuses a fourth, and an index that was freed is allocated again. -/
theorem pool_of_three_allocates : ∃ s₀, init ⟨8, 4, Nat.succ_pos 3⟩
    (fun _ => (⟨0, 0, 0, false⟩ : Node ℕ)) (calcByteSize ⟨8, 4, Nat.succ_pos 3⟩ 3) = some s₀ ∧
      s₀.slots = 3 + 1 ∧ Ensures (runAll poolStep [.mallocVal 5, .malloc, .mallocVal 7, .malloc,
        .free 2, .set 3 8, .free 2, .mallocVal 9]) s₀ fun rs s =>
          ∃ t, PermitsAll (poolSpec 3) [.mallocVal 5, .malloc, .mallocVal 7, .malloc, .free 2,
            .set 3 8, .free 2, .mallocVal 9] [] rs t ∧ ShowsPool s t := by
  obtain ⟨s, hinit, hslots, hruns⟩ :=
    pool_allocates (n := 3) (by decide) ⟨8, 4, Nat.succ_pos 3⟩ fun _ => ⟨0, 0, 0, false⟩
  exact ⟨s, hinit, hslots, hruns _⟩

end Lsf.ListState
