import Lsf.Container.BoundedOrderedMap

/-!
# Erasing while walking

An iterator is a position. The loop of `test_iter_erase` moves its iterator on before it erases the
element that the iterator was at. Erasing a node with two children gives another slot back than that
node's, but always the slot of its predecessor, where the iterator has been before: the position
that the iterator has moved on to, and all after it, keep their elements. The predecessor itself has
been visited and left, and is lost if the destructor call harms it.

## Main definitions

* `eraseIf` — the loop, for a predicate on the elements
* `EraseIfSpares` — no removal of the loop harms an element
* `WalkErases` — what the loop should do

## Main results

* `Stores.eraseIfLoop` — the loop from any position on, if it harms no element
* `Lost.eraseIfLoop` — an element that was lost does not come back
* `erasing_while_walking_visits_all_iff_loop_spares`
-/

namespace Lsf.RBTree

variable {α κ : Type} [LinearOrder κ]

/-! ### The loop -/

section Loop

variable (key : α → κ) (dtor : α → α) (p : α → Bool)

/-- A round: `cur_iter = iter++`, and then `Erase` of the key at `cur_iter` if the predicate holds.
The element that was visited is returned, and the iterator. -/
def eraseIfRound (curIter : ℕ) : Prog α (α × ℕ) := do
  let iter ← findNextBigPos curIter
  let elem ← getData curIter
  if p elem then
    let _ ← eraseElem key dtor (key elem)
  return (elem, iter)

/-- The rounds from `iter` to `end()`. The elements that were visited are returned. -/
def eraseIfLoop : ℕ → ℕ → Prog α (List α)
  | 0, _ => stuck
  | rounds + 1, iter => do
    if iter = (← endPos) then return []
    else do
      let (elem, iter) ← eraseIfRound key dtor p iter
      let rest ← eraseIfLoop rounds iter
      return elem :: rest

/-- The loop from `begin()` on. -/
def eraseIf : Prog α (List α) := do
  eraseIfLoop key dtor p (← get).slots (← beginPos)

/-- No removal of the rounds from `iter` on harms an element, in the state that it meets. -/
def LoopSpares : ℕ → ℕ → State α → Prop
  | 0, _, _ => True
  | rounds + 1, iter, s => iter = NPOS ∨
      (p (s.data iter) → ¬ Harms key dtor s (key (s.data iter))) ∧
        Ensures (eraseIfRound key dtor p iter) s fun r s' => LoopSpares rounds r.2 s'

/-- No removal of the loop harms an element. -/
def EraseIfSpares (s : State α) : Prop :=
  Ensures beginPos s fun iter s => LoopSpares key dtor p s.slots iter s

/-- The loop and then a walk over what it has left. -/
def eraseAndWalk : Prog α (List α × List α) := do
  let visited ← eraseIf key dtor p
  let left ← walkForward
  return (visited, left)

/-- The loop visits the elements `items` of the container in the order of their keys, and leaves
exactly those on which the predicate is false. -/
def WalkErases (items : List α) (s : State α) : Prop :=
  Ensures (eraseAndWalk key dtor p) s fun r _ =>
    SortedBy key r.1 ∧ r.1 = items ∧ r.2 = items.filter fun x => !p x

end Loop

variable {key : α → κ} {dtor : α → α} {p : α → Bool} {s : State α} {n : ℕ} {t : ColorTree ℕ}
  {free : List ℕ} {d : ℕ → α}

/-! ### An element that was lost -/

section Lost

theorem reads_load (pos : ℕ) : Reads (load pos : Prog α (Node α)) := by
  intro s node s' hrun
  by_cases hpos : pos < s.slots
  · rw [show (load pos).run s = some (s.node pos, s) from if_pos hpos] at hrun
    exact (Prod.mk.inj (Option.some.inj hrun)).2.symm
  · rw [show (load pos).run s = none from if_neg hpos] at hrun
    cases hrun

theorem reads_stuck {β : Type} : Reads (stuck : Prog α β) := by
  intro s _ _ hrun
  cases hrun

theorem reads_getLChildPos (pos : ℕ) : Reads (getLChildPos pos : Prog α ℕ) :=
  Reads.ite (.pure _) ((reads_load pos).bind fun _ => .pure _)

theorem reads_getRChildPos (pos : ℕ) : Reads (getRChildPos pos : Prog α ℕ) :=
  Reads.ite (.pure _) ((reads_load pos).bind fun _ => .pure _)

theorem reads_getParentPos (pos : ℕ) : Reads (getParentPos pos : Prog α ℕ) :=
  (reads_load pos).bind fun _ => .pure _

theorem reads_getData (pos : ℕ) : Reads (getData pos : Prog α α) :=
  (reads_load pos).bind fun _ => .pure _

theorem reads_findSmallestLoop (rounds pos : ℕ) :
    Reads (findSmallestLoop rounds pos : Prog α ℕ) := by
  induction rounds generalizing pos with
  | zero => exact reads_stuck
  | succ rounds ih =>
    refine (reads_getLChildPos pos).bind fun _ => ?_
    exact Reads.ite (ih _) (.pure _)

theorem reads_findSmallestPosFrom (pos : ℕ) : Reads (findSmallestPosFrom pos : Prog α ℕ) :=
  Reads.ite (.pure _) (Reads.get.bind fun _ => reads_findSmallestLoop _ _)

theorem reads_climbBigLoop (rounds pos : ℕ) : Reads (climbBigLoop rounds pos : Prog α ℕ) := by
  induction rounds generalizing pos with
  | zero => exact reads_stuck
  | succ rounds ih =>
    refine (reads_getParentPos pos).bind fun parentPos => ?_
    refine Reads.ite (.pure _) ((reads_getLChildPos parentPos).bind fun _ => ?_)
    exact Reads.ite (.pure _) (ih _)

/-- `iter++` changes nothing, wherever the iterator is. -/
theorem reads_findNextBigPos (pos : ℕ) : Reads (findNextBigPos pos : Prog α ℕ) := by
  refine Reads.ite ?_ ((reads_getRChildPos pos).bind fun _ => ?_)
  · exact (Reads.get.bind fun _ => .pure _).bind fun _ => reads_findSmallestPosFrom _
  · exact Reads.ite (reads_findSmallestPosFrom _) (Reads.get.bind fun _ => reads_climbBigLoop _ _)

/-- The container has a tree, in whatever order, without the element. -/
def Lost (n : ℕ) (y : α) (s : State α) : Prop :=
  ∃ t free d, Shapes s n t free d ∧ y ∉ elems d t

namespace Lost

variable {y : α}

/-- A round does not bring back an element that no destructor leaves. -/
theorem eraseIfRound (h : Lost n y s) (hy : ∀ x, dtor x ≠ y) (curIter : ℕ) :
    IfEnds (RBTree.eraseIfRound key dtor p curIter) s fun _ s' => Lost n y s' := by
  refine (reads_findNextBigPos curIter s).bind fun iter _ hs => ?_
  refine (reads_getData curIter _).bind fun elem s hs' => ?_
  obtain rfl : s = _ := hs'.trans hs
  by_cases hp : p elem
  · rw [if_pos hp]
    obtain ⟨t, free, d, hshapes, hlost⟩ := h
    refine (hshapes.eraseElem (key elem)).ifEnds.bind fun _ s' h' => ifEnds_pure ?_
    obtain ⟨t', free', d', hshapes', -, hfrom⟩ := h'
    exact ⟨t', free', d', hshapes', fun hin => (hfrom y hin).elim hlost fun ⟨x, hx⟩ => hy x hx⟩
  · rw [if_neg hp]
    exact ifEnds_pure h

theorem eraseIfLoop (h : Lost n y s) (hy : ∀ x, dtor x ≠ y) (rounds iter : ℕ) :
    IfEnds (RBTree.eraseIfLoop key dtor p rounds iter) s fun _ s' => Lost n y s' := by
  induction rounds generalizing iter s with
  | zero => exact fun _ _ hrun => by cases hrun
  | succ rounds ih =>
    rw [RBTree.eraseIfLoop, endPos, pure_bind]
    by_cases hend : iter = NPOS
    · rw [if_pos hend]
      exact ifEnds_pure h
    · rw [if_neg hend]
      exact (h.eraseIfRound hy iter).bind fun r s' h' =>
        (ih h' r.2).bind fun _ _ h'' => ifEnds_pure h''

end Lost

end Lost

/-! ### The loop in a search tree -/

/-- What a round leaves of the element that it visits. -/
def kept (p : α → Bool) (x : α) : List α := if p x then [] else [x]

@[simp] theorem mem_kept {x y : α} : y ∈ kept p x ↔ p x = false ∧ y = x := by
  cases h : p x <;> simp [kept, h]

namespace Stores

/-- **A round at a position of the tree** visits its element and goes on to the next position. Where
it harms no element, those from there on are left alone, and the visited one is removed if it should
be. Where it does, an element before the iterator is lost. -/
theorem eraseIfRound {pre post : List ℕ} {q : ℕ} (h : Stores key s n t free d)
    (ht : t.toList = pre ++ q :: post) :
    Ensures (RBTree.eraseIfRound key dtor p q) s fun r s' => r = (d q, post.headD NPOS) ∧
      ((p (d q) → ¬ Harms key dtor s (key (d q))) →
        ∃ t' free' d' pre', Stores key s' n t' free' d' ∧ t'.toList = pre' ++ post ∧
          pre'.map d' = pre.map d ++ kept p (d q) ∧ post.map d' = post.map d) ∧
      (p (d q) → Harms key dtor s (key (d q)) → ∃ y ∈ pre.map d, Lost n y s') := by
  have hmem : q ∈ t.toList := by simp [ht]
  have hlt : q < s.slots := (@Rep.lt_slots _ _ _ _ _ [] _ _ _ h.rep) (by simp [hmem])
  rw [RBTree.eraseIfRound]
  refine (h.rep.findNextBigPos ht).bind ?_
  rintro _ s ⟨rfl, rfl⟩
  rw [ensures_bind, ensures_getData hlt, h.rep.data]
  by_cases hp : p (d q)
  · rw [if_pos hp]
    refine (h.eraseElem_at ⟨q, hmem, rfl⟩).bind ?_
    rintro _ s' ⟨-, pre', q', post', ht', hkey, herased, hlost⟩
    obtain ⟨rfl, rfl, rfl⟩ : pre' = pre ∧ q' = q ∧ post' = post := by
      have hsorted : SortedBy (fun x => key (d x)) (pre' ++ q' :: post') := ht' ▸ h.ordered
      exact hsorted.split_unique (ht'.symm.trans ht) hkey
    rw [ensures_pure]
    refine ⟨rfl, fun hspares => ?_, fun _ hharms => ?_⟩
    · obtain ⟨t', r, d', pre'', herased⟩ := herased (hspares hp)
      refine ⟨t', _, d', pre'', herased.stores h.ordered ht, herased.toList, ?_,
        List.map_congr_left herased.after⟩
      rw [kept, if_pos hp, List.append_nil, herased.before]
    · obtain ⟨y, hy, t', free', d', h', hlost⟩ := hlost hharms
      exact ⟨y, hy, t', free', d', h', hlost⟩
  · rw [if_neg hp, ensures_pure]
    refine ⟨rfl, fun _ => ⟨t, free, d, pre ++ [q], h, by simp [ht], ?_, rfl⟩,
      fun hp' => absurd hp' hp⟩
    rw [kept, if_neg hp, List.map_append, List.map_singleton]

/-- **The elements from the iterator on are visited, and those before it are left alone,** if no
removal harms an element. -/
theorem eraseIfLoop {rounds : ℕ} {pre post : List ℕ} (h : Stores key s n t free d)
    (ht : t.toList = pre ++ post) (hrounds : post.length < rounds)
    (hspares : LoopSpares key dtor p rounds (post.headD NPOS) s) :
    Ensures (RBTree.eraseIfLoop key dtor p rounds (post.headD NPOS)) s fun visited s' =>
      visited = post.map d ∧ ∃ t' free' d', Stores key s' n t' free' d' ∧
        elems d' t' = pre.map d ++ (post.map d).filter fun x => !p x := by
  induction rounds generalizing s t free d pre post with
  | zero => exact absurd hrounds (Nat.not_lt_zero _)
  | succ rounds ih =>
    rw [RBTree.eraseIfLoop, endPos, pure_bind]
    cases post with
    | nil =>
      rw [List.headD_nil, if_pos rfl, ensures_pure]
      exact ⟨rfl, t, free, d, h, by simp [elems, ht]⟩
    | cons q post =>
      have hq : q ≠ NPOS := (@Rep.ne_npos _ _ _ _ _ [] _ _ _ h.rep) (by simp [ht])
      rw [List.headD_cons] at hspares ⊢
      rw [if_neg hq]
      obtain ⟨hround, hrest⟩ := hspares.resolve_left hq
      rw [h.rep.data] at hround
      refine ((h.eraseIfRound ht).and hrest).bind ?_
      rintro _ s₁ ⟨⟨rfl, hkeeps, -⟩, hrest⟩
      obtain ⟨t₁, free₁, d₁, pre₁, h₁, ht₁, hpre, hpost⟩ := hkeeps hround
      refine (ih h₁ ht₁ (by simpa using hrounds) hrest).bind ?_
      rintro _ s' ⟨rfl, t', free', d', h', helems⟩
      rw [ensures_pure, hpost]
      refine ⟨rfl, t', free', d', h', ?_⟩
      rw [helems, hpre, hpost, kept, List.map_cons, List.filter_cons]
      cases p (d q) <;> simp

/-- A destructor that leaves the elements alone harms none. -/
theorem loopSpares_of_trivial {rounds : ℕ} {pre post : List ℕ} (h : Stores key s n t free d)
    (ht : t.toList = pre ++ post) (hdtor : ∀ x, dtor x = x) :
    LoopSpares key dtor p rounds (post.headD NPOS) s := by
  induction rounds generalizing s t free d pre post with
  | zero => trivial
  | succ rounds ih =>
    cases post with
    | nil => exact .inl rfl
    | cons q post =>
      refine .inr ⟨fun _ => not_harms_of_trivial hdtor, (h.eraseIfRound ht).mono ?_⟩
      rintro _ s₁ ⟨rfl, hkeeps, -⟩
      obtain ⟨t₁, free₁, d₁, pre₁, h₁, ht₁, -, -⟩ := hkeeps fun _ => not_harms_of_trivial hdtor
      exact ih h₁ ht₁

/-- Where a removal of the loop harms an element, one of those that the loop has passed and should
leave is not left. -/
theorem eraseIfLoop_of_harms {rounds : ℕ} {pre post : List ℕ} (h : Stores key s n t free d)
    (ht : t.toList = pre ++ post) (hrounds : post.length < rounds)
    (hpre : ∀ y ∈ pre.map d, p y = false) (hdtor : ∀ x, dtor x ∉ elems d t)
    (hharms : ¬ LoopSpares key dtor p rounds (post.headD NPOS) s) :
    ∃ y ∈ (elems d t).filter fun x => !p x,
      IfEnds (RBTree.eraseIfLoop key dtor p rounds (post.headD NPOS)) s
        fun _ s' => Lost n y s' := by
  induction rounds generalizing s t free d pre post with
  | zero => exact absurd trivial hharms
  | succ rounds ih =>
    cases post with
    | nil => exact absurd (.inl rfl) hharms
    | cons q post =>
      have hq : q ≠ NPOS := (@Rep.ne_npos _ _ _ _ _ [] _ _ _ h.rep) (by simp [ht])
      have helems : elems d t = pre.map d ++ d q :: post.map d := by simp [elems, ht]
      rw [List.headD_cons] at hharms ⊢
      rw [LoopSpares, h.rep.data, not_or, not_and] at hharms
      obtain ⟨_, s₁, hrun, rfl, hkeeps, hlost⟩ : Ensures (RBTree.eraseIfRound key dtor p q) s _ :=
        h.eraseIfRound ht
      have hloop : ∀ y, IfEnds (RBTree.eraseIfLoop key dtor p rounds (post.headD NPOS)) s₁
            (fun _ s' => Lost n y s') →
          IfEnds (RBTree.eraseIfLoop key dtor p (rounds + 1) q) s fun _ s' => Lost n y s' := by
        intro y hy
        rw [RBTree.eraseIfLoop, endPos, pure_bind, if_neg hq]
        refine ((Ensures.of_run (Q := fun r s' => r = (d q, post.headD NPOS) ∧ s' = s₁) hrun
          ⟨rfl, rfl⟩).ifEnds).bind ?_
        rintro _ _ ⟨rfl, rfl⟩
        exact hy.bind fun _ _ h' => ifEnds_pure h'
      by_cases hround : p (d q) → ¬ Harms key dtor s (key (d q))
      · -- this round harms none, and a later one does
        obtain ⟨t₁, free₁, d₁, pre₁, h₁, ht₁, hpre₁, hpost₁⟩ := hkeeps hround
        have helems₁ : elems d₁ t₁ = pre.map d ++ kept p (d q) ++ post.map d := by
          rw [elems, ht₁, List.map_append, hpre₁, hpost₁]
        have hsub : ∀ y ∈ elems d₁ t₁, y ∈ elems d t := by
          intro y hy
          rw [helems₁] at hy
          rw [helems]
          simp only [List.mem_append, List.mem_cons, mem_kept] at hy ⊢
          tauto
        have hkept : ∀ y ∈ pre₁.map d₁, p y = false := by
          rw [hpre₁]
          intro y hy
          obtain hy | hy := List.mem_append.mp hy
          · exact hpre y hy
          · obtain ⟨hp, rfl⟩ := mem_kept.mp hy
            exact hp
        have hrest := hharms.2 hround
        rw [Ensures.iff_of_run hrun] at hrest
        obtain ⟨y, hy, hlost⟩ := ih h₁ ht₁ (by simpa using hrounds) hkept
          (fun x hx => hdtor x (hsub _ hx)) hrest
        rw [List.mem_filter] at hy
        exact ⟨y, List.mem_filter.mpr ⟨hsub y hy.1, hy.2⟩, hloop y hlost⟩
      · -- this round harms one, which does not come back
        rw [Classical.not_imp, not_not] at hround
        obtain ⟨y, hy, hy'⟩ := hlost hround.1 hround.2
        have hin : y ∈ elems d t := by
          rw [helems]
          exact List.mem_append_left _ hy
        refine ⟨y, List.mem_filter.mpr ⟨hin, by simp [hpre y hy]⟩, hloop y ?_⟩
        exact hy'.eraseIfLoop (fun x hx => hdtor x (by rwa [hx])) rounds _

end Stores

/-! ### The whole loop -/

namespace Models

variable {T : SortedTable key n}

/-- **The loop visits all elements in their order** and leaves those on which the predicate is
false, if it harms none. -/
theorem walkErases (h : Models key s T) (hspares : EraseIfSpares key dtor p s) :
    WalkErases key dtor p T.items s := by
  obtain ⟨t, free, d, h, hT⟩ := h
  have hrounds : t.toList.length < s.slots := by
    simpa using @Rep.depth_lt _ _ _ _ _ [] _ _ _ h.rep
  rw [WalkErases, eraseAndWalk, RBTree.eraseIf, bind_assoc, ensures_bind, ensures_get, bind_assoc]
  refine (h.rep.findSmallestPos.and hspares).bind ?_
  rintro _ s ⟨⟨rfl, rfl⟩, hspares⟩
  refine (@Stores.eraseIfLoop _ _ _ _ _ p _ _ _ _ _ _ [] _ h rfl hrounds hspares).bind ?_
  rintro _ s' ⟨rfl, t', free', d', h', helems⟩
  refine h'.shapes.walkForward.bind ?_
  rintro _ s' ⟨rfl, rfl⟩
  rw [List.map_nil, List.nil_append] at helems
  rw [ensures_pure, helems, hT]
  exact ⟨sortedBy_elems.mpr h.ordered, rfl, rfl⟩

/-- A destructor that leaves the elements alone harms none. -/
theorem eraseIfSpares_of_trivial (h : Models key s T) (hdtor : ∀ x, dtor x = x) :
    EraseIfSpares key dtor p s := by
  obtain ⟨t, free, d, h, hT⟩ := h
  refine h.rep.findSmallestPos.mono ?_
  rintro _ s ⟨rfl, rfl⟩
  exact @Stores.loopSpares_of_trivial _ _ _ _ _ _ _ _ _ _ _ _ [] _ h rfl hdtor

/-- Where it harms one, and no destructor leaves what is an element, one is missing in the end. -/
theorem not_walkErases (h : Models key s T) (hdtor : ∀ x, dtor x ∉ T.items)
    (hharms : ¬ EraseIfSpares key dtor p s) : ¬ WalkErases key dtor p T.items s := by
  obtain ⟨t, free, d, h, hT⟩ := h
  rw [hT] at hdtor ⊢
  have hrounds : t.toList.length < s.slots := by
    simpa using @Rep.depth_lt _ _ _ _ _ [] _ _ _ h.rep
  obtain ⟨_, _, hbegin, rfl, rfl⟩ := h.rep.findSmallestPos
  rw [EraseIfSpares, beginPos, Ensures.iff_of_run hbegin] at hharms
  obtain ⟨y, hy, hlost⟩ :=
    @Stores.eraseIfLoop_of_harms _ _ _ _ _ p _ _ _ _ _ _ [] _ h rfl hrounds (by simp) hdtor hharms
  intro hwalk
  rw [WalkErases, eraseAndWalk, RBTree.eraseIf, bind_assoc, ensures_bind, ensures_get, bind_assoc,
    beginPos, ensures_bind, Ensures.iff_of_run hbegin, ensures_bind] at hwalk
  obtain ⟨visited, s', -, hleft, t', free', d', h', hne⟩ := hwalk.and_ifEnds hlost
  obtain ⟨_, _, hrun, rfl, rfl⟩ := h'.walkForward
  rw [ensures_bind, Ensures.iff_of_run hrun, ensures_pure] at hleft
  exact hne (hleft.2.2.symm ▸ hy : y ∈ (visited, elems d' t').2)

end Models

/-- In the container that a run leads to, the loop with any predicate does what it should if it
harms no element; and only then, where no destructor leaves what is an element. -/
def ErasesWhileWalking {ι ρ : Type} (key : α → κ) (dtor : α → α) (n : ℕ) (step : ι → Prog α ρ)
    (spec : ι → SortedTable key n → ρ × SortedTable key n) (ops : List ι) (s₀ : State α) : Prop :=
  Ensures (runAll step ops) s₀ fun _ s => ∀ p,
    (EraseIfSpares key dtor p s →
      WalkErases key dtor p (traceAll spec ops SortedTable.empty).2.items s) ∧
    ((∀ x, dtor x ∉ (traceAll spec ops SortedTable.empty).2.items) →
      WalkErases key dtor p (traceAll spec ops SortedTable.empty).2.items s →
        EraseIfSpares key dtor p s)

theorem Models.erasesWhileWalking {ι ρ : Type} {step : ι → Prog α ρ}
    {spec : ι → SortedTable key n → ρ × SortedTable key n} {G : ι → State α → Prop}
    (hkeep : ∀ i s T, Models key s T → G i s →
      Ensures (step i) s fun r s' => r = (spec i T).1 ∧ Models key s' (spec i T).2)
    (h : Models key s (SortedTable.empty : SortedTable key n)) {ops : List ι}
    (hops : Guarded step G ops s) : ErasesWhileWalking key dtor n step spec ops s := by
  refine (hops.run hkeep h).mono ?_
  rintro _ s' ⟨-, h'⟩ p
  exact ⟨h'.walkErases, fun hdtor hwalk =>
    by_contra fun hharms => h'.not_walkErases hdtor hharms hwalk⟩

variable {υ : Type} [Inhabited υ]

/-- **Erasing while walking visits every element once** and leaves those that do not satisfy the
predicate, in every `Map` and `Set` that operations can make out of an initialized one, as long as
no removal, in these operations or in the loop, harms an element. Where no destructor leaves what is
an element, the loop does that only then. -/
theorem erasing_while_walking_visits_all_iff_loop_spares {n : ℕ} (hn : 1 ≤ n) (Lm Ls : Layout)
    (mem : ℕ → Node (MapData κ υ)) (mem' : ℕ → Node κ) (dm : MapData κ υ → MapData κ υ)
    (ds : κ → κ) :
    (∃ s₀, init Lm mem (calcByteSize Lm n) = some s₀ ∧
      ∀ ops, Guarded (mapStep dm) (MapOp.Spares dm) ops s₀ →
        ErasesWhileWalking MapData.key dm n (mapStep dm) mapSpec ops s₀) ∧
    (∃ s₀, init Ls mem' (calcByteSize Ls n) = some s₀ ∧
      ∀ ops, Guarded (setStep ds) (SetOp.Spares ds) ops s₀ →
        ErasesWhileWalking id ds n (setStep ds) setSpec ops s₀) := by
  obtain ⟨s, hinit, h⟩ := exists_init_models MapData.key Lm mem hn
  obtain ⟨s', hinit', h'⟩ := exists_init_models id Ls mem' hn
  exact ⟨⟨s, hinit, fun _ => h.erasesWhileWalking mapStep_of_spares⟩,
    ⟨s', hinit', fun _ => h'.erasesWhileWalking setStep_of_spares⟩⟩

/-- In a set of four elements with a trivial destructor the even ones are erased, the first of which
has two children. -/
theorem even_elements_are_erased : ∃ s₀, init ⟨8, 4, by decide⟩ (fun _ => ⟨0, 0, 0, 0, .empty⟩)
    (calcByteSize ⟨8, 4, by decide⟩ 4) = some s₀ ∧
      Ensures (runAll (setStep id) [.insert 2, .insert 1, .insert 3, .insert 4]) s₀
        fun _ s => WalkErases (id : ℕ → ℕ) id (fun x => x % 2 = 0) [1, 2, 3, 4] s := by
  let ops : List (SetOp ℕ) := [.insert 2, .insert 1, .insert 3, .insert 4]
  obtain ⟨-, s, hinit, hset⟩ := erasing_while_walking_visits_all_iff_loop_spares
    (n := 4) (υ := ℕ) (by decide) ⟨8, 4, by decide⟩ ⟨8, 4, by decide⟩
    (fun _ => ⟨0, 0, 0, ⟨0, 0⟩, .empty⟩) (fun _ => ⟨0, 0, 0, 0, .empty⟩) id (id : ℕ → ℕ)
  obtain ⟨s', hinit', h⟩ := exists_init_models (id : ℕ → ℕ) ⟨8, 4, by decide⟩
    (fun _ => ⟨0, 0, 0, 0, .empty⟩) (n := 4) (by decide)
  obtain rfl : s' = s := Option.some.inj (hinit'.symm.trans hinit)
  have hops : Guarded (setStep id) (SetOp.Spares id) ops s' :=
    of_all_eq_true (by decide +kernel) hinit
  have hitems : (traceAll (setSpec (n := 4)) ops SortedTable.empty).2.items = [1, 2, 3, 4] := by
    decide +kernel
  refine ⟨s', hinit, ((hset ops hops).and (hops.run setStep_of_spares h)).mono ?_⟩
  rintro _ s ⟨hwalk, -, h'⟩
  exact hitems ▸ (hwalk _).1 (h'.eraseIfSpares_of_trivial fun _ => rfl)

/-- A map has the strings of 2, 1 and 3, and the loop erases that of 2: what it has left has nothing
of the string of 1. -/
theorem string_before_erased_one_is_lost : ¬ ∀ (n : ℕ) (L : Layout)
    (mem : ℕ → Node (MapData ℕ (List Char)))
    (dtor : MapData ℕ (List Char) → MapData ℕ (List Char)) (s₀ : State (MapData ℕ (List Char)))
    (ops : List (MapOp ℕ (List Char))) (p : MapData ℕ (List Char) → Bool), 1 ≤ n →
      init L mem (calcByteSize L n) = some s₀ →
        Ensures (runAll (mapStep dtor) ops) s₀ fun _ s =>
          WalkErases MapData.key dtor p (traceAll (mapSpec (n := n)) ops SortedTable.empty).2.items
            s := by
  intro hall
  let s₀ : Option (State (MapData ℕ (List Char))) := init ⟨8, 32, by decide⟩
    (fun _ => ⟨0, 0, 0, ⟨0, []⟩, .empty⟩) (calcByteSize ⟨8, 32, by decide⟩ 3)
  have hrun : (s₀.bind fun s => ((do
      let _ ← runAll (mapStep fun x => ⟨x.key, []⟩) [.insert 2 ['b'], .insert 1 ['a'],
        .insert 3 ['c']]
      eraseAndWalk MapData.key (fun x => ⟨x.key, []⟩) fun x => x.key = 2).run s).map Prod.fst) =
      some ([⟨1, ['a']⟩, ⟨2, ['b']⟩, ⟨3, ['c']⟩], [⟨1, []⟩, ⟨3, ['c']⟩]) := by
    decide +kernel
  obtain ⟨s, hinit, hrun⟩ := Option.bind_eq_some_iff.mp hrun
  obtain ⟨⟨r, s'⟩, hrun, rfl⟩ := Option.map_eq_some_iff.mp hrun
  have hwalk := hall 3 _ _ (fun x => ⟨x.key, []⟩) s
    [.insert 2 ['b'], .insert 1 ['a'], .insert 3 ['c']] (fun x => x.key = 2) (by decide) hinit
  obtain ⟨-, hvisited, hleft⟩ := (ensures_bind.mpr hwalk).elim hrun
  rw [← hvisited] at hleft
  exact absurd hleft (by decide)

end Lsf.RBTree
