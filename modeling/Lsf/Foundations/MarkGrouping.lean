import Mathlib.Data.Finset.Card
import Mathlib.Data.List.Basic
import Mathlib.Data.Nat.Notation

/-!
# Grouping by marks with one remembered mark

Things are put into a tree of lists. On its way from the root, each comes to fields that hold one
subtree, and to fields that hold a list of them, where it carries a mark. Things with one mark at
one list should go into one element of it, and things with different marks into different elements.

The walk here remembers one mark, that of the last list it came to, wherever that was. If the mark
is the same again and the list has an element, it goes into the last element, and otherwise into a
new one. Whether that groups by marks depends on the order in which the things come: `InOrder` says
when, from the marks alone.

A list is found by an address, which has the index of an element, or by a key, which has its mark.
Both are written from the inside out.

## Main definitions

* `MarkWalk.step`, `MarkWalk.run` — the walk, with what it visits
* `Grouped` — two visits of a list are to one element if and only if they have one mark
* `InOrder` — on marks and keys

## Main results

* `Inst.address_eq_iff` — where each list has its marks once, addresses are the same if keys are
* `MarkWalk.Inv.stored` — one step
* `MarkWalk.grouped_iff` — a run
-/

namespace Lsf

variable {F M : Type}

/-- Where a list is, by the indices of elements. -/
abbrev ListAddress (F : Type) := List (F × Option ℕ)

/-- Where a list is, by the marks of elements. -/
abbrev ListKey (F M : Type) := List (F × Option M)

/-- A step of the walk: to the root, through a field with one subtree, or to a list with a mark,
where it may be that nothing can be stored. -/
inductive Move (F M : Type)
  | start
  | single (field : F)
  | repeated (field : F) (mark : M) (stored : Bool)

/-- What is known of a step to a list without looking at the tree. -/
structure MarkStep (F M : Type) where
  key : ListKey F M
  field : F
  mark : M
  stored : Bool

/-- A step to a list, with the list's address and the element that it goes to. -/
structure Visit (F M : Type) extends MarkStep F M where
  address : ListAddress F
  index : ℕ

/-- The steps to lists, from a key on. -/
def markSteps : ListKey F M → List (Move F M) → List (MarkStep F M)
  | _, [] => []
  | _, .start :: moves => markSteps [] moves
  | key, .single field :: moves => markSteps ((field, none) :: key) moves
  | key, .repeated field mark stored :: moves =>
    ⟨key, field, mark, stored⟩ ::
      markSteps (if stored then (field, some mark) :: key else key) moves

/-- Where the walk is, the mark that it remembers, the marks that the elements of each list were
made with, and the visits so far. -/
structure MarkWalk (F M : Type) where
  address : ListAddress F
  key : ListKey F M
  last : M
  marks : ListAddress F → F → List M
  visits : List (Visit F M)

/-- Two visits of a list are to one element if and only if they have one mark. -/
def Grouped (visits : List (Visit F M)) : Prop :=
  ∀ v ∈ visits, ∀ w ∈ visits, v.stored = true → w.stored = true → v.address = w.address →
    v.field = w.field → (v.index = w.index ↔ v.mark = w.mark)

theorem Grouped.of_prefix {visits visits' : List (Visit F M)} (h : Grouped visits')
    (hle : visits <+: visits') : Grouped visits := fun v hv u hu =>
  h v (hle.subset hv) u (hle.subset hu)

section Order

variable [DecidableEq F] [DecidableEq M]

/-- The earlier steps to the same list where something was stored. -/
def sameList (before : List (MarkStep F M)) (key : ListKey F M) (field : F) :
    List (MarkStep F M) :=
  before.filter fun s => s.stored && (s.key = key ∧ s.field = field)

/-- What the order of the steps must be like: if the list has an element, then either the step
before had the same mark, and so had the latest step to this list, or no step to this list had. -/
def FollowsOn (before : List (MarkStep F M)) (s : MarkStep F M) : Prop :=
  sameList before s.key s.field ≠ [] →
    if before.getLast?.map MarkStep.mark = some s.mark
    then (sameList before s.key s.field).getLast?.map MarkStep.mark = some s.mark
    else s.mark ∉ (sameList before s.key s.field).map MarkStep.mark

instance (before : List (MarkStep F M)) (s : MarkStep F M) : Decidable (FollowsOn before s) :=
  inferInstanceAs (Decidable (_ → _))

/-- Every step that stores something follows on from those before it. -/
def InOrder : List (MarkStep F M) → List (MarkStep F M) → Prop
  | _, [] => True
  | before, s :: steps => (s.stored = true → FollowsOn before s) ∧ InOrder (before ++ [s]) steps

instance decidableInOrder : (before steps : List (MarkStep F M)) → Decidable (InOrder before steps)
  | _, [] => isTrue trivial
  | before, s :: steps =>
    have := decidableInOrder (before ++ [s]) steps
    inferInstanceAs (Decidable (_ ∧ _))

end Order

/-! ### Lists and their keys -/

/-- The address and the key of one place, with these marks of elements. -/
inductive Inst (marks : ListAddress F → F → List M) : ListAddress F → ListKey F M → Prop
  | root : Inst marks [] []
  | single {address key} (field : F) : Inst marks address key →
      Inst marks ((field, none) :: address) ((field, none) :: key)
  | element {address key field index mark} : Inst marks address key →
      (marks address field)[index]? = some mark →
      Inst marks ((field, some index) :: address) ((field, some mark) :: key)

namespace Inst

variable {marks marks' : ListAddress F → F → List M} {address address' : ListAddress F}
  {key key' : ListKey F M}

theorem mono (h : Inst marks address key)
    (hle : ∀ address field, marks address field <+: marks' address field) :
    Inst marks' address key := by
  induction h with
  | root => exact .root
  | single field _ ih => exact .single field ih
  | @element address _ field index _ _ hmark ih =>
    obtain ⟨more, hmore⟩ := hle address field
    obtain ⟨hlt, -⟩ := List.getElem?_eq_some_iff.mp hmark
    refine .element ih ?_
    rw [← hmore, List.getElem?_append_left hlt, hmark]

/-- **An address has one key**, and a key has one address where no mark comes twice. -/
theorem address_eq_iff (hnodup : ∀ address field, (marks address field).Nodup)
    (h : Inst marks address key) (h' : Inst marks address' key') :
    address = address' ↔ key = key' := by
  induction h generalizing address' key' with
  | root =>
    cases h' with
    | root => exact iff_of_true rfl rfl
    | single => exact iff_of_false (List.cons_ne_nil _ _).symm (List.cons_ne_nil _ _).symm
    | element => exact iff_of_false (List.cons_ne_nil _ _).symm (List.cons_ne_nil _ _).symm
  | single field h ih =>
    cases h' with
    | root => exact iff_of_false (List.cons_ne_nil _ _) (List.cons_ne_nil _ _)
    | single field' h' =>
      rw [List.cons.injEq, List.cons.injEq, ih h', Prod.mk.injEq, Prod.mk.injEq]
      exact and_congr_left' ⟨fun h => ⟨h.1, rfl⟩, fun h => ⟨h.1, rfl⟩⟩
    | element h' =>
      exact iff_of_false (fun h => by cases (Prod.mk.inj (List.cons.inj h).1).2)
        (fun h => by cases (Prod.mk.inj (List.cons.inj h).1).2)
  | @element address key field index mark h hmark ih =>
    cases h' with
    | root => exact iff_of_false (List.cons_ne_nil _ _) (List.cons_ne_nil _ _)
    | single field' h' =>
      exact iff_of_false (fun h => by cases (Prod.mk.inj (List.cons.inj h).1).2)
        (fun h => by cases (Prod.mk.inj (List.cons.inj h).1).2)
    | @element address' key' field' index' mark' h' hmark' =>
      rw [List.cons.injEq, List.cons.injEq, Prod.mk.injEq, Prod.mk.injEq, Option.some_inj,
        Option.some_inj, ih h']
      constructor
      · rintro ⟨⟨rfl, rfl⟩, hkey⟩
        obtain rfl := (ih h').mpr hkey
        exact ⟨⟨rfl, Option.some.inj (hmark.symm.trans hmark')⟩, hkey⟩
      · rintro ⟨⟨rfl, rfl⟩, hkey⟩
        obtain rfl := (ih h').mpr hkey
        obtain ⟨hlt, -⟩ := List.getElem?_eq_some_iff.mp hmark
        have hindex : index = index' :=
          (List.getElem?_inj hlt (hnodup address field)).mp (hmark.trans hmark'.symm)
        exact ⟨⟨rfl, hindex⟩, hkey⟩

end Inst

/-! ### One step -/

namespace MarkWalk

section Visits

variable [DecidableEq F]

/-- The visits of a list where something was stored. -/
def visitsAt (visits : List (Visit F M)) (address : ListAddress F) (field : F) :
    List (Visit F M) :=
  visits.filter fun v => v.stored && (v.address = address ∧ v.field = field)

theorem mem_visitsAt {visits : List (Visit F M)} {address : ListAddress F} {field : F}
    {v : Visit F M} : v ∈ visitsAt visits address field ↔
      v ∈ visits ∧ v.stored = true ∧ v.address = address ∧ v.field = field := by
  rw [visitsAt, List.mem_filter, Bool.and_eq_true, decide_eq_true_iff]

theorem visitsAt_concat (visits : List (Visit F M)) (v : Visit F M) (address : ListAddress F)
    (field : F) : visitsAt (visits ++ [v]) address field =
      visitsAt visits address field ++
        if v.stored = true ∧ v.address = address ∧ v.field = field then [v] else [] := by
  simp only [visitsAt, List.filter_append, List.filter_cons, List.filter_nil, Bool.and_eq_true,
    decide_eq_true_iff]

/-- What holds of a walk as long as every step goes where it should. -/
structure Inv (w : MarkWalk F M) : Prop where
  nodup : ∀ address field, (w.marks address field).Nodup
  visit_mark : ∀ v ∈ w.visits, v.stored = true →
    (w.marks v.address v.field)[v.index]? = some v.mark
  mark_visit : ∀ address field, ∀ mark ∈ w.marks address field, ∃ v ∈ w.visits,
    v.stored = true ∧ v.address = address ∧ v.field = field ∧ v.mark = mark
  inst : Inst w.marks w.address w.key
  visit_inst : ∀ v ∈ w.visits, Inst w.marks v.address v.key
  last_eq : ∀ v, w.visits.getLast? = some v → v.mark = w.last
  latest : ∀ address field, (w.marks address field).getLast? =
    (visitsAt w.visits address field).getLast?.map fun v => v.mark

/-- The walk before it starts, with a mark to begin with. -/
def init (last : M) : MarkWalk F M where
  address := []
  key := []
  last := last
  marks := fun _ _ => []
  visits := []

theorem Inv.init (last : M) : Inv (MarkWalk.init last : MarkWalk F M) where
  nodup _ _ := List.nodup_nil
  visit_mark _ hv := absurd hv List.not_mem_nil
  mark_visit _ _ _ hmark := absurd hmark List.not_mem_nil
  inst := .root
  visit_inst _ hv := absurd hv List.not_mem_nil
  last_eq _ hv := by cases hv
  latest _ _ := rfl

namespace Inv

variable {w : MarkWalk F M} (h : Inv w)
include h

theorem mem_marks_iff {address : ListAddress F} {field : F} {mark : M} :
    mark ∈ w.marks address field ↔
      mark ∈ (visitsAt w.visits address field).map fun v => v.mark := by
  rw [List.mem_map]
  constructor
  · intro hmark
    obtain ⟨v, hv, hs, ha, hf, hm⟩ := h.mark_visit address field mark hmark
    exact ⟨v, mem_visitsAt.mpr ⟨hv, hs, ha, hf⟩, hm⟩
  · rintro ⟨v, hv, rfl⟩
    obtain ⟨hv', hs, rfl, rfl⟩ := mem_visitsAt.mp hv
    exact List.mem_of_getElem? (h.visit_mark v hv' hs)

/-- **A list has as many elements as there are marks.** -/
theorem length_marks [DecidableEq M] (address : ListAddress F) (field : F) :
    (w.marks address field).length =
      ((visitsAt w.visits address field).map fun v => v.mark).toFinset.card := by
  rw [← List.toFinset_card_of_nodup (h.nodup address field)]
  congr 1
  ext mark
  rw [List.mem_toFinset, List.mem_toFinset, h.mem_marks_iff]

/-- **A right walk groups.** -/
theorem grouped : Grouped w.visits := by
  rintro ⟨s, address, index⟩ hv ⟨s', address', index'⟩ hv' hs hs' rfl hfield
  have hmark := h.visit_mark _ hv hs
  have hmark' := h.visit_mark _ hv' hs'
  dsimp only at hfield hmark hmark' ⊢
  rw [← hfield] at hmark'
  obtain ⟨hlt, -⟩ := List.getElem?_eq_some_iff.mp hmark
  constructor
  · rintro rfl
    exact Option.some.inj (hmark.symm.trans hmark')
  · intro heq
    rw [← heq] at hmark'
    exact (List.getElem?_inj hlt (h.nodup address s.field)).mp (hmark.trans hmark'.symm)

/-- One more visit, where the walk is. -/
theorem extend {v : Visit F M} {address : ListAddress F} {key : ListKey F M}
    {marks : ListAddress F → F → List M} (haddress : v.address = w.address) (hkey : v.key = w.key)
    (hle : ∀ address field, w.marks address field <+: marks address field)
    (hnodup : ∀ address field, (marks address field).Nodup)
    (hmark : v.stored = true → (marks v.address v.field)[v.index]? = some v.mark)
    (hnew : ∀ address field, ∀ mark ∈ marks address field, mark ∈ w.marks address field ∨
      v.stored = true ∧ v.address = address ∧ v.field = field ∧ v.mark = mark)
    (hlatest : ∀ address field, (marks address field).getLast? =
      if v.stored = true ∧ v.address = address ∧ v.field = field then some v.mark
      else (w.marks address field).getLast?)
    (hinst : Inst marks address key) : Inv ⟨address, key, v.mark, marks, w.visits ++ [v]⟩ where
  nodup := hnodup
  visit_mark u hu hs := by
    obtain hu | hu := List.mem_append.mp hu
    · obtain ⟨more, hmore⟩ := hle u.address u.field
      have hold := h.visit_mark u hu hs
      obtain ⟨hlt, -⟩ := List.getElem?_eq_some_iff.mp hold
      dsimp only
      rw [← hmore, List.getElem?_append_left hlt, hold]
    · rw [List.mem_singleton.mp hu] at hs ⊢
      exact hmark hs
  mark_visit address' field' mark' hmem := by
    obtain hold | hv := hnew address' field' mark' hmem
    · obtain ⟨u, hu, hrest⟩ := h.mark_visit address' field' mark' hold
      exact ⟨u, List.mem_append_left _ hu, hrest⟩
    · exact ⟨v, List.mem_append_right _ (List.mem_singleton_self v), hv⟩
  inst := hinst
  visit_inst u hu := by
    obtain hu | hu := List.mem_append.mp hu
    · exact (h.visit_inst u hu).mono hle
    · rw [List.mem_singleton.mp hu, haddress, hkey]
      exact h.inst.mono hle
  last_eq u hu := by
    rw [List.getLast?_concat] at hu
    rw [← Option.some.inj hu]
  latest address' field' := by
    rw [hlatest, visitsAt_concat]
    split
    · rw [List.getLast?_concat, Option.map_some]
    · rw [List.append_nil]
      exact h.latest address' field'

end Inv

end Visits

section Step

variable [DecidableEq F] [DecidableEq M]

/-- The marks with one more at a list. -/
def addMark (marks : ListAddress F → F → List M) (address : ListAddress F) (field : F) (mark : M) :
    ListAddress F → F → List M := fun address' field' =>
  if address = address' ∧ field = field' then marks address' field' ++ [mark]
  else marks address' field'

section AddMark

variable (marks : ListAddress F → F → List M) (address : ListAddress F) (field : F) (mark : M)
omit [DecidableEq M]

theorem addMark_self : addMark marks address field mark address field =
    marks address field ++ [mark] :=
  if_pos ⟨rfl, rfl⟩

theorem prefix_addMark (address' : ListAddress F) (field' : F) :
    marks address' field' <+: addMark marks address field mark address' field' := by
  rw [addMark]
  split
  · exact List.prefix_append _ _
  · exact List.prefix_refl _

variable {marks address field mark} {address' : ListAddress F} {field' : F}

theorem mem_addMark {mark' : M} (h : mark' ∈ addMark marks address field mark address' field') :
    mark' ∈ marks address' field' ∨ address = address' ∧ field = field' ∧ mark = mark' := by
  rw [addMark] at h
  split at h
  · next hhere =>
    obtain h | h := List.mem_append.mp h
    · exact .inl h
    · exact .inr ⟨hhere.1, hhere.2, (List.mem_singleton.mp h).symm⟩
  · exact .inl h

theorem nodup_addMark (hnodup : ∀ address' field', (marks address' field').Nodup)
    (hmark : mark ∉ marks address field) (address' : ListAddress F) (field' : F) :
    (addMark marks address field mark address' field').Nodup := by
  rw [addMark]
  split
  · next hhere =>
    obtain ⟨rfl, rfl⟩ := hhere
    rw [List.nodup_append_comm, List.singleton_append, List.nodup_cons]
    exact ⟨hmark, hnodup _ _⟩
  · exact hnodup _ _

end AddMark

/-- The walk goes into the last element of a list. -/
def Joins (w : MarkWalk F M) (field : F) (mark : M) : Prop :=
  mark = w.last ∧ w.marks w.address field ≠ []

instance (w : MarkWalk F M) (field : F) (mark : M) : Decidable (w.Joins field mark) :=
  inferInstanceAs (Decidable (_ ∧ _))

/-- The element that the walk goes into. -/
def index (w : MarkWalk F M) (field : F) (mark : M) : ℕ :=
  if w.Joins field mark then (w.marks w.address field).length - 1
  else (w.marks w.address field).length

/-- The visit of a list. -/
def visit (w : MarkWalk F M) (field : F) (mark : M) (stored : Bool) : Visit F M :=
  ⟨⟨w.key, field, mark, stored⟩, w.address, w.index field mark⟩

/-- A move of the walk. -/
def step (w : MarkWalk F M) : Move F M → MarkWalk F M
  | .start => { w with address := [], key := [] }
  | .single field =>
    { w with address := (field, none) :: w.address, key := (field, none) :: w.key }
  | .repeated field mark stored =>
    { address := if stored then (field, some (w.index field mark)) :: w.address else w.address
      key := if stored then (field, some mark) :: w.key else w.key
      last := mark
      marks := if stored ∧ ¬ w.Joins field mark then addMark w.marks w.address field mark
        else w.marks
      visits := w.visits ++ [w.visit field mark stored] }

/-- Moves of the walk. -/
def run (w : MarkWalk F M) (moves : List (Move F M)) : MarkWalk F M :=
  moves.foldl step w

/-- The step goes where it should. -/
def Right (w : MarkWalk F M) (field : F) (mark : M) : Prop :=
  if w.Joins field mark then (w.marks w.address field).getLast? = some mark
  else mark ∉ w.marks w.address field

namespace Inv

variable {w : MarkWalk F M} (h : Inv w)
include h

theorem start : Inv (w.step .start) :=
  { h with inst := .root }

theorem single (field : F) : Inv (w.step (.single field)) :=
  { h with inst := .single field h.inst }

/-- A visit where nothing is stored. -/
theorem not_stored (field : F) (mark : M) : Inv (w.step (.repeated field mark false)) := by
  have hstep : w.step (.repeated field mark false) =
      ⟨w.address, w.key, mark, w.marks, w.visits ++ [w.visit field mark false]⟩ := by
    simp [step]
  rw [hstep]
  exact h.extend (v := w.visit field mark false) rfl rfl (fun _ _ => List.prefix_refl _) h.nodup
    (fun hs => by cases hs) (fun _ _ _ hmem => .inl hmem)
    (fun _ _ => (if_neg fun hs => by cases hs.1).symm) h.inst

/-- A visit of the last element of a list. -/
theorem stored_of_joins {field : F} {mark : M} (hjoins : w.Joins field mark)
    (hright : (w.marks w.address field).getLast? = some mark) :
    Inv (w.step (.repeated field mark true)) := by
  have hlast : (w.marks w.address field)[w.index field mark]? = some mark := by
    rw [index, if_pos hjoins, ← List.getLast?_eq_getElem?, hright]
  have hstep : w.step (.repeated field mark true) =
      ⟨(field, some (w.index field mark)) :: w.address, (field, some mark) :: w.key, mark,
        w.marks, w.visits ++ [w.visit field mark true]⟩ := by
    simp [step, hjoins]
  rw [hstep]
  refine h.extend (v := w.visit field mark true) rfl rfl (fun _ _ => List.prefix_refl _) h.nodup
    (fun _ => hlast) (fun _ _ _ hmem => .inl hmem) (fun address' field' => ?_)
    (.element h.inst hlast)
  split
  · next hhere =>
    obtain ⟨-, rfl, rfl⟩ := hhere
    exact hright
  · rfl

/-- A visit that adds an element. -/
theorem stored_of_not_joins {field : F} {mark : M} (hjoins : ¬ w.Joins field mark)
    (hright : mark ∉ w.marks w.address field) : Inv (w.step (.repeated field mark true)) := by
  have hlast : (addMark w.marks w.address field mark w.address field)[w.index field mark]? =
      some mark := by
    rw [index, if_neg hjoins, addMark_self, List.getElem?_concat_length]
  have hstep : w.step (.repeated field mark true) =
      ⟨(field, some (w.index field mark)) :: w.address, (field, some mark) :: w.key, mark,
        addMark w.marks w.address field mark, w.visits ++ [w.visit field mark true]⟩ := by
    simp [step, hjoins]
  have hle := prefix_addMark w.marks w.address field mark
  rw [hstep]
  refine h.extend (v := w.visit field mark true) rfl rfl hle (nodup_addMark h.nodup hright)
    (fun _ => hlast) (fun address' field' mark' hmem => ?_) (fun address' field' => ?_)
    (.element (h.inst.mono hle) hlast)
  · obtain hmem | ⟨haddress, hfield, hmark⟩ := mem_addMark hmem
    · exact .inl hmem
    · exact .inr ⟨rfl, haddress, hfield, hmark⟩
  · rw [addMark]
    by_cases hhere : w.address = address' ∧ field = field'
    · rw [if_pos hhere, if_pos ⟨rfl, hhere⟩, List.getLast?_concat]
      rfl
    · rw [if_neg hhere, if_neg fun hs => hhere hs.2]

/-- **One step**, that goes where it should. -/
theorem stored {field : F} {mark : M} (hright : w.Right field mark) :
    Inv (w.step (.repeated field mark true)) := by
  rw [Right] at hright
  split at hright
  · next hjoins => exact h.stored_of_joins hjoins hright
  · next hjoins => exact h.stored_of_not_joins hjoins hright

/-- A step of a walk that groups goes where it should. -/
theorem right_of_grouped {field : F} {mark : M}
    (hgrouped : Grouped (w.step (.repeated field mark true)).visits) : w.Right field mark := by
  have hself : w.visit field mark true ∈ (w.step (.repeated field mark true)).visits :=
    List.mem_append_right _ (List.mem_singleton_self _)
  rw [Right]
  by_cases hjoins : w.Joins field mark
  · -- The last element was made with some mark, and has the index of this visit.
    rw [if_pos hjoins]
    obtain ⟨old, hold⟩ := Option.ne_none_iff_exists'.mp (mt List.getLast?_eq_none_iff.mp hjoins.2)
    rw [List.getLast?_eq_getElem?] at hold
    obtain ⟨v, hv, hs, ha, hf, hm⟩ := h.mark_visit _ _ old (List.mem_of_getElem? hold)
    have hmark := h.visit_mark v hv hs
    rw [ha, hf, hm] at hmark
    obtain ⟨hlt, -⟩ := List.getElem?_eq_some_iff.mp hmark
    have hindex : v.index = w.index field mark := by
      rw [index, if_pos hjoins]
      exact (List.getElem?_inj hlt (h.nodup _ _)).mp (hmark.trans hold.symm)
    have heq := (hgrouped v (List.mem_append_left _ hv) _ hself hs rfl ha hf).mp hindex
    rw [List.getLast?_eq_getElem?, hold, ← hm, heq]
    rfl
  · -- A new element has an index that no element has.
    rw [if_neg hjoins]
    intro hmem
    obtain ⟨v, hv, hs, ha, hf, hm⟩ := h.mark_visit _ _ mark hmem
    have hmark := h.visit_mark v hv hs
    obtain ⟨hlt, -⟩ := List.getElem?_eq_some_iff.mp hmark
    rw [ha, hf] at hlt
    have hindex : v.index = w.index field mark :=
      (hgrouped v (List.mem_append_left _ hv) _ hself hs rfl ha hf).mpr hm
    rw [hindex, index, if_neg hjoins] at hlt
    exact Nat.lt_irrefl _ hlt

/-- The steps to a list, by its key, are the visits of it, by its address. -/
theorem sameList_eq (field : F) : sameList (w.visits.map Visit.toMarkStep) w.key field =
    (visitsAt w.visits w.address field).map Visit.toMarkStep := by
  rw [sameList, List.filter_map, visitsAt]
  refine congrArg _ (List.filter_congr fun v hv => ?_)
  rw [Function.comp_apply]
  congr 2
  rw [Inst.address_eq_iff h.nodup (h.visit_inst v hv) h.inst]

/-- **Where a step should go**, from marks and keys. -/
theorem right_iff (field : F) (mark : M) : w.Right field mark ↔
    FollowsOn (w.visits.map Visit.toMarkStep) ⟨w.key, field, mark, true⟩ := by
  have hlatest := h.latest w.address field
  have hmarks : ((visitsAt w.visits w.address field).map Visit.toMarkStep).map MarkStep.mark =
      (visitsAt w.visits w.address field).map fun v => v.mark := List.map_map
  rw [FollowsOn, h.sameList_eq field]
  dsimp only
  by_cases hempty : visitsAt w.visits w.address field = []
  · rw [hempty, List.getLast?_nil, Option.map_none, List.getLast?_eq_none_iff] at hlatest
    have hjoins : ¬ w.Joins field mark := fun hjoins => hjoins.2 hlatest
    rw [Right, if_neg hjoins, hlatest, hempty]
    exact iff_of_true List.not_mem_nil fun hne => absurd rfl hne
  · have hne : w.marks w.address field ≠ [] := by
      intro hnil
      rw [hnil, List.getLast?_nil, eq_comm, Option.map_eq_none_iff,
        List.getLast?_eq_none_iff] at hlatest
      exact hempty hlatest
    have hbefore : w.visits ≠ [] := by
      intro hnil
      rw [visitsAt, hnil] at hempty
      exact hempty rfl
    obtain ⟨v, hv⟩ := Option.ne_none_iff_exists'.mp (mt List.getLast?_eq_none_iff.mp hbefore)
    have hlast : ((w.visits.map Visit.toMarkStep).getLast?.map MarkStep.mark = some mark) ↔
        w.Joins field mark := by
      rw [List.getLast?_map, hv, Option.map_some, Option.map_some, Option.some_inj,
        h.last_eq v hv, Joins, and_iff_left hne, eq_comm]
    have hlatest' : ((visitsAt w.visits w.address field).map Visit.toMarkStep).getLast?.map
        MarkStep.mark = (w.marks w.address field).getLast? := by
      rw [← List.getLast?_map, hmarks, List.getLast?_map, hlatest]
    rw [imp_iff_right (by rwa [ne_eq, List.map_eq_nil_iff]), hmarks, ← h.mem_marks_iff, hlatest',
      Right]
    by_cases hjoins : w.Joins field mark
    · rw [if_pos hjoins, if_pos (hlast.mpr hjoins)]
    · rw [if_neg hjoins, if_neg (mt hlast.mp hjoins)]

end Inv

/-! ### A run -/

theorem run_cons (w : MarkWalk F M) (move : Move F M) (moves : List (Move F M)) :
    w.run (move :: moves) = (w.step move).run moves :=
  rfl

theorem run_append (w : MarkWalk F M) (moves moves' : List (Move F M)) :
    w.run (moves ++ moves') = (w.run moves).run moves' :=
  List.foldl_append

theorem visits_prefix_run (w : MarkWalk F M) (moves : List (Move F M)) :
    w.visits <+: (w.run moves).visits := by
  induction moves generalizing w with
  | nil => exact List.prefix_refl _
  | cons move moves ih =>
    refine List.IsPrefix.trans ?_ (ih (w.step move))
    cases move with
    | start => exact List.prefix_refl _
    | single field => exact List.prefix_refl _
    | repeated field mark stored => exact List.prefix_append _ _

/-- What the walk visits is known without looking at the tree. -/
theorem map_visits_run (w : MarkWalk F M) (moves : List (Move F M)) :
    (w.run moves).visits.map Visit.toMarkStep =
      w.visits.map Visit.toMarkStep ++ markSteps w.key moves := by
  induction moves generalizing w with
  | nil => exact (List.append_nil _).symm
  | cons move moves ih =>
    rw [run_cons, ih]
    cases move with
    | start => rfl
    | single field => rfl
    | repeated field mark stored =>
      rw [step, List.map_append, markSteps, List.append_assoc]
      rfl

/-- **A run groups by marks** if and only if its steps are in order, and then the invariant holds at
its end. -/
theorem grouped_iff {w : MarkWalk F M} (h : Inv w) (moves : List (Move F M)) :
    (Grouped (w.run moves).visits ↔
      InOrder (w.visits.map Visit.toMarkStep) (markSteps w.key moves)) ∧
    (InOrder (w.visits.map Visit.toMarkStep) (markSteps w.key moves) → Inv (w.run moves)) := by
  induction moves generalizing w with
  | nil => exact ⟨iff_of_true h.grouped trivial, fun _ => h⟩
  | cons move moves ih =>
    rw [run_cons]
    cases move with
    | start => exact ih h.start
    | single field => exact ih (h.single field)
    | repeated field mark stored =>
      have hnext : (w.step (.repeated field mark stored)).visits.map Visit.toMarkStep =
          w.visits.map Visit.toMarkStep ++ [⟨w.key, field, mark, stored⟩] := by
        rw [step, List.map_append]
        rfl
      rw [markSteps, InOrder]
      cases stored with
      | false =>
        have hrest := ih (h.not_stored field mark)
        rw [hnext] at hrest
        rw [and_iff_right fun hs => by cases hs]
        exact hrest
      | true =>
        rw [imp_iff_right rfl, ← h.right_iff field mark]
        refine ⟨⟨fun hgrouped => ?_, fun hright => ?_⟩, fun hright => ?_⟩
        · have hright := h.right_of_grouped (hgrouped.of_prefix (visits_prefix_run _ moves))
          have hrest := (ih (h.stored hright)).1.mp hgrouped
          rw [hnext] at hrest
          exact ⟨hright, hrest⟩
        · have hrest := (ih (h.stored hright.1)).1
          rw [hnext] at hrest
          exact hrest.mpr hright.2
        · have hrest := (ih (h.stored hright.1)).2
          rw [hnext] at hrest
          exact hrest hright.2

end Step

end MarkWalk

end Lsf
