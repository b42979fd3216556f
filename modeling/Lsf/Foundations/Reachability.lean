import Mathlib.Logic.Basic

/-!
# Reachable states of guarded steps

A system takes a step on an event when the event is possible in its state. `Reachable` collects the
states of all runs whose steps meet a condition, and `Reachable.invariant` is the rule with which
properties of them are proved.

## Main definitions

* `runSteps`, `GuardedSteps` — a sequence of events, and a condition on all of them
* `Reachable` — the states of all runs under a condition
* `HoldsAlong` — a property of every state of a run

## Main results

* `Reachable.invariant`, `reachable_of_runSteps`
* `GuardedSteps.of_invariant`, `guardedSteps_iff_of_invariant` — one condition on the steps from
  another
* `holdsAlong_iff_guardedSteps`, `holdsAlong_iff_guardedSteps_of_run` — a property that each step
  keeps exactly under its condition
* `holdsAlong_iff_guardedSteps_under` — a property that is kept for a stronger reason
-/

namespace Lsf

variable {ι σ : Type} {step : ι → σ → Option σ} {G : ι → σ → Prop} {s₀ s : σ}

/-- Take the events in order, if each is possible where it comes. -/
def runSteps (step : ι → σ → Option σ) : List ι → σ → Option σ
  | [], s => some s
  | i :: is, s => (step i s).bind (runSteps step is)

theorem runSteps_append (is js : List ι) (s : σ) :
    runSteps step (is ++ js) s = (runSteps step is s).bind (runSteps step js) := by
  induction is generalizing s with
  | nil => rfl
  | cons i is ih =>
    rw [List.cons_append, runSteps, runSteps, Option.bind_assoc]
    exact congrArg _ (funext ih)

/-- The states of the runs from `s₀` on in which every step meets the condition `G`. -/
inductive Reachable (step : ι → σ → Option σ) (G : ι → σ → Prop) (s₀ : σ) : σ → Prop
  | start : Reachable step G s₀ s₀
  | next {i s s'} : Reachable step G s₀ s → G i s → step i s = some s' → Reachable step G s₀ s'

/-- The invariant rule: what holds at the start and is kept by every step holds of every reachable
state. -/
theorem Reachable.invariant {I : σ → Prop} (start : I s₀)
    (next : ∀ i s s', G i s → I s → step i s = some s' → I s')
    (h : Reachable step G s₀ s) : I s := by
  induction h with
  | start => exact start
  | next _ hg hstep ih => exact next _ _ _ hg ih hstep

theorem Reachable.trans {s₁ s₂ : σ} (h₁ : Reachable step G s₀ s₁) (h₂ : Reachable step G s₁ s₂) :
    Reachable step G s₀ s₂ := by
  induction h₂ with
  | start => exact h₁
  | next _ hg hstep ih => exact ih.next hg hstep

/-- Every step of the sequence meets the condition `G`. -/
def GuardedSteps (step : ι → σ → Option σ) (G : ι → σ → Prop) : List ι → σ → Prop
  | [], _ => True
  | i :: is, s => G i s ∧ ∀ s', step i s = some s' → GuardedSteps step G is s'

instance decidableGuardedSteps [∀ i s, Decidable (G i s)] :
    ∀ is s, Decidable (GuardedSteps step G is s)
  | [], _ => isTrue trivial
  | i :: is, s =>
    match hstep : step i s with
    | none => decidable_of_iff (G i s) ⟨fun h => ⟨h, by simp [hstep]⟩, And.left⟩
    | some s' =>
      have := decidableGuardedSteps is s'
      decidable_of_iff (G i s ∧ GuardedSteps step G is s')
        (and_congr_right fun _ => by simp [hstep])

/-- A sequence of events ends in a reachable state. -/
theorem reachable_of_runSteps {is : List ι} (hguard : GuardedSteps step G is s₀)
    (hrun : runSteps step is s₀ = some s) : Reachable step G s₀ s := by
  induction is generalizing s₀ with
  | nil =>
    obtain rfl : s₀ = s := Option.some.inj hrun
    exact .start
  | cons i is ih =>
    obtain ⟨s₁, hstep, hrest⟩ := Option.bind_eq_some_iff.mp hrun
    exact Reachable.trans (.next .start hguard.1 hstep) (ih (hguard.2 s₁ hstep) hrest)

theorem guardedSteps_true (is : List ι) (s : σ) : GuardedSteps step (fun _ _ => True) is s := by
  induction is generalizing s with
  | nil => trivial
  | cons i is ih => exact ⟨trivial, fun s' _ => ih s'⟩

/-- In a run whose steps meet the condition `G`, they also meet one that follows from `G` and an
invariant. -/
theorem GuardedSteps.of_invariant {G' : ι → σ → Prop} {I : σ → Prop}
    (next : ∀ i s s', G i s → I s → step i s = some s' → I s')
    (himp : ∀ i s, G i s → I s → G' i s) {is : List ι} (hi : I s)
    (hguard : GuardedSteps step G is s) : GuardedSteps step G' is s := by
  induction is generalizing s with
  | nil => trivial
  | cons i is ih =>
    exact ⟨himp i s hguard.1 hi, fun s' hstep =>
      ih (next i s s' hguard.1 hi hstep) (hguard.2 s' hstep)⟩

/-- Two conditions on the steps of a run that an invariant makes the same. -/
theorem guardedSteps_iff_of_invariant {G' : ι → σ → Prop} {I : σ → Prop}
    (next : ∀ i s s', I s → step i s = some s' → I s') (hiff : ∀ i s, I s → (G i s ↔ G' i s))
    {is : List ι} (hi : I s) : GuardedSteps step G is s ↔ GuardedSteps step G' is s :=
  ⟨GuardedSteps.of_invariant (fun i s s' _ => next i s s')
      (fun i s hg hi => (hiff i s hi).mp hg) hi,
    GuardedSteps.of_invariant (fun i s s' _ => next i s s') (fun i s hg hi => (hiff i s hi).mpr hg)
      hi⟩

/-- `P` holds in every state of the run on the events, the first and the last among them. -/
def HoldsAlong (step : ι → σ → Option σ) (P : σ → Prop) : List ι → σ → Prop
  | [], s => P s
  | i :: is, s => P s ∧ ∀ s', step i s = some s' → HoldsAlong step P is s'

theorem HoldsAlong.head {P : σ → Prop} {is : List ι} (h : HoldsAlong step P is s) : P s := by
  cases is with
  | nil => exact h
  | cons i is => exact h.1

theorem HoldsAlong.last {P : σ → Prop} {is : List ι} {s' : σ} (h : HoldsAlong step P is s)
    (hrun : runSteps step is s = some s') : P s' := by
  induction is generalizing s with
  | nil =>
    obtain rfl : s = s' := Option.some.inj hrun
    exact h
  | cons i is ih =>
    obtain ⟨s₁, hstep, hrest⟩ := Option.bind_eq_some_iff.mp hrun
    exact ih (h.2 s₁ hstep) hrest

/-- The invariant rule for every state of a run. -/
theorem holdsAlong_of_invariant {P I : σ → Prop} (hP : ∀ s, I s → P s)
    (next : ∀ i s s', I s → step i s = some s' → I s') {is : List ι} (hi : I s) :
    HoldsAlong step P is s := by
  induction is generalizing s with
  | nil => exact hP s hi
  | cons i is ih => exact ⟨hP s hi, fun s' hs => ih (next i s s' hi hs)⟩

/-- Where a step leads from a state with `P` to one with `P` exactly under its condition, a run
keeps `P` exactly when all its steps meet theirs. `I` is an invariant that does not depend on the
condition. -/
theorem holdsAlong_iff_guardedSteps {P I : σ → Prop}
    (hstep : ∀ i s s', I s → P s → step i s = some s' → I s' ∧ (P s' ↔ G i s))
    (hnone : ∀ i s, step i s = none → G i s) {is : List ι} (hi : I s) (hp : P s) :
    HoldsAlong step P is s ↔ GuardedSteps step G is s := by
  induction is generalizing s with
  | nil => exact iff_of_true hp trivial
  | cons i is ih =>
    rw [HoldsAlong, GuardedSteps]
    cases hs : step i s with
    | none => exact iff_of_true ⟨hp, fun s' h => by cases h⟩ ⟨hnone i s hs, fun s' h => by cases h⟩
    | some s₁ =>
      obtain ⟨hi₁, hiff⟩ := hstep i s s₁ hi hp hs
      constructor
      · rintro ⟨-, hrest⟩
        have hp₁ := (hrest s₁ rfl).head
        refine ⟨hiff.mp hp₁, fun s' h => ?_⟩
        cases h
        exact (ih hi₁ hp₁).mp (hrest s₁ rfl)
      · rintro ⟨hg, hrest⟩
        refine ⟨hp, fun s' h => ?_⟩
        cases h
        exact (ih hi₁ (hiff.mpr hg)).mpr (hrest s₁ rfl)

/-- A run keeps `P` exactly when its steps meet their condition, where these keep an invariant from
which `P` follows and the first step that does not meet it ends `P`. The run may be under another
condition `H`. -/
theorem holdsAlong_iff_guardedSteps_under {P I : σ → Prop} {H : ι → σ → Prop}
    (hP : ∀ s, I s → P s)
    (hkeep : ∀ i s s', I s → H i s → G i s → step i s = some s' → I s')
    (hend : ∀ i s, I s → H i s → ¬ G i s → ∃ s', step i s = some s' ∧ ¬ P s') {is : List ι}
    (hguard : GuardedSteps step H is s) (hi : I s) :
    HoldsAlong step P is s ↔ GuardedSteps step G is s := by
  induction is generalizing s with
  | nil => exact iff_of_true (hP s hi) trivial
  | cons i is ih =>
    rw [HoldsAlong, GuardedSteps, and_iff_right (hP s hi)]
    by_cases hg : G i s
    · rw [and_iff_right hg]
      exact forall₂_congr fun s' hs => ih (hguard.2 s' hs) (hkeep i s s' hi hguard.1 hg hs)
    · obtain ⟨s', hs, hp⟩ := hend i s hi hguard.1 hg
      exact iff_of_false (fun h => hp (h s' hs).head) fun h => hg h.1

/-- In a run that goes through, every step is possible. -/
theorem guardedSteps_iff_of_runSteps {is : List ι} {s' : σ} (hrun : runSteps step is s = some s') :
    GuardedSteps step (fun i s => (step i s).isSome → G i s) is s ↔ GuardedSteps step G is s := by
  induction is generalizing s with
  | nil => exact Iff.rfl
  | cons i is ih =>
    obtain ⟨s₁, hs, hrest⟩ := Option.bind_eq_some_iff.mp hrun
    rw [GuardedSteps, GuardedSteps]
    simp only [hs, Option.isSome_some, forall_const, Option.some.injEq, forall_eq', ih hrest]

/-- The rule for runs that go through: nothing is asked of steps that are not possible. -/
theorem holdsAlong_iff_guardedSteps_of_run {P I : σ → Prop}
    (hstep : ∀ i s s', I s → P s → step i s = some s' → I s' ∧ (P s' ↔ G i s)) {is : List ι}
    {s' : σ} (hrun : runSteps step is s = some s') (hi : I s) (hp : P s) :
    HoldsAlong step P is s ↔ GuardedSteps step G is s := by
  rw [← guardedSteps_iff_of_runSteps hrun]
  refine holdsAlong_iff_guardedSteps (fun i s s' hi hp hs => ?_) (fun i s hs h => ?_) hi hp
  · rw [hs, Option.isSome_some, imp_iff_right rfl]
    exact hstep i s s' hi hp hs
  · rw [hs] at h
    cases h

end Lsf
