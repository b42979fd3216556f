import Lsf.Foundations.Ensures

/-!
# Runs of operations and their abstract counterpart

An implementation performs an operation as a fallible program on its state; a specification
performs it as a total function on an abstract value. `Refines` relates the two one operation at a
time, for the operations that are admissible in an abstract value, and `Refines.runAll` lifts the
relation to every sequence of operations.

## Main definitions

* `runAll`, `traceAll` — a sequence of operations, and the answers it gives
* `Refines` — one operation of the implementation does what the specification says
* `PermitsAll` — the answers that a specification with a choice permits
* `Throughout`, `Guarded` — a property of every state of a run, and a condition on every step
* `EachStep` — a relation between the two ends of every step
* `Meets` — the specification's answers, and a relation with its value in every state of a run

## Main results

* `Refines.runAll`, `runAll_permits` — so does every sequence
* `Refines.runAll_iff` — and only one of admissible operations, where the others answer wrongly
* `throughout_iff_guarded` — a property that each step keeps exactly under its condition
* `eachStep_iff_guarded` — a relation that each step meets exactly under its condition
* `meets_iff_guarded` — a specification that each step follows exactly under its condition
-/

namespace Lsf

variable {ι σ τ ρ : Type}

/-- Perform the operations in order and collect their answers. -/
def runAll (step : ι → StateT σ Option ρ) : List ι → StateT σ Option (List ρ)
  | [] => pure []
  | i :: is => do
    let r ← step i
    let rs ← runAll step is
    return r :: rs

/-- The answers of a specification, and the abstract value it ends with. -/
def traceAll (spec : ι → τ → ρ × τ) : List ι → τ → List ρ × τ
  | [], a => ([], a)
  | i :: is, a => ((spec i a).1 :: (traceAll spec is (spec i a).2).1,
      (traceAll spec is (spec i a).2).2)

/-- Every operation of the sequence is admissible in the abstract value it meets. -/
def AdmissibleAll (spec : ι → τ → ρ × τ) (adm : ι → τ → Prop) : List ι → τ → Prop
  | [], _ => True
  | i :: is, a => adm i a ∧ AdmissibleAll spec adm is (spec i a).2

/-- An admissible operation succeeds, answers as the specification does, and keeps the states
related. -/
def Refines (step : ι → StateT σ Option ρ) (spec : ι → τ → ρ × τ) (adm : ι → τ → Prop)
    (R : σ → τ → Prop) : Prop :=
  ∀ i s a, adm i a → R s a →
    Ensures (step i) s fun r s' => r = (spec i a).1 ∧ R s' (spec i a).2

theorem Refines.runAll {step : ι → StateT σ Option ρ} {spec : ι → τ → ρ × τ}
    {adm : ι → τ → Prop} {R : σ → τ → Prop} (h : Refines step spec adm R) {is : List ι} {s : σ}
    {a : τ} (ha : AdmissibleAll spec adm is a) (hs : R s a) :
    Ensures (runAll step is) s fun rs s' =>
      rs = (traceAll spec is a).1 ∧ R s' (traceAll spec is a).2 := by
  induction is generalizing s a with
  | nil =>
    rw [Lsf.runAll, ensures_pure]
    exact ⟨rfl, hs⟩
  | cons i is ih =>
    rw [Lsf.runAll]
    refine (h i s a ha.1 hs).bind ?_
    rintro _ s₁ ⟨rfl, h₁⟩
    refine (ih ha.2 h₁).bind ?_
    rintro _ s₂ ⟨rfl, h₂⟩
    rw [ensures_pure]
    exact ⟨rfl, h₂⟩

/-- Where an operation that is not admissible answers something else, a sequence answers as the
specification does exactly when all of it is admissible. -/
theorem Refines.runAll_iff {step : ι → StateT σ Option ρ} {spec : ι → τ → ρ × τ}
    {adm : ι → τ → Prop} {R : σ → τ → Prop} (h : Refines step spec adm R)
    (hne : ∀ i s a, ¬adm i a → R s a → Ensures (step i) s fun r _ => r ≠ (spec i a).1)
    {is : List ι} {s : σ} {a : τ} (hs : R s a) :
    (Ensures (Lsf.runAll step is) s fun rs s' =>
        rs = (traceAll spec is a).1 ∧ R s' (traceAll spec is a).2) ↔
      AdmissibleAll spec adm is a := by
  refine ⟨fun hrun => ?_, fun ha => h.runAll ha hs⟩
  induction is generalizing s a with
  | nil => trivial
  | cons i is ih =>
    obtain ⟨rs, s', hrun, hrs, hend⟩ := hrun
    simp only [Lsf.runAll, StateT.run_bind, StateT.run_pure, Option.bind_eq_bind,
      Option.bind_eq_some_iff, Option.pure_def] at hrun
    obtain ⟨⟨r, s₁⟩, hstep, ⟨rs', s₂⟩, hrest, heq⟩ := hrun
    obtain ⟨rfl, rfl⟩ := Prod.mk.inj (Option.some.inj heq)
    obtain ⟨hr, hrs'⟩ := List.cons.inj hrs
    by_cases ha : adm i a
    · exact ⟨ha, ih ((h i s a ha hs).elim hstep).2 (.of_run hrest ⟨hrs', hend⟩)⟩
    · exact absurd hr ((hne i s a ha hs).elim hstep)

theorem admissibleAll_true (spec : ι → τ → ρ × τ) (is : List ι) (a : τ) :
    AdmissibleAll spec (fun _ _ => True) is a := by
  induction is generalizing a with
  | nil => trivial
  | cons i is ih => exact ⟨trivial, ih _⟩

/-! ### Specifications with a choice -/

/-- The specification permits these answers and this abstract value after the operations. -/
def PermitsAll (spec : ι → τ → ρ → τ → Prop) : List ι → τ → List ρ → τ → Prop
  | [], a, rs, a' => rs = [] ∧ a' = a
  | i :: is, a, rs, a' => ∃ r a₁ rs', rs = r :: rs' ∧ spec i a r a₁ ∧ PermitsAll spec is a₁ rs' a'

/-- When every operation succeeds with something that the specification permits, so does every
sequence. -/
theorem runAll_permits {step : ι → StateT σ Option ρ} {spec : ι → τ → ρ → τ → Prop}
    {R : σ → τ → Prop}
    (h : ∀ i s a, R s a → Ensures (step i) s fun r s' => ∃ a', spec i a r a' ∧ R s' a')
    {is : List ι} {s : σ} {a : τ} (hs : R s a) :
    Ensures (runAll step is) s fun rs s' => ∃ a', PermitsAll spec is a rs a' ∧ R s' a' := by
  induction is generalizing s a with
  | nil =>
    rw [Lsf.runAll, ensures_pure]
    exact ⟨a, ⟨rfl, rfl⟩, hs⟩
  | cons i is ih =>
    rw [Lsf.runAll]
    refine (h i s a hs).bind ?_
    rintro r s₁ ⟨a₁, hr, h₁⟩
    refine (ih h₁).bind ?_
    rintro rs s₂ ⟨a', hrs, h₂⟩
    rw [ensures_pure]
    exact ⟨a', ⟨r, a₁, rs, rfl, hr, hrs⟩, h₂⟩

/-! ### Every state of a run -/

/-- The sequence runs through, and `P` holds in every state on the way, the first and the last
among them. -/
def Throughout (step : ι → StateT σ Option ρ) (P : σ → Prop) : List ι → σ → Prop
  | [], s => P s
  | i :: is, s => P s ∧ Ensures (step i) s fun _ s' => Throughout step P is s'

/-- The sequence runs through, and every operation meets the condition in the state it starts
from. -/
def Guarded (step : ι → StateT σ Option ρ) (G : ι → σ → Prop) : List ι → σ → Prop
  | [], _ => True
  | i :: is, s => G i s ∧ Ensures (step i) s fun _ s' => Guarded step G is s'

/-- A guard can be tried out on a run. -/
instance Guarded.decidable {step : ι → StateT σ Option ρ} {G : ι → σ → Prop}
    [∀ i s, Decidable (G i s)] : ∀ (is : List ι) (s : σ), Decidable (Guarded step G is s)
  | [], _ => isTrue trivial
  | i :: is, s =>
    have : ∀ s', Decidable (Guarded step G is s') := Guarded.decidable is
    inferInstanceAs (Decidable (G i s ∧ Ensures (step i) s fun _ s' => Guarded step G is s'))

/-- A run that meets a stronger condition. -/
theorem Guarded.mono {step : ι → StateT σ Option ρ} {G G' : ι → σ → Prop}
    (hG : ∀ i s, G i s → G' i s) {is : List ι} {s : σ} (h : Guarded step G is s) :
    Guarded step G' is s := by
  induction is generalizing s with
  | nil => trivial
  | cons i is ih => exact ⟨hG i s h.1, Ensures.mono h.2 fun _ _ h' => ih h'⟩

theorem Throughout.head {step : ι → StateT σ Option ρ} {P : σ → Prop} {is : List ι} {s : σ}
    (h : Throughout step P is s) : P s := by
  cases is with
  | nil => exact h
  | cons i is => exact h.1

/-- Where an operation leads from a state with `P` to one with `P` exactly under its condition, a
run keeps `P` exactly when all its operations meet theirs. `I` is an invariant that does not depend
on the condition. -/
theorem throughout_iff_guarded {step : ι → StateT σ Option ρ} {P I : σ → Prop}
    {G : ι → σ → Prop}
    (hstep : ∀ i s, I s → P s → Ensures (step i) s fun _ s' => I s' ∧ (P s' ↔ G i s))
    {is : List ι} {s : σ} (hi : I s) (hp : P s) :
    Throughout step P is s ↔ Guarded step G is s := by
  induction is generalizing s with
  | nil => exact iff_of_true hp trivial
  | cons i is ih =>
    obtain ⟨r, s', hrun, hi', hiff⟩ := hstep i s hi hp
    rw [Throughout, Guarded, Ensures.iff_of_run hrun, Ensures.iff_of_run hrun]
    by_cases hg : G i s
    · rw [ih hi' (hiff.mpr hg)]
      exact and_congr_left fun _ => iff_of_true hp hg
    · exact iff_of_false (fun h => hg (hiff.mp h.2.head)) fun h => hg h.1

/-! ### Every step of a run -/

/-- The sequence runs through, and `R` holds between the two ends of every operation and its
answer. -/
def EachStep (step : ι → StateT σ Option ρ) (R : ι → σ → ρ → σ → Prop) : List ι → σ → Prop
  | [], _ => True
  | i :: is, s => Ensures (step i) s fun r s' => R i s r s' ∧ EachStep step R is s'

/-- Where an operation from a state with `I` is as `R` says exactly under its condition, and then
keeps `I`, a run is as `R` says exactly when all its operations meet theirs. -/
theorem eachStep_iff_guarded {step : ι → StateT σ Option ρ} {R : ι → σ → ρ → σ → Prop}
    {I : σ → Prop} {G : ι → σ → Prop}
    (hstep : ∀ i s, I s → Ensures (step i) s fun r s' => (R i s r s' ↔ G i s) ∧ (G i s → I s'))
    {is : List ι} {s : σ} (hi : I s) : EachStep step R is s ↔ Guarded step G is s := by
  induction is generalizing s with
  | nil => exact Iff.rfl
  | cons i is ih =>
    obtain ⟨r, s', hrun, hiff, hkeep⟩ := hstep i s hi
    rw [EachStep, Guarded, Ensures.iff_of_run hrun, Ensures.iff_of_run hrun, hiff]
    exact and_congr_right fun hg => ih (hkeep hg)

/-- The last operation of a run. -/
theorem EachStep.last {step : ι → StateT σ Option ρ} {R : ι → σ → ρ → σ → Prop} {is : List ι}
    {i : ι} {s : σ} (h : EachStep step R (is ++ [i]) s) :
    Ensures (Lsf.runAll step is) s fun _ s₁ => Ensures (step i) s₁ fun r s' => R i s₁ r s' := by
  induction is generalizing s with
  | nil =>
    rw [Lsf.runAll, ensures_pure]
    exact Ensures.mono h fun _ _ hr => hr.1
  | cons j is ih =>
    rw [Lsf.runAll]
    refine Ensures.bind h fun _ s' hr => ?_
    refine (ih hr.2).bind fun _ s₁ hlast => ?_
    rwa [ensures_pure]

/-! ### A specification followed through a run -/

/-- The sequence runs through, every operation answers as the specification does, and `P` holds
between every state on the way and the abstract value that the specification has there. -/
def Meets (step : ι → StateT σ Option ρ) (spec : ι → τ → ρ × τ) (P : σ → τ → Prop) :
    List ι → σ → τ → Prop
  | [], s, a => P s a
  | i :: is, s, a => P s a ∧ Ensures (step i) s fun r s' =>
      r = (spec i a).1 ∧ Meets step spec P is s' (spec i a).2

section Meets

variable {step : ι → StateT σ Option ρ} {spec : ι → τ → ρ × τ} {P : σ → τ → Prop}

theorem Meets.head {is : List ι} {s : σ} {a : τ} (h : Meets step spec P is s a) : P s a := by
  cases is with
  | nil => exact h
  | cons i is => exact h.1

/-- A run that follows the specification ends as it does. -/
theorem Meets.run {is : List ι} {s : σ} {a : τ} (h : Meets step spec P is s a) :
    Ensures (Lsf.runAll step is) s fun rs s' =>
      rs = (traceAll spec is a).1 ∧ P s' (traceAll spec is a).2 := by
  induction is generalizing s a with
  | nil =>
    rw [Lsf.runAll, ensures_pure]
    exact ⟨rfl, h⟩
  | cons i is ih =>
    rw [Lsf.runAll]
    refine Ensures.bind h.2 ?_
    rintro _ s₁ ⟨rfl, h₁⟩
    refine (ih h₁).bind ?_
    rintro _ s₂ ⟨rfl, h₂⟩
    rw [ensures_pure]
    exact ⟨rfl, h₂⟩

/-- Where an operation follows the specification and keeps the states related exactly under its
condition, and otherwise answers something else or leads to a state without `P`, a run follows the
specification exactly when all its operations meet theirs. -/
theorem meets_iff_guarded {R : σ → τ → Prop} {G : ι → σ → Prop} (hP : ∀ s a, R s a → P s a)
    (hkeep : ∀ i s a, R s a → G i s →
      Ensures (step i) s fun r s' => r = (spec i a).1 ∧ R s' (spec i a).2)
    (hbreak : ∀ i s a, R s a → ¬ G i s →
      Ensures (step i) s fun r s' => ¬ (r = (spec i a).1 ∧ P s' (spec i a).2))
    {is : List ι} {s : σ} {a : τ} (h : R s a) :
    Meets step spec P is s a ↔ Guarded step G is s := by
  induction is generalizing s a with
  | nil => exact iff_of_true (hP s a h) trivial
  | cons i is ih =>
    rw [Meets, Guarded]
    by_cases hg : G i s
    · obtain ⟨r, s', hrun, hr, h'⟩ := hkeep i s a h hg
      rw [Ensures.iff_of_run hrun, Ensures.iff_of_run hrun, ← ih h']
      exact ⟨fun hf => ⟨hg, hf.2.2⟩, fun hf => ⟨hP s a h, hr, hf.2⟩⟩
    · obtain ⟨r, s', hrun, hne⟩ := hbreak i s a h hg
      rw [Ensures.iff_of_run hrun]
      exact iff_of_false (fun hf => hne ⟨hf.2.1, hf.2.2.head⟩) fun hf => hg hf.1

/-- Where every operation follows the specification and keeps the states related, so does every
run. -/
theorem meets_of_keeps {R : σ → τ → Prop} (hP : ∀ s a, R s a → P s a)
    (hkeep : ∀ i s a, R s a →
      Ensures (step i) s fun r s' => r = (spec i a).1 ∧ R s' (spec i a).2)
    {is : List ι} {s : σ} {a : τ} (h : R s a) : Meets step spec P is s a := by
  induction is generalizing s a with
  | nil => exact hP s a h
  | cons i is ih => exact ⟨hP s a h, (hkeep i s a h).mono fun _ _ h' => ⟨h'.1, ih h'.2⟩⟩

/-- The state that a guarded run leads to. -/
theorem Guarded.run {R : σ → τ → Prop} {G : ι → σ → Prop}
    (hkeep : ∀ i s a, R s a → G i s →
      Ensures (step i) s fun r s' => r = (spec i a).1 ∧ R s' (spec i a).2)
    {is : List ι} {s : σ} {a : τ} (h : R s a) (hg : Guarded step G is s) :
    Ensures (Lsf.runAll step is) s fun rs s' =>
      rs = (traceAll spec is a).1 ∧ R s' (traceAll spec is a).2 := by
  induction is generalizing s a with
  | nil =>
    rw [Lsf.runAll, ensures_pure]
    exact ⟨rfl, h⟩
  | cons i is ih =>
    obtain ⟨hi, hrest⟩ := hg
    rw [Lsf.runAll]
    refine ((hkeep i s a h hi).and hrest).bind ?_
    rintro _ s₁ ⟨⟨rfl, h₁⟩, hrest⟩
    refine (ih h₁ hrest).bind ?_
    rintro _ s₂ ⟨rfl, h₂⟩
    rw [ensures_pure]
    exact ⟨rfl, h₂⟩

end Meets

end Lsf
