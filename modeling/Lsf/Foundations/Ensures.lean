import Mathlib.Init

/-!
# Total correctness of fallible state programs

A program over a state `σ` that may fault is a `StateT σ Option`. `Ensures m s Q` says that `m`
started in `s` does not fault and ends with a result and a state satisfying `Q`; a loop that is
cut off by its fuel faults too, so `Ensures` also speaks about termination.

`IfEnds` says less, that whatever `m` ends with satisfies `Q`, of programs that may fault.

The lemmas below push `Ensures` through `pure`, `bind`, conditionals and the state operations.
They are the simp set with which every straight-line program of the development is executed.

## Main definitions

* `Ensures` — the total-correctness predicate
* `Ensures.elim` — the run it stands for
* `IfEnds` — the partial-correctness predicate
* `Reads` — a program that leaves every state as it is
-/

namespace Lsf

variable {σ α β : Type}

/-- `m` started in `s` does not fault, and `Q` holds of its result and final state. -/
def Ensures (m : StateT σ Option α) (s : σ) (Q : α → σ → Prop) : Prop :=
  ∃ a s', m.run s = some (a, s') ∧ Q a s'

namespace Ensures

variable {s : σ} {Q R : α → σ → Prop}

theorem of_run {m : StateT σ Option α} {a : α} {s' : σ} (hm : m.run s = some (a, s'))
    (hQ : Q a s') : Ensures m s Q :=
  ⟨a, s', hm, hQ⟩

theorem mono {m : StateT σ Option α} (h : Ensures m s Q) (hQR : ∀ a s', Q a s' → R a s') :
    Ensures m s R := by
  obtain ⟨a, s', hm, hq⟩ := h
  exact ⟨a, s', hm, hQR a s' hq⟩

/-- Two facts about one run hold of the same result. -/
theorem and {m : StateT σ Option α} (hQ : Ensures m s Q) (hR : Ensures m s R) :
    Ensures m s fun a s' => Q a s' ∧ R a s' := by
  obtain ⟨a, s', hm, hq⟩ := hQ
  obtain ⟨b, s'', hm', hr⟩ := hR
  obtain ⟨rfl, rfl⟩ : a = b ∧ s' = s'' := by simpa [hm] using hm'
  exact ⟨a, s', hm, hq, hr⟩

/-- What is ensured of a known run holds of its outcome. -/
theorem elim {m : StateT σ Option α} (h : Ensures m s Q) {a : α} {s' : σ}
    (hm : m.run s = some (a, s')) : Q a s' := by
  obtain ⟨b, s'', hm', hq⟩ := h
  obtain ⟨rfl, rfl⟩ : a = b ∧ s' = s'' := by simpa [hm] using hm'
  exact hq

/-- The sequencing rule. -/
theorem bind {m : StateT σ Option α} {f : α → StateT σ Option β} {P : β → σ → Prop}
    (hm : Ensures m s Q) (hf : ∀ a s', Q a s' → Ensures (f a) s' P) : Ensures (m >>= f) s P := by
  obtain ⟨a, s', hrun, hq⟩ := hm
  obtain ⟨b, s'', hrun', hp⟩ := hf a s' hq
  exact ⟨b, s'', by simp [hrun, hrun'], hp⟩

/-- The sequencing rule for a known run. -/
theorem bind_of_run {m : StateT σ Option α} {f : α → StateT σ Option β} {P : β → σ → Prop}
    {a : α} {s' : σ} (hm : m.run s = some (a, s')) (hf : Ensures (f a) s' P) :
    Ensures (m >>= f) s P := by
  obtain ⟨b, s'', hrun, hp⟩ := hf
  exact ⟨b, s'', by simp [hm, hrun], hp⟩

/-- A known run ensures exactly what holds of its outcome. -/
theorem iff_of_run {m : StateT σ Option α} {a : α} {s' : σ} (hm : m.run s = some (a, s')) :
    Ensures m s Q ↔ Q a s' :=
  ⟨fun h => h.elim hm, of_run hm⟩

/-- What a program ensures can be tried out. -/
instance {m : StateT σ Option α} [∀ a s', Decidable (Q a s')] : Decidable (Ensures m s Q) :=
  match h : m.run s with
  | none => isFalse fun ⟨_, _, hm, _⟩ => by simp [h] at hm
  | some (_, _) => decidable_of_iff (Q _ _) (iff_of_run h).symm

end Ensures

variable {s : σ}

@[simp] theorem ensures_pure {a : α} {Q : α → σ → Prop} :
    Ensures (pure a : StateT σ Option α) s Q ↔ Q a s := by
  constructor
  · rintro ⟨b, s', hrun, hq⟩
    obtain ⟨rfl, rfl⟩ : a = b ∧ s = s' := by simpa using hrun
    exact hq
  · exact fun hq => ⟨a, s, rfl, hq⟩

@[simp] theorem ensures_bind {m : StateT σ Option α} {f : α → StateT σ Option β}
    {Q : β → σ → Prop} :
    Ensures (m >>= f) s Q ↔ Ensures m s fun a s' => Ensures (f a) s' Q := by
  constructor
  · rintro ⟨b, s'', hrun, hq⟩
    simp only [StateT.run_bind, Option.bind_eq_bind, Option.bind_eq_some_iff] at hrun
    obtain ⟨⟨a, s'⟩, ha, hb⟩ := hrun
    exact ⟨a, s', ha, b, s'', hb, hq⟩
  · exact fun h => h.bind fun _ _ hf => hf

@[simp] theorem ensures_map {m : StateT σ Option α} {f : α → β} {Q : β → σ → Prop} :
    Ensures (f <$> m) s Q ↔ Ensures m s fun a s' => Q (f a) s' := by
  rw [map_eq_pure_bind, ensures_bind]
  simp only [ensures_pure]

@[simp] theorem ensures_get {Q : σ → σ → Prop} :
    Ensures (get : StateT σ Option σ) s Q ↔ Q s s := by
  constructor
  · rintro ⟨b, s', hrun, hq⟩
    obtain ⟨rfl, rfl⟩ : s = b ∧ s = s' := by simpa using hrun
    exact hq
  · exact fun hq => ⟨s, s, rfl, hq⟩

@[simp] theorem ensures_modify {f : σ → σ} {Q : PUnit → σ → Prop} :
    Ensures (modify f : StateT σ Option PUnit) s Q ↔ Q ⟨⟩ (f s) := by
  have hrun : (modify f : StateT σ Option PUnit).run s = some (⟨⟩, f s) := rfl
  exact ⟨fun h => h.elim hrun, Ensures.of_run hrun⟩

theorem ensures_ite {c : Prop} [Decidable c] {m n : StateT σ Option α} {Q : α → σ → Prop} :
    Ensures (if c then m else n) s Q ↔ if c then Ensures m s Q else Ensures n s Q := by
  split <;> rfl

@[simp] theorem ensures_ite_pos {c : Prop} [Decidable c] (hc : c) {m n : StateT σ Option α}
    {Q : α → σ → Prop} : Ensures (if c then m else n) s Q ↔ Ensures m s Q := by
  rw [if_pos hc]

@[simp] theorem ensures_ite_neg {c : Prop} [Decidable c] (hc : ¬ c) {m n : StateT σ Option α}
    {Q : α → σ → Prop} : Ensures (if c then m else n) s Q ↔ Ensures n s Q := by
  rw [if_neg hc]

/-! ### Partial correctness -/

/-- Whatever `m` started in `s` ends with satisfies `Q`. -/
def IfEnds (m : StateT σ Option α) (s : σ) (Q : α → σ → Prop) : Prop :=
  ∀ a s', m.run s = some (a, s') → Q a s'

/-- Whenever the program ends it leaves the state as it was. -/
def Reads (m : StateT σ Option α) : Prop := ∀ s, IfEnds m s fun _ s' => s' = s

theorem Ensures.ifEnds {m : StateT σ Option α} {Q : α → σ → Prop} (h : Ensures m s Q) :
    IfEnds m s Q :=
  fun _ _ hrun => h.elim hrun

/-- A program that does not fault and ends well if it ends. -/
theorem Ensures.and_ifEnds {m : StateT σ Option α} {Q R : α → σ → Prop} (h : Ensures m s Q)
    (h' : IfEnds m s R) : Ensures m s fun a s' => Q a s' ∧ R a s' := by
  obtain ⟨a, s', hrun, hq⟩ := h
  exact ⟨a, s', hrun, hq, h' a s' hrun⟩

theorem ifEnds_pure {a : α} {Q : α → σ → Prop} (h : Q a s) :
    IfEnds (pure a : StateT σ Option α) s Q :=
  (ensures_pure.mpr h).ifEnds

/-- The sequencing rule. -/
theorem IfEnds.bind {m : StateT σ Option α} {f : α → StateT σ Option β} {Q : α → σ → Prop}
    {P : β → σ → Prop} (hm : IfEnds m s Q) (hf : ∀ a s', Q a s' → IfEnds (f a) s' P) :
    IfEnds (m >>= f) s P := by
  intro b s'' hrun
  simp only [StateT.run_bind, Option.bind_eq_bind, Option.bind_eq_some_iff] at hrun
  obtain ⟨⟨a, s'⟩, ha, hb⟩ := hrun
  exact hf a s' (hm a s' ha) b s'' hb

namespace Reads

variable {m m' : StateT σ Option α} {f : α → StateT σ Option β}

theorem pure (a : α) : Reads (Pure.pure a : StateT σ Option α) := fun _ => ifEnds_pure rfl

theorem get : Reads (MonadState.get : StateT σ Option σ) := fun s =>
  (ensures_get (Q := fun _ s' => s' = s) |>.mpr rfl).ifEnds

theorem bind (hm : Reads m) (hf : ∀ a, Reads (f a)) : Reads (m >>= f) := fun s =>
  (hm s).bind fun a _ hs => hs ▸ hf a _

theorem ite {c : Prop} [Decidable c] (h : Reads m) (h' : Reads m') :
    Reads (if c then m else m') := by
  split
  · exact h
  · exact h'

end Reads

/-! ### States that are computed -/

/-- What is tried out on a computed state holds of it. -/
theorem of_all_eq_true {P : σ → Prop} [DecidablePred P] {start : Option σ}
    (h : (start.all fun s => decide (P s)) = true) (hs : start = some s) : P s :=
  of_decide_eq_true ((Option.all_eq_true _ _).mp h s hs)

end Lsf
