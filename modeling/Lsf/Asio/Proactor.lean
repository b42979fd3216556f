import Lsf.Asio.DriverInterest

/-!
# The completions of the proactor

`AsyncRead` and `AsyncWrite` register an event for a descriptor and keep a completion for it, and
`Run` hands every ready event to the completion. A read completion is meant to stay until
`AsyncCancel` is called, and a write completion for one write; but there is only one registration
for a descriptor and only one way to cancel it. `OnWriteEvent` ends with `AsyncCancel`, which takes
the read completion, the registration and the saved bytes away together with what was written.

The handlers run inside `Run`. Here a step is one call that user code makes, or what the service
does up to the next time that it runs user code.

## Main definitions

* `ProactorService`, `goOn` — the service, and its main routine
* `Proactor` — the service, with what its user can rely on
* `InForce` — that what he relies on is there
* `Spares` — when a step keeps it

## Main results

* `inForce_iff_spares`
-/

namespace Lsf.Asio

/-! ### The service -/

/-- Where the main routine is. User code runs when it is `idle` and in the handlers. -/
inductive Phase
  | idle
  /-- Before the read action of an event. -/
  | reads (fd : ℕ) (flag : Flags)
  /-- In the read handler. -/
  | reading (fd : ℕ) (flag : Flags) (buffer : List UInt8) (peerClose : Bool)
  /-- In the peer close handler. -/
  | closing (fd : ℕ) (flag : Flags)
  /-- Before the write action of an event. -/
  | writes (fd : ℕ) (flag : Flags)
  /-- In the write handler. -/
  | writing (fd : ℕ)

/-- The read handler is called for a buffer that is not empty. -/
def Phase.inUserCode : Phase → Bool
  | .idle => true
  | .reading _ _ buffer _ => !buffer.isEmpty
  | .closing _ _ => true
  | .writing _ => true
  | _ => false

/-- A write handler runs. -/
def Phase.inWriteHandler : Phase → Bool
  | .writing _ => true
  | _ => false

/-- `ProactorSerivce` over a driver with states `σ`, with the maps of `CompletionQueue` and of
`ReadDataBuffer`. A completion is what was given to `AsyncRead`, `ρ`, or to `AsyncWrite`, `ω`. -/
structure ProactorService (σ ρ ω : Type) where
  driver : σ
  readFuncMap : ℕ → Option ρ
  writeFuncMap : ℕ → Option ω
  dataMap : ℕ → Option (List UInt8)
  phase : Phase

variable {σ κ ρ ω : Type}

namespace ProactorService

/-- The service in another phase of its loop. -/
def withPhase (phase : Phase) (s : ProactorService σ ρ ω) : ProactorService σ ρ ω :=
  { s with phase }

/-- `AsyncRead`, with the answer of the system to the registration. -/
def asyncRead (D : BasicEventDriver σ κ) (fd : ℕ) (accepted : Bool) (completion : ρ)
    (s : ProactorService σ ρ ω) : Bool × ProactorService σ ρ ω :=
  let r := D.registerEvent fd { read := true } accepted s.driver
  if !r.1 then (false, { s with driver := r.2 })
  else (true, { s with
    driver := r.2, readFuncMap := Function.update s.readFuncMap fd (some completion) })

/-- `AsyncWrite`. -/
def asyncWrite (D : BasicEventDriver σ κ) (fd : ℕ) (accepted : Bool) (completion : ω)
    (s : ProactorService σ ρ ω) : Bool × ProactorService σ ρ ω :=
  let r := D.registerEvent fd { write := true } accepted s.driver
  if !r.1 then (false, { s with driver := r.2 })
  else (true, { s with
    driver := r.2, writeFuncMap := Function.update s.writeFuncMap fd (some completion) })

/-- `AsyncCancel`, which forgets all there is for a descriptor. -/
def asyncCancel (D : BasicEventDriver σ κ) (fd : ℕ) (s : ProactorService σ ρ ω) :
    ProactorService σ ρ ω :=
  { s with
    driver := D.cancelEvent fd s.driver
    readFuncMap := Function.update s.readFuncMap fd none
    writeFuncMap := Function.update s.writeFuncMap fd none
    dataMap := Function.update s.dataMap fd none }

/-- `SaveUnusedData`. -/
def saveUnusedData (fd : ℕ) (data : List UInt8) (s : ProactorService σ ρ ω) :
    ProactorService σ ρ ω :=
  { s with dataMap := Function.update s.dataMap fd (some ((s.dataMap fd).getD [] ++ data)) }

/-- The start of `OnReadEvent`, up to the call of the read handler. -/
def onReadEvent (fd : ℕ) (flag : Flags) (received : List UInt8) (peerClose : Bool)
    (s : ProactorService σ ρ ω) : ProactorService σ ρ ω :=
  { s with
    dataMap := Function.update s.dataMap fd none
    phase := .reading fd flag ((s.dataMap fd).getD [] ++ received) peerClose }

/-- `Run`, from one call of user code to the next, in a round without error events. `received` is
what a read event receives, and `peerClose` whether it finds the end of the stream. -/
def goOn (D : BasicEventDriver σ κ) (received : List UInt8) (peerClose : Bool)
    (s : ProactorService σ ρ ω) : Option (ProactorService σ ρ ω) :=
  match s.phase with
  | .idle =>
    match (D.getReadyEvent s.driver).1 with
    | none => some { s with driver := (D.getReadyEvent s.driver).2 }
    | some (fd, flag) =>
      if flag.err then none
      else some { s with driver := (D.getReadyEvent s.driver).2, phase := .reads fd flag }
  | .reads fd flag =>
    if !flag.read then some (s.withPhase (.writes fd flag))
    else if (s.readFuncMap fd).isSome then some (s.onReadEvent fd flag received peerClose)
    else some ((s.asyncCancel D fd).withPhase (.writes fd flag))
  -- handle shutdown connection
  | .reading fd flag _ true => some ((s.asyncCancel D fd).withPhase (.closing fd flag))
  | .reading fd flag _ false => some (s.withPhase (.writes fd flag))
  | .closing fd flag => some (s.withPhase (.writes fd flag))
  | .writes fd flag =>
    if !flag.write then some (s.withPhase .idle)
    else if (s.writeFuncMap fd).isSome then some (s.withPhase (.writing fd))
    else some ((s.asyncCancel D fd).withPhase .idle)
  -- always cancel write registration after event
  | .writing fd => some ((s.asyncCancel D fd).withPhase .idle)

/-- The descriptor for which the service itself calls `AsyncCancel` when it goes on. -/
def cancels (s : ProactorService σ ρ ω) : Option ℕ :=
  match s.phase with
  | .reads fd flag => if flag.read && (s.readFuncMap fd).isNone then some fd else none
  | .reading fd _ _ true => some fd
  | .writes fd flag => if flag.write && (s.writeFuncMap fd).isNone then some fd else none
  | .writing fd => some fd
  | _ => none

/-- The descriptor whose saved bytes the service takes when it goes on. -/
def takes (s : ProactorService σ ρ ω) : Option ℕ :=
  match s.phase with
  | .reads fd flag => if flag.read && (s.readFuncMap fd).isSome then some fd else none
  | _ => none

/-- What the service does when it goes on: it takes an event or changes the phase, or it cancels a
descriptor, or it takes the saved bytes of one. -/
theorem goOn_cases {D : BasicEventDriver σ κ} {received : List UInt8} {peerClose : Bool}
    {s s' : ProactorService σ ρ ω} (h : s.goOn D received peerClose = some s') :
    (s.cancels = none ∧ s.takes = none ∧ ∃ phase,
        s' = s.withPhase phase ∨
          s' = { s with driver := (D.getReadyEvent s.driver).2, phase := phase }) ∨
      (∃ fd phase, s.cancels = some fd ∧ s.takes = none ∧
        s' = (s.asyncCancel D fd).withPhase phase) ∨
      ∃ fd flag, s.cancels = none ∧ s.takes = some fd ∧
        s' = s.onReadEvent fd flag received peerClose := by
  rw [goOn] at h
  rw [cancels, takes]
  cases hphase : s.phase with
  | idle =>
    rw [hphase] at h
    refine .inl ⟨rfl, rfl, ?_⟩
    cases hget : (D.getReadyEvent s.driver).1 with
    | none =>
      simp only [hget, Option.some.injEq] at h
      exact ⟨.idle, .inr h.symm⟩
    | some r =>
      simp only [hget] at h
      obtain ⟨-, h⟩ := Option.ite_none_left_eq_some.mp h
      exact ⟨.reads r.1 r.2, .inr (Option.some.inj h).symm⟩
  | reads fd flag =>
    simp only [hphase] at h ⊢
    cases hread : flag.read with
    | false =>
      rw [if_pos (by simp [hread])] at h
      exact .inl ⟨rfl, rfl, _, .inl (Option.some.inj h).symm⟩
    | true =>
      rw [if_neg (by simp [hread])] at h
      cases hfunc : s.readFuncMap fd with
      | none =>
        rw [hfunc, if_neg (by simp)] at h
        exact .inr (.inl ⟨fd, _, rfl, rfl, (Option.some.inj h).symm⟩)
      | some completion =>
        rw [hfunc, if_pos Option.isSome_some] at h
        exact .inr (.inr ⟨fd, flag, rfl, rfl, (Option.some.inj h).symm⟩)
  | reading fd flag buffer peerClose =>
    rw [hphase] at h
    cases peerClose with
    | false => exact .inl ⟨rfl, rfl, _, .inl (Option.some.inj h).symm⟩
    | true => exact .inr (.inl ⟨fd, _, rfl, rfl, (Option.some.inj h).symm⟩)
  | closing fd flag =>
    rw [hphase] at h
    exact .inl ⟨rfl, rfl, _, .inl (Option.some.inj h).symm⟩
  | writes fd flag =>
    simp only [hphase] at h ⊢
    cases hwrite : flag.write with
    | false =>
      rw [if_pos (by simp [hwrite])] at h
      exact .inl ⟨by simp, trivial, _, .inl (Option.some.inj h).symm⟩
    | true =>
      rw [if_neg (by simp [hwrite])] at h
      cases hfunc : s.writeFuncMap fd with
      | none =>
        rw [hfunc, if_neg (by simp)] at h
        exact .inr (.inl ⟨fd, _, by simp, trivial, (Option.some.inj h).symm⟩)
      | some completion =>
        rw [hfunc, if_pos Option.isSome_some] at h
        exact .inl ⟨by simp, trivial, _, .inl (Option.some.inj h).symm⟩
  | writing fd =>
    rw [hphase] at h
    exact .inr (.inl ⟨fd, _, rfl, rfl, (Option.some.inj h).symm⟩)

end ProactorService

/-! ### Its user -/

/-- What the user of the service can rely on. -/
structure Reliance (ρ ω : Type) where
  /-- The reads that were not cancelled by a call of `AsyncCancel` that the user made. -/
  pendingRead : ℕ → Option ρ
  /-- The bytes that were saved and neither handed to a read handler nor cancelled so. -/
  saved : ℕ → List UInt8
  /-- The writes that the write handler, which is running or has just returned, has registered. -/
  fresh : ℕ → Option ω

/-- A service and what its user relies on. -/
structure Proactor (σ ρ ω : Type) where
  service : ProactorService σ ρ ω
  user : Reliance ρ ω

/-- A call from user code, or a step of the service. -/
inductive ProactorEvent (κ ρ ω : Type)
  | asyncRead (fd : ℕ) (accepted : Bool) (completion : ρ)
  | asyncWrite (fd : ℕ) (accepted : Bool) (completion : ω)
  | asyncCancel (fd : ℕ)
  | saveUnusedData (fd : ℕ) (data : List UInt8)
  | waitEvent (answer : κ)
  | goOn (received : List UInt8) (peerClose : Bool)

namespace Proactor

/-- A service without registrations. -/
def start (s : σ) : Proactor σ ρ ω :=
  ⟨⟨s, fun _ => none, fun _ => none, fun _ => none, .idle⟩,
    ⟨fun _ => none, fun _ => [], fun _ => none⟩⟩

/-- The reliance with which a step begins: on the writes of a write handler only as long as it
runs. -/
def relied (p : Proactor σ ρ ω) : Reliance ρ ω :=
  if p.service.phase.inWriteHandler then p.user else { p.user with fresh := fun _ => none }

/-- The reliance after a write was registered. -/
def reliedOnWrite (p : Proactor σ ρ ω) (fd : ℕ) (completion : ω) : Reliance ρ ω :=
  if p.service.phase.inWriteHandler then
    { p.user with fresh := Function.update p.user.fresh fd (some completion) }
  else p.relied

/-- An event, none where the service is not at it. -/
def step (D : BasicEventDriver σ κ) : ProactorEvent κ ρ ω → Proactor σ ρ ω → Option (Proactor σ ρ ω)
  | .asyncRead fd accepted completion, p =>
    if p.service.phase.inUserCode then
      some ⟨(p.service.asyncRead D fd accepted completion).2,
        if (p.service.asyncRead D fd accepted completion).1 then
          { p.relied with
            pendingRead := Function.update p.relied.pendingRead fd (some completion) }
        else p.relied⟩
    else none
  | .asyncWrite fd accepted completion, p =>
    if p.service.phase.inUserCode then
      some ⟨(p.service.asyncWrite D fd accepted completion).2,
        if (p.service.asyncWrite D fd accepted completion).1 then p.reliedOnWrite fd completion
        else p.relied⟩
    else none
  | .asyncCancel fd, p =>
    if p.service.phase.inUserCode then
      some ⟨p.service.asyncCancel D fd,
        { pendingRead := Function.update p.relied.pendingRead fd none
          saved := Function.update p.relied.saved fd []
          fresh := Function.update p.relied.fresh fd none }⟩
    else none
  | .saveUnusedData fd data, p =>
    if p.service.phase.inUserCode then
      some ⟨p.service.saveUnusedData fd data,
        { p.relied with saved := Function.update p.relied.saved fd (p.relied.saved fd ++ data) }⟩
    else none
  | .waitEvent answer, p =>
    match p.service.phase with
    | .idle => (D.waitEvent answer p.service.driver).map fun r =>
        ⟨{ p.service with driver := r.2 }, p.relied⟩
    | _ => none
  | .goOn received peerClose, p =>
    (p.service.goOn D received peerClose).map fun s =>
      ⟨s, match p.service.takes with
        | none => p.relied
        | some fd => { p.relied with saved := Function.update p.relied.saved fd [] }⟩

end Proactor

/-! ### What is in force -/

/-- What the user relies on is there. -/
structure InForce {D : BasicEventDriver σ κ} (I : Interests D) (s : ProactorService σ ρ ω)
    (u : Reliance ρ ω) : Prop where
  read : ∀ fd completion, u.pendingRead fd = some completion →
    s.readFuncMap fd = some completion ∧ (I.interest s.driver fd).read = true
  saved : ∀ fd, (s.dataMap fd).getD [] = u.saved fd
  fresh : ∀ fd completion, u.fresh fd = some completion →
    s.writeFuncMap fd = some completion ∧ (I.interest s.driver fd).write = true

/-- There is nothing that the user relies on for the descriptor. -/
structure Reliance.Nothing (u : Reliance ρ ω) (fd : ℕ) : Prop where
  read : u.pendingRead fd = none
  saved : u.saved fd = []
  fresh : u.fresh fd = none

theorem update_none_eq_some {α : Type} {f : ℕ → Option α} {a b : ℕ} {c : α} :
    Function.update f a none b = some c ↔ b ≠ a ∧ f b = some c := by
  by_cases h : b = a
  · rw [h, Function.update_self]
    exact iff_of_false nofun fun h => h.1 rfl
  · rw [Function.update_of_ne h, and_iff_right h]

theorem update_some_eq_some {α : Type} {f : ℕ → Option α} {a b : ℕ} {c x : α} :
    Function.update f a (some x) b = some c ↔ (b = a ∧ x = c) ∨ (b ≠ a ∧ f b = some c) := by
  by_cases h : b = a
  · rw [h, Function.update_self, Option.some.injEq]
    simp
  · rw [Function.update_of_ne h]
    simp [h]

namespace InForce

variable {D : BasicEventDriver σ κ} {I : Interests D} {s : ProactorService σ ρ ω}
  {u : Reliance ρ ω} {fd : ℕ} {flag : Flags}

/-- The phase of the service does not matter, nor does the position in a batch. -/
theorem congr {s' : ProactorService σ ρ ω} (h : InForce I s u)
    (hdriver : I.interest s'.driver = I.interest s.driver)
    (hread : s'.readFuncMap = s.readFuncMap) (hwrite : s'.writeFuncMap = s.writeFuncMap)
    (hdata : s'.dataMap = s.dataMap) : InForce I s' u :=
  ⟨by rw [hdriver, hread]; exact h.read, by rw [hdata]; exact h.saved,
    by rw [hdriver, hwrite]; exact h.fresh⟩

theorem withPhase (h : InForce I s u) (phase : Phase) : InForce I (s.withPhase phase) u :=
  h.congr rfl rfl rfl rfl

theorem drop_fresh (h : InForce I s u) : InForce I s { u with fresh := fun _ => none } :=
  ⟨h.read, h.saved, fun _ _ hf => by cases hf⟩

/-- The saved bytes of a descriptor change where the user relies on them. -/
theorem saved_update (h : InForce I s u) {fd : ℕ} {data : Option (List UInt8)} (g : ℕ) :
    (Function.update s.dataMap fd data g).getD [] =
      Function.update u.saved fd (data.getD []) g := by
  by_cases hg : g = fd
  · rw [hg, Function.update_self, Function.update_self]
  · rw [Function.update_of_ne hg, Function.update_of_ne hg]
    exact h.saved g

theorem onReadEvent (h : InForce I s u) (received : List UInt8) (peerClose : Bool) :
    InForce I (s.onReadEvent fd flag received peerClose)
      { u with saved := Function.update u.saved fd [] } :=
  ⟨h.read, h.saved_update, h.fresh⟩

theorem saveUnusedData (h : InForce I s u) (data : List UInt8) :
    InForce I (s.saveUnusedData fd data)
      { u with saved := Function.update u.saved fd (u.saved fd ++ data) } := by
  rw [← h.saved fd]
  exact ⟨h.read, h.saved_update, h.fresh⟩

/-- What is cancelled by the user is not relied on any more. -/
theorem asyncCancel (h : InForce I s u) (fd : ℕ) (hinv : I.Inv s.driver) :
    InForce I (s.asyncCancel D fd)
      { pendingRead := Function.update u.pendingRead fd none
        saved := Function.update u.saved fd []
        fresh := Function.update u.fresh fd none } := by
  have hinterest : I.interest (D.cancelEvent fd s.driver) =
      Function.update (I.interest s.driver) fd {} := (I.cancel hinv).2
  refine ⟨fun g completion hg => ?_, h.saved_update, fun g completion hg => ?_⟩
  · obtain ⟨hne, hg⟩ := update_none_eq_some.mp hg
    obtain ⟨hmap, hread⟩ := h.read g completion hg
    refine ⟨update_none_eq_some.mpr ⟨hne, hmap⟩, ?_⟩
    show (I.interest (D.cancelEvent fd s.driver) g).read = true
    rwa [hinterest, Function.update_of_ne hne]
  · obtain ⟨hne, hg⟩ := update_none_eq_some.mp hg
    obtain ⟨hmap, hwrite⟩ := h.fresh g completion hg
    refine ⟨update_none_eq_some.mpr ⟨hne, hmap⟩, ?_⟩
    show (I.interest (D.cancelEvent fd s.driver) g).write = true
    rwa [hinterest, Function.update_of_ne hne]

/-- **What the service cancels itself is in force exactly if there is nothing to rely on.** -/
theorem asyncCancel_iff (h : InForce I s u) (hinv : I.Inv s.driver) :
    InForce I (s.asyncCancel D fd) u ↔ u.Nothing fd := by
  constructor
  · intro h'
    refine ⟨?_, ?_, ?_⟩
    · cases hread : u.pendingRead fd with
      | none => rfl
      | some completion =>
        exact absurd rfl (update_none_eq_some.mp (h'.read fd completion hread).1).1
    · rw [← h'.saved fd]
      show (Function.update s.dataMap fd none fd).getD [] = []
      rw [Function.update_self]
      rfl
    · cases hfresh : u.fresh fd with
      | none => rfl
      | some completion =>
        exact absurd rfl (update_none_eq_some.mp (h'.fresh fd completion hfresh).1).1
  · intro hnothing
    have hcancel := h.asyncCancel fd hinv
    have hsame : ({ pendingRead := Function.update u.pendingRead fd none
                    saved := Function.update u.saved fd []
                    fresh := Function.update u.fresh fd none } : Reliance ρ ω) = u := by
      rw [← hnothing.read, ← hnothing.fresh, ← hnothing.saved, Function.update_eq_self,
        Function.update_eq_self, Function.update_eq_self]
    rwa [hsame] at hcancel

/-- A read takes the registration over from a write. -/
theorem asyncRead_iff (h : InForce I s u) (hinv : I.Inv s.driver) {accepted : Bool}
    {completion : ρ} (hok : (s.asyncRead D fd accepted completion).1 = true) :
    InForce I (s.asyncRead D fd accepted completion).2
      { u with pendingRead := Function.update u.pendingRead fd (some completion) } ↔
        u.fresh fd = none := by
  rw [ProactorService.asyncRead] at hok ⊢
  cases hr : (D.registerEvent fd { read := true } accepted s.driver).1 with
  | false =>
    rw [hr] at hok
    cases hok
  | true =>
    have hinterest := (I.register hinv hr).2
    rw [if_neg (by simp)]
    constructor
    · intro h'
      cases hfresh : u.fresh fd with
      | none => rfl
      | some w =>
        have hwrite : (I.interest _ fd).write = true := (h'.fresh fd w hfresh).2
        rw [hinterest, Function.update_self] at hwrite
        cases hwrite
    · intro hnone
      refine ⟨fun g c hg => ?_, h.saved, fun g w hg => ?_⟩
      · show Function.update s.readFuncMap fd _ g = _ ∧ (I.interest _ g).read = true
        rw [hinterest]
        obtain ⟨rfl, rfl⟩ | ⟨hne, hg⟩ := update_some_eq_some.mp hg
        · rw [Function.update_self, Function.update_self]
          exact ⟨rfl, rfl⟩
        · rw [Function.update_of_ne hne, Function.update_of_ne hne]
          exact h.read g c hg
      · have hne : g ≠ fd := by
          rintro rfl
          cases hnone.symm.trans hg
        show s.writeFuncMap g = _ ∧ (I.interest _ g).write = true
        rw [hinterest, Function.update_of_ne hne]
        exact h.fresh g w hg

/-- A write takes the registration over from a read. -/
theorem asyncWrite_iff (h : InForce I s u) (hinv : I.Inv s.driver) {accepted : Bool}
    {completion : ω} (hok : (s.asyncWrite D fd accepted completion).1 = true)
    {fresh : ℕ → Option ω}
    (hfresh : ∀ g w, fresh g = some w → (g = fd ∧ w = completion) ∨ (g ≠ fd ∧ u.fresh g = some w)) :
    InForce I (s.asyncWrite D fd accepted completion).2 { u with fresh } ↔
      u.pendingRead fd = none := by
  rw [ProactorService.asyncWrite] at hok ⊢
  cases hr : (D.registerEvent fd { write := true } accepted s.driver).1 with
  | false =>
    rw [hr] at hok
    cases hok
  | true =>
    have hinterest := (I.register hinv hr).2
    rw [if_neg (by simp)]
    constructor
    · intro h'
      cases hpending : u.pendingRead fd with
      | none => rfl
      | some c =>
        have hread : (I.interest _ fd).read = true := (h'.read fd c hpending).2
        rw [hinterest, Function.update_self] at hread
        cases hread
    · intro hnone
      refine ⟨fun g c hg => ?_, h.saved, fun g w hg => ?_⟩
      · have hne : g ≠ fd := by
          rintro rfl
          cases hnone.symm.trans hg
        show s.readFuncMap g = _ ∧ (I.interest _ g).read = true
        rw [hinterest, Function.update_of_ne hne]
        exact h.read g c hg
      · show Function.update s.writeFuncMap fd _ g = _ ∧ (I.interest _ g).write = true
        rw [hinterest]
        obtain ⟨rfl, rfl⟩ | ⟨hne, hg⟩ := hfresh g w hg
        · rw [Function.update_self, Function.update_self]
          exact ⟨rfl, rfl⟩
        · rw [Function.update_of_ne hne, Function.update_of_ne hne]
          exact h.fresh g w hg

end InForce

/-! ### Runs -/

section Registration

variable {D : BasicEventDriver σ κ} {s : ProactorService σ ρ ω} {fd : ℕ} {accepted : Bool}

theorem ProactorService.asyncRead_driver {completion : ρ} :
    (s.asyncRead D fd accepted completion).2.driver =
      (D.registerEvent fd { read := true } accepted s.driver).2 := by
  rw [asyncRead]
  split_ifs <;> rfl

theorem ProactorService.asyncWrite_driver {completion : ω} :
    (s.asyncWrite D fd accepted completion).2.driver =
      (D.registerEvent fd { write := true } accepted s.driver).2 := by
  rw [asyncWrite]
  split_ifs <;> rfl

theorem ProactorService.asyncRead_refused (I : Interests D) {completion : ρ}
    (hok : (s.asyncRead D fd accepted completion).1 = false) :
    (s.asyncRead D fd accepted completion).2 = s := by
  rw [asyncRead] at hok ⊢
  cases hr : (D.registerEvent fd { read := true } accepted s.driver).1 with
  | false =>
    rw [if_pos (by simp), I.refuse hr]
  | true =>
    rw [hr, if_neg (by simp)] at hok
    cases hok

theorem ProactorService.asyncWrite_refused (I : Interests D) {completion : ω}
    (hok : (s.asyncWrite D fd accepted completion).1 = false) :
    (s.asyncWrite D fd accepted completion).2 = s := by
  rw [asyncWrite] at hok ⊢
  cases hr : (D.registerEvent fd { write := true } accepted s.driver).1 with
  | false =>
    rw [if_pos (by simp), I.refuse hr]
  | true =>
    rw [hr, if_neg (by simp)] at hok
    cases hok

end Registration

namespace Proactor

variable {D : BasicEventDriver σ κ} {I : Interests D} {p p' : Proactor σ ρ ω}
  {e : ProactorEvent κ ρ ω}

/-- A registration that succeeds takes nothing over that is relied on, and the service cancels
nothing itself that is relied on. -/
def Spares (D : BasicEventDriver σ κ) : ProactorEvent κ ρ ω → Proactor σ ρ ω → Prop
  | .asyncRead fd accepted completion, p =>
    (p.service.asyncRead D fd accepted completion).1 = true → p.relied.fresh fd = none
  | .asyncWrite fd accepted completion, p =>
    (p.service.asyncWrite D fd accepted completion).1 = true → p.relied.pendingRead fd = none
  | .goOn _ _, p => ∀ fd, p.service.cancels = some fd → p.relied.Nothing fd
  | _, _ => True

/-- The step spares what is relied on, if it is possible. -/
def SparesAll (D : BasicEventDriver σ κ) (e : ProactorEvent κ ρ ω) (p : Proactor σ ρ ω) : Prop :=
  (p.step D e).isSome = true → p.Spares D e

theorem inForce_relied (h : InForce I p.service p.user) : InForce I p.service p.relied := by
  rw [relied]
  split_ifs
  · exact h
  · exact h.drop_fresh

theorem fresh_reliedOnWrite {fd : ℕ} {completion : ω} : ∃ fresh,
    p.reliedOnWrite fd completion = { p.relied with fresh } ∧
      ∀ g w, fresh g = some w →
        (g = fd ∧ w = completion) ∨ (g ≠ fd ∧ p.relied.fresh g = some w) := by
  rw [reliedOnWrite, relied]
  split_ifs
  · refine ⟨_, rfl, fun g w hg => ?_⟩
    obtain ⟨rfl, rfl⟩ | h := update_some_eq_some.mp hg
    · exact .inl ⟨rfl, rfl⟩
    · exact .inr h
  · exact ⟨_, rfl, fun g w hg => by cases hg⟩

section Steps

variable {s : ProactorService σ ρ ω} {u : Reliance ρ ω} {fd : ℕ} {accepted : Bool}

/-- A registration for reading, accepted or not. -/
theorem inForce_asyncRead_iff {completion : ρ} (h : InForce I s u) (hinv : I.Inv s.driver) :
    I.Inv (s.asyncRead D fd accepted completion).2.driver ∧
      (InForce I (s.asyncRead D fd accepted completion).2
          (if (s.asyncRead D fd accepted completion).1 then
            { u with pendingRead := Function.update u.pendingRead fd (some completion) }
          else u) ↔
        ((s.asyncRead D fd accepted completion).1 = true → u.fresh fd = none)) := by
  refine ⟨?_, ?_⟩
  · rw [ProactorService.asyncRead_driver]
    exact I.inv_registerEvent hinv
  · cases hok : (s.asyncRead D fd accepted completion).1 with
    | false =>
      rw [ProactorService.asyncRead_refused I hok]
      exact iff_of_true h fun hfalse => by cases hfalse
    | true => exact (h.asyncRead_iff hinv hok).trans ⟨fun hnone _ => hnone, fun hnone => hnone rfl⟩

/-- A registration for writing, accepted or not. -/
theorem inForce_asyncWrite_iff {completion : ω} {fresh : ℕ → Option ω} (h : InForce I s u)
    (hinv : I.Inv s.driver)
    (hfresh : ∀ g w, fresh g = some w → (g = fd ∧ w = completion) ∨ (g ≠ fd ∧ u.fresh g = some w)) :
    I.Inv (s.asyncWrite D fd accepted completion).2.driver ∧
      (InForce I (s.asyncWrite D fd accepted completion).2
          (if (s.asyncWrite D fd accepted completion).1 then { u with fresh } else u) ↔
        ((s.asyncWrite D fd accepted completion).1 = true → u.pendingRead fd = none)) := by
  refine ⟨?_, ?_⟩
  · rw [ProactorService.asyncWrite_driver]
    exact I.inv_registerEvent hinv
  · cases hok : (s.asyncWrite D fd accepted completion).1 with
    | false =>
      rw [ProactorService.asyncWrite_refused I hok]
      exact iff_of_true h fun hfalse => by cases hfalse
    | true =>
      refine (h.asyncWrite_iff hinv hok hfresh).trans ?_
      exact ⟨fun hnone _ => hnone, fun hnone => hnone rfl⟩

end Steps

/-- **A step keeps what is in force exactly if it spares it.** -/
theorem inForce_step_iff (hinv : I.Inv p.service.driver) (hforce : InForce I p.service p.user)
    (hstep : p.step D e = some p') :
    I.Inv p'.service.driver ∧ (InForce I p'.service p'.user ↔ p.Spares D e) := by
  have h := inForce_relied hforce
  cases e with
  | asyncRead fd accepted completion =>
    obtain ⟨-, hp⟩ := Option.ite_none_right_eq_some.mp hstep
    obtain rfl := Option.some.inj hp
    exact inForce_asyncRead_iff h hinv
  | asyncWrite fd accepted completion =>
    obtain ⟨-, hp⟩ := Option.ite_none_right_eq_some.mp hstep
    obtain rfl := Option.some.inj hp
    obtain ⟨fresh, hrely, hfresh⟩ := @fresh_reliedOnWrite _ _ _ p fd completion
    show I.Inv (p.service.asyncWrite D fd accepted completion).2.driver ∧
      (InForce I _ (if _ then p.reliedOnWrite fd completion else p.relied) ↔ _)
    rw [hrely]
    exact inForce_asyncWrite_iff h hinv hfresh
  | asyncCancel fd =>
    obtain ⟨-, hp⟩ := Option.ite_none_right_eq_some.mp hstep
    obtain rfl := Option.some.inj hp
    exact ⟨(I.cancel hinv).1, iff_of_true (h.asyncCancel fd hinv) trivial⟩
  | saveUnusedData fd data =>
    obtain ⟨-, hp⟩ := Option.ite_none_right_eq_some.mp hstep
    obtain rfl := Option.some.inj hp
    exact ⟨hinv, iff_of_true (h.saveUnusedData data) trivial⟩
  | waitEvent answer =>
    rw [step] at hstep
    cases hphase : p.service.phase with
    | idle =>
      rw [hphase] at hstep
      obtain ⟨r, hwait, rfl⟩ := Option.map_eq_some_iff.mp hstep
      obtain ⟨hinv', hinterest⟩ := I.wait hinv hwait
      exact ⟨hinv', iff_of_true (h.congr hinterest rfl rfl rfl) trivial⟩
    | _ =>
      rw [hphase] at hstep
      cases hstep
  | goOn received peerClose =>
    obtain ⟨s, hs, rfl⟩ := Option.map_eq_some_iff.mp hstep
    show I.Inv s.driver ∧ (InForce I s _ ↔ ∀ fd, p.service.cancels = some fd → p.relied.Nothing fd)
    obtain ⟨hcancels, htakes, phase, hs⟩ | ⟨fd, phase, hcancels, htakes, rfl⟩ |
      ⟨fd, flag, hcancels, htakes, rfl⟩ := ProactorService.goOn_cases hs
    · rw [hcancels, htakes]
      obtain ⟨hinv', hinterest⟩ := I.ready hinv
      obtain rfl | rfl := hs
      · exact ⟨hinv, iff_of_true (h.withPhase phase) nofun⟩
      · exact ⟨hinv', iff_of_true (h.congr hinterest rfl rfl rfl) nofun⟩
    · rw [hcancels, htakes]
      refine ⟨(I.cancel hinv).1, ?_⟩
      have hphase : InForce I ((p.service.asyncCancel D fd).withPhase phase) p.relied ↔
          InForce I (p.service.asyncCancel D fd) p.relied :=
        ⟨fun h' => h'.congr rfl rfl rfl rfl, fun h' => h'.withPhase phase⟩
      rw [hphase, h.asyncCancel_iff hinv]
      constructor
      · rintro hnothing g hg
        cases hg
        exact hnothing
      · exact fun hall => hall fd rfl
    · rw [hcancels, htakes]
      exact ⟨hinv, iff_of_true (h.onReadEvent received peerClose) nofun⟩

/-- In every run, what the user relies on is in force in every state exactly if every step spares
it. -/
theorem holdsAlong_inForce_iff (I : Interests D) (events : List (ProactorEvent κ ρ ω)) :
    HoldsAlong (step D) (fun p => InForce I p.service p.user) events (start I.start) ↔
      GuardedSteps (step D) (SparesAll D) events (start I.start) := by
  refine @holdsAlong_iff_guardedSteps _ _ _ _ _ _ (fun p => I.Inv p.service.driver)
    (fun e p p' hinv h hstep => ?_) (fun e p hnone hsome => ?_) events I.inv_start ?_
  · obtain ⟨hinv', hiff⟩ := inForce_step_iff hinv h hstep
    refine ⟨hinv', hiff.trans ⟨fun hspares _ => hspares, fun hspares => hspares ?_⟩⟩
    rw [hstep]
    rfl
  · rw [hnone] at hsome
    cases hsome
  · exact ⟨nofun, fun fd => rfl, nofun⟩

end Proactor

/-- **With either driver, a pending read stays in force exactly as long as no write is registered
for its descriptor and the service itself does not cancel it**, which it does after every write. -/
theorem inForce_iff_spares :
    (∀ events : List (ProactorEvent (Option (List EpollEvent)) ρ ω),
      HoldsAlong (Proactor.step epollDriver) (fun p => InForce epollInterests p.service p.user)
          events (.start EpollEventDriver.create) ↔
        GuardedSteps (Proactor.step epollDriver) (Proactor.SparesAll epollDriver) events
          (.start EpollEventDriver.create)) ∧
      ∀ events : List (ProactorEvent (Option (ℕ → Events)) ρ ω),
        HoldsAlong (Proactor.step pollDriver) (fun p => InForce pollInterests p.service p.user)
            events (.start PollEventDriver.create) ↔
          GuardedSteps (Proactor.step pollDriver) (Proactor.SparesAll pollDriver) events
            (.start PollEventDriver.create) :=
  ⟨Proactor.holdsAlong_inForce_iff epollInterests, Proactor.holdsAlong_inForce_iff pollInterests⟩

/-- The write of a response ends the reading of requests: the connection is not read any more. -/
theorem write_ends_pending_read : ¬ ∀ events : List (ProactorEvent (Option (List EpollEvent)) ℕ ℕ),
    HoldsAlong (Proactor.step epollDriver) (fun p => InForce epollInterests p.service p.user)
      events (.start EpollEventDriver.create) := by
  intro hall
  have hlast := (hall [.asyncWrite 5 true 0,
    .waitEvent (some [⟨5, { pollout := true }⟩]), .goOn [] false, .goOn [] false, .goOn [] false,
    .asyncRead 5 true 1, .goOn [] false]).last rfl
  have hread := (hlast.read 5 1 rfl).1
  revert hread
  decide

end Lsf.Asio
