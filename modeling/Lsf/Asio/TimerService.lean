import Lsf.Asio.Proactor
import Mathlib.Data.Int.Notation

/-!
# The timers of the proactor

A timer of the proactor is a descriptor with a read completion. When the descriptor is ready,
`OnTimerEvent` reads how often the timer has expired and calls the handler as many times, but not
more often than the timer is to trigger; then it closes the timer if it has to.

A descriptor number is used again after it was closed. The model therefore has the table of the open
descriptors, and completions are shared objects: `OnTimerEvent` keeps its own while a handler may
close the timer and open others. A step is one call of user code, or what the service does up to the
next time that it runs user code.

## Main definitions

* `TimerService`, `TimerStep`, `step` — the service with the open descriptors, and its steps
* `asyncAddTimer`, `asyncGetTimer`, `asyncCloseTimer`, `onTimerEvent` — the source's functions
* `Keyed` — what holds of the completions in every state

## Main results

* `step_kinds`, `step_cases` — what a step can do
* `timerOf_step` — which timers a step leaves
* `keyed_of_runSteps`
-/

namespace Lsf.Asio

/-- `timespec`. -/
structure Timespec where
  tvSec : UInt64
  tvNsec : UInt64
  deriving DecidableEq

/-- `itimerspec`. -/
structure ITimerSpec where
  itValue : Timespec
  itInterval : Timespec
  deriving DecidableEq

/-- What `AsyncAddTimer` sets for a number of milliseconds. -/
def Timespec.ofMilli (milli : UInt64) : Timespec := ⟨milli / 1000, milli % 1000 * 1000000⟩

/-- What `AsyncGetTimer` makes of it. -/
def Timespec.toMilli (t : Timespec) : UInt64 := t.tvSec * 1000 + t.tvNsec / 1000

/-- An open descriptor, and for a timer its setting. -/
structure Descriptor where
  /-- The number of descriptors opened before this one. -/
  serial : ℕ
  timer : Option ITimerSpec
  deriving DecidableEq

/-- `ACTION_ACCEPT`, `ACTION_READ` and `ACTION_TIMER`. -/
inductive ReadAction
  | accept
  | read
  | timer
  deriving DecidableEq

/-- `ReadCompletionFunc`, without the handlers. -/
structure ReadCompletionFunc where
  action : Option ReadAction := none
  timerFd : Option ℕ := none
  timerCount : UInt64 := 0
  /-- The descriptor with which the timer was created, by its serial. -/
  serial : ℕ := 0
  deriving DecidableEq

/-- What the `read` of `OnTimerEvent` gives. -/
inductive TimerRead
  | expirations (count : UInt64)
  | wouldBlock
  | fails
  deriving DecidableEq

/-- The value of the call of `read`. -/
def TimerRead.ret : TimerRead → ℤ
  | .expirations _ => 8
  | .wouldBlock => -1
  | .fails => -1

/-- The expirations that a read returns. -/
def TimerRead.count : TimerRead → UInt64
  | .expirations count => count
  | .wouldBlock => 0
  | .fails => 0

/-- The code of a read that would block. -/
def EAGAIN : ℤ := 11

/-- `OnTimerEvent` while a handler runs. -/
structure TimerEventState where
  /-- `shared_completion`. -/
  completion : ℕ
  timerFd : ℕ
  /-- The timer, by the serial of its descriptor. -/
  serial : ℕ
  /-- The rounds of the loop after this one, without the check of the remaining count. -/
  left : ℕ
  deriving DecidableEq

/-- The service, with the open descriptors of the process. Its read completions are objects, of
which the map has the numbers. -/
structure TimerService (σ ω : Type) where
  service : ProactorService σ ℕ ω
  completions : ℕ → ReadCompletionFunc := fun _ => {}
  created : ℕ := 0
  descriptors : ℕ → Option Descriptor := fun _ => none
  /-- The handler that is called, if one is. -/
  running : Option TimerEventState := none
  /-- The numbers of all descriptors that were opened, in order. -/
  opened : List ℕ := []
  /-- The descriptor that each call of `close` has closed, if any. -/
  closed : List (Option ℕ) := []
  /-- The reads of timers. -/
  reads : List (ℕ × TimerRead) := []
  /-- The timers whose handlers were called. -/
  invoked : List ℕ := []
  /-- The timers whose handlers called `AsyncCloseTimer` for them. -/
  selfClosed : List ℕ := []

namespace TimerService

variable {σ κ ω : Type}

/-! ### The functions -/

/-- A service without descriptors. -/
def start (driver : σ) : TimerService σ ω :=
  { service := ⟨driver, fun _ => none, fun _ => none, fun _ => none, .idle⟩ }

/-- The system opens a descriptor. -/
def addFd (fd : ℕ) (timer : Option ITimerSpec) (s : TimerService σ ω) : TimerService σ ω :=
  { s with
    descriptors := Function.update s.descriptors fd (some ⟨s.opened.length, timer⟩)
    opened := s.opened ++ [fd] }

/-- A descriptor is opened, where the kernel gives it a number that is not in use. -/
def openFd (fd : ℕ) (timer : Option ITimerSpec) (s : TimerService σ ω) :
    Option (TimerService σ ω) :=
  if (s.descriptors fd).isSome then none else some (s.addFd fd timer)

/-- `close`. -/
def close (fd : ℕ) (s : TimerService σ ω) : TimerService σ ω :=
  { s with
    descriptors := Function.update s.descriptors fd none
    closed := s.closed ++ [(s.descriptors fd).map Descriptor.serial] }

/-- `AsyncCancel`. -/
def asyncCancel (D : BasicEventDriver σ κ) (fd : ℕ) (s : TimerService σ ω) : TimerService σ ω :=
  { s with service := s.service.asyncCancel D fd }

/-- `AsyncCloseTimer`. -/
def asyncCloseTimer (D : BasicEventDriver σ κ) (fd : ℕ) (s : TimerService σ ω) :
    TimerService σ ω :=
  (s.asyncCancel D fd).close fd

/-- `RegisterEvent` for reading. -/
def registerRead (D : BasicEventDriver σ κ) (fd : ℕ) (accepted : Bool) (s : TimerService σ ω) :
    Bool × TimerService σ ω :=
  let r := D.registerEvent fd { read := true } accepted s.service.driver
  (r.1, { s with service := { s.service with driver := r.2 } })

/-- The completion that `GetAndCreateReadCompletionFunc` finds or creates. -/
def completionFor (fd : ℕ) (s : TimerService σ ω) : ℕ := (s.service.readFuncMap fd).getD s.created

/-- `GetAndCreateReadCompletionFunc`, and what is written into the completion. -/
def setCompletion (fd : ℕ) (f : ReadCompletionFunc → ReadCompletionFunc) (s : TimerService σ ω) :
    TimerService σ ω :=
  { s with
    service :=
      { s.service with
        readFuncMap := Function.update s.service.readFuncMap fd (some (s.completionFor fd)) }
    completions := Function.update s.completions (s.completionFor fd)
      (f (if (s.service.readFuncMap fd).isSome then s.completions (s.completionFor fd) else {}))
    created := if (s.service.readFuncMap fd).isSome then s.created else s.created + 1 }

/-- `AsyncAccept` and `AsyncRead`. -/
def asyncRead (D : BasicEventDriver σ κ) (action : ReadAction) (fd : ℕ) (accepted : Bool)
    (s : TimerService σ ω) : TimerService σ ω :=
  let r := s.registerRead D fd accepted
  if !r.1 then r.2
  else r.2.setCompletion fd fun completion => { completion with action := some action }

/-- `AsyncAddTimer`, where `timerfd_create` gives the number `timerFd` or fails, and with the
success of `timerfd_settime`. -/
def asyncAddTimer (D : BasicEventDriver σ κ) (milliExpire milliInterval triggerCount : UInt64)
    (timerFd : Option ℕ) (isSet accepted : Bool) (s : TimerService σ ω) :
    Option (Option ℕ × TimerService σ ω) :=
  let milliExpire := if milliExpire = 0 then 1 else milliExpire
  match timerFd with
  | none => some (none, s)
  | some fd =>
    (s.openFd fd (some ⟨.ofMilli milliExpire, .ofMilli milliInterval⟩)).map fun s₁ =>
      if !isSet then (none, s₁.close fd)
      else
        let r := s₁.registerRead D fd accepted
        if !r.1 then (none, r.2.close fd)
        else (some fd, r.2.setCompletion fd fun completion =>
          { completion with
            action := some .timer
            timerFd := some fd
            timerCount := triggerCount
            serial := s.opened.length })

/-- `AsyncGetTimer`. -/
def asyncGetTimer (fd : ℕ) (s : TimerService σ ω) : UInt64 × UInt64 :=
  match (s.descriptors fd).bind Descriptor.timer with
  | none => (0, 0)
  | some spec => (spec.itValue.toMilli, spec.itInterval.toMilli)

/-- `OnTimerEvent` from the head of its loop, with the number of rounds to come. -/
def nextRound (D : BasicEventDriver σ κ) (r : TimerEventState) :
    ℕ → TimerService σ ω → TimerService σ ω
  | 0, s => if (s.asyncGetTimer r.timerFd).2 = 0 then s.asyncCloseTimer D r.timerFd else s
  | left + 1, s => { s with running := some { r with left }, invoked := s.invoked ++ [r.serial] }

/-- The read of a timer is noted. -/
def record (serial : ℕ) (read : TimerRead) (s : TimerService σ ω) : TimerService σ ω :=
  { s with reads := s.reads ++ [(serial, read)] }

/-- `OnTimerEvent`, up to the first call of the handler. -/
def onTimerEvent (D : BasicEventDriver σ κ) (completion : ℕ) (read : TimerRead)
    (s : TimerService σ ω) : Option (TimerService σ ω) :=
  (s.completions completion).timerFd.map fun timerFd =>
    let serial := (s.completions completion).serial
    let s := s.record serial read
    if read.ret ≠ 8 then
      if read.ret ≠ EAGAIN then s.asyncCloseTimer D timerFd else s
    else s.nextRound D ⟨completion, timerFd, serial, 0⟩ read.count.toNat

/-- `shared_completion->timer_count--`, where it is not 0. -/
def countDown (completion : ℕ) (s : TimerService σ ω) : TimerService σ ω :=
  { s with
    completions := Function.update s.completions completion
      { s.completions completion with
        timerCount :=
          if (s.completions completion).timerCount ≠ 0 then
            (s.completions completion).timerCount - 1
          else 0 } }

/-- No handler runs any more. -/
def stop (s : TimerService σ ω) : TimerService σ ω := { s with running := none }

/-- `OnTimerEvent`, from where a handler returns. -/
def afterHandler (D : BasicEventDriver σ κ) (r : TimerEventState) (s : TimerService σ ω) :
    TimerService σ ω :=
  if (s.completions r.completion).timerCount = 1 then s.stop.asyncCloseTimer D r.timerFd
  else (s.stop.countDown r.completion).nextRound D r r.left

/-- The read completion of a timer for a descriptor. -/
def timerOf (fd : ℕ) (s : TimerService σ ω) : Option ℕ :=
  (s.service.readFuncMap fd).filter fun completion =>
    (s.completions completion).action = some .timer

end TimerService

open TimerService

/-- A call from user code, or a step of the service. -/
inductive TimerStep
  | asyncAddTimer (milliExpire milliInterval triggerCount : UInt64) (timerFd : Option ℕ)
    (isSet accepted : Bool)
  | asyncCloseTimer (fd : ℕ)
  | asyncCancel (fd : ℕ)
  | asyncRead (action : ReadAction) (fd : ℕ) (accepted : Bool)
  /-- User code opens a socket or a file. -/
  | openFd (fd : ℕ)
  /-- User code closes a descriptor that is not a timer. -/
  | close (fd : ℕ)
  /-- Time passes for a timer. -/
  | elapse (fd : ℕ) (itValue : Timespec)
  /-- `Run` hands a read event of a timer to `OnTimerEvent`. -/
  | timerEvent (fd : ℕ) (read : TimerRead)
  /-- The handler that runs returns. -/
  | goOn
  deriving DecidableEq

namespace TimerService

variable {σ κ ω : Type}

/-- A call of `AsyncCloseTimer` by user code. -/
def userClose (D : BasicEventDriver σ κ) (fd : ℕ) (s : TimerService σ ω) : TimerService σ ω :=
  { s.asyncCloseTimer D fd with
    selfClosed := s.selfClosed ++
      (s.running.toList.filter fun r => r.timerFd = fd).map TimerEventState.serial }

/-- Time passes for a timer. -/
def elapse (fd : ℕ) (itValue : Timespec) (s : TimerService σ ω) : TimerService σ ω :=
  { s with
    descriptors := Function.update s.descriptors fd ((s.descriptors fd).map fun d =>
      { d with timer := d.timer.map fun spec => { spec with itValue } }) }

/-- A step, none where the service is not at it. -/
def step (D : BasicEventDriver σ κ) : TimerStep → TimerService σ ω → Option (TimerService σ ω)
  | .asyncAddTimer milliExpire milliInterval triggerCount timerFd isSet accepted, s =>
    (s.asyncAddTimer D milliExpire milliInterval triggerCount timerFd isSet accepted).map Prod.snd
  | .asyncCloseTimer fd, s => some (s.userClose D fd)
  | .asyncCancel fd, s => some (s.asyncCancel D fd)
  | .asyncRead action fd accepted, s =>
    if action = .timer then none else some (s.asyncRead D action fd accepted)
  | .openFd fd, s => s.openFd fd none
  | .close fd, s =>
    if ((s.descriptors fd).bind Descriptor.timer).isSome then none else some (s.close fd)
  | .elapse fd itValue, s => some (s.elapse fd itValue)
  | .timerEvent fd read, s =>
    if s.running.isSome then none
    else (s.timerOf fd).bind fun completion => s.onTimerEvent D completion read
  | .goOn, s => s.running.map fun r => s.afterHandler D r

/-! ### The completions -/

variable {D : BasicEventDriver σ κ} {s s' s'' : TimerService σ ω} {fd g o : ℕ}
  {f : ReadCompletionFunc → ReadCompletionFunc} {r : TimerEventState}

theorem timerOf_eq_some : s.timerOf fd = some o ↔
    s.service.readFuncMap fd = some o ∧ (s.completions o).action = some .timer := by
  rw [timerOf, Option.filter_eq_some_iff, decide_eq_true_iff]

theorem completions_countDown_self (o : ℕ) (s : TimerService σ ω) :
    (s.countDown o).completions o = { s.completions o with
      timerCount :=
        if (s.completions o).timerCount ≠ 0 then (s.completions o).timerCount - 1 else 0 } :=
  Function.update_self _ _ _

theorem completions_countDown_of_ne {i : ℕ} (h : i ≠ o) :
    (s.countDown o).completions i = s.completions i := Function.update_of_ne h _ _

theorem descriptors_elapse_self (fd : ℕ) (itValue : Timespec) (s : TimerService σ ω) :
    (s.elapse fd itValue).descriptors fd = (s.descriptors fd).map fun d =>
      { d with timer := d.timer.map fun spec => { spec with itValue } } :=
  Function.update_self _ _ _

theorem descriptors_elapse_of_ne {itValue : Timespec} (h : g ≠ fd) :
    (s.elapse fd itValue).descriptors g = s.descriptors g := Function.update_of_ne h _ _

theorem descriptors_close_of_ne (h : g ≠ fd) : (s.close fd).descriptors g = s.descriptors g :=
  Function.update_of_ne h _ _

theorem descriptors_addFd_of_ne {timer : Option ITimerSpec} (h : g ≠ fd) :
    (s.addFd fd timer).descriptors g = s.descriptors g := Function.update_of_ne h _ _

theorem addFd_self {timer : Option ITimerSpec} :
    (s.addFd fd timer).descriptors fd = some ⟨s.opened.length, timer⟩ :=
  Function.update_self _ _ _

theorem openFd_eq_some {timer : Option ITimerSpec} :
    s.openFd fd timer = some s' ↔ s.descriptors fd = none ∧ s.addFd fd timer = s' := by
  rw [openFd, Option.ite_none_left_eq_some, Option.not_isSome_iff_eq_none, Option.some.injEq]

/-- The descriptor is an open timer. -/
def HasTimer (fd : ℕ) (s : TimerService σ ω) : Prop :=
  ((s.descriptors fd).bind Descriptor.timer).isSome = true

theorem HasTimer.ne_of_free (h : s.HasTimer g) (hfree : s.descriptors fd = none) : g ≠ fd := by
  rintro rfl
  simp [HasTimer, hfree] at h

theorem hasTimer_elapse {itValue : Timespec} :
    (s.elapse fd itValue).HasTimer g ↔ s.HasTimer g := by
  rw [HasTimer, HasTimer]
  by_cases hg : g = fd
  · subst hg
    rw [descriptors_elapse_self]
    cases s.descriptors g <;> simp
  · rw [descriptors_elapse_of_ne hg]

/-- `OnTimerEvent` works with a completion that was set for its timer. -/
structure Runs (s : TimerService σ ω) (r : TimerEventState) : Prop where
  created : r.completion < s.created
  timerFd : (s.completions r.completion).timerFd = some r.timerFd
  serial : (s.completions r.completion).serial = r.serial

/-- Completions are kept for one descriptor each, that of a timer for the descriptor with which it
was created and only as long as that is open, and a descriptor has the number with which it was
opened. -/
structure Keyed (s : TimerService σ ω) : Prop where
  once : ∀ fd fd' o, s.service.readFuncMap fd = some o → s.service.readFuncMap fd' = some o →
    fd = fd'
  bound : ∀ fd o, s.service.readFuncMap fd = some o → o < s.created
  timer : ∀ fd o, s.timerOf fd = some o → (s.completions o).timerFd = some fd
  opened : ∀ fd o, (s.completions o).timerFd = some fd →
    s.opened[(s.completions o).serial]? = some fd
  hasTimer : ∀ fd o, s.service.readFuncMap fd = some o → (s.completions o).timerFd ≠ none →
    s.HasTimer fd
  descriptor : ∀ fd d, s.descriptors fd = some d → s.opened[d.serial]? = some fd
  closed : ∀ k, some k ∈ s.closed → k < s.opened.length
  running : ∀ r ∈ s.running, s.Runs r

theorem Keyed.runs (hs : Keyed s) {timerFd left : ℕ} (ho : s.timerOf fd = some o)
    (htimerFd : (s.completions o).timerFd = some timerFd) :
    s.Runs ⟨o, timerFd, (s.completions o).serial, left⟩ :=
  ⟨hs.bound fd o (timerOf_eq_some.mp ho).1, htimerFd, rfl⟩

/-- A timer was opened with its number. -/
theorem Keyed.opened_of_timerOf (hs : Keyed s) (ho : s.timerOf fd = some o) :
    s.opened[(s.completions o).serial]? = some fd :=
  hs.opened fd o (hs.timer fd o ho)

theorem Keyed.opened_of_running (hs : Keyed s) (hr : r ∈ s.running) :
    s.opened[r.serial]? = some r.timerFd := by
  have hruns := hs.running r hr
  rw [← hruns.serial]
  exact hs.opened _ _ hruns.timerFd

/-- The completions that are left are the old ones, perhaps with another count, the timers among
them are still open, and the descriptors are old ones or have the number with which they were
opened. -/
structure Fewer (s s' : TimerService σ ω) : Prop where
  map : ∀ fd o, s'.service.readFuncMap fd = some o → s.service.readFuncMap fd = some o
  action : ∀ o, (s'.completions o).action = (s.completions o).action
  timerFd : ∀ o, (s'.completions o).timerFd = (s.completions o).timerFd
  serial : ∀ o, (s'.completions o).serial = (s.completions o).serial
  created : s'.created = s.created
  opened : s.opened <+: s'.opened
  hasTimer : ∀ fd o, s'.service.readFuncMap fd = some o → s.HasTimer fd → s'.HasTimer fd
  descriptor : ∀ fd d, s'.descriptors fd = some d → s'.opened[d.serial]? = some fd ∨
    ∃ d', s.descriptors fd = some d' ∧ d'.serial = d.serial
  closed : ∀ k, some k ∈ s'.closed →
    some k ∈ s.closed ∨ k < s'.opened.length ∨ ∃ fd d, s.descriptors fd = some d ∧ d.serial = k
  running : ∀ r ∈ s'.running, s.Runs r ∨ r ∈ s.running

theorem getElem?_mono {α : Type} {l l' : List α} {n : ℕ} {a : α} (h : l <+: l')
    (hget : l[n]? = some a) : l'[n]? = some a := by
  obtain ⟨rest, rfl⟩ := h
  rw [List.getElem?_append_left (List.getElem?_eq_some_iff.mp hget).1, hget]

namespace Fewer

theorem refl (s : TimerService σ ω) : Fewer s s where
  map _ _ h := h
  action _ := rfl
  timerFd _ := rfl
  serial _ := rfl
  created := rfl
  opened := List.prefix_rfl
  hasTimer _ _ _ h := h
  descriptor _ d h := .inr ⟨d, h, rfl⟩
  closed _ h := .inl h
  running _ h := .inr h

theorem runs_iff (h : Fewer s s') : s'.Runs r ↔ s.Runs r := by
  constructor
  · rintro ⟨hcreated, htimerFd, hserial⟩
    rw [h.created] at hcreated
    rw [h.timerFd] at htimerFd
    rw [h.serial] at hserial
    exact ⟨hcreated, htimerFd, hserial⟩
  · rintro ⟨hcreated, htimerFd, hserial⟩
    refine ⟨?_, ?_, ?_⟩
    · rwa [h.created]
    · rwa [h.timerFd]
    · rwa [h.serial]

theorem trans (h : Fewer s s') (h' : Fewer s' s'') : Fewer s s'' where
  map fd o hmap := h.map fd o (h'.map fd o hmap)
  action o := (h'.action o).trans (h.action o)
  timerFd o := (h'.timerFd o).trans (h.timerFd o)
  serial o := (h'.serial o).trans (h.serial o)
  created := h'.created.trans h.created
  opened := h.opened.trans h'.opened
  hasTimer fd o hmap htimer :=
    h'.hasTimer fd o hmap (h.hasTimer fd o (h'.map fd o hmap) htimer)
  descriptor fd d hd := by
    obtain hnew | ⟨d', hd', hserial'⟩ := h'.descriptor fd d hd
    · exact .inl hnew
    obtain hnew | ⟨d'', hd'', hserial⟩ := h.descriptor fd d' hd'
    · rw [hserial'] at hnew
      exact .inl (getElem?_mono h'.opened hnew)
    · exact .inr ⟨d'', hd'', hserial.trans hserial'⟩
  closed k hk := by
    obtain hold | hlt | ⟨fd, d', hd', rfl⟩ := h'.closed k hk
    · obtain hold | hlt | hopen := h.closed k hold
      · exact .inl hold
      · exact .inr (.inl (Nat.lt_of_lt_of_le hlt h'.opened.length_le))
      · exact .inr (.inr hopen)
    · exact .inr (.inl hlt)
    · obtain hnew | ⟨d'', hd'', hserial⟩ := h.descriptor fd d' hd'
      · exact .inr (.inl (Nat.lt_of_lt_of_le (List.getElem?_eq_some_iff.mp hnew).1
          h'.opened.length_le))
      · exact .inr (.inr ⟨fd, d'', hd'', hserial⟩)
  running r hr := by
    obtain hruns | hr := h'.running r hr
    · exact .inl (h.runs_iff.mp hruns)
    · exact h.running r hr

theorem timerOf (h : Fewer s s') (ho : s'.timerOf fd = some o) : s.timerOf fd = some o := by
  obtain ⟨hmap, haction⟩ := timerOf_eq_some.mp ho
  exact timerOf_eq_some.mpr ⟨h.map fd o hmap, (h.action o).symm.trans haction⟩

theorem keyed (h : Fewer s s') (hs : Keyed s) : Keyed s' where
  once fd fd' o hfd hfd' := hs.once fd fd' o (h.map fd o hfd) (h.map fd' o hfd')
  bound fd o hfd := by
    rw [h.created]
    exact hs.bound fd o (h.map fd o hfd)
  timer fd o ho := by
    rw [h.timerFd]
    exact hs.timer fd o (h.timerOf ho)
  opened fd o ho := by
    rw [h.timerFd] at ho
    rw [h.serial]
    exact getElem?_mono h.opened (hs.opened fd o ho)
  hasTimer fd o hfd htimerFd := by
    rw [h.timerFd] at htimerFd
    exact h.hasTimer fd o hfd (hs.hasTimer fd o (h.map fd o hfd) htimerFd)
  descriptor fd d hd := by
    obtain hnew | ⟨d', hd', hserial⟩ := h.descriptor fd d hd
    · exact hnew
    · rw [← hserial]
      exact getElem?_mono h.opened (hs.descriptor fd d' hd')
  closed k hk := by
    obtain hold | hlt | ⟨fd, d, hd, rfl⟩ := h.closed k hk
    · exact Nat.lt_of_lt_of_le (hs.closed k hold) h.opened.length_le
    · exact hlt
    · exact Nat.lt_of_lt_of_le (List.getElem?_eq_some_iff.mp (hs.descriptor fd d hd)).1
        h.opened.length_le
  running r hr := by
    obtain hruns | hr := h.running r hr
    · exact h.runs_iff.mpr hruns
    · exact h.runs_iff.mpr (hs.running r hr)

/-- A descriptor is closed that is not a timer with a completion. -/
theorem close (hfd : ∀ o, s.service.readFuncMap fd = some o → ¬ s.HasTimer fd) :
    Fewer s (s.close fd) := by
  refine { refl s with
    hasTimer := fun g o hmap htimer => ?_
    descriptor := fun _ d hd => .inr ⟨d, (update_none_eq_some.mp hd).2, rfl⟩
    closed := fun k hk => ?_ }
  · by_cases hg : g = fd
    · subst hg
      exact absurd htimer (hfd o hmap)
    · rwa [HasTimer, descriptors_close_of_ne hg]
  · obtain hold | hnew := List.mem_append.mp hk
    · exact .inl hold
    · obtain ⟨d, hd, hserial⟩ := Option.map_eq_some_iff.mp (List.mem_singleton.mp hnew).symm
      exact .inr (.inr ⟨fd, d, hd, hserial⟩)

theorem asyncCancel (fd : ℕ) (s : TimerService σ ω) : Fewer s (s.asyncCancel D fd) :=
  { refl s with
    map := fun _ _ h => (update_none_eq_some.mp h).2
    hasTimer := fun _ _ _ h => h }

theorem asyncCloseTimer (fd : ℕ) (s : TimerService σ ω) : Fewer s (s.asyncCloseTimer D fd) := by
  refine (asyncCancel fd s).trans (close fun o hmap => ?_)
  exact absurd rfl (update_none_eq_some.mp hmap).1

theorem registerRead (fd : ℕ) (accepted : Bool) (s : TimerService σ ω) :
    Fewer s (s.registerRead D fd accepted).2 := { refl s with }

theorem addFd (timer : Option ITimerSpec) (hfree : s.descriptors fd = none) :
    Fewer s (s.addFd fd timer) := by
  refine { refl s with
    opened := List.prefix_append _ _
    hasTimer := fun g o _ htimer => ?_
    descriptor := fun g d hd => ?_
    closed := fun _ hk => .inl hk }
  · rwa [HasTimer, descriptors_addFd_of_ne (htimer.ne_of_free hfree)]
  · obtain ⟨rfl, rfl⟩ | ⟨-, hd⟩ := update_some_eq_some.mp hd
    · exact .inl List.getElem?_concat_length
    · exact .inr ⟨d, hd, rfl⟩

/-- A descriptor that was just opened is closed again. -/
theorem addFd_close (timer : Option ITimerSpec) (hfree : s.descriptors fd = none) :
    Fewer s ((s.addFd fd timer).close fd) := by
  have hadd := addFd timer hfree
  refine { hadd with
    hasTimer := fun g o _ htimer => ?_
    descriptor := fun g d hd => hadd.descriptor g d (update_none_eq_some.mp hd).2
    closed := fun k hk => ?_ }
  · have hg := htimer.ne_of_free hfree
    rwa [HasTimer, descriptors_close_of_ne hg, descriptors_addFd_of_ne hg]
  · obtain hold | hnew := List.mem_append.mp hk
    · exact .inl hold
    · rw [addFd_self, Option.map_some, List.mem_singleton, Option.some.injEq] at hnew
      rw [hnew]
      exact .inr (.inl (by simp [TimerService.addFd, TimerService.close]))

theorem elapse (fd : ℕ) (itValue : Timespec) (s : TimerService σ ω) :
    Fewer s (s.elapse fd itValue) := by
  refine { refl s with
    hasTimer := fun g o _ htimer => hasTimer_elapse.mpr htimer
    descriptor := fun g d hd => .inr ?_ }
  by_cases hg : g = fd
  · subst hg
    rw [descriptors_elapse_self] at hd
    obtain ⟨d', hd', rfl⟩ := Option.map_eq_some_iff.mp hd
    exact ⟨d', hd', rfl⟩
  · rw [descriptors_elapse_of_ne hg] at hd
    exact ⟨d, hd, rfl⟩

theorem record (serial : ℕ) (read : TimerRead) (s : TimerService σ ω) :
    Fewer s (s.record serial read) := { refl s with }

theorem stop (s : TimerService σ ω) : Fewer s s.stop := { refl s with running := nofun }

theorem countDown (o : ℕ) (s : TimerService σ ω) : Fewer s (s.countDown o) := by
  have hsame : ∀ {α : Type} (g : ReadCompletionFunc → α),
      (∀ c n, g { c with timerCount := n } = g c) →
        ∀ i, g ((s.countDown o).completions i) = g (s.completions i) := by
    intro α g hg i
    by_cases hi : i = o
    · rw [hi, completions_countDown_self, hg]
    · rw [completions_countDown_of_ne hi]
  exact { refl s with
    action := hsame ReadCompletionFunc.action fun _ _ => rfl
    timerFd := hsame ReadCompletionFunc.timerFd fun _ _ => rfl
    serial := hsame ReadCompletionFunc.serial fun _ _ => rfl }

theorem nextRound (hr : s.Runs r) (left : ℕ) : Fewer s (s.nextRound D r left) := by
  cases left with
  | zero =>
    rw [TimerService.nextRound]
    split_ifs
    · exact asyncCloseTimer r.timerFd s
    · exact refl s
  | succ left =>
    refine { refl s with running := fun r' hr' => .inl ?_ }
    cases hr'
    exact ⟨hr.created, hr.timerFd, hr.serial⟩

theorem onTimerEvent {read : TimerRead} (hs : Keyed s) (ho : s.timerOf fd = some o)
    (h : s.onTimerEvent D o read = some s') : Fewer s s' := by
  obtain ⟨timerFd, htimerFd, rfl⟩ := Option.map_eq_some_iff.mp h
  have hrecord := record (s.completions o).serial read s
  dsimp only
  split_ifs
  · exact hrecord.trans (asyncCloseTimer timerFd _)
  · exact hrecord
  · exact hrecord.trans (nextRound (hrecord.runs_iff.mpr (hs.runs ho htimerFd)) _)

theorem afterHandler (hr : s.Runs r) : Fewer s (s.afterHandler D r) := by
  have hstop := stop s
  have hcount := hstop.trans (countDown r.completion _)
  rw [TimerService.afterHandler]
  split_ifs
  · exact hstop.trans (asyncCloseTimer r.timerFd _)
  · exact hcount.trans (nextRound (hcount.runs_iff.mpr hr) r.left)

end Fewer

/-! ### New completions -/

/-- A completion that is set for a descriptor is its only one and one of no other descriptor. -/
theorem readFuncMap_setCompletion (hs : Keyed s) :
    (s.setCompletion fd f).service.readFuncMap g = some o ↔
      g = fd ∧ s.completionFor fd = o ∨
        g ≠ fd ∧ s.service.readFuncMap g = some o ∧ o ≠ s.completionFor fd := by
  have hother : ∀ {g}, g ≠ fd → s.service.readFuncMap g = some o → o ≠ s.completionFor fd := by
    rintro g hg ho rfl
    rw [completionFor] at ho
    cases hmap : s.service.readFuncMap fd with
    | none =>
      rw [hmap, Option.getD_none] at ho
      exact absurd (hs.bound g _ ho) (Nat.lt_irrefl _)
    | some o' =>
      rw [hmap, Option.getD_some] at ho
      exact hg (hs.once g fd o' ho hmap)
  rw [setCompletion, update_some_eq_some]
  exact or_congr_right (and_congr_right fun hg => (and_iff_left_of_imp (hother hg)).symm)

theorem completions_setCompletion_of_ne (ho : o ≠ s.completionFor fd) :
    (s.setCompletion fd f).completions o = s.completions o :=
  Function.update_of_ne ho _ _

/-- The completion that is set was one of the descriptor or is new. -/
theorem completions_setCompletion_self (fd : ℕ) (f : ReadCompletionFunc → ReadCompletionFunc)
    (s : TimerService σ ω) :
    (s.service.readFuncMap fd = some (s.completionFor fd) ∧
        (s.setCompletion fd f).completions (s.completionFor fd) =
          f (s.completions (s.completionFor fd))) ∨
      s.completionFor fd = s.created ∧
        (s.setCompletion fd f).completions (s.completionFor fd) = f {} := by
  cases hmap : s.service.readFuncMap fd with
  | none => exact .inr ⟨by simp [completionFor, hmap], by simp [setCompletion, hmap]⟩
  | some o => exact .inl ⟨by simp [completionFor, hmap], by simp [setCompletion, hmap]⟩

theorem completionFor_lt (hs : Keyed s) : s.completionFor fd < (s.setCompletion fd f).created := by
  rw [completionFor, setCompletion]
  cases hmap : s.service.readFuncMap fd with
  | none => exact Nat.lt_succ_self _
  | some o => exact hs.bound fd o hmap

theorem created_le_setCompletion : s.created ≤ (s.setCompletion fd f).created := by
  rw [setCompletion]
  split_ifs
  · exact Nat.le_refl _
  · exact Nat.le_succ _

theorem timerOf_setCompletion (hs : Keyed s) (h : (s.setCompletion fd f).timerOf g = some o) :
    g = fd ∧ (∃ c, (s.setCompletion fd f).completions o = f c) ∨
      s.timerOf g = some o ∧ (s.setCompletion fd f).completions o = s.completions o := by
  obtain ⟨hmap, haction⟩ := timerOf_eq_some.mp h
  obtain ⟨rfl, rfl⟩ | ⟨-, hold, hne⟩ := (readFuncMap_setCompletion hs).mp hmap
  · exact .inl ⟨rfl, _, Function.update_self _ _ _⟩
  · rw [completions_setCompletion_of_ne hne] at haction
    exact .inr ⟨timerOf_eq_some.mpr ⟨hold, haction⟩, completions_setCompletion_of_ne hne⟩

/-- What may be written into the completion of a descriptor: its timer is that of the descriptor,
and either the completion stays with its timer, or it was not one of a timer and a timer is open. -/
structure Fits (fd : ℕ) (f : ReadCompletionFunc → ReadCompletionFunc) (s : TimerService σ ω) :
    Prop where
  timer : ∀ c, (f c).action = some .timer → (f c).timerFd = some fd
  kind : (∀ c, (f c).timerFd = c.timerFd ∧ (f c).serial = c.serial) ∨
    s.HasTimer fd ∧ (∀ c, (f c).timerFd = some fd ∧ s.opened[(f c).serial]? = some fd) ∧
      ∀ o, s.service.readFuncMap fd = some o → (s.completions o).timerFd = none

theorem Keyed.setCompletion (hs : Keyed s) (hf : s.Fits fd f) :
    Keyed (s.setCompletion fd f) where
  once g g' o hg hg' := by
    obtain ⟨rfl, hnew⟩ | ⟨-, hold, hne⟩ := (readFuncMap_setCompletion hs).mp hg
    · obtain ⟨rfl, -⟩ | ⟨-, -, hne⟩ := (readFuncMap_setCompletion hs).mp hg'
      · rfl
      · exact absurd hnew.symm hne
    · obtain ⟨-, hnew⟩ | ⟨-, hold', -⟩ := (readFuncMap_setCompletion hs).mp hg'
      · exact absurd hnew.symm hne
      · exact hs.once g g' o hold hold'
  bound g o hg := by
    obtain ⟨-, rfl⟩ | ⟨-, hold, -⟩ := (readFuncMap_setCompletion hs).mp hg
    · exact completionFor_lt hs
    · exact Nat.lt_of_lt_of_le (hs.bound g o hold) created_le_setCompletion
  timer g o ho := by
    have haction := (timerOf_eq_some.mp ho).2
    obtain ⟨rfl, c, hc⟩ | ⟨hold, hc⟩ := timerOf_setCompletion hs ho
    · rw [hc] at haction ⊢
      exact hf.timer c haction
    · rw [hc]
      exact hs.timer g o hold
  opened g o ho := by
    show s.opened[((s.setCompletion fd f).completions o).serial]? = some g
    by_cases hne : o = s.completionFor fd
    · subst hne
      obtain hsame | ⟨-, hnew, -⟩ := hf.kind
      · obtain ⟨-, hc⟩ | ⟨-, hc⟩ := completions_setCompletion_self fd f s
        · rw [hc, (hsame _).1] at ho
          rw [hc, (hsame _).2]
          exact hs.opened g _ ho
        · rw [hc, (hsame _).1] at ho
          cases ho
      · obtain ⟨c, hc⟩ : ∃ c, (s.setCompletion fd f).completions (s.completionFor fd) = f c :=
          ⟨_, Function.update_self _ _ _⟩
        rw [hc, (hnew c).1] at ho
        rw [hc, (hnew c).2, ho]
    · rw [completions_setCompletion_of_ne hne] at ho ⊢
      exact hs.opened g o ho
  hasTimer g o hg htimerFd := by
    obtain ⟨rfl, rfl⟩ | ⟨-, hold, hne⟩ := (readFuncMap_setCompletion hs).mp hg
    · obtain hsame | ⟨htimer, -, -⟩ := hf.kind
      · obtain ⟨hmap, hc⟩ | ⟨-, hc⟩ := completions_setCompletion_self g f s
        · rw [hc, (hsame _).1] at htimerFd
          exact hs.hasTimer g _ hmap htimerFd
        · rw [hc, (hsame _).1] at htimerFd
          exact absurd rfl htimerFd
      · exact htimer
    · rw [completions_setCompletion_of_ne hne] at htimerFd
      exact hs.hasTimer g o hold htimerFd
  descriptor := hs.descriptor
  closed := hs.closed
  running r hr := by
    obtain ⟨hcreated, htimerFd, hserial⟩ := hs.running r hr
    suffices hsame : ((s.setCompletion fd f).completions r.completion).timerFd = some r.timerFd ∧
        ((s.setCompletion fd f).completions r.completion).serial = r.serial from
      ⟨Nat.lt_of_lt_of_le hcreated created_le_setCompletion, hsame.1, hsame.2⟩
    by_cases hne : r.completion = s.completionFor fd
    · obtain ⟨hmap, hc⟩ | ⟨hnew, -⟩ := completions_setCompletion_self fd f s
      · rw [← hne] at hmap hc
        obtain hsame | ⟨-, -, hnone⟩ := hf.kind
        · rw [hc, (hsame _).1, (hsame _).2]
          exact ⟨htimerFd, hserial⟩
        · rw [hnone _ hmap] at htimerFd
          cases htimerFd
      · exact absurd (hne.trans hnew) (Nat.ne_of_lt hcreated)
    · rw [completions_setCompletion_of_ne hne]
      exact ⟨htimerFd, hserial⟩

/-! ### The steps -/

/-- What `AsyncAddTimer` does, once it has a descriptor. -/
theorem asyncAddTimer_cases {milliExpire milliInterval triggerCount : UInt64}
    {timerFd result : Option ℕ} {isSet accepted : Bool}
    (h : s.asyncAddTimer D milliExpire milliInterval triggerCount timerFd isSet accepted =
      some (result, s')) :
    timerFd = none ∧ result = none ∧ s' = s ∨ ∃ fd milli s₁, timerFd = some fd ∧
      s.descriptors fd = none ∧ s.addFd fd (some ⟨.ofMilli milli, .ofMilli milliInterval⟩) = s₁ ∧
      (result = none ∧ (s' = s₁.close fd ∨ s' = (s₁.registerRead D fd accepted).2.close fd) ∨
        result = some fd ∧ s' = (s₁.registerRead D fd accepted).2.setCompletion fd
          fun _ => ⟨some .timer, some fd, triggerCount, s.opened.length⟩) := by
  cases timerFd with
  | none =>
    cases h
    exact .inl ⟨rfl, rfl, rfl⟩
  | some fd =>
    obtain ⟨s₁, hopen, heq⟩ := Option.map_eq_some_iff.mp h
    obtain ⟨hfree, hadd⟩ := openFd_eq_some.mp hopen
    refine .inr ⟨fd, _, s₁, rfl, hfree, hadd, ?_⟩
    dsimp only at heq
    split_ifs at heq
    · cases heq
      exact .inl ⟨rfl, .inl rfl⟩
    · cases heq
      exact .inl ⟨rfl, .inr rfl⟩
    · cases heq
      exact .inr ⟨rfl, rfl⟩

/-- What user code leaves as it is. -/
structure ByUser (D : BasicEventDriver σ κ) (s s' : TimerService σ ω) : Prop where
  running : s'.running = s.running
  reads : s'.reads = s.reads
  invoked : s'.invoked = s.invoked
  closed : s.closed <+: s'.closed
  selfClosed : s'.selfClosed = s.selfClosed ∨ ∃ fd, s' = s.userClose D fd

/-- A step is one of user code or of `OnTimerEvent`. -/
theorem step_kinds {i : TimerStep} (h : step D i s = some s') : ByUser D s s' ∨
    (∃ fd read o, i = .timerEvent fd read ∧ s.running = none ∧ s.timerOf fd = some o ∧
      s.onTimerEvent D o read = some s') ∨
    ∃ r, i = .goOn ∧ s.running = some r ∧ s' = s.afterHandler D r := by
  cases i with
  | asyncAddTimer milliExpire milliInterval triggerCount timerFd isSet accepted =>
    obtain ⟨⟨result, s'⟩, hadd, rfl⟩ := Option.map_eq_some_iff.mp h
    obtain ⟨-, -, rfl⟩ | ⟨fd, milli, s₁, -, -, rfl, hend⟩ := asyncAddTimer_cases hadd
    · exact .inl ⟨rfl, rfl, rfl, List.prefix_rfl, .inl rfl⟩
    obtain ⟨-, rfl | rfl⟩ | ⟨-, rfl⟩ := hend
    · exact .inl ⟨rfl, rfl, rfl, List.prefix_append _ _, .inl rfl⟩
    · exact .inl ⟨rfl, rfl, rfl, List.prefix_append _ _, .inl rfl⟩
    · exact .inl ⟨rfl, rfl, rfl, List.prefix_rfl, .inl rfl⟩
  | asyncCloseTimer fd =>
    cases h
    exact .inl ⟨rfl, rfl, rfl, List.prefix_append _ _, .inr ⟨fd, rfl⟩⟩
  | asyncRead action fd accepted =>
    obtain ⟨-, hs'⟩ := Option.ite_none_left_eq_some.mp h
    obtain rfl := Option.some.inj hs'
    rw [asyncRead]
    split_ifs
    · exact .inl ⟨rfl, rfl, rfl, List.prefix_rfl, .inl rfl⟩
    · exact .inl ⟨rfl, rfl, rfl, List.prefix_rfl, .inl rfl⟩
  | openFd fd =>
    obtain ⟨-, rfl⟩ := openFd_eq_some.mp h
    exact .inl ⟨rfl, rfl, rfl, List.prefix_rfl, .inl rfl⟩
  | close fd =>
    obtain ⟨-, hs'⟩ := Option.ite_none_left_eq_some.mp h
    obtain rfl := Option.some.inj hs'
    exact .inl ⟨rfl, rfl, rfl, List.prefix_append _ _, .inl rfl⟩
  | timerEvent fd read =>
    obtain ⟨hnone, hbind⟩ := Option.ite_none_left_eq_some.mp h
    obtain ⟨o, ho, hevent⟩ := Option.bind_eq_some_iff.mp hbind
    exact .inr (.inl ⟨fd, read, o, rfl, Option.not_isSome_iff_eq_none.mp hnone, ho, hevent⟩)
  | goOn =>
    obtain ⟨r, hr, rfl⟩ := Option.map_eq_some_iff.mp h
    exact .inr (.inr ⟨r, rfl, hr, rfl⟩)
  | asyncCancel fd =>
    cases h
    exact .inl ⟨rfl, rfl, rfl, List.prefix_rfl, .inl rfl⟩
  | elapse fd itValue =>
    cases h
    exact .inl ⟨rfl, rfl, rfl, List.prefix_rfl, .inl rfl⟩

/-- A step leaves old completions and sets at most one, perhaps that of a new timer. -/
theorem step_cases {i : TimerStep} (hs : Keyed s) (h : step D i s = some s') : Fewer s s' ∨
    ∃ s₁ fd f, Fewer s s₁ ∧ s' = s₁.setCompletion fd f ∧ s₁.Fits fd f ∧
      ∀ c, (f c).action = some .timer → (f c).serial = s.opened.length := by
  cases i with
  | asyncAddTimer milliExpire milliInterval triggerCount timerFd isSet accepted =>
    obtain ⟨⟨result, s'⟩, hadd, rfl⟩ := Option.map_eq_some_iff.mp h
    dsimp only
    obtain ⟨-, -, rfl⟩ | ⟨fd, milli, s₁, -, hfree, rfl, hend⟩ := asyncAddTimer_cases hadd
    · exact .inl (.refl _)
    obtain ⟨-, rfl | rfl⟩ | ⟨-, rfl⟩ := hend
    · exact .inl (.addFd_close _ hfree)
    · exact .inl { Fewer.addFd_close (some ⟨.ofMilli milli, .ofMilli milliInterval⟩) hfree with }
    · refine .inr ⟨_, fd, fun _ => ⟨some .timer, some fd, triggerCount, s.opened.length⟩,
        (Fewer.addFd _ hfree).trans (.registerRead fd accepted _), rfl,
        ⟨fun _ _ => rfl, .inr ⟨?_, fun _ => ⟨rfl, List.getElem?_concat_length⟩, fun o hmap => ?_⟩⟩,
        fun _ _ => rfl⟩
      · simp [HasTimer, registerRead, addFd]
      · by_contra htimerFd
        exact (hs.hasTimer fd o hmap htimerFd).ne_of_free hfree rfl
  | asyncCloseTimer fd =>
    cases h
    exact .inl { Fewer.asyncCloseTimer (D := D) fd s with }
  | asyncCancel fd =>
    cases h
    exact .inl (.asyncCancel fd s)
  | asyncRead action fd accepted =>
    obtain ⟨haction, hs'⟩ := Option.ite_none_left_eq_some.mp h
    obtain rfl := Option.some.inj hs'
    have hne : ∀ c : ReadCompletionFunc, { c with action := some action }.action ≠ some .timer :=
      fun c htimer => haction (Option.some.inj htimer)
    rw [asyncRead]
    split_ifs
    · exact .inl (.registerRead fd accepted s)
    · exact .inr ⟨_, fd, _, .registerRead fd accepted s, rfl,
        ⟨fun c htimer => absurd htimer (hne c), .inl fun _ => ⟨rfl, rfl⟩⟩,
        fun c htimer => absurd htimer (hne c)⟩
  | openFd fd =>
    obtain ⟨hfree, rfl⟩ := openFd_eq_some.mp h
    exact .inl (.addFd none hfree)
  | close fd =>
    obtain ⟨htimer, hs'⟩ := Option.ite_none_left_eq_some.mp h
    obtain rfl := Option.some.inj hs'
    exact .inl (.close fun _ _ => htimer)
  | elapse fd itValue =>
    cases h
    exact .inl (.elapse fd itValue s)
  | timerEvent fd read =>
    obtain ⟨-, hbind⟩ := Option.ite_none_left_eq_some.mp h
    obtain ⟨o, ho, hevent⟩ := Option.bind_eq_some_iff.mp hbind
    exact .inl (.onTimerEvent hs ho hevent)
  | goOn =>
    obtain ⟨r, hr, rfl⟩ := Option.map_eq_some_iff.mp h
    exact .inl (.afterHandler (hs.running r hr))

theorem Keyed.step {i : TimerStep} (hs : Keyed s) (h : step D i s = some s') : Keyed s' := by
  obtain hfewer | ⟨s₁, fd, f, hfewer, rfl, hf, -⟩ := step_cases hs h
  · exact hfewer.keyed hs
  · exact (hfewer.keyed hs).setCompletion hf

/-- The timers that a step leaves are old ones or have the next serial. -/
theorem timerOf_step {i : TimerStep} (hs : Keyed s) (h : step D i s = some s')
    (ho : s'.timerOf fd = some o) : (s'.completions o).serial = s.opened.length ∨
      s.timerOf fd = some o ∧ (s'.completions o).serial = (s.completions o).serial := by
  have haction := (timerOf_eq_some.mp ho).2
  obtain hfewer | ⟨s₁, fd', f, hfewer, rfl, -, hserial⟩ := step_cases hs h
  · exact .inr ⟨hfewer.timerOf ho, hfewer.serial o⟩
  · obtain ⟨-, c, hc⟩ | ⟨hold, hc⟩ := timerOf_setCompletion (hfewer.keyed hs) ho
    · rw [hc] at haction ⊢
      exact .inl (hserial c haction)
    · rw [hc]
      exact .inr ⟨hfewer.timerOf hold, hfewer.serial o⟩

theorem opened_step {i : TimerStep} (hs : Keyed s) (h : step D i s = some s') :
    s.opened <+: s'.opened := by
  obtain hfewer | ⟨s₁, fd', f, hfewer, rfl, -⟩ := step_cases hs h
  · exact hfewer.opened
  · exact hfewer.opened

theorem keyed_start (driver : σ) : Keyed (start driver : TimerService σ ω) :=
  ⟨nofun, nofun, nofun, nofun, nofun, nofun, nofun, nofun⟩

theorem keyed_of_runSteps {driver : σ} {steps : List TimerStep}
    (h : runSteps (step D) steps (start driver) = some s) : Keyed s :=
  (reachable_of_runSteps (guardedSteps_true steps _) h).invariant (keyed_start driver)
    fun _ _ _ _ hs hstep => hs.step hstep

end TimerService

end Lsf.Asio
