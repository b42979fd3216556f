import Lsf.Asio.TimerEvents

/-!
# Handlers that close their own timer

When a handler calls `AsyncCloseTimer` for its own timer, `OnTimerEvent` does not notice it: it goes
on with the expirations that are left, and in the end it asks for the interval of the descriptor
number, or has used up the count, and closes the number again. By then the number may be that of
another descriptor.

## Main definitions

* `LeavesAlone` — the handler is not called again and nothing is closed
* `ClosesLast` — when that is so

## Main results

* `leavesAlone_iff_closesLast` — one step
* `self_closed_left_alone_iff`
-/

namespace Lsf.Asio.TimerService

variable {σ κ ω : Type} {D : BasicEventDriver σ κ} {s s' : TimerService σ ω} {fd o k : ℕ}
  {i : TimerStep} {r : TimerEventState} {strict : Bool}

/-- What counts of the calls of `close`: all of them, or only those that close a descriptor. -/
def closedBy (strict : Bool) (s : TimerService σ ω) : List (Option ℕ) :=
  if strict then s.closed else s.closed.filter Option.isSome

/-- The handlers of timers that were closed by their handlers are not called, and `OnTimerEvent`
closes nothing after the handler has closed its timer. -/
structure LeavesAlone (D : BasicEventDriver σ κ) (strict : Bool) (i : TimerStep)
    (s : TimerService σ ω) : Prop where
  invoked : ∀ k ∈ s.selfClosed, ∀ s', step D i s = some s' → s'.invoked.count k = s.invoked.count k
  closed : i = .goOn → ∀ r ∈ s.running, r.serial ∈ s.selfClosed → ∀ s', step D i s = some s' →
    s'.closedBy strict = s.closedBy strict

/-- A handler that has closed its timer was called for the last round, and then its descriptor
number is that of no descriptor, or the count is not used up and the number is that of a timer with
an interval. -/
def ClosesLast (strict : Bool) : TimerStep → TimerService σ ω → Prop
  | .goOn, s => ∀ r ∈ s.running, r.serial ∈ s.selfClosed →
    (r.left = 0 ∨ (s.completions r.completion).timerCount = 1) ∧
      ((strict = false ∧ s.descriptors r.timerFd = none) ∨
        (s.completions r.completion).timerCount ≠ 1 ∧ (s.asyncGetTimer r.timerFd).2 ≠ 0)
  | _, _ => True

/-! ### What `OnTimerEvent` does after the handler -/

theorem closedBy_asyncCloseTimer : (s.asyncCloseTimer D fd).closedBy strict = s.closedBy strict ↔
    strict = false ∧ s.descriptors fd = none := by
  have hclosed : (s.asyncCloseTimer D fd).closed =
    s.closed ++ [(s.descriptors fd).map Descriptor.serial] := rfl
  rw [closedBy, closedBy, hclosed]
  cases strict with
  | false => cases s.descriptors fd <;> simp
  | true => simp

/-- The loop calls the handler again, or closes the number, or leaves everything as it is. -/
theorem nextRound_leavesAlone_iff {left : ℕ} :
    (s.nextRound D r left).invoked.count r.serial = s.invoked.count r.serial ∧
        (s.nextRound D r left).closedBy strict = s.closedBy strict ↔
      left = 0 ∧ ((strict = false ∧ s.descriptors r.timerFd = none) ∨
        (s.asyncGetTimer r.timerFd).2 ≠ 0) := by
  cases left with
  | zero =>
    rw [nextRound, and_iff_right rfl]
    split_ifs with hinterval
    · have hcount : (s.asyncCloseTimer D r.timerFd).invoked.count r.serial =
        s.invoked.count r.serial := rfl
      rw [and_iff_right hcount, closedBy_asyncCloseTimer, or_iff_left (not_not.mpr hinterval)]
    · exact iff_of_true ⟨rfl, rfl⟩ (.inr hinterval)
  | succ left =>
    refine iff_of_false (fun h => ?_) fun h => Nat.succ_ne_zero left h.1
    have hcount : (s.invoked ++ [r.serial]).count r.serial = s.invoked.count r.serial := h.1
    simp at hcount

theorem afterHandler_leavesAlone_iff :
    (s.afterHandler D r).invoked.count r.serial = s.invoked.count r.serial ∧
        (s.afterHandler D r).closedBy strict = s.closedBy strict ↔
      (r.left = 0 ∨ (s.completions r.completion).timerCount = 1) ∧
        ((strict = false ∧ s.descriptors r.timerFd = none) ∨
          (s.completions r.completion).timerCount ≠ 1 ∧ (s.asyncGetTimer r.timerFd).2 ≠ 0) := by
  rw [afterHandler]
  split_ifs with hlast
  · rw [or_iff_right_of_imp fun _ => hlast, and_iff_right hlast]
    have hstop : (s.stop.asyncCloseTimer D r.timerFd).closedBy strict = s.stop.closedBy strict ↔
      strict = false ∧ s.descriptors r.timerFd = none := closedBy_asyncCloseTimer
    refine ⟨fun h => .inl (hstop.mp h.2), ?_⟩
    rintro (hfree | ⟨hne, -⟩)
    · exact ⟨rfl, hstop.mpr hfree⟩
    · exact absurd hlast hne
  · rw [or_iff_left hlast, and_iff_right (a := ¬ _) hlast]
    exact nextRound_leavesAlone_iff (s := s.stop.countDown r.completion)

/-! ### Timers that their handlers have closed -/

/-- No timer is left of those that were closed by their handlers. -/
structure SelfClosedGone (s : TimerService σ ω) : Prop where
  keyed : s.Keyed
  opened : ∀ k ∈ s.selfClosed, k < s.opened.length
  gone : ∀ k ∈ s.selfClosed, ∀ fd o, s.timerOf fd = some o → (s.completions o).serial ≠ k

theorem selfClosed_nextRound (r : TimerEventState) (left : ℕ) (s : TimerService σ ω) :
    (s.nextRound D r left).selfClosed = s.selfClosed := by
  cases left with
  | zero =>
    rw [nextRound]
    split_ifs
    · rfl
    · rfl
  | succ left => rfl

theorem selfClosed_step (h : step D i s = some s') :
    s'.selfClosed = s.selfClosed ∨ ∃ fd, s' = s.userClose D fd := by
  obtain huser | ⟨fd, read, o, -, -, -, hevent⟩ | ⟨r, -, -, rfl⟩ := step_kinds h
  · exact huser.selfClosed
  · obtain ⟨timerFd, -, rfl⟩ := Option.map_eq_some_iff.mp hevent
    dsimp only
    split_ifs
    · exact .inl rfl
    · exact .inl rfl
    · exact .inl (selfClosed_nextRound _ _ _)
  · rw [afterHandler]
    split_ifs
    · exact .inl rfl
    · exact .inl (selfClosed_nextRound r r.left _)

theorem SelfClosedGone.step (hs : SelfClosedGone s) (h : step D i s = some s') :
    SelfClosedGone s' := by
  have hold : ∀ k ∈ s.selfClosed, k < s'.opened.length ∧
      ∀ fd o, s'.timerOf fd = some o → (s'.completions o).serial ≠ k := fun k hk =>
    ⟨Nat.lt_of_lt_of_le (hs.opened k hk) (opened_step hs.keyed h).length_le,
      fun fd o => gone_step hs.keyed (hs.opened k hk) (hs.gone k hk) h⟩
  suffices hall : ∀ k ∈ s'.selfClosed, k < s'.opened.length ∧
      ∀ fd o, s'.timerOf fd = some o → (s'.completions o).serial ≠ k from
    ⟨hs.keyed.step h, fun k hk => (hall k hk).1, fun k hk => (hall k hk).2⟩
  intro k hk
  obtain hsame | ⟨fd, rfl⟩ := selfClosed_step h
  · exact hold k (hsame ▸ hk)
  obtain hk | hk := List.mem_append.mp hk
  · exact hold k hk
  obtain ⟨r, hr, rfl⟩ := List.mem_map.mp hk
  obtain ⟨hr, hfd⟩ := List.mem_filter.mp hr
  have hopened := hs.keyed.opened_of_running (Option.mem_toList.mp hr)
  rw [of_decide_eq_true hfd] at hopened
  refine ⟨(List.getElem?_eq_some_iff.mp hopened).1, fun g o ho hserial => ?_⟩
  -- a timer with this serial would be kept for the number that was just closed
  have hg := (hs.keyed.step h).opened_of_timerOf ho
  rw [hserial] at hg
  obtain rfl : g = fd := Option.some.inj (hg.symm.trans hopened)
  exact absurd rfl (update_none_eq_some.mp (timerOf_eq_some.mp ho).1).1

/-- **A step leaves alone what handlers have closed exactly if it closes last.** -/
theorem leavesAlone_iff_closesLast (hs : SelfClosedGone s) :
    LeavesAlone D strict i s ↔ ClosesLast strict i s := by
  have hother : ∀ k ∈ s.selfClosed, ¬ Concerns k i s → ∀ s', step D i s = some s' →
      s'.invoked.count k = s.invoked.count k := fun k _ hi s' h => (logKept_step h hi).invoked
  by_cases hgo : i = .goOn
  · subst hgo
    by_cases hself : ∃ r ∈ s.running, r.serial ∈ s.selfClosed
    · obtain ⟨r, hr, hk⟩ := hself
      have hstep : TimerService.step D .goOn s = some (s.afterHandler D r) := by
        rw [TimerService.step, hr]
        rfl
      constructor
      · intro h r' hr' hk'
        obtain rfl := Option.some.inj (hr.symm.trans hr')
        exact afterHandler_leavesAlone_iff.mp
          ⟨h.invoked r.serial hk _ hstep, h.closed rfl r hr hk _ hstep⟩
      · intro h
        obtain ⟨hinvoked, hclosed⟩ := (afterHandler_leavesAlone_iff (D := D)).mpr (h r hr hk)
        refine ⟨fun k hk' s' hs' => ?_, fun _ r' hr' _ s' hs' => ?_⟩
        · by_cases heq : r.serial = k
          · obtain rfl := Option.some.inj (hstep.symm.trans hs')
            exact heq ▸ hinvoked
          · refine hother k hk' ?_ s' hs'
            rintro ⟨r', hr', hserial⟩
            obtain rfl := Option.some.inj (hr.symm.trans hr')
            exact heq hserial
        · obtain rfl := Option.some.inj (hstep.symm.trans hs')
          exact hclosed
    · refine iff_of_true ⟨fun k hk => hother k hk ?_, fun _ r hr hk => ?_⟩ fun r hr hk => ?_
      · rintro ⟨r, hr, rfl⟩
        exact hself ⟨r, hr, hk⟩
      · exact absurd ⟨r, hr, hk⟩ hself
      · exact absurd ⟨r, hr, hk⟩ hself
  · have hnone : ∀ k ∈ s.selfClosed, ¬ Concerns k i s := fun k hk =>
      not_concerns (hs.gone k hk) fun h => absurd h hgo
    refine iff_of_true ⟨fun k hk => hother k hk (hnone k hk), fun h => absurd h hgo⟩ ?_
    cases i with
    | goOn => exact absurd rfl hgo
    | _ => trivial

/-! ### Runs -/

/-- **A timer that its handler closes is left alone exactly when the handler is called for the last
round and its number is not closed again**, in every run of the service. -/
theorem self_closed_left_alone_iff (D : BasicEventDriver σ κ) (driver : σ) (strict : Bool)
    (steps : List TimerStep) :
    GuardedSteps (step D) (LeavesAlone D strict) steps (start driver : TimerService σ ω) ↔
      GuardedSteps (step D) (ClosesLast strict) steps (start driver : TimerService σ ω) :=
  guardedSteps_iff_of_invariant (I := SelfClosedGone) (fun _ _ _ hs h => hs.step h)
    (fun _ _ hs => leavesAlone_iff_closesLast hs) ⟨keyed_start driver, nofun, nofun⟩

/-- **A handler closes its timer and opens a socket, which gets the same number and is closed by
`OnTimerEvent`.** -/
theorem socket_of_handler_is_closed :
    ¬ GuardedSteps (step epollDriver) (LeavesAlone epollDriver false)
      [.asyncAddTimer 10 10 0 (some 7) true true, .timerEvent 7 (.expirations 1),
        .asyncCloseTimer 7, .openFd 7, .goOn]
      (start .create : TimerService EpollEventDriver ℕ) := by
  intro h
  have hlast := ((((h.2 _ rfl).2 _ rfl).2 _ rfl).2 _ rfl).1
  have hclosed := hlast.closed rfl _ rfl (by decide +kernel) _ rfl
  revert hclosed
  decide +kernel

end Lsf.Asio.TimerService
