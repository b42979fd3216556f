import Lsf.Svr.TimerManager

/-!
# Timers that are released

A timer that is released in time is found marked by the tick and its handler is not called. But a
tick takes all timers that are due from the map before it calls the first handler, and a release
finds none of these. Here a tick is taken apart into its steps, so that a release can come between
two handlers, and the timers that were released are recorded.

## Main definitions

* `Ticking`, `TickStep` — a manager with the handlers that a tick has still to call, and its steps
* `FiresUnreleased` — no handler is called for a timer that was released
* `ReleasesStored` — no timer is released while its handler is still to be called

## Main results

* `runSteps_tickStep_of_runSteps` — every run of the manager consists of these steps
* `released_stay_silent_iff`
-/

namespace Lsf.Timers

open TimerManager

variable {μ : Type} {m m' : TimerManager μ} {timer t : Timer μ} {timerId i : UInt32}

/-! ### The steps of a tick -/

/-- A manager, perhaps in a tick. -/
structure Ticking (μ : Type) where
  manager : TimerManager μ
  /-- The timers of the tick whose handlers are still to be called, `timer_trigger_list`. -/
  pending : List (Timer μ) := []
  /-- The timers for which `ReleaseTimer` was called, by their serials. -/
  released : List ℕ := []

namespace Ticking

/-- The timers with an id: the one in the map, and those whose handlers are still to be called. -/
def named (timerId : UInt32) (s : Ticking μ) : List (Timer μ) :=
  (s.manager.getTimer timerId).toList ++ s.pending.filter fun timer => timer.getTimerId = timerId

/-- The timers that a call releases. -/
def releasedBy (s : Ticking μ) : TimerCall μ → List ℕ
  | .releaseTimer timerId => (s.named timerId).map Timer.serial
  | _ => []

end Ticking

/-- What happens to a manager, with a tick in steps. -/
inductive TickStep (μ : Type)
  /-- A call, by the handler that runs or from outside of the ticks. -/
  | call (call : TimerCall μ)
  /-- A tick begins. -/
  | collect
  /-- The next handler of the tick is called. -/
  | fire

/-- A step, none where the manager is not at it. -/
def tickStep : TickStep μ → Ticking μ → Option (Ticking μ)
  | .call call, s => (call.apply s.manager).map fun manager =>
    { s with manager := manager, released := s.released ++ s.releasedBy call }
  | .collect, s =>
    if s.pending.isEmpty then
      let (pending, manager) := collect s.manager.timerHeap.items
        { s.manager with ticks := s.manager.ticks + 1 }
      some { s with manager := manager, pending := pending }
    else none
  | .fire, s =>
    match s.pending with
    | [] => none
    | timer :: pending => some
      { s with
        manager :=
          { s.manager with called := s.manager.called ++ [(s.manager.ticks, timer)] }
        pending := pending }

/-- The handler that is called is not that of a timer for which `ReleaseTimer` was called. -/
def FiresUnreleased : TickStep μ → Ticking μ → Prop
  | .fire, s => ∀ timer ∈ s.pending.head?, timer.serial ∉ s.released
  | _, _ => True

/-- `ReleaseTimer` is not called for a timer whose handler the tick has still to call. -/
def ReleasesStored : TickStep μ → Ticking μ → Prop
  | .call (.releaseTimer timerId), s => ∀ timer ∈ s.pending, timer.getTimerId ≠ timerId
  | _, _ => True

instance : ∀ (i : TickStep μ) (s : Ticking μ), Decidable (FiresUnreleased i s)
  | .call _, _ => isTrue trivial
  | .collect, _ => isTrue trivial
  | .fire, s => inferInstanceAs (Decidable (∀ timer ∈ s.pending.head?, timer.serial ∉ s.released))

instance : ∀ (i : TickStep μ) (s : Ticking μ), Decidable (ReleasesStored i s)
  | .call (.releaseTimer timerId), s =>
    inferInstanceAs (Decidable (∀ timer ∈ s.pending, timer.getTimerId ≠ timerId))
  | .call (.createTimer _ _), _ => isTrue trivial
  | .call (.setSessionId _ _), _ => isTrue trivial
  | .call (.setInternalMessage _ _), _ => isTrue trivial
  | .call (.addTimerHandle _), _ => isTrue trivial
  | .call (.updateClock _), _ => isTrue trivial
  | .collect, _ => isTrue trivial
  | .fire, _ => isTrue trivial

/-! ### The ticks of the manager -/

theorem runSteps_calls {calls : List (TimerCall μ)} (pending : List (Timer μ))
    (released : List ℕ) (hcalls : runSteps TimerCall.apply calls m = some m') :
    ∃ released', runSteps tickStep (calls.map .call) ⟨m, pending, released⟩ =
      some ⟨m', pending, released'⟩ := by
  induction calls generalizing m released with
  | nil =>
    cases hcalls
    exact ⟨released, rfl⟩
  | cons call calls ih =>
    obtain ⟨m₁, hcall, hrest⟩ := Option.bind_eq_some_iff.mp hcalls
    obtain ⟨released', hrun⟩ := ih (released ++ _) hrest
    refine ⟨released', ?_⟩
    rw [List.map_cons, runSteps, tickStep, hcall]
    exact hrun

/-- The handlers are called one after the other, with the calls of each after it. -/
theorem runSteps_callHandlers {handler : Timer μ → List (TimerCall μ)} {pending : List (Timer μ)}
    (released : List ℕ) (hcall : callHandlers handler pending m = some m') :
    ∃ released', runSteps tickStep
        (pending.flatMap fun timer => .fire :: (handler timer).map .call) ⟨m, pending, released⟩ =
      some ⟨m', [], released'⟩ := by
  induction pending generalizing m released with
  | nil =>
    cases hcall
    exact ⟨released, rfl⟩
  | cons timer pending ih =>
    obtain ⟨m₁, hcalls, hrest⟩ := Option.bind_eq_some_iff.mp hcall
    obtain ⟨released₁, hrun₁⟩ := runSteps_calls pending released hcalls
    obtain ⟨released', hrun⟩ := ih released₁ hrest
    refine ⟨released', ?_⟩
    rw [List.flatMap_cons, List.cons_append, runSteps, tickStep, Option.bind_some, runSteps_append,
      hrun₁, Option.bind_some, hrun]

/-- The ticks of the manager consist of these steps, and a call is one. -/
theorem runSteps_tickStep_of_step {event : TimerEvent μ} (released : List ℕ)
    (hstep : step event m = some m') :
    ∃ steps released', runSteps tickStep steps ⟨m, [], released⟩ = some ⟨m', [], released'⟩ := by
  cases event with
  | call call =>
    have hcalls : runSteps TimerCall.apply [call] m = some m' := by
      rw [runSteps, show call.apply m = some m' from hstep]
      rfl
    obtain ⟨released', hrun⟩ := runSteps_calls [] released hcalls
    exact ⟨_, released', hrun⟩
  | onTick handler =>
    obtain ⟨released', hrun⟩ := runSteps_callHandlers released hstep
    exact ⟨.collect :: _, released', hrun⟩

/-- **Every run of the manager is a run of these steps**, outside of the ticks where it begins and
where it ends. -/
theorem runSteps_tickStep_of_runSteps {events : List (TimerEvent μ)} (released : List ℕ)
    (hrun : runSteps step events m = some m') :
    ∃ steps released', runSteps tickStep steps ⟨m, [], released⟩ = some ⟨m', [], released'⟩ := by
  induction events generalizing m released with
  | nil =>
    cases hrun
    exact ⟨[], released, rfl⟩
  | cons event events ih =>
    obtain ⟨m₁, hstep, hrest⟩ := Option.bind_eq_some_iff.mp hrun
    obtain ⟨steps₁, released₁, hrun₁⟩ := runSteps_tickStep_of_step released hstep
    obtain ⟨steps₂, released₂, hrun₂⟩ := ih released₁ hrest
    refine ⟨steps₁ ++ steps₂, released₂, ?_⟩
    rw [runSteps_append, hrun₁, Option.bind_some, hrun₂]

/-! ### The invariant -/

namespace TimerManager

/-- A tick takes timers from the map, and calls the handlers of some that are not marked. -/
theorem collect_timers (pairs : List Pair) (m : TimerManager μ) :
    let result := collect pairs m
    (∀ i t, result.2.map.lookup i = some t → m.map.lookup i = some t) ∧
      (∀ t ∈ result.1, ∃ i, m.map.lookup i = some t ∧ t.getIsDelete = false) ∧
      result.2.created = m.created := by
  induction pairs generalizing m with
  | nil => exact ⟨fun i t h => h, fun t h => absurd h List.not_mem_nil, rfl⟩
  | cons pair pairs ih =>
    rw [collect]
    split_ifs
    · exact ⟨fun i t h => h, fun t h => absurd h List.not_mem_nil, rfl⟩
    obtain ⟨hmap, htriggers, hcreated⟩ := ih (m.leave pair)
    have hleave : ∀ i t, (m.leave pair).map.lookup i = some t → m.map.lookup i = some t := by
      intro i t hlookup
      rw [leave, Table.lookup_erase] at hlookup
      exact (Option.ite_none_left_eq_some.mp hlookup).2
    refine ⟨fun i t h => hleave i t (hmap i t h), fun t ht => ?_, hcreated⟩
    obtain ht | ht := List.mem_append.mp ht
    · obtain ⟨hget, hlive⟩ := Option.filter_eq_some_iff.mp (Option.mem_toList.mp ht)
      rw [Bool.and_eq_true, Bool.not_eq_true'] at hlive
      exact ⟨pair.2, hget, hlive.1⟩
    · obtain ⟨i, hlookup, hlive⟩ := htriggers t ht
      exact ⟨i, hleave i t hlookup, hlive⟩

/-- A timer in the map and one whose handler is still to be called have the same id if they have the
same number. -/
theorem Inv.pending_id {triggers : List (Timer μ)} (hm : m.Inv triggers)
    (hlookup : m.map.lookup i = some timer) (ht : t ∈ triggers)
    (hserial : t.serial = timer.serial) :
    t.getTimerId = i := by
  have hmem : (m.ticks, t) ∈ m.departures :=
    hm.called.subset (List.mem_append_right _ (List.mem_map_of_mem ht))
  obtain ⟨d, hd, heq⟩ := List.mem_map.mp hmem
  have hleft := hm.counted.pairLeft d hd
  rw [(Prod.mk.inj heq).2, hserial, hm.counted.pair i timer hlookup] at hleft
  rw [← hm.counted.key i timer hlookup]
  exact congrArg Prod.snd (Option.some.inj hleft).symm

end TimerManager

/-- The invariant of a run that releases timers only while they are stored. -/
structure Silenced (s : Ticking μ) : Prop where
  inv : s.manager.Inv s.pending
  deleted : ∀ i t, s.manager.map.lookup i = some t → t.serial ∈ s.released → t.getIsDelete = true
  pending : ∀ t ∈ s.pending, t.serial ∉ s.released
  created : ∀ serial ∈ s.released, serial < s.manager.created.length

namespace Silenced

variable {s : Ticking μ}

/-- A change of a timer in its place that releases none. -/
theorem modify (hs : Silenced s) {f : Timer μ → Timer μ} (hf : Keeps f)
    (hdelete : ∀ t, (f t).getIsDelete = t.getIsDelete) :
    Silenced { s with manager := s.manager.modify timerId f } := by
  refine ⟨hs.inv.modify hf, fun i t hlookup hin => ?_, hs.pending, hs.created⟩
  rw [TimerManager.modify, Table.lookup_modify] at hlookup
  split_ifs at hlookup with hid
  · obtain ⟨old, hold, rfl⟩ := Option.map_eq_some_iff.mp hlookup
    rw [hdelete]
    exact hs.deleted timerId old hold (hf.serial old ▸ hin)
  · exact hs.deleted i t hlookup hin

theorem createTimer (hs : Silenced s) {milliSecond : UInt64} {timerType : ENTimerType}
    (hcreate : (TimerCall.createTimer milliSecond timerType).apply s.manager = some m') :
    Silenced { s with manager := m' } := by
  have hinv := hs.inv.call hcreate
  obtain ⟨result, hresult, rfl⟩ := Option.map_eq_some_iff.mp hcreate
  obtain ⟨-, rfl⟩ | ⟨timerId, curMaxId, timer, -, -, rfl⟩ := createTimer_cases hresult
  · exact hs
  refine ⟨hinv, fun i t hlookup hin => ?_, hs.pending, fun serial hin => ?_⟩
  · simp only [put] at hlookup
    rw [Table.lookup_insert] at hlookup
    split_ifs at hlookup with hid
    · -- the number of the new timer is not one that was given before
      cases hlookup
      exact absurd (hs.created _ hin) (lt_irrefl _)
    · exact hs.deleted i t hlookup hin
  · simp only [put, List.length_append, List.length_singleton]
    exact Nat.lt_succ_of_lt (hs.created serial hin)

theorem releaseTimer (hs : Silenced s) (hstored : ∀ t ∈ s.pending, t.getTimerId ≠ timerId) :
    Silenced
      { s with
        manager := s.manager.releaseTimer timerId
        released := s.released ++ (s.named timerId).map Timer.serial } := by
  have hnamed : s.named timerId = (s.manager.getTimer timerId).toList := by
    rw [Ticking.named, List.filter_eq_nil_iff.mpr fun t ht => ?_, List.append_nil]
    simpa using hstored t ht
  have hmem : ∀ serial ∈ (s.named timerId).map Timer.serial, ∃ timer,
      s.manager.map.lookup timerId = some timer ∧ timer.serial = serial := by
    intro serial hin
    rw [hnamed] at hin
    obtain ⟨timer, htimer, rfl⟩ := List.mem_map.mp hin
    exact ⟨timer, Option.mem_toList.mp htimer, rfl⟩
  have hcall : (TimerCall.releaseTimer timerId).apply s.manager =
    some (s.manager.releaseTimer timerId) := rfl
  refine ⟨hs.inv.call hcall, fun i t hlookup hin => ?_,
    fun t ht hin => ?_, fun serial hin => ?_⟩
  · rw [TimerManager.releaseTimer, TimerManager.modify, Table.lookup_modify] at hlookup
    split_ifs at hlookup with hid
    · obtain ⟨old, -, rfl⟩ := Option.map_eq_some_iff.mp hlookup
      rfl
    · obtain hin | hin := List.mem_append.mp hin
      · exact hs.deleted i t hlookup hin
      · -- two timers in the map with one number have one id
        obtain ⟨timer, htimer, heq⟩ := hmem _ hin
        have hpair := hs.inv.counted.pair timerId timer htimer
        rw [heq, hs.inv.counted.pair i t hlookup] at hpair
        have hids : t.getTimerId = timer.getTimerId := congrArg Prod.snd (Option.some.inj hpair)
        rw [hs.inv.counted.key i t hlookup, hs.inv.counted.key timerId timer htimer] at hids
        exact absurd hids hid
  · obtain hin | hin := List.mem_append.mp hin
    · exact hs.pending t ht hin
    · obtain ⟨timer, htimer, heq⟩ := hmem _ hin
      exact hstored t ht (hs.inv.pending_id htimer ht heq.symm)
  · obtain hin | hin := List.mem_append.mp hin
    · exact hs.created serial hin
    · obtain ⟨timer, htimer, rfl⟩ := hmem _ hin
      exact (List.getElem?_eq_some_iff.mp (hs.inv.counted.pair timerId timer htimer)).1

theorem call {s' : Ticking μ} {call : TimerCall μ} (hs : Silenced s)
    (hstored : ReleasesStored (.call call) s) (hstep : tickStep (.call call) s = some s') :
    Silenced s' := by
  obtain ⟨m', hcall, rfl⟩ := Option.map_eq_some_iff.mp hstep
  cases call with
  | createTimer milliSecond timerType =>
    simp only [Ticking.releasedBy, List.append_nil]
    exact hs.createTimer hcall
  | releaseTimer timerId =>
    cases hcall
    exact hs.releaseTimer hstored
  | setSessionId timerId sessionId =>
    cases hcall
    simp only [Ticking.releasedBy, List.append_nil]
    exact hs.modify ⟨fun _ => rfl, fun _ => rfl, fun _ => rfl⟩ fun _ => rfl
  | setInternalMessage timerId message =>
    cases hcall
    simp only [Ticking.releasedBy, List.append_nil]
    exact hs.modify ⟨fun _ => rfl, fun _ => rfl, fun _ => rfl⟩ fun _ => rfl
  | addTimerHandle timerType =>
    have hinv := hs.inv.call hcall
    cases hcall
    simp only [Ticking.releasedBy, List.append_nil]
    exact ⟨hinv, hs.deleted, hs.pending, hs.created⟩
  | updateClock now =>
    have hinv := hs.inv.call hcall
    cases hcall
    simp only [Ticking.releasedBy, List.append_nil]
    exact ⟨hinv, hs.deleted, hs.pending, hs.created⟩

theorem step {s' : Ticking μ} {i : TickStep μ} (hs : Silenced s) (hstored : ReleasesStored i s)
    (hstep : tickStep i s = some s') : Silenced s' := by
  cases i with
  | call call => exact hs.call hstored hstep
  | collect =>
    obtain ⟨hnone, hsome⟩ := Option.ite_none_right_eq_some.mp hstep
    cases hsome
    have hinv := hs.inv
    rw [List.isEmpty_iff.mp hnone] at hinv
    obtain ⟨hmap, htriggers, hcreated⟩ := collect_timers s.manager.timerHeap.items
      { s.manager with ticks := s.manager.ticks + 1 }
    refine ⟨hinv.collect rfl, fun i t hlookup => hs.deleted i t (hmap i t hlookup),
      fun t ht hin => ?_, fun serial hin => ?_⟩
    · obtain ⟨i, hlookup, hlive⟩ := htriggers t ht
      rw [hs.deleted i t hlookup hin] at hlive
      cases hlive
    · rw [hcreated]
      exact hs.created serial hin
  | fire =>
    obtain ⟨manager, pending, released⟩ := s
    cases pending with
    | nil => cases hstep
    | cons timer pending =>
      cases hstep
      exact ⟨hs.inv.fire, hs.deleted, fun t ht => hs.pending t (List.mem_cons_of_mem _ ht),
        hs.created⟩

end Silenced

/-! ### Runs -/

/-- Where the handlers that a tick has still to call are all called in the end, and none of them for
a timer that was released, none of them is that of a timer that was released already. -/
theorem pending_unreleased {steps : List (TickStep μ)} {s s' : Ticking μ}
    (hfires : GuardedSteps tickStep FiresUnreleased steps s)
    (hrun : runSteps tickStep steps s = some s') (hend : s'.pending = []) :
    ∀ timer ∈ s.pending, timer.serial ∉ s.released := by
  induction steps generalizing s with
  | nil =>
    obtain rfl : s = s' := Option.some.inj hrun
    rw [hend]
    exact fun timer h => absurd h List.not_mem_nil
  | cons i steps ih =>
    obtain ⟨s₁, hstep, hrest⟩ := Option.bind_eq_some_iff.mp hrun
    have hlater := ih (hfires.2 s₁ hstep) hrest
    cases i with
    | call call =>
      obtain ⟨m', -, rfl⟩ := Option.map_eq_some_iff.mp hstep
      exact fun timer htimer hin => hlater timer htimer (List.mem_append_left _ hin)
    | collect =>
      rw [List.isEmpty_iff.mp (Option.ite_none_right_eq_some.mp hstep).1]
      exact fun timer h => absurd h List.not_mem_nil
    | fire =>
      have hhead : ∀ timer ∈ s.pending.head?, timer.serial ∉ s.released := hfires.1
      obtain ⟨manager, pending, released⟩ := s
      cases pending with
      | nil => cases hstep
      | cons timer pending =>
        cases hstep
        exact List.forall_mem_cons.mpr ⟨hhead timer rfl, hlater⟩

/-- If no handler is called for a timer that was released, the releases were for timers in the
map. -/
theorem releasesStored_of_fires {steps : List (TickStep μ)} {s s' : Ticking μ}
    (hfires : GuardedSteps tickStep FiresUnreleased steps s)
    (hrun : runSteps tickStep steps s = some s') (hend : s'.pending = []) :
    GuardedSteps tickStep ReleasesStored steps s := by
  induction steps generalizing s with
  | nil => trivial
  | cons i steps ih =>
    obtain ⟨s₁, hstep, hrest⟩ := Option.bind_eq_some_iff.mp hrun
    have hlater := pending_unreleased (hfires.2 s₁ hstep) hrest hend
    refine ⟨?_, fun s₂ hstep₂ => ?_⟩
    · unfold ReleasesStored
      split
      · cases hstep
        intro timer htimer heq
        refine hlater timer htimer (List.mem_append_right _ (List.mem_map_of_mem ?_))
        exact List.mem_append_right _ (List.mem_filter.mpr ⟨htimer, decide_eq_true heq⟩)
      · trivial
    · obtain rfl := Option.some.inj (hstep.symm.trans hstep₂)
      exact ih (hfires.2 s₁ hstep) hrest

/-- **A timer that was released stays silent** exactly when no timer is released while its handler
is the one that the tick has still to call. The run is any sequence of calls and ticks from any
recovered timers, with any calls between the handlers of a tick, and ends outside of a tick. -/
theorem released_stay_silent_iff {maxSize : ℕ} {now : UInt64} {recovered : List (Timer μ)}
    {steps : List (TickStep μ)} {m₀ : TimerManager μ} {s : Ticking μ}
    (hdistinct : (recovered.map Timer.getTimerId).Nodup)
    (hinit : init maxSize now recovered = some m₀)
    (hrun : runSteps tickStep steps { manager := m₀ } = some s) (hend : s.pending = []) :
    GuardedSteps tickStep FiresUnreleased steps { manager := m₀ } ↔
      GuardedSteps tickStep ReleasesStored steps { manager := m₀ } := by
  refine ⟨fun hfires => releasesStored_of_fires hfires hrun hend, fun hstored => ?_⟩
  have hstart : Silenced ({ manager := m₀ } : Ticking μ) :=
    ⟨Inv.init hdistinct hinit, fun i t _ h => absurd h List.not_mem_nil,
      fun t h => absurd h List.not_mem_nil, fun serial h => absurd h List.not_mem_nil⟩
  refine hstored.of_invariant (fun i s s' hg hs hstep => hs.step hg hstep) (fun i s _ hs => ?_)
    hstart
  cases i with
  | call call => trivial
  | collect => trivial
  | fire => exact fun timer htimer => hs.pending timer (List.mem_of_mem_head? htimer)

/-- One of two timers that are due is released before the tick, and only the other one is called. -/
theorem released_before_tick_stays_silent :
    ∃ m₀, init 2 7 [{ timerId := some 1, timerMilliSeconds := some 9 },
        ({ timerId := some 2, timerMilliSeconds := some 9 } : Timer String)] = some m₀ ∧
      GuardedSteps tickStep FiresUnreleased
        [.call (.addTimerHandle .sessionTimeout), .call (.updateClock 9),
          .call (.releaseTimer 2), .collect, .fire, .call (.releaseTimer 1)]
        { manager := m₀ } := by
  refine ⟨(init 2 7 _).get (by decide +kernel), (Option.some_get _).symm, ?_⟩
  exact (released_stay_silent_iff (by decide) (Option.some_get _).symm
    (Option.some_get (by decide +kernel)).symm (by decide +kernel)).mpr (by decide +kernel)

/-- **The first handler of a tick releases the other timer that was due**, whose handler is called
all the same. -/
theorem released_timer_fires :
    ∃ (m₀ : TimerManager String) (s : Ticking String),
      init 2 7 [{ timerId := some 1, timerMilliSeconds := some 9 },
        { timerId := some 2, timerMilliSeconds := some 9 }] = some m₀ ∧
      runSteps tickStep
        [.call (.addTimerHandle .sessionTimeout), .call (.updateClock 9), .collect, .fire,
          .call (.releaseTimer 2), .fire] { manager := m₀ } = some s ∧ s.pending = [] ∧
      ¬ GuardedSteps tickStep FiresUnreleased
        [.call (.addTimerHandle .sessionTimeout), .call (.updateClock 9), .collect, .fire,
          .call (.releaseTimer 2), .fire] { manager := m₀ } := by
  exact ⟨(init 2 7 _).get (by decide +kernel), (runSteps tickStep _ _).get (by decide +kernel),
    (Option.some_get _).symm, (Option.some_get _).symm, by decide +kernel, by decide +kernel⟩

end Lsf.Timers
