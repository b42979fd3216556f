import Lsf.Svr.TimerManager

/-!
# Timers in time

A tick takes every timer from the heap whose deadline has come, and none before, so a timer leaves
in the first tick that finds it due. Its handler is called in this tick, unless the timer was
released or its type has no handler.

## Main definitions

* `Changes` — what calls and handlers leave as it is
* `Timed`, `timedStep` — a manager with its ticks, and when each timer was created
* `Timed.Due` — a tick after the creation of a timer that is not before its deadline

## Main results

* `collect_gone` — what the loop of a tick takes
* `Punctual.step` — timers that are stored were never due
* `timers_fire_on_time`
-/

namespace Lsf.Timers

open TimerManager

variable {μ : Type} {m m' m'' : TimerManager μ}

/-! ### Calls and handlers -/

/-- The handlers of `fired` were called, and timers were created and changed in their places. -/
structure Changes (fired : List (ℕ × Timer μ)) (m m' : TimerManager μ) : Prop where
  left : m'.left = m.left
  ticks : m'.ticks = m.ticks
  called : m'.called = m.called ++ fired
  created : m.created <+: m'.created
  stored : ∀ i t', m'.map.lookup i = some t' → m.created.length ≤ t'.serial ∨
    ∃ t, m.map.lookup i = some t ∧ t.serial = t'.serial

namespace Changes

variable {fired fired' : List (ℕ × Timer μ)}

theorem refl : Changes [] m m :=
  ⟨rfl, rfl, (List.append_nil _).symm, List.prefix_rfl, fun _ t h => .inr ⟨t, h, rfl⟩⟩

theorem trans (h : Changes fired m m') (h' : Changes fired' m' m'') :
    Changes (fired ++ fired') m m'' where
  left := h'.left.trans h.left
  ticks := h'.ticks.trans h.ticks
  called := by rw [h'.called, h.called, List.append_assoc]
  created := h.created.trans h'.created
  stored i t'' hlookup := by
    obtain hnew | ⟨t', hlookup', heq⟩ := h'.stored i t'' hlookup
    · exact .inl (h.created.length_le.trans hnew)
    · rw [← heq]
      exact h.stored i t' hlookup'

theorem modify {timerId : UInt32} {f : Timer μ → Timer μ} (hf : Keeps f) :
    Changes [] m (m.modify timerId f) where
  left := rfl
  ticks := rfl
  called := (List.append_nil _).symm
  created := List.prefix_rfl
  stored i t' hlookup := by
    rw [TimerManager.modify, Table.lookup_modify] at hlookup
    split_ifs at hlookup with hid
    · obtain ⟨t, ht, rfl⟩ := Option.map_eq_some_iff.mp hlookup
      exact .inr ⟨t, hid ▸ ht, (hf.serial t).symm⟩
    · exact .inr ⟨t', hlookup, rfl⟩

theorem call {call : TimerCall μ} (hcall : call.apply m = some m') : Changes [] m m' := by
  cases call with
  | createTimer milliSecond timerType =>
    obtain ⟨result, hresult, rfl⟩ := Option.map_eq_some_iff.mp hcall
    obtain ⟨-, rfl⟩ | ⟨timerId, curMaxId, timer, -, -, rfl⟩ := createTimer_cases hresult
    · exact refl
    · refine ⟨rfl, rfl, (List.append_nil _).symm, List.prefix_append .., fun i t' hlookup => ?_⟩
      simp only [put] at hlookup
      rw [Table.lookup_insert] at hlookup
      split_ifs at hlookup with hid
      · cases hlookup
        exact .inl le_rfl
      · exact .inr ⟨t', hlookup, rfl⟩
  | releaseTimer timerId =>
    cases hcall
    exact modify ⟨fun _ => rfl, fun _ => rfl, fun _ => rfl⟩
  | setSessionId timerId sessionId =>
    cases hcall
    exact modify ⟨fun _ => rfl, fun _ => rfl, fun _ => rfl⟩
  | setInternalMessage timerId message =>
    cases hcall
    exact modify ⟨fun _ => rfl, fun _ => rfl, fun _ => rfl⟩
  | addTimerHandle timerType =>
    cases hcall
    exact { refl (m := m) with }
  | updateClock now =>
    cases hcall
    exact { refl (m := m) with }

theorem calls {calls : List (TimerCall μ)} (hcalls : runSteps TimerCall.apply calls m = some m') :
    Changes [] m m' := by
  induction calls generalizing m with
  | nil =>
    cases hcalls
    exact refl
  | cons call calls ih =>
    obtain ⟨m₁, hcall, hrest⟩ := Option.bind_eq_some_iff.mp hcalls
    exact (Changes.call hcall).trans (ih hrest)

/-- The handlers are called one after the other. -/
theorem callHandlers {handler : Timer μ → List (TimerCall μ)} {triggers : List (Timer μ)}
    (hcall : callHandlers handler triggers m = some m') :
    Changes (triggers.map fun timer => (m.ticks, timer)) m m' := by
  induction triggers generalizing m with
  | nil =>
    cases hcall
    exact refl
  | cons timer triggers ih =>
    obtain ⟨m₁, hcalls, hrest⟩ := Option.bind_eq_some_iff.mp hcall
    have hfire : Changes [(m.ticks, timer)] m
        { m with called := m.called ++ [(m.ticks, timer)] } :=
      { refl (m := m) with called := rfl }
    have hbody := hfire.trans (Changes.calls hcalls)
    have hlater := ih hrest
    rw [hbody.ticks] at hlater
    exact hbody.trans hlater

end Changes

/-! ### The loop of a tick -/

namespace TimerManager

/-- The handler of a timer is called when it is due. -/
def fires (funcArr : ENTimerType → Bool) (timer : Timer μ) : Bool :=
  !timer.getIsDelete && funcArr timer.getTimerType

theorem trigger_eq {timer : Timer μ} (hget : m.getTimer timer.toPair.2 = some timer) :
    (m.trigger timer.toPair).toList = [timer].filter (fires m.funcArr) := by
  rw [trigger, hget, Option.filter_some, List.filter_singleton]
  change (if fires m.funcArr timer = true then some timer else none).toList = _
  cases fires m.funcArr timer <;> rfl

/-- The pair of a timer in the map is in the heap. -/
theorem InStep.mem_items (hstep : m.InStep) {i : UInt32} {t : Timer μ}
    (h : m.map.lookup i = some t) : t.toPair ∈ m.timerHeap.items :=
  hstep.mem_iff.mpr (mem_entryTags.mpr ⟨i, t, h, rfl⟩)

/-- What the loop of `OnTick` takes: all timers that are due, and no others. -/
theorem collect_gone (pairs : List Pair) (hpairs : m.timerHeap.items = pairs) (hstep : m.InStep)
    (hcount : m.Counted) :
    ∃ gone : List (Timer μ),
      (collect pairs m).2.left = m.left ++ gone.map (fun timer => ⟨timer, m.ticks, m.now⟩) ∧
      (collect pairs m).1 = gone.filter (fires m.funcArr) ∧
      (∀ t ∈ gone, (∃ i, m.map.lookup i = some t) ∧ t.getTimerMilliSeconds ≤ m.now) ∧
      (∀ i t, (collect pairs m).2.map.lookup i = some t →
        m.map.lookup i = some t ∧ m.now < t.getTimerMilliSeconds) ∧
      (collect pairs m).2.created = m.created ∧ (collect pairs m).2.called = m.called ∧
      (collect pairs m).2.ticks = m.ticks := by
  induction pairs generalizing m with
  | nil =>
    refine ⟨[], (List.append_nil _).symm, rfl, fun t h => absurd h List.not_mem_nil,
      fun i t hlookup => ⟨hlookup, ?_⟩, rfl, rfl, rfl⟩
    have hmem := hstep.mem_items hlookup
    rw [hpairs] at hmem
    cases hmem
  | cons pair pairs ih =>
    have htop : m.timerHeap.top = some pair := by
      rw [PriorityQueue.top, hpairs, List.head?_cons]
    rw [collect]
    split_ifs with hlater
    · refine ⟨[], (List.append_nil _).symm, rfl, fun t h => absurd h List.not_mem_nil,
        fun i t hlookup => ⟨hlookup, ?_⟩, rfl, rfl, rfl⟩
      have hmem := hstep.mem_items hlookup
      rw [PriorityQueue.items_eq htop] at hmem
      obtain heq | hmem := List.mem_cons.mp hmem
      · rwa [← heq] at hlater
      · obtain hlt | ⟨heq, -⟩ := PriorityQueue.top_rel htop hmem
        · exact UInt64.lt_trans hlater hlt
        · exact lt_of_lt_of_eq hlater heq
    obtain ⟨timer, rfl, hget⟩ := exists_timer_of_top hstep hcount htop
    have hrest : (m.leave timer.toPair).timerHeap.items = pairs := by
      rw [leave_eq hget, PriorityQueue.items_pop, hpairs, List.tail_cons]
    obtain ⟨gone, hleft, htriggers, hgone, hstored, hcreated, hcalled, hticks⟩ :=
      ih hrest (hstep.leave htop hget) (hcount.leave hget)
    have hold : ∀ i t, (m.leave timer.toPair).map.lookup i = some t →
        m.map.lookup i = some t := by
      intro i t hlookup
      rw [leave, Table.lookup_erase] at hlookup
      exact (Option.ite_none_left_eq_some.mp hlookup).2
    refine ⟨timer :: gone, ?_, ?_, List.forall_mem_cons.mpr ⟨⟨⟨_, hget⟩, ?_⟩, fun t ht => ?_⟩,
      fun i t hlookup => ?_, hcreated, hcalled, hticks⟩
    · refine hleft.trans ?_
      rw [leave_eq hget, List.append_assoc]
      rfl
    · change (m.trigger timer.toPair).toList ++ (collect pairs (m.leave timer.toPair)).1 = _
      rw [htriggers, trigger_eq hget]
      exact (List.filter_append [timer] gone).symm
    · exact UInt64.not_lt.mp hlater
    · obtain ⟨⟨i, hlookup⟩, hdue⟩ := hgone t ht
      exact ⟨⟨i, hold i t hlookup⟩, hdue⟩
    · obtain ⟨hlookup, hlt⟩ := hstored i t hlookup
      exact ⟨hold i t hlookup, hlt⟩

end TimerManager

/-! ### Manager with history -/

/-- A tick, with the time and the handlers that it found. -/
structure Tick where
  now : UInt64
  funcArr : ENTimerType → Bool

/-- A manager with its history. -/
structure Timed (μ : Type) where
  manager : TimerManager μ
  ticks : List Tick := []
  /-- How many ticks there had been when a timer was created, by the serials of the timers. A timer
  that a handler creates comes after the tick of this handler. -/
  born : List ℕ := []

/-- The tick of an event. -/
def TimerEvent.ticks (m : TimerManager μ) : TimerEvent μ → List Tick
  | .call _ => []
  | .onTick _ => [⟨m.now, m.funcArr⟩]

/-- An event, with the ticks that are counted beside it. -/
def timedStep (event : TimerEvent μ) (s : Timed μ) : Option (Timed μ) :=
  (step event s.manager).map fun m =>
    { manager := m
      ticks := s.ticks ++ event.ticks s.manager
      born := s.born ++ List.replicate (m.created.length - s.manager.created.length) m.ticks }

/-- What an event does, where the timers `gone` leave. -/
structure Passes (event : TimerEvent μ) (gone : List (Timer μ)) (m m' : TimerManager μ) :
    Prop where
  left : m'.left = m.left ++ gone.map fun timer => ⟨timer, m'.ticks, m.now⟩
  called : m'.called =
    m.called ++ (gone.filter (fires m.funcArr)).map fun timer => (m'.ticks, timer)
  ticks : m'.ticks = m.ticks + (event.ticks m).length
  due : ∀ t ∈ gone, (∃ i, m.map.lookup i = some t) ∧
    ∃ tick ∈ event.ticks m, t.getTimerMilliSeconds ≤ tick.now
  created : m.created <+: m'.created
  stored : ∀ i t', m'.map.lookup i = some t' → m.created.length ≤ t'.serial ∨
    ∃ t, m.map.lookup i = some t ∧ t.serial = t'.serial ∧
      ∀ tick ∈ event.ticks m, tick.now < t.getTimerMilliSeconds

theorem step_passes {event : TimerEvent μ} (hm : m.Inv []) (hstep : step event m = some m') :
    ∃ gone, Passes event gone m m' := by
  cases event with
  | call call =>
    have hchanges := Changes.call hstep
    refine ⟨[], ?_, ?_, hchanges.ticks, fun t h => absurd h List.not_mem_nil, hchanges.created,
      fun i t' hlookup => ?_⟩
    · exact hchanges.left.trans (List.append_nil _).symm
    · exact hchanges.called
    · exact (hchanges.stored i t' hlookup).imp_right fun ⟨t, ht, heq⟩ =>
        ⟨t, ht, heq, fun tick h => absurd h List.not_mem_nil⟩
  | onTick handler =>
    obtain ⟨gone, hleft, htriggers, hgone, hstored, hcreated, hcalled, hticks⟩ :=
      collect_gone (m := { m with ticks := m.ticks + 1 }) m.timerHeap.items rfl hm.inStep
        { hm.counted with }
    have hchanges := Changes.callHandlers (show callHandlers handler _ _ = some m' from hstep)
    refine ⟨gone, ?_, ?_, hchanges.ticks.trans hticks, fun t ht => ?_, ?_, fun i t' hlookup => ?_⟩
    · rw [hchanges.left, hchanges.ticks, hleft, hticks]
    · rw [hchanges.called, hchanges.ticks, htriggers, hcalled]
    · exact ⟨(hgone t ht).1, _, List.mem_singleton_self _, (hgone t ht).2⟩
    · rw [← show (collect _ _).2.created = m.created from hcreated]
      exact hchanges.created
    · have hlookup' := hchanges.stored i t' hlookup
      rw [hcreated] at hlookup'
      refine hlookup'.imp_right fun ⟨t, ht, heq⟩ => ⟨t, (hstored i t ht).1, heq, fun tick h => ?_⟩
      rw [List.mem_singleton.mp h]
      exact (hstored i t ht).2

/-! ### When timers are due -/

namespace Timed

/-- The tick with the number `k + 1` comes after the creation of a timer and finds it due. -/
def Due (s : Timed μ) (serial k : ℕ) : Prop :=
  ∃ tick ∈ s.ticks[k]?, ∃ pair ∈ s.manager.created[serial]?, ∃ b ∈ s.born[serial]?,
    b ≤ k ∧ pair.1 ≤ tick.now

/-- The state after an event. -/
structure Extends (ticks : List Tick) (s s' : Timed μ) : Prop where
  ticks : s'.ticks = s.ticks ++ ticks
  created : s.manager.created <+: s'.manager.created
  born : s'.born = s.born ++
    List.replicate (s'.manager.created.length - s.manager.created.length) s'.ticks.length

variable {s s' : Timed μ} {serial k : ℕ} {ticks : List Tick}

theorem Due.lt_ticks (h : s.Due serial k) : k < s.ticks.length := by
  obtain ⟨tick, htick, -⟩ := h
  exact (List.getElem?_eq_some_iff.mp htick).1

namespace Extends

variable (h : Extends ticks s s') (hborn : s.born.length = s.manager.created.length)

include h in
theorem created_of_lt (hserial : serial < s.manager.created.length) :
    s'.manager.created[serial]? = s.manager.created[serial]? := by
  obtain ⟨new, hnew⟩ := h.created
  rw [← hnew, List.getElem?_append_left hserial]

include h hborn

theorem born_of_lt (hserial : serial < s.manager.created.length) :
    s'.born[serial]? = s.born[serial]? := by
  rw [h.born, List.getElem?_append_left (hborn ▸ hserial)]

/-- The ticks before the event. -/
theorem due_iff (hserial : serial < s.manager.created.length) (hk : k < s.ticks.length) :
    s'.Due serial k ↔ s.Due serial k := by
  rw [Due, Due, h.ticks, List.getElem?_append_left hk, h.created_of_lt hserial,
    h.born_of_lt hborn hserial]

/-- A timer of the event is not due yet. -/
theorem not_due_of_le (hserial : s.manager.created.length ≤ serial) : ¬ s'.Due serial k := by
  intro hdue
  have hlt := hdue.lt_ticks
  obtain ⟨-, -, -, -, b, hb, hle, -⟩ := hdue
  rw [h.born, List.getElem?_append_right (hborn ▸ hserial)] at hb
  have hb := List.eq_of_mem_replicate (List.mem_of_getElem? hb)
  omega

end Extends

end Timed

open Timed

/-- The invariant: timers that are stored were never due, and those that left did so when they were
due for the first time. -/
structure Punctual (s : Timed μ) : Prop where
  inv : s.manager.Inv []
  ticks : s.manager.ticks = s.ticks.length
  born : s.born.length = s.manager.created.length
  bornLe : ∀ b ∈ s.born, b ≤ s.ticks.length
  stored : ∀ i t, s.manager.map.lookup i = some t → ∀ k, ¬ s.Due t.serial k
  left : ∀ d ∈ s.manager.left, ∃ k, d.tick = k + 1 ∧ s.Due d.timer.serial k ∧
    (∀ j < k, ¬ s.Due d.timer.serial j) ∧
    ∃ tick ∈ s.ticks[k]?,
      (d.tick, d.timer) ∈ s.manager.called ↔ fires tick.funcArr d.timer = true

namespace Punctual

variable {s s' : Timed μ} {event : TimerEvent μ}

theorem serial_lt (hs : Punctual s) {i : UInt32} {t : Timer μ}
    (h : s.manager.map.lookup i = some t) : t.serial < s.manager.created.length :=
  (List.getElem?_eq_some_iff.mp (hs.inv.counted.pair i t h)).1

theorem serial_lt_of_left (hs : Punctual s) {d : Departure μ} (hd : d ∈ s.manager.left) :
    d.timer.serial < s.manager.created.length :=
  (List.getElem?_eq_some_iff.mp (hs.inv.counted.pairLeft d hd)).1

/-- The tick that takes a stored timer is the first that finds it due. -/
theorem due_of_gone (hs : Punctual s) {ticks : List Tick} (hext : Extends ticks s s')
    {i : UInt32} {t : Timer μ} (hlookup : s.manager.map.lookup i = some t) {tick : Tick}
    (htick : tick ∈ ticks[0]?) (hdue : t.getTimerMilliSeconds ≤ tick.now) :
    s'.Due t.serial s.ticks.length := by
  have hserial := hs.serial_lt hlookup
  have hb : t.serial < s.born.length := hs.born ▸ hserial
  refine ⟨tick, ?_, t.toPair, ?_, s.born[t.serial], ?_, hs.bornLe _ (List.getElem_mem hb), hdue⟩
  · rw [hext.ticks, List.getElem?_append_right le_rfl, Nat.sub_self]
    exact htick
  · rw [hext.created_of_lt hserial]
    exact hs.inv.counted.pair i t hlookup
  · rw [hext.born_of_lt hs.born hserial]
    exact List.getElem?_eq_getElem hb

theorem not_due_of_later (hs : Punctual s) {ticks : List Tick} (hext : Extends ticks s s')
    {i : UInt32} {t : Timer μ}
    (hlookup : s.manager.map.lookup i = some t)
    (hlater : ∀ tick ∈ ticks, tick.now < t.getTimerMilliSeconds) (k : ℕ) :
    ¬ s'.Due t.serial k := by
  have hserial := hs.serial_lt hlookup
  intro hdue
  by_cases hk : k < s.ticks.length
  · exact hs.stored i t hlookup k ((hext.due_iff hs.born hserial hk).mp hdue)
  · obtain ⟨tick, htick, pair, hpair, b, -, -, hle⟩ := hdue
    rw [hext.ticks, List.getElem?_append_right (Nat.not_lt.mp hk)] at htick
    rw [hext.created_of_lt hserial, hs.inv.counted.pair i t hlookup] at hpair
    cases hpair
    exact UInt64.not_lt.mpr hle (hlater tick (List.mem_of_getElem? htick))

/-- **Every event keeps the timers in time.** -/
theorem step (hs : Punctual s) (hstep : timedStep event s = some s') : Punctual s' := by
  obtain ⟨m', hm', rfl⟩ := Option.map_eq_some_iff.mp hstep
  obtain ⟨gone, hp⟩ := step_passes hs.inv hm'
  have hlen : m'.ticks = (s.ticks ++ event.ticks s.manager).length := by
    rw [hp.ticks, hs.ticks, List.length_append]
  set s' : Timed μ := ⟨m', s.ticks ++ event.ticks s.manager, s.born ++
    List.replicate (m'.created.length - s.manager.created.length) m'.ticks⟩ with hs'
  have hext : Extends (event.ticks s.manager) s s' := ⟨rfl, hp.created, by rw [← hlen]⟩
  have hgone : ∀ t ∈ gone, event.ticks s.manager = [⟨s.manager.now, s.manager.funcArr⟩] := by
    intro t ht
    obtain ⟨-, tick, htick, -⟩ := hp.due t ht
    cases event with
    | call call => cases htick
    | onTick handler => rfl
  refine ⟨hs.inv.step hm', hlen, ?_, fun b hb => ?_, fun i t' hlookup k => ?_, fun d hd => ?_⟩
  · rw [hs', List.length_append, List.length_replicate, hs.born]
    exact Nat.add_sub_cancel' hp.created.length_le
  · obtain hb | hb := List.mem_append.mp hb
    · exact (hs.bornLe b hb).trans (hext.ticks ▸ List.prefix_append ..).length_le
    · rw [List.eq_of_mem_replicate hb, hlen]
  · obtain hnew | ⟨t, ht, heq, hlater⟩ := hp.stored i t' hlookup
    · exact hext.not_due_of_le hs.born hnew
    · rw [← heq]
      exact hs.not_due_of_later hext ht hlater k
  · rw [show s'.manager.left = _ from hp.left] at hd
    obtain hd | hd := List.mem_append.mp hd
    · -- it left before this event, which calls no handler in its tick
      obtain ⟨k, hk, hdue, hfirst, tick, htick, hcalled⟩ := hs.left d hd
      have hserial := hs.serial_lt_of_left hd
      have hlt := hdue.lt_ticks
      refine ⟨k, hk, (hext.due_iff hs.born hserial hlt).mpr hdue, fun j hj hdue' => ?_, tick, ?_,
        Iff.trans ?_ hcalled⟩
      · exact hfirst j hj ((hext.due_iff hs.born hserial (hj.trans hlt)).mp hdue')
      · rw [hext.ticks, List.getElem?_append_left hlt]
        exact htick
      · rw [show s'.manager.called = _ from hp.called, List.mem_append]
        refine or_iff_left fun hmem => ?_
        obtain ⟨t, ht, heq⟩ := List.mem_map.mp hmem
        have htick := congrArg List.length (hgone t (List.mem_of_mem_filter ht))
        have heq' := (Prod.mk.inj heq).1
        rw [List.length_singleton] at htick
        rw [hk, hlen, List.length_append, htick] at heq'
        omega
    · obtain ⟨t, ht, rfl⟩ := List.mem_map.mp hd
      obtain ⟨⟨i, hlookup⟩, tick, htick, hle⟩ := hp.due t ht
      have hticks := hgone t ht
      rw [hticks, List.mem_singleton] at htick
      have hserial := hs.serial_lt hlookup
      refine ⟨s.ticks.length, ?_, ?_, fun j hj hdue => ?_, tick, ?_, ?_⟩
      · rw [hlen, hticks, List.length_append]
        rfl
      · exact hs.due_of_gone hext hlookup (by rw [hticks, htick]; rfl) hle
      · exact hs.stored i t hlookup j ((hext.due_iff hs.born hserial hj).mp hdue)
      · rw [hext.ticks, List.getElem?_append_right le_rfl, Nat.sub_self, hticks, htick]
        rfl
      · rw [show s'.manager.called = _ from hp.called, List.mem_append, htick]
        constructor
        · rintro (hmem | hmem)
          · obtain ⟨d, hd, heq⟩ := hs.inv.sound.called _ hmem
            have hle := hs.inv.ticked.tick d hd
            have heq' := (Prod.mk.inj heq).1
            rw [hlen, hticks, List.length_append, ← hs.ticks] at heq'
            simp only [List.length_singleton] at heq'
            omega
          · obtain ⟨t', ht', heq⟩ := List.mem_map.mp hmem
            rw [(Prod.mk.inj heq).2] at ht'
            exact List.of_mem_filter ht'
        · exact fun hfires => .inr (List.mem_map.mpr ⟨t, List.mem_filter.mpr ⟨ht, hfires⟩, rfl⟩)

end Punctual

/-! ### Runs -/

/-- The manager after `Init`. -/
def Timed.init (maxSize : ℕ) (now : UInt64) (recovered : List (Timer μ)) : Option (Timed μ) :=
  (TimerManager.init maxSize now recovered).map fun m =>
    { manager := m, born := List.replicate m.created.length 0 }

theorem foldl_put_frame (timers : List (Timer μ)) (m : TimerManager μ) :
    (timers.foldl (fun m timer => m.put timer) m).left = m.left ∧
      (timers.foldl (fun m timer => m.put timer) m).ticks = m.ticks := by
  induction timers generalizing m with
  | nil => exact ⟨rfl, rfl⟩
  | cons timer timers ih => exact ih (m.put timer)

theorem Punctual.init {maxSize : ℕ} {now : UInt64} {recovered : List (Timer μ)} {s : Timed μ}
    (hdistinct : (recovered.map Timer.getTimerId).Nodup)
    (hinit : Timed.init maxSize now recovered = some s) : Punctual s := by
  obtain ⟨m, hm, rfl⟩ := Option.map_eq_some_iff.mp hinit
  have hframe : m.left = [] ∧ m.ticks = 0 := by
    rw [TimerManager.init] at hm
    obtain ⟨-, hsome⟩ := Option.ite_none_left_eq_some.mp hm
    cases hsome
    exact foldl_put_frame (recovered.take maxSize) { maxSize, now }
  refine ⟨Inv.init hdistinct hm, hframe.2, List.length_replicate, fun b hb => ?_,
    fun i t _ k hdue => ?_, fun d hd => ?_⟩
  · exact (List.eq_of_mem_replicate hb).le
  · exact absurd hdue.lt_ticks (Nat.not_lt_zero k)
  · rw [show m.left = [] from hframe.1] at hd
    cases hd

/-- **Every timer fires in time.** `Init` recovers any timers with distinct ids, and the events are
any calls, ticks and times, where the handlers make any calls. A timer that was ever created is
stored as long as no tick after its creation has found it due, and leaves in the first tick that
does. In this tick its handler is called, if it was not released before and its type has a handler,
and it is called in no other. -/
theorem timers_fire_on_time {maxSize : ℕ} {now : UInt64} {recovered : List (Timer μ)}
    {events : List (TimerEvent μ)} {s₀ s : Timed μ}
    (hdistinct : (recovered.map Timer.getTimerId).Nodup)
    (hinit : Timed.init maxSize now recovered = some s₀)
    (hrun : runSteps timedStep events s₀ = some s) :
    (∀ serial < s.manager.created.length,
      (∃ i t, s.manager.map.lookup i = some t ∧ t.serial = serial ∧ ∀ k, ¬ s.Due serial k) ∨
      ∃ k, s.Due serial k ∧ (∀ j < k, ¬ s.Due serial j) ∧
        ∃ d ∈ s.manager.left, d.timer.serial = serial ∧ d.tick = k + 1 ∧
          ∃ tick ∈ s.ticks[k]?,
            (d.tick, d.timer) ∈ s.manager.called ↔ fires tick.funcArr d.timer = true) ∧
      (s.manager.called.map fun c => c.2.serial).Nodup := by
  have hs : Punctual s := (reachable_of_runSteps (guardedSteps_true events s₀) hrun).invariant
    (Punctual.init hdistinct hinit) fun _ _ _ _ hs hstep => hs.step hstep
  refine ⟨fun serial hserial => ?_, hs.inv.sound.calledOnce⟩
  have hmem := hs.inv.counted.once.mem_iff.mpr (List.mem_range.mpr hserial)
  obtain hmem | hmem := List.mem_append.mp hmem
  · obtain ⟨d, hd, rfl⟩ := List.mem_map.mp hmem
    obtain ⟨k, hk, hdue, hfirst, hcalled⟩ := hs.left d hd
    exact .inr ⟨k, hdue, hfirst, d, hd, rfl, hk, hcalled⟩
  · obtain ⟨i, t, hlookup, rfl⟩ := mem_entryTags.mp hmem
    exact .inl ⟨i, t, hlookup, rfl, hs.stored i t hlookup⟩

/-- Of three timers one is recovered and due in the second tick, whose handler releases another one
and creates the third. -/
def releaseAndCreate : List (TimerEvent String) :=
  [.call (.addTimerHandle .sessionTimeout), .call (.createTimer 20 .sessionTimeout),
    .onTick fun _ => [], .call (.updateClock 12),
    .onTick fun timer =>
      if timer.serial = 0 then [.releaseTimer 0, .createTimer 8 .sessionTimeout] else [],
    .call (.updateClock 30), .onTick fun _ => []]

theorem timers_fire_on_time_releaseAndCreate :
    ∃ s, ((Timed.init 2 7 [{ timerId := some 0xffffff, timerMilliSeconds := some 9 }]).bind
        (runSteps timedStep releaseAndCreate)) = some s ∧
      s.manager.called.map (fun c => (c.1, c.2.serial)) = [(2, 0), (3, 2)] ∧
      (s.manager.called.map fun c => c.2.serial).Nodup := by
  have hcalled : ((Timed.init 2 7 [{ timerId := some 0xffffff, timerMilliSeconds := some 9 }]).bind
      (runSteps timedStep releaseAndCreate)).map
        (fun s => s.manager.called.map fun c => (c.1, c.2.serial)) = some [(2, 0), (3, 2)] := by
    decide +kernel
  obtain ⟨s, hrun, hs⟩ := Option.map_eq_some_iff.mp hcalled
  obtain ⟨s₀, hinit, hsteps⟩ := Option.bind_eq_some_iff.mp hrun
  have hdistinct : ([({ timerId := some 0xffffff, timerMilliSeconds := some 9 } : Timer String)].map
      Timer.getTimerId).Nodup := List.nodup_singleton _
  exact ⟨s, hrun, hs, (timers_fire_on_time hdistinct hinit hsteps).2⟩

end Lsf.Timers
