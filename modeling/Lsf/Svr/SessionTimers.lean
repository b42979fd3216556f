import Lsf.Svr.SessionServer

/-!
# The timers of the sessions

While a session waits, at most one timer that is not released refers to it, and that is the timer
the session knows of. A timer is taken from the manager before its handler is called, and a session
that is run has cleared its timer; so while the state machine of a session runs, and while the
handlers of a tick are still to be called for sessions, no timer refers to these sessions.

## Main definitions

* `Refers` — a timer that was not released refers to a session
* `Inv` — the invariant, with the sessions that are run and those whose handlers are to be called
* `Settled` — what holds between two events

## Main results

* `Inv.runStateMachine`, `Inv.onTick` — a session that is run, and a tick
* `settled_between_events`
-/

namespace Lsf.Timers.TimerManager

variable {μ : Type} {m m' : TimerManager μ} {a i sid : UInt32} {timer : Timer μ}

/-- The timer `a` is one of a session, was not released and refers to the session `sid`. -/
def Refers (m : TimerManager μ) (a sid : UInt32) : Prop :=
  ∃ timer, m.map.lookup a = some timer ∧ timer.getIsDelete = false ∧
    timer.getTimerType = .sessionTimeout ∧ timer.getSessionId = sid

theorem Refers.release (h : (m.releaseTimer i).Refers a sid) : a ≠ i ∧ m.Refers a sid := by
  obtain ⟨timer, hlookup, hlive, htype, hsession⟩ := h
  rw [releaseTimer, TimerManager.modify, Table.lookup_modify] at hlookup
  split_ifs at hlookup with hai
  · obtain ⟨old, -, rfl⟩ := Option.map_eq_some_iff.mp hlookup
    cases hlive
  · exact ⟨hai, timer, hlookup, hlive, htype, hsession⟩

/-- A timer that is created refers to no session. -/
theorem Refers.create {milliSecond : UInt64} {timerType : ENTimerType} {created : Option UInt32}
    (hcreate : m.createTimer milliSecond timerType = some (created, m')) (h : m'.Refers a sid) :
    m.Refers a sid ∨ created = some a ∧ timerType = .sessionTimeout := by
  obtain ⟨-, heq⟩ | ⟨timerId, curMaxId, timer, -, htimer, heq⟩ := createTimer_cases hcreate
  · obtain ⟨rfl, rfl⟩ := Prod.mk.inj heq
    exact .inl h
  · obtain ⟨rfl, rfl⟩ := Prod.mk.inj heq
    obtain ⟨t, hlookup, hlive, htype, hsession⟩ := h
    simp only [put] at hlookup
    rw [Table.lookup_insert] at hlookup
    split_ifs at hlookup with hid
    · cases hlookup
      rw [htimer] at hid htype
      exact .inr ⟨congrArg some hid.symm, htype⟩
    · exact .inl ⟨t, hlookup, hlive, htype, hsession⟩

theorem Refers.setInternalMessage {message : μ}
    (h : (m.setInternalMessage i message).Refers a sid) : m.Refers a sid := by
  obtain ⟨timer, hlookup, hlive, htype, hsession⟩ := h
  rw [TimerManager.setInternalMessage, TimerManager.modify, Table.lookup_modify] at hlookup
  split_ifs at hlookup with hai
  · obtain ⟨old, hold, rfl⟩ := Option.map_eq_some_iff.mp hlookup
    exact ⟨old, hai ▸ hold, hlive, htype, hsession⟩
  · exact ⟨timer, hlookup, hlive, htype, hsession⟩

theorem Refers.setSessionId {sid' : UInt32} (h : (m.setSessionId i sid').Refers a sid) :
    a = i ∧ sid = sid' ∨ a ≠ i ∧ m.Refers a sid := by
  obtain ⟨timer, hlookup, hlive, htype, hsession⟩ := h
  rw [TimerManager.setSessionId, TimerManager.modify, Table.lookup_modify] at hlookup
  split_ifs at hlookup with hai
  · obtain ⟨old, -, rfl⟩ := Option.map_eq_some_iff.mp hlookup
    exact .inl ⟨hai, hsession.symm⟩
  · exact .inr ⟨hai, timer, hlookup, hlive, htype, hsession⟩

theorem Refers.leave {pair : Pair} (h : (m.leave pair).Refers a sid) :
    a ≠ pair.2 ∧ m.Refers a sid := by
  obtain ⟨timer, hlookup, hrest⟩ := h
  rw [TimerManager.leave, Table.lookup_erase] at hlookup
  obtain ⟨hne, hold⟩ := Option.ite_none_left_eq_some.mp hlookup
  exact ⟨hne, timer, hold, hrest⟩

theorem refers_trigger {pair : Pair} (h : m.trigger pair = some timer)
    (htype : timer.getTimerType = .sessionTimeout) : m.Refers pair.2 timer.getSessionId := by
  obtain ⟨hget, hlive⟩ := Option.filter_eq_some_iff.mp h
  rw [Bool.and_eq_true, Bool.not_eq_true'] at hlive
  exact ⟨timer, hget, hlive.1, htype, rfl⟩

/-- No two timers refer to one session. -/
def Single (m : TimerManager μ) : Prop := ∀ {a b sid}, m.Refers a sid → m.Refers b sid → a = b

/-- The sessions for whose timeouts handlers are to be called. -/
def sessionIds (triggers : List (Timer μ)) : List UInt32 :=
  (triggers.filter fun timer => timer.getTimerType = .sessionTimeout).map Timer.getSessionId

theorem sessionIds_append (timers triggers : List (Timer μ)) :
    sessionIds (timers ++ triggers) = sessionIds timers ++ sessionIds triggers := by
  rw [sessionIds, List.filter_append, List.map_append]
  rfl

/-- The loop of `OnTick` takes timers away; those whose handlers are to be called are of different
sessions, to which no timer refers any more. -/
theorem collect_refers (hm : m.Single) (pairs : List Pair) :
    (∀ {a sid}, (collect pairs m).2.Refers a sid → m.Refers a sid) ∧
    (sessionIds (collect pairs m).1).Nodup ∧
    ∀ sid ∈ sessionIds (collect pairs m).1,
      (∃ a, m.Refers a sid) ∧ ∀ a, ¬ (collect pairs m).2.Refers a sid := by
  induction pairs generalizing m with
  | nil => exact ⟨id, List.nodup_nil, fun _ hmem => absurd hmem List.not_mem_nil⟩
  | cons pair pairs ih =>
    rw [collect]
    split_ifs with hlater
    · exact ⟨id, List.nodup_nil, fun _ hmem => absurd hmem List.not_mem_nil⟩
    obtain ⟨hkeep, hnodup, hgone⟩ := ih fun ha hb => hm ha.leave.2 hb.leave.2
    simp only [sessionIds_append]
    cases htrigger : m.trigger pair with
    | none =>
      refine ⟨fun h => (hkeep h).leave.2, hnodup, fun sid hsid => ?_⟩
      obtain ⟨⟨a, ha⟩, hno⟩ := hgone sid hsid
      exact ⟨⟨a, ha.leave.2⟩, hno⟩
    | some timer =>
      by_cases htype : timer.getTimerType = .sessionTimeout
      · have hsingle : sessionIds (some timer).toList = [timer.getSessionId] := by
          simp [sessionIds, htype]
        have hrefers := refers_trigger htrigger htype
        rw [hsingle, List.singleton_append]
        refine ⟨fun h => (hkeep h).leave.2, List.nodup_cons.mpr ⟨fun hmem => ?_, hnodup⟩,
          fun sid hsid => ?_⟩
        · obtain ⟨⟨a, ha⟩, -⟩ := hgone _ hmem
          exact ha.leave.1 (hm ha.leave.2 hrefers)
        · obtain rfl | hsid := List.mem_cons.mp hsid
          · exact ⟨⟨_, hrefers⟩, fun a ha =>
              (hkeep ha).leave.1 (hm (hkeep ha).leave.2 hrefers)⟩
          · obtain ⟨⟨a, ha⟩, hno⟩ := hgone sid hsid
            exact ⟨⟨a, ha.leave.2⟩, hno⟩
      · have hnone : sessionIds (some timer).toList = [] := by simp [sessionIds, htype]
        rw [hnone, List.nil_append]
        refine ⟨fun h => (hkeep h).leave.2, hnodup, fun sid hsid => ?_⟩
        obtain ⟨⟨a, ha⟩, hno⟩ := hgone sid hsid
        exact ⟨⟨a, ha.leave.2⟩, hno⟩

end Lsf.Timers.TimerManager

namespace Lsf.Sessions

open Timers (TimerManager Timer)
open Timers.TimerManager (sessionIds)

variable {μ δ ω : Type} {v v' : Server μ δ ω} {busy pending : List UInt32} {id : UInt32}
  {session : Session μ δ}

/-- The invariant, while the sessions `busy` are run and the handlers of a tick are to be called for
the sessions `pending`. -/
structure Inv (busy pending : List UInt32) (v : Server μ δ ω) : Prop where
  key : ∀ id session, v.sessions.lookup id = some session → session.sessionId = some id
  waits : ∀ id session, v.sessions.lookup id = some session → id ∉ busy →
    (timeoutState session.sessionState).isSome = true
  timer : ∀ a id, v.timers.Refers a id → id ∉ busy ++ pending ∧
    ∃ session, v.sessions.lookup id = some session ∧ session.timerId = some a
  stored : ∀ id ∈ busy ++ pending, id ∈ v.sessions
  nodup : (busy ++ pending).Nodup

/-- Every stored session waits, at most one timer refers to it, which is the one it knows of, and no
timer refers to a session that is not stored. -/
structure Settled (v : Server μ δ ω) : Prop where
  waits : ∀ id session, v.getSession id = some session → session.sessionId = some id ∧
    (timeoutState session.sessionState).isSome = true
  single : ∀ id a b, v.timers.Refers a id → v.timers.Refers b id → a = b
  known : ∀ id session, v.getSession id = some session →
    ∀ a, v.timers.Refers a id → session.timerId = some a
  stored : ∀ id a, v.timers.Refers a id → (v.getSession id).isSome = true

theorem mem_of_getSession (hget : v.getSession id = some session) : id ∈ v.sessions :=
  AList.lookup_isSome.mp (Option.isSome_of_eq_some hget)

namespace Inv

/-! ### Sessions -/

theorem single (hv : Inv busy pending v) : v.timers.Single := by
  intro a b id ha hb
  obtain ⟨-, session, hlookup, hsome⟩ := hv.timer a id ha
  obtain ⟨-, session', hlookup', hsome'⟩ := hv.timer b id hb
  obtain rfl : session = session' := Option.some.inj (hlookup.symm.trans hlookup')
  exact Option.some.inj (hsome.symm.trans hsome')

theorem settled (hv : Inv [] [] v) : Settled v where
  waits id session hget := ⟨hv.key id session hget, hv.waits id session hget List.not_mem_nil⟩
  single _ _ _ ha hb := hv.single ha hb
  known id session hget a ha := by
    obtain ⟨-, session', hlookup, hsome⟩ := hv.timer a id ha
    obtain rfl : session = session' := Option.some.inj (hget.symm.trans hlookup)
    exact hsome
  stored id a ha := by
    obtain ⟨-, session, hlookup, -⟩ := hv.timer a id ha
    rw [Server.getSession, hlookup]
    rfl

/-- Fewer timers refer to sessions. -/
theorem mono_timers (hv : Inv busy pending v) {timers : TimerManager μ}
    (hmono : ∀ a id, timers.Refers a id → v.timers.Refers a id) :
    Inv busy pending { v with timers } :=
  { hv with timer := fun a id ha => hv.timer a id (hmono a id ha) }

/-- A session to which no timer refers may be run. -/
theorem enter (hv : Inv busy pending v) (hstored : id ∈ v.sessions) (hnew : id ∉ busy ++ pending)
    (hno : ∀ a, ¬ v.timers.Refers a id) : Inv (id :: busy) pending v where
  key := hv.key
  waits id' session hlookup hid := hv.waits id' session hlookup (List.not_mem_of_not_mem_cons hid)
  timer a id' ha := by
    obtain ⟨hnot, hsession⟩ := hv.timer a id' ha
    refine ⟨fun hmem => ?_, hsession⟩
    obtain rfl | hmem := List.mem_cons.mp hmem
    · exact hno a ha
    · exact hnot hmem
  stored id' hmem := by
    obtain rfl | hmem := List.mem_cons.mp hmem
    · exact hstored
    · exact hv.stored id' hmem
  nodup := List.nodup_cons.mpr ⟨hnew, hv.nodup⟩

/-- The handler for a session is called. -/
theorem call (hv : Inv busy (id :: pending) v) : Inv (id :: busy) pending v where
  key := hv.key
  waits id' session hlookup hid := hv.waits id' session hlookup (List.not_mem_of_not_mem_cons hid)
  timer a id' ha := by
    obtain ⟨hnot, hsession⟩ := hv.timer a id' ha
    exact ⟨fun hmem => hnot (List.perm_middle.mem_iff.mpr hmem), hsession⟩
  stored id' hmem := hv.stored id' (List.perm_middle.mem_iff.mpr hmem)
  nodup := List.perm_middle.nodup_iff.mp hv.nodup

/-- A session that is run and waits again. -/
theorem leave (hv : Inv (id :: busy) pending v)
    (hwaits : ∀ session, v.sessions.lookup id = some session →
      (timeoutState session.sessionState).isSome = true) : Inv busy pending v where
  key := hv.key
  waits id' session hlookup hid := by
    by_cases heq : id' = id
    · exact hwaits session (heq ▸ hlookup)
    · exact hv.waits id' session hlookup (by simp [heq, hid])
  timer a id' ha := (hv.timer a id' ha).imp_left List.not_mem_of_not_mem_cons
  stored id' hmem := hv.stored id' (List.mem_cons_of_mem _ hmem)
  nodup := (List.nodup_cons.mp hv.nodup).2

theorem modify (hv : Inv busy pending v) {f : Session μ δ → Session μ δ}
    (hid : ∀ s, (f s).sessionId = s.sessionId)
    (hkeep : id ∈ busy ∨ ∀ s, (f s).sessionState = s.sessionState ∧ (f s).timerId = s.timerId) :
    Inv busy pending (v.modify id f) where
  key id' session hlookup := by
    rw [Server.modify, Table.lookup_modify] at hlookup
    split_ifs at hlookup with heq
    · obtain ⟨s, hs, rfl⟩ := Option.map_eq_some_iff.mp hlookup
      rw [hid, heq]
      exact hv.key id s hs
    · exact hv.key id' session hlookup
  waits id' session hlookup hbusy := by
    rw [Server.modify, Table.lookup_modify] at hlookup
    split_ifs at hlookup with heq
    · obtain ⟨s, hs, rfl⟩ := Option.map_eq_some_iff.mp hlookup
      obtain hmem | hkeep := hkeep
      · exact absurd (heq ▸ hmem) hbusy
      · rw [(hkeep s).1]
        exact hv.waits id s hs (heq ▸ hbusy)
    · exact hv.waits id' session hlookup hbusy
  timer a id' ha := by
    obtain ⟨hnot, s, hs, hsome⟩ := hv.timer a id' ha
    refine ⟨hnot, ?_⟩
    simp only [Server.modify, Table.lookup_modify]
    by_cases heq : id' = id
    · obtain hmem | hkeep := hkeep
      · exact absurd (List.mem_append_left _ (heq ▸ hmem)) hnot
      · exact ⟨f s, by rw [if_pos heq, ← heq, hs]; rfl, (hkeep s).2.trans hsome⟩
    · exact ⟨s, by rw [if_neg heq]; exact hs, hsome⟩
  stored id' hmem := by
    rw [Server.modify, ← AList.lookup_isSome, Table.lookup_modify]
    have hold := AList.lookup_isSome.mpr (hv.stored id' hmem)
    split_ifs with heq
    · rw [Option.isSome_map, ← heq, hold]
    · exact hold
  nodup := hv.nodup

theorem erase (hv : Inv (id :: busy) pending v) :
    Inv busy pending { v with sessions := v.sessions.erase id } where
  key id' session hlookup := by
    rw [Table.lookup_erase] at hlookup
    exact hv.key id' session (Option.ite_none_left_eq_some.mp hlookup).2
  waits id' session hlookup hbusy := by
    rw [Table.lookup_erase] at hlookup
    obtain ⟨hne, hlookup⟩ := Option.ite_none_left_eq_some.mp hlookup
    exact hv.waits id' session hlookup (by simp [hne, hbusy])
  timer a id' ha := by
    obtain ⟨hnot, s, hs, hsome⟩ := hv.timer a id' ha
    have hne : id' ≠ id := fun heq => hnot (heq ▸ List.mem_cons_self)
    exact ⟨List.not_mem_of_not_mem_cons hnot, s, by rw [Table.lookup_erase, if_neg hne, hs], hsome⟩
  stored id' hmem := by
    have hne : id' ≠ id := fun heq => (List.nodup_cons.mp hv.nodup).1 (heq ▸ hmem)
    exact AList.mem_erase.mpr ⟨hne, hv.stored id' (List.mem_cons_of_mem _ hmem)⟩
  nodup := (List.nodup_cons.mp hv.nodup).2

/-- The release of a session that is run. -/
theorem releaseSession (hv : Inv (id :: busy) pending v) :
    Inv busy pending (v.releaseSession id) := by
  rw [Server.releaseSession]
  cases (v.getSession id).bind Session.timerId with
  | none => exact hv.erase
  | some timerId => exact (hv.mono_timers fun _ _ ha => ha.release.2).erase

/-- The timer of a session that waits is released. -/
theorem releaseSessionTimer (hv : Inv [] [] v) (hget : v.getSession id = some session) :
    Inv [id] [] (v.releaseSessionTimer session) := by
  refine (hv.mono_timers fun _ _ ha => ha.release.2).enter (mem_of_getSession hget)
    List.not_mem_nil fun a ha => ?_
  obtain ⟨hne, hold⟩ := ha.release
  rw [Session.getTimerId, hv.settled.known id session hget a hold] at hne
  exact hne rfl

theorem releaseLeaked (hv : Inv [] [] v) : Inv [] [] (v.releaseSession id) := by
  cases hget : v.getSession id with
  | none =>
    have hnot := AList.lookup_eq_none.mp hget
    rw [Server.releaseSession, hget, Table.erase_of_notMem hnot]
    exact hv
  | some session =>
    cases htimer : session.timerId with
    | none =>
      refine (hv.enter (mem_of_getSession hget) List.not_mem_nil fun a ha => ?_).releaseSession
      cases htimer.symm.trans (hv.settled.known id session hget a ha)
    | some timerId =>
      have herase := (hv.releaseSessionTimer hget).erase
      rw [Server.releaseSessionTimer, Session.getTimerId, htimer] at herase
      rw [Server.releaseSession, hget, Option.bind_some, htimer]
      exact herase

theorem checkLeak (hv : Inv [] [] v) : Inv [] [] v.checkLeak := by
  have hall : ∀ (ids : List UInt32) {v : Server μ δ ω}, Inv [] [] v →
      Inv [] [] (ids.foldl (fun v sessionId => v.releaseSession sessionId) v) := by
    intro ids
    induction ids with
    | nil => exact fun hv => hv
    | cons id ids ih => exact fun hv => ih hv.releaseLeaked
  exact hall _ hv

/-! ### Creation of sessions and timers -/

theorem createSession [Inhabited δ] (hv : Inv busy pending v) {created : Option UInt32}
    (hcreate : v.createSession = some (created, v')) :
    created = none ∧ v' = v ∨ ∃ id, created = some id ∧ Inv (id :: busy) pending v' := by
  rw [Server.createSession] at hcreate
  split_ifs at hcreate with hfull
  · cases hcreate
    exact .inl ⟨rfl, rfl⟩
  obtain ⟨⟨id, curMaxId⟩, hfind, heq⟩ := Option.map_eq_some_iff.mp hcreate
  cases heq
  have hnot : id ∉ v.sessions := Timers.findId_notMem hfind
  have hne : ∀ {id'}, id' ∈ v.sessions → id' ≠ id := fun hmem heq => hnot (heq ▸ hmem)
  refine .inr ⟨id, rfl, ?_, ?_, ?_, ?_, ?_⟩
  · intro id' session hlookup
    rw [Table.lookup_insert] at hlookup
    split_ifs at hlookup with heq
    · cases hlookup
      rw [heq]
    · exact hv.key id' session hlookup
  · intro id' session hlookup hbusy
    rw [Table.lookup_insert, if_neg (List.ne_of_not_mem_cons hbusy)] at hlookup
    exact hv.waits id' session hlookup (List.not_mem_of_not_mem_cons hbusy)
  · intro a id' ha
    obtain ⟨hbusy, session, hlookup, hsome⟩ := hv.timer a id' ha
    have hid := hne (mem_of_getSession hlookup)
    refine ⟨List.not_mem_cons_of_ne_of_not_mem hid hbusy, session, ?_, hsome⟩
    rw [Table.lookup_insert, if_neg hid, hlookup]
  · intro id' hmem
    exact (AList.mem_insert _).mpr ((List.mem_cons.mp hmem).imp_right (hv.stored id'))
  · exact List.nodup_cons.mpr ⟨fun hmem => hnot (hv.stored id hmem), hv.nodup⟩

/-- A timer that a session knows of begins to refer to it. -/
theorem arm (hv : Inv busy pending v) {timers : TimerManager μ} {a : UInt32}
    (hget : v.getSession id = some session) (hknown : session.timerId = some a)
    (hnot : id ∉ busy ++ pending)
    (htimers : ∀ b sid, timers.Refers b sid → b = a ∧ sid = id ∨ v.timers.Refers b sid) :
    Inv busy pending { v with timers } :=
  { hv with
    timer := fun b sid hb => by
      obtain ⟨rfl, rfl⟩ | hb := htimers b sid hb
      · exact ⟨hnot, session, hget, hknown⟩
      · exact hv.timer b sid hb }

/-- The state machine of a session ends its loop to wait. -/
theorem setSessionTimer (hv : Inv (id :: busy) pending v) {milliSecond : UInt64}
    (hget : v.getSession id = some session)
    (hwaits : (timeoutState session.sessionState).isSome = true)
    (hset : v.setSessionTimer id milliSecond = some v') : Inv busy pending v' := by
  obtain ⟨⟨created, timers⟩, hcreate, heq⟩ := Option.map_eq_some_iff.mp hset
  cases created with
  | none =>
    cases heq
    refine (hv.mono_timers fun a sid ha => ?_).leave fun s hs => ?_
    · exact (ha.create hcreate).resolve_right fun h => by cases h.1
    · obtain rfl := Option.some.inj (hget.symm.trans hs)
      exact hwaits
  | some timerId =>
    cases heq
    have hget' :
        (v.modify id fun session => { session with timerId := some timerId }).getSession id =
        some { session with timerId := some timerId } := by
      rw [Server.getSession, Server.modify, Table.lookup_modify, if_pos rfl, ← Server.getSession,
        hget, Option.map_some]
    have hknows : Inv (id :: busy) pending
        (v.modify id fun session => { session with timerId := some timerId }) :=
      hv.modify (fun _ => rfl) (.inl List.mem_cons_self)
    have hleft := hknows.leave fun s hs => by
      obtain rfl := Option.some.inj (hget'.symm.trans hs)
      exact hwaits
    refine hleft.arm hget' rfl (List.nodup_cons.mp hv.nodup).1 fun b sid hb => ?_
    obtain hb | ⟨hne, hb⟩ := hb.setSessionId
    · exact .inl hb
    · refine .inr ((hb.create hcreate).resolve_right fun h => ?_)
      exact hne (Option.some.inj h.1).symm

theorem postAsyncInternalMessage (hv : Inv busy pending v) {message : μ}
    (hpost : v.postAsyncInternalMessage message = some v') : Inv busy pending v' := by
  obtain ⟨⟨created, timers⟩, hcreate, heq⟩ := Option.map_eq_some_iff.mp hpost
  have hmono : ∀ a sid, timers.Refers a sid → v.timers.Refers a sid := fun a sid ha =>
    (ha.create hcreate).resolve_right fun h => by cases h.2
  cases created with
  | none =>
    cases heq
    exact hv.mono_timers hmono
  | some timerId =>
    cases heq
    exact hv.mono_timers fun a sid ha => hmono a sid ha.setInternalMessage

end Inv

/-! ### The state machine -/

/-- A session that is run waits in the end, or is no more. -/
def KeepsInv (run : UInt32 → Server μ δ ω → Option (Server μ δ ω)) : Prop :=
  ∀ {busy pending id v v'}, Inv (id :: busy) pending v → run id v = some v' → Inv busy pending v'

section Run

variable {h : Handlers μ δ ω} {run : UInt32 → Server μ δ ω → Option (Server μ δ ω)} {message : μ}

theorem Inv.resume (hrun : KeepsInv run) {state : BasicHandler.ENSessionState}
    (hv : Inv (id :: busy) pending v) (hresume : v.resume run id state = some v') :
    Inv busy pending v' := by
  refine hrun (hv.modify ?_ (.inl List.mem_cons_self)) hresume
  exact fun _ => rfl

theorem Inv.getServerResponse (hrun : KeepsInv run) (hv : Inv [] [] v)
    (hget : v.getSession id = some session)
    (hresponse : v.getServerResponse h run id session message = some v') : Inv [] [] v' := by
  have hcopy : Inv [] [] (v.modify id fun session =>
      { session with data.svrResponse := some message }) :=
    hv.modify (fun _ => rfl) (.inr fun _ => ⟨rfl, rfl⟩)
  rw [Server.getServerResponse] at hresponse
  cases hawait : BasicHandler.awaited session.sessionState with
  | none =>
    rw [hawait] at hresponse
    cases hresponse
    exact hcopy
  | some p =>
    simp only [hawait] at hresponse
    split_ifs at hresponse with htype
    · cases hresponse
      exact hcopy
    · have hget' : (v.modify id fun session =>
          { session with data.svrResponse := some message }).getSession id =
          some { session with data.svrResponse := some message } := by
        rw [Server.getSession, Server.modify, Table.lookup_modify, if_pos rfl, ← Server.getSession,
          hget, Option.map_some]
      exact Inv.resume hrun (hcopy.releaseSessionTimer hget') hresponse

theorem Inv.getCurlResult (hrun : KeepsInv run) (hv : Inv [] [] v)
    (hget : v.getSession id = some session) {result : Bool} {content : String}
    (hresult : v.getCurlResult run id session result content = some v') : Inv [] [] v' := by
  refine Inv.resume hrun ((hv.releaseSessionTimer hget).modify ?_ (.inl List.mem_cons_self)) hresult
  exact fun _ => rfl

/-- The handler of a timer is called for a session whose timer is gone. -/
theorem Inv.waitResponseTimeout (hrun : KeepsInv run) (hv : Inv [] (id :: pending) v)
    (hget : v.getSession id = some session)
    (htimeout : v.waitResponseTimeout run id session = some v') : Inv [] pending v' := by
  rw [Server.waitResponseTimeout] at htimeout
  obtain ⟨state, hstate⟩ := Option.isSome_iff_exists.mp
    (hv.waits id session hget List.not_mem_nil)
  rw [hstate] at htimeout
  exact hv.call.resume hrun htimeout

variable [Inhabited δ]

theorem Inv.getRequest (hrun : KeepsInv run) {state : BasicHandler.ENSessionState}
    (hv : Inv busy pending v) (hget : v.getRequest run state message = some v') :
    Inv busy pending v' := by
  obtain ⟨⟨created, v₁⟩, hcreate, hrest⟩ := Option.bind_eq_some_iff.mp hget
  obtain ⟨rfl, rfl⟩ | ⟨id, rfl, hv₁⟩ := hv.createSession hcreate
  · cases hrest
    exact hv
  · refine hrun (hv₁.modify ?_ (.inl List.mem_cons_self)) hrest
    exact fun _ => rfl

theorem Inv.postInternalMessage (hrun : KeepsInv run) (hv : Inv busy pending v)
    (hpost : v.postInternalMessage h run message = some v') : Inv busy pending v' := by
  rw [Server.postInternalMessage] at hpost
  split_ifs at hpost with hrequest
  · exact hv.getRequest hrun hpost
  · cases hpost
    exact hv

theorem Inv.postAll (hrun : KeepsInv run) {posts : List (Post μ)} (hv : Inv busy pending v)
    (hpost : v.postAll h run posts = some v') : Inv busy pending v' := by
  induction posts generalizing v with
  | nil =>
    cases hpost
    exact hv
  | cons p posts ih =>
    obtain ⟨v₁, hp, hrest⟩ := Option.bind_eq_some_iff.mp hpost
    cases p with
    | internalMessage message => exact ih (hv.postInternalMessage hrun hp) hrest
    | asyncInternalMessage message => exact ih (hv.postAsyncInternalMessage hp) hrest

theorem Inv.runStateMachine (fuel : ℕ) : KeepsInv (Server.runStateMachine h fuel) := by
  induction fuel with
  | zero => exact fun _ hrun => by cases hrun
  | succ fuel ih =>
    intro busy pending id v v' hv hrun
    obtain ⟨session, hget, hround⟩ := Option.bind_eq_some_iff.mp hrun
    cases hwait : waitTime session.sessionState with
    | some milliSecond =>
      rw [hwait] at hround
      refine hv.setSessionTimer hget ?_ hround
      rw [timeoutState_isSome, hwait]
      rfl
    | none =>
      simp only [hwait] at hround
      split_ifs at hround with hfinish
      · obtain ⟨v₁, hposts, rfl⟩ := Option.map_eq_some_iff.mp hround
        have hworld : Inv (id :: busy) pending
            { v with world := (h.onSessionFinish session v.world).2 } := { hv with }
        exact (hworld.postAll ih hposts).releaseSession
      · obtain ⟨v₁, hposts, hrest⟩ := Option.bind_eq_some_iff.mp hround
        have hworld : Inv (id :: busy) pending { v with world := (h.on session v.world).world } :=
          { hv with }
        have hv₁ : Inv (id :: busy) pending v₁ := by
          refine Inv.postAll ih (hworld.modify ?_ (.inl List.mem_cons_self)) hposts
          exact fun _ => rfl
        refine ih (hv₁.modify ?_ (.inl List.mem_cons_self)) hrest
        exact fun _ => rfl

/-! ### Events -/

theorem Inv.onTimers (hrun : KeepsInv run) {triggers : List (Timer μ)}
    (hv : Inv [] (sessionIds triggers) v) (htimers : v.onTimers h run triggers = some v') :
    Inv [] [] v' := by
  induction triggers generalizing v with
  | nil =>
    cases htimers
    exact hv
  | cons timer triggers ih =>
    obtain ⟨v₁, htimer, hrest⟩ := Option.bind_eq_some_iff.mp htimers
    refine ih ?_ hrest
    rw [Server.onTimer] at htimer
    rw [← List.singleton_append, Timers.TimerManager.sessionIds_append] at hv
    cases htype : timer.getTimerType
    all_goals simp only [htype] at htimer
    case sessionTimeout =>
      have hids : sessionIds [timer] = [timer.getSessionId] := by simp [sessionIds, htype]
      rw [hids, List.singleton_append] at hv
      have hstored := AList.lookup_isSome.mpr (hv.stored timer.getSessionId List.mem_cons_self)
      obtain ⟨session, hget⟩ := Option.isSome_iff_exists.mp hstored
      rw [Server.getSession, hget] at htimer
      exact hv.waitResponseTimeout hrun hget htimer
    all_goals
      have hids : sessionIds [timer] = [] := by simp [sessionIds, htype]
      rw [hids, List.nil_append] at hv
    case asyncInternalMessage =>
      cases hmessage : timer.internalMessage with
      | none =>
        rw [hmessage] at htimer
        cases htimer
        exact hv
      | some message =>
        rw [hmessage] at htimer
        exact hv.postInternalMessage hrun htimer
    all_goals
      cases htimer
      exact hv

theorem Inv.onTick (hrun : KeepsInv run) (hv : Inv [] [] v)
    (htick : v.onTick h run = some v') : Inv [] [] v' := by
  have hcollect := Timers.TimerManager.collect_refers
    (m := { v.timers with ticks := v.timers.ticks + 1 }) hv.single v.timers.timerHeap.items
  rw [Server.onTick] at htick
  revert hcollect htick
  generalize TimerManager.collect v.timers.timerHeap.items
    { v.timers with ticks := v.timers.ticks + 1 } = result
  rintro htick ⟨hkeep, hnodup, hgone⟩
  refine Inv.onTimers hrun (v := { v with timers := result.2 })
    ⟨hv.key, hv.waits, fun a id ha => ?_, fun id hid => ?_, hnodup⟩ htick
  · obtain ⟨-, hsession⟩ := hv.timer a id (hkeep ha)
    exact ⟨fun hmem => (hgone id hmem).2 a ha, hsession⟩
  · obtain ⟨⟨a, ha⟩, -⟩ := hgone id hid
    obtain ⟨-, session, hget, -⟩ := hv.timer a id ha
    exact mem_of_getSession hget

theorem Inv.step (hv : Inv [] [] v) {event : ℕ × Event μ} (hstep : step h event v = some v') :
    Inv [] [] v' := by
  obtain ⟨fuel, event⟩ := event
  have hrun : KeepsInv (Server.runStateMachine h fuel) := Inv.runStateMachine fuel
  cases event with
  | clientRequest message => exact hv.getRequest hrun hstep
  | serverMessage message =>
    rw [Sessions.step, Server.onServerMessage] at hstep
    split_ifs at hstep with hrequest
    · exact hv.getRequest hrun hstep
    · cases hget : v.getSession (h.sessionId message) with
      | none =>
        rw [hget] at hstep
        cases hstep
        exact hv
      | some session =>
        rw [hget] at hstep
        exact hv.getServerResponse hrun hget hstep
  | internalMessage message => exact hv.postInternalMessage hrun hstep
  | curlFinish sessionId result content =>
    rw [Sessions.step, Server.onCurlFinish] at hstep
    cases hget : v.getSession sessionId with
    | none =>
      rw [hget] at hstep
      cases hstep
      exact hv
    | some session =>
      rw [hget] at hstep
      exact hv.getCurlResult hrun hget hstep
  | tick => exact hv.onTick hrun hstep
  | checkLeak =>
    cases hstep
    exact hv.checkLeak
  | updateClock now =>
    cases hstep
    exact { hv with }

end Run

theorem Inv.init {maxTimers maxSessions : ℕ} {now : UInt64} {world : ω}
    (hinit : Server.init maxTimers maxSessions now world = some v) : Inv [] [] v := by
  obtain ⟨-, hsome⟩ := Option.ite_none_left_eq_some.mp hinit
  obtain ⟨timers, htimers, rfl⟩ := Option.map_eq_some_iff.mp hsome
  rw [TimerManager.init, List.take_nil] at htimers
  obtain ⟨-, hsome⟩ := Option.ite_none_left_eq_some.mp htimers
  cases hsome
  refine ⟨by simp, by simp, ?_, by simp, List.nodup_nil⟩
  rintro a id ⟨timer, hlookup, -⟩
  cases hlookup

/-- **Between two events every session waits and has at most one timer, which is the one it knows
of**, whatever the functions of the handlers do. The events come in any order, and their state
machines return within the rounds that they are given. -/
theorem settled_between_events [Inhabited δ] (h : Handlers μ δ ω) {maxTimers maxSessions : ℕ}
    {now : UInt64} {world : ω} {events : List (ℕ × Event μ)} {v₀ v : Server μ δ ω}
    (hinit : Server.init maxTimers maxSessions now world = some v₀)
    (hrun : runSteps (step h) events v₀ = some v) : Settled v :=
  ((reachable_of_runSteps (guardedSteps_true events v₀) hrun).invariant (I := Inv [] [])
    (Inv.init hinit) fun _ _ _ _ hv hstep => hv.step hstep).settled

/-- A message is a request, or the response of a server for a session. -/
def sampleHandlers : Handlers (Option (BasicHandler.ENServerType × UInt32)) Unit Unit where
  isRequest message := message.isNone
  srcServerType message := (message.map Prod.fst).getD .other
  sessionId message := (message.map Prod.snd).getD 0
  on session _ := match session.sessionState with
    | .clientRequest =>
      ⟨session.data, (), [.internalMessage none, .asyncInternalMessage none], .dbsvrQueryWait⟩
    | .serverRequest => ⟨session.data, (), [], .confsvrWait⟩
    | .dbsvrQueryMessage => ⟨session.data, (), [], .dbsvrUpdateWait⟩
    | _ => ⟨session.data, (), [], .finish⟩
  onSessionFinish _ _ := ([.asyncInternalMessage none], ())

/-- A request that makes two more, with a wrong, a right and a late response, a tick in which the
other sessions come to their ends, and a check. -/
theorem settled_after_responses_and_tick :
    ∃ v, ((Server.init 8 4 0 ()).bind (runSteps (step sampleHandlers)
      [(9, .clientRequest none), (9, .serverMessage (some (.configCenter, 1))),
        (9, .serverMessage (some (.dataServer, 1))), (9, .serverMessage (some (.dataServer, 1))),
        (9, .serverMessage (some (.dataServer, 1))), (9, .curlFinish 2 true "late"),
        (9, .updateClock 2000), (9, .tick), (9, .updateClock 400000), (9, .checkLeak)])) = some v ∧
      Settled v := by
  refine (Option.isSome_iff_exists.mp ?_).imp fun v hrun => ⟨hrun, ?_⟩
  · decide +kernel
  obtain ⟨v₀, hinit, hsteps⟩ := Option.bind_eq_some_iff.mp hrun
  exact settled_between_events sampleHandlers hinit hsteps

end Lsf.Sessions
