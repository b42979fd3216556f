import Lsf.Foundations.PriorityQueue
import Lsf.Foundations.SecondaryIndex
import Lsf.Foundations.Reachability
import Mathlib.Algebra.Group.Nat.Defs
import Mathlib.Tactic.SplitIfs

/-!
# Timers

The manager maps ids to timers, and next to the map a heap has the pair of deadline and id of each.
A timer that is released is only marked. The tick takes the pairs whose time has come from the heap
and the timers from the map, and after that calls the handlers of those that were not released; a
handler may create and release timers itself.

The records have some history that the source does not have, to say which timer is which after an id
is used again: `serial` numbers the timers in the order of their creation, `created` has the pairs
with which they were created, and `left`, `called` and `missing` say what the ticks did.

## Main definitions

* `Timer`, `TimerManager` — the records
* `init`, `createTimer`, `releaseTimer`, `getTimer`, `onTick` — the source's functions
* `step` — a call from outside, with the calls that the handlers make

## Main results

* `heap_in_step_with_map` — what holds after any sequence of calls
-/

namespace Lsf.Timers

/-! ### Records -/

/-- `ENTimerType`. -/
inductive ENTimerType
  | sessionTimeout
  | tableTimeout
  | tableSeatTimeout
  | asyncInternalMessage
  | matchTimeout
  | matchTableTimeout
  | matchPlayerRuleOut
  deriving DecidableEq

/-- `data::Timer`, with the data for the handlers of the session timeouts and of the internal
messages, which are of the type `μ`. -/
structure Timer (μ : Type) where
  timerId : Option UInt32 := none
  timerMilliSeconds : Option UInt64 := none
  timerType : Option ENTimerType := none
  isDelete : Option Bool := none
  sessionId : Option UInt32 := none
  internalMessage : Option μ := none
  /-- The number of timers created before this one. -/
  serial : ℕ := 0
  deriving DecidableEq

/-- A deadline and a timer id. -/
abbrev Pair := UInt64 × UInt32

variable {μ ν : Type}

namespace Timer

/-- `timer_id()`. -/
def getTimerId (timer : Timer μ) : UInt32 := timer.timerId.getD 0

/-- `timer_milli_seconds()`. -/
def getTimerMilliSeconds (timer : Timer μ) : UInt64 := timer.timerMilliSeconds.getD 0

/-- `timer_type()`. -/
def getTimerType (timer : Timer μ) : ENTimerType := timer.timerType.getD .sessionTimeout

/-- `is_delete()`. -/
def getIsDelete (timer : Timer μ) : Bool := timer.isDelete.getD false

/-- `session_id()`. -/
def getSessionId (timer : Timer μ) : UInt32 := timer.sessionId.getD 0

/-- The entry of a timer in the heap. -/
def toPair (timer : Timer μ) : Pair := (timer.getTimerMilliSeconds, timer.getTimerId)

end Timer

/-- The order of the pairs, by the deadline first. -/
def pairLe (p q : Pair) : Prop := p.1 < q.1 ∨ p.1 = q.1 ∧ p.2 ≤ q.2

instance : DecidableRel pairLe := fun _ _ => inferInstanceAs (Decidable (_ ∨ _))

instance : Std.Total pairLe where
  total p q := by
    by_cases heq : p.1 = q.1
    · exact (UInt32.le_total p.2 q.2).imp (fun h => .inr ⟨heq, h⟩) fun h =>
        .inr ⟨heq.symm, h⟩
    · exact (UInt64.lt_or_lt_of_ne heq).imp .inl .inl

instance : IsTrans Pair pairLe where
  trans p q r := by
    rintro (hpq | ⟨hpq, hpq'⟩) (hqr | ⟨hqr, hqr'⟩)
    · exact .inl (UInt64.lt_trans hpq hqr)
    · exact .inl (hqr ▸ hpq)
    · exact .inl (hpq ▸ hqr)
    · exact .inr ⟨hpq.trans hqr, UInt32.le_trans hpq' hqr'⟩

/-- A timer that left the manager, in which tick, and when. -/
structure Departure (μ : Type) where
  timer : Timer μ
  tick : ℕ
  now : UInt64
  deriving DecidableEq

/-- The manager, with the map of its base class and the clock of the service. -/
structure TimerManager (μ : Type) where
  map : Table UInt32 (Timer μ) := ∅
  maxSize : ℕ
  timerHeap : PriorityQueue pairLe := .empty
  curMaxId : UInt32 := 0
  /-- The types for which `_func_arr` has a handler. -/
  funcArr : ENTimerType → Bool := fun _ => false
  /-- `ClockTimeMilli()`. -/
  now : UInt64
  created : List Pair := []
  ticks : ℕ := 0
  left : List (Departure μ) := []
  called : List (ℕ × Timer μ) := []
  missing : List UInt32 := []

/-- The loop that finds a valid id for an element of a manager, with the last `_cur_max_id`; `mask`
is the greatest id. There are no more ids than rounds, so that without a result the loop does not
end. -/
def findId (mask : UInt32) (map : Table UInt32 ν) : ℕ → UInt32 → Option (UInt32 × UInt32)
  | 0, _ => none
  | fuel + 1, curMaxId =>
    let id := (curMaxId + 1) &&& mask
    if id ∈ map then findId mask map fuel (curMaxId + 1) else some (id, curMaxId + 1)

theorem findId_notMem {mask : UInt32} {map : Table UInt32 ν} {fuel : ℕ} {cur cur' id : UInt32}
    (h : findId mask map fuel cur = some (id, cur')) : id ∉ map := by
  induction fuel generalizing cur with
  | zero => cases h
  | succ fuel ih =>
    rw [findId] at h
    split_ifs at h with hmem
    · exact ih h
    · cases h
      exact hmem

namespace TimerManager

/-- The greatest timer id. -/
def MAX_TIMER_ID : UInt32 := 0xffffff

/-! ### The functions -/

/-- The manager has no room. -/
def full (m : TimerManager μ) : Bool := m.maxSize ≤ m.map.entries.length

/-- `GetTimer`. -/
def getTimer (timerId : UInt32) (m : TimerManager μ) : Option (Timer μ) := m.map.lookup timerId

/-- The map has the timer under its id from now on. -/
def put (timer : Timer μ) (m : TimerManager μ) : TimerManager μ :=
  { m with
    map := m.map.insert timer.getTimerId { timer with serial := m.created.length }
    created := m.created ++ [timer.toPair] }

/-- `Init`, where the shared memory has the timers `recovered`. -/
def init (maxSize : ℕ) (now : UInt64) (recovered : List (Timer μ)) : Option (TimerManager μ) :=
  if maxSize = 0 then none
  else
    let m : TimerManager μ :=
      (recovered.take maxSize).foldl (fun m timer => m.put timer) { maxSize, now }
    some { m with
      curMaxId := m.map.entries.foldl (fun id e => max id e.2.getTimerId) 0
      timerHeap := .pushAll (m.map.entries.map fun e => e.2.toPair) .empty }

/-- `CreateTimer`, with the id of the new timer if there is one. -/
def createTimer (milliSecond : UInt64) (timerType : ENTimerType) (m : TimerManager μ) :
    Option (Option UInt32 × TimerManager μ) :=
  if m.full then some (none, m)
  else
    (findId MAX_TIMER_ID m.map (2 ^ 24) m.curMaxId).map fun (timerId, curMaxId) =>
      let timer : Timer μ :=
        { timerId := some timerId
          timerType := some timerType
          timerMilliSeconds := some (m.now + milliSecond) }
      (some timerId,
        { m.put timer with curMaxId := curMaxId, timerHeap := m.timerHeap.push timer.toPair })

/-- A change of a timer in its place. -/
def modify (timerId : UInt32) (f : Timer μ → Timer μ) (m : TimerManager μ) : TimerManager μ :=
  { m with map := Table.modify timerId f m.map }

/-- `ReleaseTimer`, which marks the timer. -/
def releaseTimer (timerId : UInt32) : TimerManager μ → TimerManager μ :=
  modify timerId fun timer => { timer with isDelete := some true }

/-- `set_session_id` of a timer. -/
def setSessionId (timerId sessionId : UInt32) : TimerManager μ → TimerManager μ :=
  modify timerId fun timer => { timer with sessionId := some sessionId }

/-- `mutable_internal_message` of a timer. -/
def setInternalMessage (timerId : UInt32) (message : μ) : TimerManager μ → TimerManager μ :=
  modify timerId fun timer => { timer with internalMessage := some message }

/-- `AddTimerHandle`. -/
def addTimerHandle (timerType : ENTimerType) (m : TimerManager μ) : TimerManager μ :=
  { m with funcArr := fun t => t = timerType || m.funcArr t }

/-- What happens at the end of each round of the loop of `OnTick`. -/
def leave (pair : Pair) (m : TimerManager μ) : TimerManager μ :=
  { m with
    map := m.map.erase pair.2
    timerHeap := m.timerHeap.pop
    left := m.left ++ (m.getTimer pair.2).toList.map fun timer => ⟨timer, m.ticks, m.now⟩
    missing := if (m.getTimer pair.2).isSome then m.missing else m.missing ++ [pair.2] }

/-- The timer of a pair, if its handler is to be called. -/
def trigger (pair : Pair) (m : TimerManager μ) : Option (Timer μ) :=
  (m.getTimer pair.2).filter fun timer => !timer.getIsDelete && m.funcArr timer.getTimerType

/-- The loop of `OnTick`, over the pairs of the heap, from each of which it goes on to the next. -/
def collect : List Pair → TimerManager μ → List (Timer μ) × TimerManager μ
  | [], m => ([], m)
  | pair :: pairs, m =>
    if m.now < pair.1 then ([], m)
    else
      let (triggers, m') := collect pairs (m.leave pair)
      ((m.trigger pair).toList ++ triggers, m')

end TimerManager

open TimerManager

/-- What a handler may do, and the server outside of the ticks. -/
inductive TimerCall (μ : Type)
  | createTimer (milliSecond : UInt64) (timerType : ENTimerType)
  | releaseTimer (timerId : UInt32)
  | setSessionId (timerId sessionId : UInt32)
  | setInternalMessage (timerId : UInt32) (message : μ)
  | addTimerHandle (timerType : ENTimerType)
  | updateClock (now : UInt64)

/-- A call of the manager. -/
def TimerCall.apply : TimerCall μ → TimerManager μ → Option (TimerManager μ)
  | .createTimer milliSecond timerType, m => (m.createTimer milliSecond timerType).map Prod.snd
  | .releaseTimer timerId, m => some (m.releaseTimer timerId)
  | .setSessionId timerId sessionId, m => some (m.setSessionId timerId sessionId)
  | .setInternalMessage timerId message, m => some (m.setInternalMessage timerId message)
  | .addTimerHandle timerType, m => some (m.addTimerHandle timerType)
  | .updateClock now, m => some { m with now := now }

namespace TimerManager

/-- The handlers of the timers are called in order, where `handler timer` are the calls that the
handler makes. -/
def callHandlers (handler : Timer μ → List (TimerCall μ)) :
    List (Timer μ) → TimerManager μ → Option (TimerManager μ)
  | [], m => some m
  | timer :: timers, m =>
    (runSteps TimerCall.apply (handler timer)
      { m with called := m.called ++ [(m.ticks, timer)] }).bind (callHandlers handler timers)

/-- `OnTick`. -/
def onTick (handler : Timer μ → List (TimerCall μ)) (m : TimerManager μ) :
    Option (TimerManager μ) :=
  let (triggers, m') := collect m.timerHeap.items { m with ticks := m.ticks + 1 }
  callHandlers handler triggers m'

end TimerManager

/-- A call of the manager, or a tick. -/
inductive TimerEvent (μ : Type)
  | call (call : TimerCall μ)
  | onTick (handler : Timer μ → List (TimerCall μ))

/-- A call that returns. -/
def step : TimerEvent μ → TimerManager μ → Option (TimerManager μ)
  | .call call, m => call.apply m
  | .onTick handler, m => m.onTick handler

/-! ### Timers and pairs -/

namespace TimerManager

/-- The pairs of the heap are those of the timers in the map. -/
def InStep (m : TimerManager μ) : Prop :=
  m.timerHeap.items.Perm (entryTags (fun _ timer => timer.toPair) m.map)

/-- Timers are stored under their ids with the pairs with which they were created, and each timer
that was ever created is stored or has left, once. -/
structure Counted (m : TimerManager μ) : Prop where
  key : ∀ timerId timer, m.map.lookup timerId = some timer → timer.getTimerId = timerId
  pair : ∀ timerId timer, m.map.lookup timerId = some timer →
    m.created[timer.serial]? = some timer.toPair
  pairLeft : ∀ d ∈ m.left, m.created[d.timer.serial]? = some d.timer.toPair
  once : (m.left.map (fun d => d.timer.serial) ++
    entryTags (fun _ timer => timer.serial) m.map).Perm (List.range m.created.length)

/-- What the ticks did: timers left when their time had come, in the order of their pairs within a
tick, and the manager never found a pair without a timer. -/
structure Ticked (m : TimerManager μ) : Prop where
  due : ∀ d ∈ m.left, d.timer.getTimerMilliSeconds ≤ d.now
  tick : ∀ d ∈ m.left, d.tick ≤ m.ticks
  order : m.left.Pairwise fun d d' => d.tick = d'.tick → pairLe d.timer.toPair d'.timer.toPair
  found : m.missing = []

/-- The timers that left, with their ticks. -/
def departures (m : TimerManager μ) : List (ℕ × Timer μ) := m.left.map fun d => (d.tick, d.timer)

/-- The invariant, when the handlers of the timers `triggers` are still to be called. -/
structure Inv (triggers : List (Timer μ)) (m : TimerManager μ) : Prop where
  inStep : m.InStep
  counted : m.Counted
  ticked : m.Ticked
  called : (m.called ++ triggers.map fun timer => (m.ticks, timer)).Sublist m.departures

variable {m m' : TimerManager μ} {timer : Timer μ} {timerId : UInt32} {triggers : List (Timer μ)}

/-! ### Creation -/

namespace Counted

theorem put (hm : m.Counted) (hnot : timer.getTimerId ∉ m.map) : (m.put timer).Counted := by
  have hold : ∀ {serial : ℕ} {pair : Pair}, m.created[serial]? = some pair →
      (m.created ++ [timer.toPair])[serial]? = some pair := fun h => by
    rw [List.getElem?_append_left (List.getElem?_eq_some_iff.mp h).1, h]
  refine ⟨fun id t hlookup => ?_, fun id t hlookup => ?_, fun d hd => hold (hm.pairLeft d hd), ?_⟩
  · rw [TimerManager.put, Table.lookup_insert] at hlookup
    split_ifs at hlookup with hid
    · cases hlookup
      exact hid.symm
    · exact hm.key id t hlookup
  · rw [TimerManager.put, Table.lookup_insert] at hlookup
    split_ifs at hlookup with hid
    · cases hlookup
      exact List.getElem?_concat_length
    · exact hold (hm.pair id t hlookup)
  · simp only [TimerManager.put]
    rw [entryTags_insert_of_notMem hnot, List.length_append, List.length_singleton,
      List.range_succ]
    exact (List.perm_middle.trans (hm.once.cons _)).trans (List.perm_append_singleton _ _).symm

end Counted

/-- A creation that returns leaves the manager as it is when that is full, and else adds a timer
under an id that is not in use. -/
theorem createTimer_cases {milliSecond : UInt64} {timerType : ENTimerType}
    {result : Option UInt32 × TimerManager μ}
    (h : m.createTimer milliSecond timerType = some result) :
    m.full ∧ result = (none, m) ∨
    ∃ timerId curMaxId, ∃ timer : Timer μ, timerId ∉ m.map ∧ timer =
        { timerId := some timerId, timerType := some timerType,
          timerMilliSeconds := some (m.now + milliSecond) } ∧
      result = (some timerId,
        { m.put timer with curMaxId := curMaxId, timerHeap := m.timerHeap.push timer.toPair }) := by
  rw [createTimer] at h
  split_ifs at h with hfull
  · exact .inl ⟨hfull, (Option.some.inj h).symm⟩
  · obtain ⟨⟨timerId, curMaxId⟩, hfind, hresult⟩ := Option.map_eq_some_iff.mp h
    exact .inr ⟨timerId, curMaxId, _, findId_notMem hfind, rfl, hresult.symm⟩

theorem InStep.put_push (hm : m.InStep) {curMaxId : UInt32} (hnot : timer.getTimerId ∉ m.map) :
    { m.put timer with
      curMaxId := curMaxId, timerHeap := m.timerHeap.push timer.toPair }.InStep := by
  rw [InStep]
  simp only [put]
  rw [entryTags_insert_of_notMem hnot]
  exact (PriorityQueue.push_perm _ _).trans (hm.cons _)

/-! ### Changes of a timer -/

/-- What a change of a timer in its place leaves as it is. -/
structure Keeps (f : Timer μ → Timer μ) : Prop where
  timerId : ∀ timer, (f timer).getTimerId = timer.getTimerId
  toPair : ∀ timer, (f timer).toPair = timer.toPair
  serial : ∀ timer, (f timer).serial = timer.serial

theorem Inv.modify (hm : m.Inv triggers) {f : Timer μ → Timer μ} (hf : Keeps f) :
    (modify timerId f m).Inv triggers := by
  have hnew : ∀ id t, (Table.modify timerId f m.map).lookup id = some t →
      ∃ t', m.map.lookup id = some t' ∧ t.getTimerId = t'.getTimerId ∧ t.toPair = t'.toPair ∧
        t.serial = t'.serial := by
    intro id t hlookup
    rw [Table.lookup_modify] at hlookup
    split_ifs at hlookup with hid
    · obtain ⟨t', ht', rfl⟩ := Option.map_eq_some_iff.mp hlookup
      exact ⟨t', hid ▸ ht', hf.timerId t', hf.toPair t', hf.serial t'⟩
    · exact ⟨t, hlookup, rfl, rfl, rfl⟩
  refine ⟨?_, ⟨fun id t hlookup => ?_, fun id t hlookup => ?_, hm.counted.pairLeft, ?_⟩,
    { hm.ticked with }, hm.called⟩
  · exact hm.inStep.trans (entryTags_modify_perm hf.toPair).symm
  · obtain ⟨t', ht', hid, -⟩ := hnew id t hlookup
    exact hid.trans (hm.counted.key id t' ht')
  · obtain ⟨t', ht', -, hpair, hserial⟩ := hnew id t hlookup
    rw [hpair, hserial]
    exact hm.counted.pair id t' ht'
  · exact ((entryTags_modify_perm hf.serial).append_left _).trans hm.counted.once

/-- A call changes none of what the ticks did. -/
theorem Inv.call (hm : m.Inv triggers) {call : TimerCall μ} (hcall : call.apply m = some m') :
    m'.Inv triggers := by
  cases call with
  | createTimer milliSecond timerType =>
    obtain ⟨result, hresult, rfl⟩ := Option.map_eq_some_iff.mp hcall
    obtain ⟨-, rfl⟩ | ⟨timerId, curMaxId, timer, hnot, htimer, rfl⟩ := createTimer_cases hresult
    · exact hm
    · have hkey : timer.getTimerId ∉ m.map := by
        rw [htimer]
        exact hnot
      have hput := hm.counted.put hkey
      exact ⟨hm.inStep.put_push hkey, { hput with },
        { hm.ticked with }, hm.called⟩
  | releaseTimer timerId =>
    cases hcall
    exact hm.modify ⟨fun _ => rfl, fun _ => rfl, fun _ => rfl⟩
  | setSessionId timerId sessionId =>
    cases hcall
    exact hm.modify ⟨fun _ => rfl, fun _ => rfl, fun _ => rfl⟩
  | setInternalMessage timerId message =>
    cases hcall
    exact hm.modify ⟨fun _ => rfl, fun _ => rfl, fun _ => rfl⟩
  | addTimerHandle timerType =>
    cases hcall
    exact ⟨hm.inStep, { hm.counted with },
      { hm.ticked with }, hm.called⟩
  | updateClock now =>
    cases hcall
    exact ⟨hm.inStep, { hm.counted with },
      { hm.ticked with }, hm.called⟩

theorem Inv.calls (hm : m.Inv triggers) {calls : List (TimerCall μ)}
    (hcalls : runSteps TimerCall.apply calls m = some m') : m'.Inv triggers := by
  induction calls generalizing m with
  | nil =>
    cases hcalls
    exact hm
  | cons call calls ih =>
    obtain ⟨m₁, hcall, hrest⟩ := Option.bind_eq_some_iff.mp hcalls
    exact ih (hm.call hcall) hrest

/-! ### Ticks -/

/-- Before the end of the loop the pairs of the heap are not before those that left in the tick. -/
def Ordered (m : TimerManager μ) : Prop :=
  ∀ d ∈ m.left, d.tick = m.ticks → ∀ pair ∈ m.timerHeap.items, pairLe d.timer.toPair pair

/-- The top of the heap is the pair of a timer that is stored. -/
theorem exists_timer_of_top {pair : Pair} (hstep : m.InStep) (hm : m.Counted)
    (htop : m.timerHeap.top = some pair) :
    ∃ timer : Timer μ, timer.toPair = pair ∧ m.getTimer pair.2 = some timer := by
  have hmem : pair ∈ m.timerHeap.items := by
    rw [PriorityQueue.items_eq htop]
    exact List.mem_cons_self
  obtain ⟨timerId, timer, hlookup, rfl⟩ := mem_entryTags.mp (hstep.mem_iff.mp hmem)
  obtain rfl := hm.key timerId timer hlookup
  exact ⟨timer, rfl, hlookup⟩

section Leave

variable (htop : m.timerHeap.top = some timer.toPair)
  (hget : m.getTimer timer.toPair.2 = some timer)

include hget

theorem leave_eq : m.leave timer.toPair = { m with
    map := m.map.erase timer.toPair.2, timerHeap := m.timerHeap.pop,
    left := m.left ++ [⟨timer, m.ticks, m.now⟩] } := by
  rw [leave, hget]
  rfl

theorem leave_departures :
    (m.leave timer.toPair).departures = m.departures ++ [(m.ticks, timer)] := by
  rw [leave_eq hget]
  exact List.map_append

theorem Counted.leave (hm : m.Counted) : (m.leave timer.toPair).Counted := by
  rw [leave_eq hget]
  have hold : ∀ id t, (m.map.erase timer.toPair.2).lookup id = some t →
      m.map.lookup id = some t := by
    intro id t hlookup
    rw [Table.lookup_erase] at hlookup
    exact (Option.ite_none_left_eq_some.mp hlookup).2
  refine ⟨fun id t h => hm.key id t (hold id t h), fun id t h => hm.pair id t (hold id t h),
    fun d hd => ?_, ?_⟩
  · obtain hd | hd := List.mem_append.mp hd
    · exact hm.pairLeft d hd
    · rw [List.mem_singleton.mp hd]
      exact hm.pair _ timer hget
  · simp only [List.map_append, List.map_cons, List.map_nil, List.append_assoc,
      List.singleton_append]
    exact ((entryTags_perm hget).symm.append_left _).trans hm.once

include htop

/-- Both structures lose the same timer in a round of the loop. -/
theorem InStep.leave (hstep : m.InStep) : (m.leave timer.toPair).InStep := by
  rw [leave_eq hget]
  have hcons : (timer.toPair :: m.timerHeap.pop.items).Perm
      (timer.toPair :: entryTags (fun _ timer => timer.toPair) (m.map.erase timer.toPair.2)) := by
    rw [← PriorityQueue.items_eq htop]
    exact hstep.trans (entryTags_perm hget)
  exact hcons.cons_inv

theorem Ticked.leave (hm : m.Ticked) (hord : m.Ordered)
    (hdue : timer.getTimerMilliSeconds ≤ m.now) : (m.leave timer.toPair).Ticked := by
  rw [leave_eq hget]
  refine ⟨fun d hd => ?_, fun d hd => ?_, ?_, hm.found⟩
  · obtain hd | hd := List.mem_append.mp hd
    · exact hm.due d hd
    · rw [List.mem_singleton.mp hd]
      exact hdue
  · obtain hd | hd := List.mem_append.mp hd
    · exact hm.tick d hd
    · rw [List.mem_singleton.mp hd]
  · refine List.pairwise_append.mpr
      ⟨hm.order, List.pairwise_singleton _ _, fun d hd d' hd' heq => ?_⟩
    obtain rfl := List.mem_singleton.mp hd'
    refine hord d hd heq _ ?_
    rw [PriorityQueue.items_eq htop]
    exact List.mem_cons_self

theorem Ordered.leave (hord : m.Ordered) : (m.leave timer.toPair).Ordered := by
  rw [leave_eq hget]
  intro d hd heq pair hpair
  obtain hd | hd := List.mem_append.mp hd
  · refine hord d hd heq pair ?_
    rw [PriorityQueue.items_eq htop]
    exact List.mem_cons_of_mem _ hpair
  · rw [List.mem_singleton.mp hd]
    exact PriorityQueue.top_rel htop hpair

end Leave

theorem trigger_sublist (hget : m.getTimer timer.toPair.2 = some timer) :
    (m.trigger timer.toPair).toList.Sublist [timer] := by
  rw [trigger, hget, Option.filter_some]
  split_ifs
  · exact List.Sublist.refl _
  · exact List.nil_sublist _

/-- What the loop of `OnTick` does, from where the pairs `pairs` are in the heap. -/
theorem collect_inv (pairs : List Pair) (hpairs : m.timerHeap.items = pairs) (hstep : m.InStep)
    (hcount : m.Counted) (htick : m.Ticked) (hord : m.Ordered) :
    let result := collect pairs m
    result.2.InStep ∧ result.2.Counted ∧ result.2.Ticked ∧ result.2.called = m.called ∧
      result.2.ticks = m.ticks ∧
      ∃ gone, result.2.departures = m.departures ++ gone ∧
        (result.1.map fun timer => (m.ticks, timer)).Sublist gone := by
  induction pairs generalizing m with
  | nil =>
    exact ⟨hstep, hcount, htick, rfl, rfl, [], (List.append_nil _).symm, List.Sublist.refl _⟩
  | cons pair pairs ih =>
    rw [collect]
    split_ifs with hlater
    · exact ⟨hstep, hcount, htick, rfl, rfl, [], (List.append_nil _).symm, List.Sublist.refl _⟩
    have htop : m.timerHeap.top = some pair := by
      rw [PriorityQueue.top, hpairs, List.head?_cons]
    obtain ⟨timer, rfl, hget⟩ := exists_timer_of_top hstep hcount htop
    have hrest : (m.leave timer.toPair).timerHeap.items = pairs := by
      rw [leave_eq hget, PriorityQueue.items_pop, hpairs, List.tail_cons]
    obtain ⟨hstep', hcount', htick', hcalled, hticks, gone, hgone, hsub⟩ :=
      ih hrest (hstep.leave htop hget) (hcount.leave hget)
        (htick.leave htop hget hord (UInt64.not_lt.mp hlater)) (hord.leave htop hget)
    refine ⟨hstep', hcount', htick', hcalled, hticks, (m.ticks, timer) :: gone, ?_, ?_⟩
    · rw [hgone, leave_departures hget, List.append_assoc, List.singleton_append]
    · rw [List.map_append]
      exact ((trigger_sublist hget).map _).append hsub

/-- The next handler is called. -/
theorem Inv.fire (hm : m.Inv (timer :: triggers)) :
    { m with called := m.called ++ [(m.ticks, timer)] }.Inv triggers := by
  refine ⟨hm.inStep, { hm.counted with }, { hm.ticked with }, ?_⟩
  rw [List.append_assoc]
  exact hm.called

/-- A tick finds the timers whose handlers are to be called. -/
theorem Inv.collect (hm : m.Inv [])
    (hcollect : collect m.timerHeap.items { m with ticks := m.ticks + 1 } = (triggers, m')) :
    m'.Inv triggers := by
  have hord : { m with ticks := m.ticks + 1 }.Ordered := fun d hd heq =>
    absurd (hm.ticked.tick d hd) (by rw [show d.tick = m.ticks + 1 from heq]; omega)
  obtain ⟨hstep, hcount, hticked, hcalled, hticks, gone, hgone, hsub⟩ :=
    collect_inv m.timerHeap.items rfl (m := { m with ticks := m.ticks + 1 }) hm.inStep
      { hm.counted with }
      ⟨hm.ticked.due, fun d hd => Nat.le_succ_of_le (hm.ticked.tick d hd), hm.ticked.order,
        hm.ticked.found⟩ hord
  rw [hcollect] at hstep hcount hticked hcalled hticks hgone hsub
  refine ⟨hstep, hcount, hticked, ?_⟩
  rw [hcalled, hticks, hgone]
  refine List.Sublist.append ?_ hsub
  have hold := hm.called
  rwa [List.map_nil, List.append_nil] at hold

theorem Inv.callHandlers {handler : Timer μ → List (TimerCall μ)} (hm : m.Inv triggers)
    (hcall : callHandlers handler triggers m = some m') : m'.Inv [] := by
  induction triggers generalizing m with
  | nil =>
    cases hcall
    exact hm
  | cons timer triggers ih =>
    obtain ⟨m₁, hcalls, hrest⟩ := Option.bind_eq_some_iff.mp hcall
    exact ih (hm.fire.calls hcalls) hrest

theorem Inv.onTick {handler : Timer μ → List (TimerCall μ)} (hm : m.Inv [])
    (htick : m.onTick handler = some m') : m'.Inv [] :=
  (hm.collect rfl).callHandlers htick

/-! ### Recovery -/

/-- The manager has recovered timers and done nothing else. -/
structure Recovered (m : TimerManager μ) : Prop where
  counted : m.Counted
  left : m.left = []
  called : m.called = []
  missing : m.missing = []

theorem Recovered.putAll (timers : List (Timer μ)) (hm : m.Recovered)
    (hdistinct : (timers.map Timer.getTimerId).Nodup)
    (hnot : ∀ timer ∈ timers, timer.getTimerId ∉ m.map) :
    (timers.foldl (fun m timer => m.put timer) m).Recovered := by
  induction timers generalizing m with
  | nil => exact hm
  | cons timer timers ih =>
    rw [List.map_cons, List.nodup_cons] at hdistinct
    refine ih ⟨hm.counted.put (hnot timer List.mem_cons_self), hm.left, hm.called, hm.missing⟩
      hdistinct.2 fun timer' hmem hin => ?_
    obtain heq | hin := (AList.mem_insert _).mp hin
    · exact hdistinct.1 (heq ▸ List.mem_map_of_mem hmem)
    · exact hnot timer' (List.mem_cons_of_mem _ hmem) hin

theorem Inv.init {maxSize : ℕ} {now : UInt64} {recovered : List (Timer μ)}
    (hdistinct : (recovered.map Timer.getTimerId).Nodup)
    (hinit : init maxSize now recovered = some m) : m.Inv [] := by
  rw [TimerManager.init] at hinit
  obtain ⟨-, hsome⟩ := Option.ite_none_left_eq_some.mp hinit
  cases hsome
  have hempty : (({ maxSize, now } : TimerManager μ)).Recovered :=
    ⟨⟨by simp, by simp, by simp, List.Perm.refl _⟩, rfl, rfl, rfl⟩
  have hm := hempty.putAll (recovered.take maxSize)
    (hdistinct.sublist ((List.take_sublist maxSize recovered).map _)) (by simp)
  refine ⟨?_, { hm.counted with }, ?_, ?_⟩
  · refine (PriorityQueue.pushAll_perm _ _).trans ?_
    rw [PriorityQueue.items_empty, List.append_nil]
    rfl
  · constructor
    · simp [hm.left]
    · simp [hm.left]
    · simp [hm.left]
    · exact hm.missing
  · simp [hm.called, departures]

/-- **What holds after any calls.** -/
structure Sound (m : TimerManager μ) : Prop where
  /-- The heap has one pair for each timer in the map and nothing else. -/
  inStep : m.InStep
  /-- Timers are stored under their ids. -/
  key : ∀ timerId timer, m.map.lookup timerId = some timer → timer.getTimerId = timerId
  /-- No pair of the heap was without a timer. -/
  found : m.missing = []
  /-- Each timer that was created is stored or has left, and has left once. -/
  once : (m.left.map (fun d => d.timer.serial) ++
    entryTags (fun _ timer => timer.serial) m.map).Perm (List.range m.created.length)
  /-- A timer leaves with the pair with which it was created, and not before its deadline. -/
  due : ∀ d ∈ m.left, m.created[d.timer.serial]? = some d.timer.toPair ∧
    d.timer.getTimerMilliSeconds ≤ d.now
  /-- The handlers are called for timers that left in the same tick. -/
  called : ∀ c ∈ m.called, ∃ d ∈ m.left, (d.tick, d.timer) = c
  /-- No handler is called twice for a timer. -/
  calledOnce : (m.called.map fun c => c.2.serial).Nodup
  /-- Within a tick the handlers are called in the order of the pairs. -/
  order : m.called.Pairwise fun c c' => c.1 = c'.1 → pairLe c.2.toPair c'.2.toPair

theorem Inv.sound (hm : m.Inv []) : m.Sound := by
  have hsub : m.called.Sublist m.departures := by
    have hcalled := hm.called
    rwa [List.map_nil, List.append_nil] at hcalled
  have hserials : (m.departures.map fun c => c.2.serial).Nodup := by
    have hnodup := hm.counted.once.nodup_iff.mpr List.nodup_range
    rw [departures, List.map_map]
    exact hnodup.of_append_left
  refine ⟨hm.inStep, hm.counted.key, hm.ticked.found, hm.counted.once,
    fun d hd => ⟨hm.counted.pairLeft d hd, hm.ticked.due d hd⟩,
    fun c hc => List.mem_map.mp (hsub.subset hc), hserials.sublist (hsub.map _), ?_⟩
  exact List.Pairwise.sublist hsub (List.pairwise_map.mpr hm.ticked.order)

theorem Inv.step {m m' : TimerManager μ} {event : TimerEvent μ} (hm : m.Inv [])
    (hstep : step event m = some m') : m'.Inv [] := by
  cases event with
  | call call => exact hm.call hstep
  | onTick handler => exact hm.onTick hstep

end TimerManager

/-- **The map and the heap of the timers stay in step**, and every timer leaves both once, in a tick
that is not before its deadline. `Init` recovers any timers with distinct ids, and the events are
any calls, ticks and times, where the handlers make any calls. -/
theorem heap_in_step_with_map {maxSize : ℕ} {now : UInt64} {recovered : List (Timer μ)}
    {events : List (TimerEvent μ)} {m₀ m : TimerManager μ}
    (hdistinct : (recovered.map Timer.getTimerId).Nodup)
    (hinit : init maxSize now recovered = some m₀) (hrun : runSteps step events m₀ = some m) :
    m.Sound :=
  ((reachable_of_runSteps (guardedSteps_true events m₀) hrun).invariant (I := TimerManager.Inv [])
    (Inv.init hdistinct hinit) fun _ _ _ _ hm hstep => hm.step hstep).sound

/-- A timer that was recovered and one that is created are due in one tick; the first handler
releases the second timer, which is called all the same, and creates one more. -/
theorem in_step_after_release_in_handler :
    ∃ m, ((@init String 2 7 [{ timerId := some 0xffffff, timerMilliSeconds := some 9 }]).bind
      (runSteps step
        [.call (.addTimerHandle .sessionTimeout), .call (.createTimer 3 .sessionTimeout),
          .call (.updateClock 12),
          .onTick fun timer =>
            if timer.serial = 0 then [.releaseTimer 0, .createTimer 8 .sessionTimeout] else []])) =
      some m ∧ m.Sound := by
  refine (Option.isSome_iff_exists.mp ?_).imp fun m hrun => ⟨hrun, ?_⟩
  · decide +kernel
  obtain ⟨m₀, hinit, hsteps⟩ := Option.bind_eq_some_iff.mp hrun
  have hdistinct : ([({ timerId := some 0xffffff, timerMilliSeconds := some 9 } : Timer String)].map
      Timer.getTimerId).Nodup := List.nodup_singleton _
  exact heap_in_step_with_map hdistinct hinit hsteps

end Lsf.Timers
