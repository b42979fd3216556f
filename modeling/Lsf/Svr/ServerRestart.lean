import Lsf.Svr.BasicManager
import Lsf.Svr.SessionTimers

/-!
# A server that is restarted

On the signal to exit a server writes its sessions and its timers into shared memory, and when it
starts again it reads them from there. The signal comes between two events. A server may also be
killed, and then it starts without anything.

The timers are written without what the records have of their history.

## Main definitions

* `Storage` — the keys and sizes of the managers, and how their elements are written
* `Server.onExit`, `Server.onRun` — the source's functions
* `Primitive` — a property that the operations of a server keep
* `Bounded` — the sizes of the managers, and the keys of the timers

## Main results

* `Primitive.step` — such a property is kept by every event
* `restart_keeps` — a restart succeeds and finds all sessions and timers again
* `settled_across_restarts`
-/

namespace Lsf.Svr

/-! ### The shared memory -/

variable {κ ε : Type}

namespace SharedMem

/-- The other segments, and the calls of the system. -/
structure Apart (key : Int32) (shm shm' : SharedMem) : Prop where
  usable : shm'.usable = shm.usable
  lookup : ∀ key', key' ≠ key → shm'.segments.lookup key' = shm.segments.lookup key'

theorem Apart.refl {key : Int32} {shm : SharedMem} : Apart key shm shm := ⟨rfl, fun _ _ => rfl⟩

theorem Apart.trans {key : Int32} {shm shm' shm'' : SharedMem} (h : Apart key shm shm')
    (h' : Apart key shm' shm'') : Apart key shm shm'' :=
  ⟨h'.usable.trans h.usable, fun k hk => (h'.lookup k hk).trans (h.lookup k hk)⟩

theorem apart_delete (key : Int32) (shm : SharedMem) : Apart key shm (shm.delete key).2 := by
  rw [delete]
  split_ifs
  · exact ⟨rfl, fun k hk => AList.lookup_erase_ne hk⟩
  · exact .refl

theorem apart_create (key : Int32) (size : ℕ) (shm : SharedMem) :
    Apart key shm (shm.create key size).2 := by
  rw [create]
  split_ifs
  · exact ⟨rfl, fun k hk => AList.lookup_insert_ne hk⟩
  · exact .refl

/-- A segment is gone after `delete`. -/
theorem lookup_delete {key : Int32} {shm : SharedMem} (hshm : shm.usable = true) :
    (shm.delete key).2.segments.lookup key = none := by
  rw [delete, hshm, Bool.true_and]
  split_ifs with hexist
  · exact AList.lookup_erase _ _
  · exact Option.not_isSome_iff_eq_none.mp hexist

end SharedMem

namespace BasicManager

open SharedMem

variable {pb : Protobuf ε} {m : BasicManager κ ε} {shm : SharedMem}

/-- `Release` writes into the manager's own segment. -/
theorem apart_release : Apart m.shmKey shm (m.release pb shm).2 := by
  rw [release]
  by_cases hkey : m.shmKey = 0
  · rw [if_pos hkey]
    exact .refl
  rw [if_neg hkey]
  have hdelete : Apart m.shmKey shm (if shm.isShmExist m.shmKey = true then shm.delete m.shmKey
      else (true, shm)).2 := by
    split_ifs
    · exact apart_delete _ _
    · exact .refl
  generalize (if shm.isShmExist m.shmKey = true then shm.delete m.shmKey else (true, shm)) = r
    at hdelete ⊢
  obtain ⟨deleted, shm₁⟩ := r
  simp only at hdelete ⊢
  by_cases hdeleted : deleted = false
  · rw [if_pos hdeleted]
    exact hdelete
  rw [if_neg hdeleted]
  have hcreate := hdelete.trans (apart_create m.shmKey (m.byteSize pb) shm₁)
  generalize shm₁.create m.shmKey (m.byteSize pb) = r at hcreate ⊢
  obtain ⟨created, shm₂⟩ := r
  simp only at hcreate ⊢
  by_cases hcreated : created = false
  · rw [if_pos hcreated]
    exact hcreate
  rw [if_neg hcreated]
  split
  · exact hcreate
  · exact hcreate.trans ⟨rfl, fun k hk => AList.lookup_insert_ne hk⟩

theorem release_spec (hpb : pb.Inverse) (hm : m.Fits pb) (hshm : shm.usable = true)
    (hkey : m.shmKey ≠ 0) :
    ∃ shm', m.release pb shm = (true, shm') ∧
      shm'.segments.lookup m.shmKey = some (m.contents pb) ∧ Apart m.shmKey shm shm' := by
  obtain ⟨shm', hrelease, hsegment⟩ := release_eq_of_fits hpb hm hshm hkey
  have hapart : Apart m.shmKey shm (m.release pb shm).2 := apart_release
  rw [hrelease] at hapart
  exact ⟨shm', hrelease, hsegment, hapart⟩

variable [DecidableEq κ] {getKey : ε → κ} {shmKey : Int32} {maxSize : UInt64}
  {m' : BasicManager κ ε} {shm' : SharedMem}

/-- `Init` deletes the manager's own segment, and no other. -/
theorem init_shm (hshm : shm.usable = true)
    (h : init pb getKey shmKey maxSize shm = some (m', shm')) :
    Apart shmKey shm shm' ∧ (shmKey ≠ 0 → shm'.segments.lookup shmKey = none) := by
  rw [init] at h
  obtain ⟨-, h⟩ := Option.ite_none_left_eq_some.mp h
  split_ifs at h with hexist
  · obtain ⟨map, -, heq⟩ := Option.map_eq_some_iff.mp h
    cases heq
    exact ⟨apart_delete _ _, fun _ => lookup_delete hshm⟩
  · cases h
    refine ⟨.refl, fun hkey => ?_⟩
    have hnot := fun h => hexist ⟨hkey, h⟩
    exact Option.not_isSome_iff_eq_none.mp hnot

/-- `Init` finds the elements of a segment again, under their keys. -/
theorem init_recovers (hpb : pb.Inverse) (hm : m.Fits pb)
    (hlaw : ∀ key e, m.map.lookup key = some e → getKey e = key)
    (hcount : m.map.entries.length ≤ maxSize.toNat) (hsize : maxSize ≠ 0) (hkey : m.shmKey ≠ 0)
    (hshm : shm.usable = true) (hsegment : shm.segments.lookup m.shmKey = some (m.contents pb)) :
    ∃ m' shm', init pb getKey m.shmKey maxSize shm = some (m', shm') ∧
      (∀ key, m'.map.lookup key = m.map.lookup key) ∧ m'.map.entries.length ≤ maxSize.toNat ∧
      Apart m.shmKey shm shm' ∧ shm'.segments.lookup m.shmKey = none := by
  obtain ⟨m', shm', hinit, hmap⟩ := init_eq_of_fits getKey hpb hm hcount hsize hkey hsegment
  obtain ⟨hapart, hnone⟩ := init_shm hshm hinit
  refine ⟨m', shm', hinit, fun key => ?_, ?_, hapart, hnone hkey⟩
  · rw [hmap]
    exact Table.lookup_foldl_insert hlaw key
  · rw [hmap]
    refine (Table.length_foldl_insert_le getKey m.elems ∅).trans ?_
    rw [elems, List.length_map]
    exact (Nat.zero_add _).trans_le hcount

/-- A manager without a segment starts empty. -/
theorem init_of_none (hsize : maxSize ≠ 0) (hnone : shm.segments.lookup shmKey = none) :
    init pb getKey shmKey maxSize shm = some ({ isInit := true, shmKey, maxSize }, shm) := by
  have hexist : ¬ (shmKey ≠ 0 ∧ shm.isShmExist shmKey = true) := by
    rintro ⟨-, h⟩
    rw [isShmExist, hnone] at h
    cases h
  rw [init, if_neg hsize, if_neg hexist]

end BasicManager

end Lsf.Svr

namespace Lsf.Sessions

open Timers (TimerManager Timer TimerCall)

variable {μ δ ω : Type}

/-! ### The restart -/

/-- A timer as it is written, `data::Timer`. -/
structure TimerMessage (μ : Type) where
  timerId : Option UInt32
  timerMilliSeconds : Option UInt64
  timerType : Option Timers.ENTimerType
  isDelete : Option Bool
  sessionId : Option UInt32
  internalMessage : Option μ

namespace TimerMessage

/-- The message of a timer. -/
def ofTimer (timer : Timer μ) : TimerMessage μ :=
  ⟨timer.timerId, timer.timerMilliSeconds, timer.timerType, timer.isDelete, timer.sessionId,
    timer.internalMessage⟩

/-- The timer of a message. -/
def toTimer (message : TimerMessage μ) : Timer μ where
  timerId := message.timerId
  timerMilliSeconds := message.timerMilliSeconds
  timerType := message.timerType
  isDelete := message.isDelete
  sessionId := message.sessionId
  internalMessage := message.internalMessage

/-- `GetKey()`, the `timer_id()`. -/
def getKey (message : TimerMessage μ) : UInt32 := message.timerId.getD 0

end TimerMessage

open Svr (Protobuf SharedMem BasicManager)

/-- What the configuration has for the managers, and how their elements are written. -/
structure Storage (μ δ : Type) where
  session : Protobuf (Session μ δ)
  timer : Protobuf (TimerMessage μ)
  sessionKey : Int32
  sessionSize : UInt64
  timerKey : Int32
  timerSize : UInt64

/-- The managers have room and segments of their own. -/
structure Storage.Usable (st : Storage μ δ) : Prop where
  session : st.session.Inverse
  timer : st.timer.Inverse
  sessionKey : st.sessionKey ≠ 0
  timerKey : st.timerKey ≠ 0
  distinct : st.sessionKey ≠ st.timerKey
  sessionSize : st.sessionSize ≠ 0
  timerSize : st.timerSize ≠ 0

namespace Server

variable (st : Storage μ δ)

/-- The base of `SessionManager`. -/
def sessionManager (v : Server μ δ ω) : BasicManager UInt32 (Session μ δ) :=
  { isInit := true, map := v.sessions, shmKey := st.sessionKey, maxSize := st.sessionSize }

/-- The base of `TimerManager`. -/
def timerManager (v : Server μ δ ω) : BasicManager UInt32 (TimerMessage μ) where
  isInit := true
  map := Table.mapValues TimerMessage.ofTimer v.timers.map
  shmKey := st.timerKey
  maxSize := st.timerSize

/-- The sizes of the sessions and timers are of type `int`. -/
structure Fits (v : Server μ δ ω) : Prop where
  sessions : (v.sessionManager st).Fits st.session
  timers : (v.timerManager st).Fits st.timer

/-- `OnExit`, where both managers call `Release`. -/
def onExit (v : Server μ δ ω) (shm : SharedMem) : SharedMem :=
  ((v.timerManager st).release st.timer ((v.sessionManager st).release st.session shm).2).2

/-- The server with the recovered sessions and timers, after the handlers were registered. -/
def recovered (world : ω) (sessions : Table UInt32 (Session μ δ)) (timers : TimerManager μ) :
    Server μ δ ω where
  timers := (timers.addTimerHandle .sessionTimeout).addTimerHandle .asyncInternalMessage
  sessions
  maxSize := st.sessionSize.toNat
  curMaxId := sessions.entries.foldl (fun id e => max id e.2.getSessionId) 0
  world

/-- `OnRun`, where both managers call `Init`. -/
def onRun (now : UInt64) (world : ω) (shm : SharedMem) : Option (Server μ δ ω × SharedMem) :=
  (BasicManager.init st.session Session.getSessionId st.sessionKey st.sessionSize shm).bind
    fun (sessions, shm) =>
      (BasicManager.init st.timer TimerMessage.getKey st.timerKey st.timerSize shm).bind
        fun (timers, shm) =>
          (TimerManager.init st.timerSize.toNat now
            (timers.map.entries.map fun e => e.2.toTimer)).map fun timers =>
              (recovered st world sessions.map timers, shm)

end Server

/-- An event of a server, with those that end one run of it and begin the next. -/
inductive ServerEvent (μ ω : Type)
  | event (rounds : ℕ) (event : Event μ)
  /-- The server gets the signal to exit and is started again. -/
  | restart (now : UInt64) (world : ω)
  /-- The server is killed and started again. -/
  | crash (now : UInt64) (world : ω)

/-- The clock does not go back. -/
def serverStep [Inhabited δ] (h : Handlers μ δ ω) (st : Storage μ δ) :
    ServerEvent μ ω → Server μ δ ω × SharedMem → Option (Server μ δ ω × SharedMem)
  | .event rounds event, (v, shm) => (step h (rounds, event) v).map (·, shm)
  | .restart now world, (v, shm) =>
    if v.timers.now ≤ now then Server.onRun st now world (v.onExit st shm) else none
  | .crash now world, (v, shm) =>
    if v.timers.now ≤ now then Server.onRun st now world shm else none

/-! ### Properties that the operations keep -/

section Operations

variable [Inhabited δ] {v v' : Server μ δ ω} {id : UInt32}

/-- A property that the operations keep of which the events consist. -/
structure Primitive (P : Server μ δ ω → Prop) : Prop where
  create : ∀ {v v' created}, P v → v.createSession = some (created, v') → P v'
  modify : ∀ {v id f}, P v → (∀ s, (f s).sessionId = s.sessionId) → P (v.modify id f)
  erase : ∀ {v id}, P v → P { v with sessions := v.sessions.erase id }
  call : ∀ {v timers} (call : TimerCall μ), P v → call.apply v.timers = some timers →
    P { v with timers }
  collect : ∀ {v}, P v → P { v with timers := (TimerManager.collect v.timers.timerHeap.items
    { v.timers with ticks := v.timers.ticks + 1 }).2 }
  world : ∀ {v} (world : ω), P v → P { v with world }

/-- The state machines keep a property. -/
def KeepsProp (P : Server μ δ ω → Prop) (run : UInt32 → Server μ δ ω → Option (Server μ δ ω)) :
    Prop :=
  ∀ {id v v'}, P v → run id v = some v' → P v'

namespace Primitive

variable {P : Server μ δ ω → Prop} {h : Handlers μ δ ω}
  {run : UInt32 → Server μ δ ω → Option (Server μ δ ω)} {message : μ} {session : Session μ δ}

section

variable (hP : Primitive P)

include hP

theorem createTimer {milliSecond : UInt64} {timerType : Timers.ENTimerType}
    {created : Option UInt32} {timers : TimerManager μ} (hv : P v)
    (hcreate : v.timers.createTimer milliSecond timerType = some (created, timers)) :
    P { v with timers } := by
  refine hP.call (.createTimer milliSecond timerType) hv ?_
  rw [TimerCall.apply, hcreate]
  rfl

theorem releaseTimer {timerId : UInt32} (hv : P v) :
    P { v with timers := v.timers.releaseTimer timerId } :=
  hP.call (.releaseTimer timerId) hv rfl

theorem releaseSession (hv : P v) : P (v.releaseSession id) := by
  rw [Server.releaseSession]
  cases (v.getSession id).bind Session.timerId with
  | none => exact hP.erase hv
  | some timerId => exact hP.erase (hP.releaseTimer hv)

theorem setSessionTimer {milliSecond : UInt64} (hv : P v)
    (hset : v.setSessionTimer id milliSecond = some v') : P v' := by
  obtain ⟨⟨created, timers⟩, hcreate, heq⟩ := Option.map_eq_some_iff.mp hset
  have htimers := hP.createTimer hv hcreate
  cases created with
  | none =>
    cases heq
    exact htimers
  | some timerId =>
    cases heq
    refine hP.modify (v := { v with timers := timers.setSessionId timerId id }) ?_ fun _ => rfl
    exact hP.call (v := { v with timers }) (.setSessionId timerId id) htimers rfl

theorem postAsyncInternalMessage (hv : P v)
    (hpost : v.postAsyncInternalMessage message = some v') : P v' := by
  obtain ⟨⟨created, timers⟩, hcreate, heq⟩ := Option.map_eq_some_iff.mp hpost
  have htimers := hP.createTimer hv hcreate
  cases created with
  | none =>
    cases heq
    exact htimers
  | some timerId =>
    cases heq
    exact hP.call (v := { v with timers }) (.setInternalMessage timerId message) htimers rfl

theorem getRequest (hrun : KeepsProp P run) {state : BasicHandler.ENSessionState} (hv : P v)
    (hget : v.getRequest run state message = some v') : P v' := by
  obtain ⟨⟨created, v₁⟩, hcreate, hrest⟩ := Option.bind_eq_some_iff.mp hget
  have hv₁ := hP.create hv hcreate
  cases created with
  | none =>
    cases hrest
    exact hv₁
  | some id =>
    refine hrun (hP.modify hv₁ ?_) hrest
    exact fun _ => rfl

theorem postInternalMessage (hrun : KeepsProp P run) (hv : P v)
    (hpost : v.postInternalMessage h run message = some v') : P v' := by
  rw [Server.postInternalMessage] at hpost
  split_ifs at hpost with hrequest
  · exact hP.getRequest hrun hv hpost
  · cases hpost
    exact hv

theorem postAll (hrun : KeepsProp P run) {posts : List (Post μ)} (hv : P v)
    (hpost : v.postAll h run posts = some v') : P v' := by
  induction posts generalizing v with
  | nil =>
    cases hpost
    exact hv
  | cons p posts ih =>
    obtain ⟨v₁, hp, hrest⟩ := Option.bind_eq_some_iff.mp hpost
    refine ih ?_ hrest
    cases p with
    | internalMessage message => exact hP.postInternalMessage hrun hv hp
    | asyncInternalMessage message => exact hP.postAsyncInternalMessage hv hp

theorem runStateMachine (fuel : ℕ) : KeepsProp P (Server.runStateMachine h fuel) := by
  induction fuel with
  | zero => exact fun _ hrun => by cases hrun
  | succ fuel ih =>
    intro id v v' hv hrun
    obtain ⟨session, hget, hround⟩ := Option.bind_eq_some_iff.mp hrun
    cases hwait : waitTime session.sessionState with
    | some milliSecond =>
      rw [hwait] at hround
      exact hP.setSessionTimer hv hround
    | none =>
      simp only [hwait] at hround
      split_ifs at hround with hfinish
      · obtain ⟨v₁, hposts, rfl⟩ := Option.map_eq_some_iff.mp hround
        exact hP.releaseSession (hP.postAll ih (hP.world _ hv) hposts)
      · obtain ⟨v₁, hposts, hrest⟩ := Option.bind_eq_some_iff.mp hround
        have hv₁ : P v₁ := by
          refine hP.postAll ih (hP.modify (hP.world (h.on session v.world).world hv) ?_) hposts
          exact fun _ => rfl
        refine ih (hP.modify hv₁ ?_) hrest
        exact fun _ => rfl

theorem resume (hrun : KeepsProp P run) {state : BasicHandler.ENSessionState} (hv : P v)
    (hresume : v.resume run id state = some v') : P v' := by
  refine hrun (hP.modify hv ?_) hresume
  exact fun _ => rfl

theorem getServerResponse (hrun : KeepsProp P run) (hv : P v)
    (hresponse : v.getServerResponse h run id session message = some v') : P v' := by
  have hcopy : P (v.modify id fun session => { session with data.svrResponse := some message }) :=
    hP.modify hv fun _ => rfl
  rw [Server.getServerResponse] at hresponse
  cases hawait : BasicHandler.awaited session.sessionState with
  | none =>
    rw [hawait] at hresponse
    cases hresponse
    exact hcopy
  | some p =>
    simp only [hawait] at hresponse
    split_ifs at hresponse with htype
    · cases hresponse
      exact hcopy
    · exact hP.resume hrun (hP.releaseTimer hcopy) hresponse

theorem waitResponseTimeout (hrun : KeepsProp P run) (hv : P v)
    (htimeout : v.waitResponseTimeout run id session = some v') : P v' := by
  rw [Server.waitResponseTimeout] at htimeout
  split at htimeout
  · cases htimeout
    exact hv
  · exact hP.resume hrun hv htimeout

theorem onTimer (hrun : KeepsProp P run) {timer : Timer μ} (hv : P v)
    (htimer : v.onTimer h run timer = some v') : P v' := by
  rw [Server.onTimer] at htimer
  split at htimer
  · split at htimer
    · cases htimer
      exact hv
    · exact hP.waitResponseTimeout hrun hv htimer
  · split at htimer
    · cases htimer
      exact hv
    · exact hP.postInternalMessage hrun hv htimer
  · cases htimer
    exact hv

theorem onTimers (hrun : KeepsProp P run) {triggers : List (Timer μ)} (hv : P v)
    (htimers : v.onTimers h run triggers = some v') : P v' := by
  induction triggers generalizing v with
  | nil =>
    cases htimers
    exact hv
  | cons timer triggers ih =>
    obtain ⟨v₁, htimer, hrest⟩ := Option.bind_eq_some_iff.mp htimers
    exact ih (hP.onTimer hrun hv htimer) hrest

theorem checkLeak (hv : P v) : P v.checkLeak := by
  have hall : ∀ (ids : List UInt32) {v : Server μ δ ω}, P v →
      P (ids.foldl (fun v sessionId => v.releaseSession sessionId) v) := by
    intro ids
    induction ids with
    | nil => exact fun hv => hv
    | cons id ids ih => exact fun hv => ih (hP.releaseSession hv)
  exact hall _ hv

/-- **What the operations keep is kept by every event.** -/
theorem step {event : ℕ × Event μ} (hv : P v) (hstep : step h event v = some v') : P v' := by
  obtain ⟨fuel, event⟩ := event
  have hrun : KeepsProp P (Server.runStateMachine h fuel) := hP.runStateMachine fuel
  cases event with
  | clientRequest message => exact hP.getRequest hrun hv hstep
  | serverMessage message =>
    rw [Sessions.step, Server.onServerMessage] at hstep
    split_ifs at hstep with hrequest
    · exact hP.getRequest hrun hv hstep
    · split at hstep
      · cases hstep
        exact hv
      · exact hP.getServerResponse hrun hv hstep
  | internalMessage message => exact hP.postInternalMessage hrun hv hstep
  | curlFinish sessionId result content =>
    rw [Sessions.step, Server.onCurlFinish] at hstep
    split at hstep
    · cases hstep
      exact hv
    · refine hP.resume hrun (hP.modify (hP.releaseTimer hv) ?_) hstep
      exact fun _ => rfl
  | tick => exact hP.onTimers hrun (hP.collect hv) hstep
  | checkLeak =>
    cases hstep
    exact hP.checkLeak hv
  | updateClock now =>
    cases hstep
    exact hP.call (.updateClock now) hv rfl

end

end Primitive

end Operations

/-! ### Sizes and keys -/

section Sizes

variable {m m' : TimerManager μ}

/-- The manager has room for its timers. -/
def Fits (m : TimerManager μ) : Prop := m.map.entries.length ≤ m.maxSize

theorem Fits.call {call : TimerCall μ} (hm : Fits m) (hcall : call.apply m = some m') :
    Fits m' ∧ m'.maxSize = m.maxSize := by
  have hmodify : ∀ timerId f,
      Fits (m.modify timerId f) ∧ (m.modify timerId f).maxSize = m.maxSize := fun timerId f =>
     ⟨(Table.length_modify m.map timerId f).trans_le hm, rfl⟩
  cases call with
  | createTimer milliSecond timerType =>
    obtain ⟨result, hresult, rfl⟩ := Option.map_eq_some_iff.mp hcall
    rw [TimerManager.createTimer] at hresult
    split_ifs at hresult with hfull
    · cases hresult
      exact ⟨hm, rfl⟩
    · obtain ⟨⟨timerId, curMaxId⟩, hfind, rfl⟩ := Option.map_eq_some_iff.mp hresult
      refine ⟨?_, rfl⟩
      have hnot : timerId ∉ m.map := Timers.findId_notMem hfind
      rw [TimerManager.full, decide_eq_true_eq, Nat.not_le] at hfull
      exact (Table.length_insert_of_notMem hnot).trans_le hfull
  | releaseTimer timerId =>
    cases hcall
    exact hmodify _ _
  | setSessionId timerId sessionId =>
    cases hcall
    exact hmodify _ _
  | setInternalMessage timerId message =>
    cases hcall
    exact hmodify _ _
  | addTimerHandle timerType =>
    cases hcall
    exact ⟨hm, rfl⟩
  | updateClock now =>
    cases hcall
    exact ⟨hm, rfl⟩

theorem Fits.collect (pairs : List Timers.Pair) (hm : Fits m) :
    Fits (TimerManager.collect pairs m).2 ∧
      (TimerManager.collect pairs m).2.maxSize = m.maxSize := by
  induction pairs generalizing m with
  | nil => exact ⟨hm, rfl⟩
  | cons pair pairs ih =>
    rw [TimerManager.collect]
    split_ifs
    · exact ⟨hm, rfl⟩
    · exact ih (m := m.leave pair) ((Table.length_erase_le m.map pair.2).trans hm)

end Sizes

/-- The managers are as large as they may be at most, and the timers are in order. -/
structure Bounded (st : Storage μ δ) (v : Server μ δ ω) : Prop where
  maxSize : v.maxSize = st.sessionSize.toNat
  maxTimers : v.timers.maxSize = st.timerSize.toNat
  sessions : v.sessions.entries.length ≤ v.maxSize
  timers : Fits v.timers
  inv : v.timers.Inv []

theorem primitive_bounded [Inhabited δ] (st : Storage μ δ) :
    Primitive (Bounded st : Server μ δ ω → Prop) where
  create {v v' created} hv hcreate := by
    rw [Server.createSession] at hcreate
    split_ifs at hcreate with hfull
    · cases hcreate
      exact hv
    · obtain ⟨⟨id, curMaxId⟩, hfind, heq⟩ := Option.map_eq_some_iff.mp hcreate
      cases heq
      refine { hv with sessions := ?_ }
      exact (Table.length_insert_of_notMem (Timers.findId_notMem hfind)).trans_le
        (Nat.not_le.mp hfull)
  modify {v id f} hv _ :=
    { hv with sessions := (Table.length_modify v.sessions id f).trans_le hv.sessions }
  erase {v id} hv :=
    { hv with sessions := (Table.length_erase_le v.sessions id).trans hv.sessions }
  call {v timers} call hv hcall := by
    obtain ⟨hfits, hsize⟩ := hv.timers.call hcall
    exact { hv with
      maxTimers := hsize.trans hv.maxTimers
      timers := hfits
      inv := hv.inv.call hcall }
  collect {v} hv := by
    obtain ⟨hfits, hsize⟩ := Fits.collect (m := { v.timers with ticks := v.timers.ticks + 1 })
      v.timers.timerHeap.items hv.timers
    have hinv := hv.inv.collect rfl
    refine { hv with maxTimers := hsize.trans hv.maxTimers, timers := hfits, inv := ?_ }
    refine { hinv with called := List.Sublist.trans ?_ hinv.called }
    rw [List.map_nil, List.append_nil]
    exact List.sublist_append_left _ _
  world {v} _ hv := { hv with }

/-! ### What a restart keeps -/

section Recovery

variable {m m₀ : TimerManager μ}

theorem length_foldl_put_le (timers : List (Timer μ)) (m : TimerManager μ) :
    (timers.foldl (fun m timer => m.put timer) m).map.entries.length ≤
      m.map.entries.length + timers.length := by
  induction timers generalizing m with
  | nil => exact le_rfl
  | cons timer timers ih =>
    have hlen := Table.length_erase_le m.map timer.getTimerId
    have hinsert : (m.put timer).map.entries.length =
        (m.map.erase timer.getTimerId).entries.length + 1 := List.length_cons
    have hrest := ih (m.put timer)
    rw [List.foldl_cons, List.length_cons]
    omega

/-- The recovered timers are those of the messages. -/
theorem lookup_foldl_put (timers : List (Timer μ)) (m : TimerManager μ)
    (t : Table UInt32 (TimerMessage μ))
    (ht : ∀ i, (m.map.lookup i).map TimerMessage.ofTimer = t.lookup i) (i : UInt32) :
    ((timers.foldl (fun m timer => m.put timer) m).map.lookup i).map TimerMessage.ofTimer =
      ((timers.map TimerMessage.ofTimer).foldl (fun t x => t.insert x.getKey x) t).lookup i := by
  induction timers generalizing m t with
  | nil => exact ht i
  | cons timer timers ih =>
    refine ih (m.put timer) _ fun j => ?_
    have hput : (m.put timer).map.lookup j =
        if j = timer.getTimerId then some { timer with serial := m.created.length }
        else m.map.lookup j := Table.lookup_insert ..
    have hinsert : (t.insert (TimerMessage.ofTimer timer).getKey (.ofTimer timer)).lookup j =
        if j = timer.getTimerId then some (.ofTimer timer) else t.lookup j :=
      Table.lookup_insert ..
    rw [hput, hinsert, ← ht j]
    split_ifs <;> rfl

theorem put_frame (timers : List (Timer μ)) (m : TimerManager μ) :
    (timers.foldl (fun m timer => m.put timer) m).maxSize = m.maxSize := by
  induction timers generalizing m with
  | nil => rfl
  | cons timer timers ih => exact ih (m.put timer)

/-- `Init` of the timers, from a table of messages under their ids. -/
theorem timers_init {size : UInt64} (hsize : size ≠ 0) (now : UInt64)
    {t : Table UInt32 (TimerMessage μ)} (hlen : t.entries.length ≤ size.toNat)
    (hkey : ∀ i x, t.lookup i = some x → x.getKey = i) :
    ∃ m, TimerManager.init size.toNat now (t.entries.map fun e => e.2.toTimer) = some m ∧
      m.Inv [] ∧ Fits m ∧ m.maxSize = size.toNat ∧
      ∀ i, (m.map.lookup i).map TimerMessage.ofTimer = t.lookup i := by
  have hne : size.toNat ≠ 0 := fun h => hsize (UInt64.toNat_inj.mp h)
  have hids : (t.entries.map fun e => e.2.toTimer).map Timer.getTimerId = t.keys := by
    rw [List.map_map]
    exact List.map_congr_left fun e he => hkey e.1 e.2 (AList.mem_lookup_iff.mpr he)
  have htake : (t.entries.map fun e => e.2.toTimer).take size.toNat =
      t.entries.map fun e => e.2.toTimer := List.take_of_length_le (by rwa [List.length_map])
  refine ⟨_, if_neg hne, Timers.TimerManager.Inv.init ?_ (if_neg hne), ?_, ?_, fun i => ?_⟩
  · rw [hids]
    exact t.keys_nodup
  · have hput := length_foldl_put_le ((t.entries.map fun e => e.2.toTimer).take size.toNat)
      { maxSize := size.toNat, now }
    have hsame := put_frame ((t.entries.map fun e => e.2.toTimer).take size.toNat)
      { maxSize := size.toNat, now }
    refine hput.trans (le_of_le_of_eq ?_ hsame.symm)
    rw [htake, List.length_map]
    exact (Nat.zero_add _).trans_le hlen
  · exact put_frame _ _
  · refine (lookup_foldl_put _ _ ∅ (fun j => rfl) i).trans ?_
    rw [htake, List.map_map]
    exact Table.lookup_foldl_insert hkey i

theorem inv_addTimerHandles (hm : m.Inv []) {timerType timerType' : Timers.ENTimerType} :
    ((m.addTimerHandle timerType).addTimerHandle timerType').Inv [] := by
  have hfirst : (m.addTimerHandle timerType).Inv [] :=
    hm.call (show TimerCall.apply (.addTimerHandle timerType) m = some _ from rfl)
  exact hfirst.call (show TimerCall.apply (.addTimerHandle timerType')
    (m.addTimerHandle timerType) = some _ from rfl)

end Recovery

/-- The invariant says nothing of what is not written. -/
theorem Inv.of_same {v v' : Server μ δ ω} (hv : Inv [] [] v)
    (hsessions : ∀ id, v'.sessions.lookup id = v.sessions.lookup id)
    (htimers : ∀ i, (v'.timers.map.lookup i).map TimerMessage.ofTimer =
      (v.timers.map.lookup i).map TimerMessage.ofTimer) : Inv [] [] v' where
  key id session hlookup := hv.key id session (hsessions id ▸ hlookup)
  waits id session hlookup := hv.waits id session (hsessions id ▸ hlookup)
  timer a id ha := by
    obtain ⟨timer, hlookup, hlive, htype, hsession⟩ := ha
    have hmap := htimers a
    rw [hlookup, Option.map_some, eq_comm, Option.map_eq_some_iff] at hmap
    obtain ⟨timer', hlookup', heq⟩ := hmap
    have hrefers : v.timers.Refers a id := by
      refine ⟨timer', hlookup', ?_, ?_, ?_⟩
      · rw [← hlive]
        exact congrArg (fun x : TimerMessage μ => x.isDelete.getD false) heq
      · rw [← htype]
        exact congrArg (fun x : TimerMessage μ => x.timerType.getD .sessionTimeout) heq
      · rw [← hsession]
        exact congrArg (fun x : TimerMessage μ => x.sessionId.getD 0) heq
    rw [hsessions id]
    exact hv.timer a id hrefers
  stored id hmem := absurd hmem List.not_mem_nil
  nodup := List.nodup_nil

/-- No segments of the managers are left, and the system gives new ones. -/
structure Clean (st : Storage μ δ) (shm : SharedMem) : Prop where
  usable : shm.usable = true
  session : shm.segments.lookup st.sessionKey = none
  timer : shm.segments.lookup st.timerKey = none

/-- The sessions and the timers are the same again. -/
structure Same (v v' : Server μ δ ω) : Prop where
  sessions : ∀ id, v'.getSession id = v.getSession id
  timers : ∀ i, (v'.timers.getTimer i).map TimerMessage.ofTimer =
    (v.timers.getTimer i).map TimerMessage.ofTimer

/-- **A restart succeeds and finds all sessions and timers again.** -/
theorem restart_keeps {st : Storage μ δ} (hst : st.Usable) {v : Server μ δ ω} {shm : SharedMem}
    (hv : Inv [] [] v) (hbounded : Bounded st v) (hfits : v.Fits st) (hshm : shm.usable = true)
    (now : UInt64) (world : ω) :
    ∃ v' shm', Server.onRun st now world (v.onExit st shm) = some (v', shm') ∧ Same v v' ∧
      Bounded st v' ∧ Clean st shm' := by
  obtain ⟨shm₁, hrelease₁, hsegment₁, hapart₁⟩ := BasicManager.release_spec
    hst.session hfits.sessions hshm hst.sessionKey
  have hshm₁ : shm₁.usable = true := hapart₁.usable.trans hshm
  obtain ⟨shm₂, hrelease₂, hsegment₂, hapart₂⟩ := BasicManager.release_spec
    hst.timer hfits.timers hshm₁ hst.timerKey
  have hshm₂ : shm₂.usable = true := hapart₂.usable.trans hshm₁
  have hexit : v.onExit st shm = shm₂ := by
    rw [Server.onExit, hrelease₁, hrelease₂]
  -- the segment of the sessions is still there when the timers have theirs
  have hsegment₁ := (hapart₂.lookup st.sessionKey hst.distinct).trans hsegment₁
  have hlaw₁ : ∀ id session, (v.sessionManager st).map.lookup id = some session →
      session.getSessionId = id := by
    intro id session hlookup
    rw [Session.getSessionId, hv.key id session hlookup]
    rfl
  obtain ⟨sm, shm₃, hinit₁, hlookup₁, hlen₁, hapart₃, hnone₃⟩ := BasicManager.init_recovers
    hst.session hfits.sessions hlaw₁ (hbounded.maxSize ▸ hbounded.sessions) hst.sessionSize
    hst.sessionKey hshm₂ hsegment₁
  have hshm₃ : shm₃.usable = true := hapart₃.usable.trans hshm₂
  have hsegment₂ := (hapart₃.lookup st.timerKey hst.distinct.symm).trans hsegment₂
  have hlaw₂ : ∀ i x, (v.timerManager st).map.lookup i = some x → x.getKey = i := by
    intro i x hlookup
    rw [Server.timerManager, Table.lookup_mapValues, Option.map_eq_some_iff] at hlookup
    obtain ⟨timer, htimer, rfl⟩ := hlookup
    exact hbounded.inv.counted.key i timer htimer
  have hcount₂ : (v.timerManager st).map.entries.length ≤ st.timerSize.toNat := by
    rw [← hbounded.maxTimers, Server.timerManager, Table.mapValues, List.length_map]
    exact hbounded.timers
  obtain ⟨tm, shm₄, hinit₂, hlookup₂, hlen₂, hapart₄, hnone₄⟩ := BasicManager.init_recovers
    hst.timer hfits.timers hlaw₂ hcount₂ hst.timerSize hst.timerKey hshm₃ hsegment₂
  obtain ⟨timers, htimers, hinv, hroom, hsize, hlookup⟩ := timers_init hst.timerSize now hlen₂
    fun i x hx => hlaw₂ i x (hlookup₂ i ▸ hx)
  refine ⟨Server.recovered st world sm.map timers, shm₄, ?_, ⟨hlookup₁, fun i => ?_⟩,
    ⟨rfl, hsize, hlen₁, hroom, ?_⟩, ⟨hapart₄.usable.trans hshm₃, ?_, hnone₄⟩⟩
  · rw [hexit, Server.onRun]
    refine Option.bind_eq_some_iff.mpr ⟨_, hinit₁, Option.bind_eq_some_iff.mpr ⟨_, hinit₂, ?_⟩⟩
    exact Option.map_eq_some_iff.mpr ⟨timers, htimers, rfl⟩
  · exact (hlookup i).trans ((hlookup₂ i).trans (Table.lookup_mapValues ..))
  · exact inv_addTimerHandles hinv
  · exact (hapart₄.lookup _ hst.distinct).trans hnone₃

/-- A server without segments starts with nothing. -/
theorem onRun_of_clean {st : Storage μ δ} (hst : st.Usable) {shm : SharedMem}
    (hclean : Clean st shm) (now : UInt64) (world : ω) :
    ∃ v : Server μ δ ω, Server.onRun st now world shm = some (v, shm) ∧ Inv [] [] v ∧
      Bounded st v := by
  obtain ⟨timers, htimers, hinv, hfits, hsize, hlookup⟩ := timers_init (μ := μ) hst.timerSize now
    (t := ∅) (Nat.zero_le _) fun i x hx => by cases hx
  have hbounded : Bounded st (Server.recovered st world ∅ timers) :=
    ⟨rfl, hsize, Nat.zero_le _, hfits, inv_addTimerHandles hinv⟩
  refine ⟨Server.recovered st world ∅ timers, ?_, ?_, hbounded⟩
  · refine Option.bind_eq_some_iff.mpr ⟨_, BasicManager.init_of_none hst.sessionSize hclean.session,
      Option.bind_eq_some_iff.mpr ⟨_, BasicManager.init_of_none hst.timerSize hclean.timer, ?_⟩⟩
    exact Option.map_eq_some_iff.mpr ⟨timers, htimers, rfl⟩
  · refine { key := ?_, waits := ?_, timer := ?_, stored := ?_, nodup := List.nodup_nil }
    · intro id session hsession
      cases hsession
    · intro id session hsession
      cases hsession
    · rintro a id ⟨timer, htimer, -⟩
      have hnone : timers.map.lookup a = none := Option.map_eq_none_iff.mp (hlookup a)
      cases htimer.symm.trans hnone
    · exact fun id hmem => absurd hmem List.not_mem_nil

/-- What holds between two events. -/
structure Standing (st : Storage μ δ) (s : Server μ δ ω × SharedMem) : Prop where
  inv : Inv [] [] s.1
  bounded : Bounded st s.1
  clean : Clean st s.2

/-- What is written at a restart fits. -/
def RestartFits (st : Storage μ δ) : ServerEvent μ ω → Server μ δ ω × SharedMem → Prop
  | .restart .., (v, _) => v.Fits st
  | _, _ => True

theorem Standing.step [Inhabited δ] {h : Handlers μ δ ω} {st : Storage μ δ} (hst : st.Usable)
    {s s' : Server μ δ ω × SharedMem} {event : ServerEvent μ ω} (hs : Standing st s)
    (hfits : RestartFits st event s) (hstep : serverStep h st event s = some s') :
    Standing st s' := by
  obtain ⟨v, shm⟩ := s
  cases event with
  | event rounds event =>
    obtain ⟨v', hv', rfl⟩ := Option.map_eq_some_iff.mp hstep
    exact ⟨hs.inv.step hv', (primitive_bounded st).step hs.bounded hv', hs.clean⟩
  | restart now world =>
    obtain ⟨-, hrun⟩ := Option.ite_none_right_eq_some.mp hstep
    obtain ⟨v', shm', hrestart, hsame, hbounded, hclean⟩ :=
      restart_keeps hst hs.inv hs.bounded hfits hs.clean.usable now world
    obtain rfl := Option.some.inj (hrestart.symm.trans hrun)
    exact ⟨hs.inv.of_same hsame.sessions hsame.timers, hbounded, hclean⟩
  | crash now world =>
    obtain ⟨-, hrun⟩ := Option.ite_none_right_eq_some.mp hstep
    obtain ⟨v', hfresh, hinv, hbounded⟩ := onRun_of_clean (ω := ω) hst hs.clean now world
    obtain rfl := Option.some.inj (hfresh.symm.trans hrun)
    exact ⟨hinv, hbounded, hs.clean⟩

/-- **Sessions and timers survive restarts.** A server is started, gets any events, is restarted and
is killed any number of times. Between two events every session waits and has at most one timer,
which is the one it knows of. At any such time a restart succeeds, and the server has the same
sessions and the same timers again and goes on from there. The sessions and timers are smaller than
2 GB whenever they are written. -/
theorem settled_across_restarts [Inhabited δ] (h : Handlers μ δ ω) {st : Storage μ δ}
    (hst : st.Usable) {now : UInt64} {world : ω} {events : List (ServerEvent μ ω)}
    {s₀ : Server μ δ ω × SharedMem} {v : Server μ δ ω} {shm : SharedMem}
    (hstart : Server.onRun st now world ⟨∅, true⟩ = some s₀)
    (hfits : GuardedSteps (serverStep h st) (RestartFits st) events s₀)
    (hrun : runSteps (serverStep h st) events s₀ = some (v, shm)) :
    Settled v ∧ (v.Fits st → ∀ now world, ∃ v' shm', Server.onRun st now world (v.onExit st shm) =
      some (v', shm') ∧ Same v v' ∧ Settled v') := by
  have hs₀ : Standing st s₀ := by
    have hclean : Clean st ⟨∅, true⟩ := ⟨rfl, rfl, rfl⟩
    obtain ⟨v₀, hfresh, hinv, hbounded⟩ := onRun_of_clean hst hclean now world
    obtain rfl := Option.some.inj (hfresh.symm.trans hstart)
    exact ⟨hinv, hbounded, hclean⟩
  have hs : Standing st (v, shm) := (reachable_of_runSteps hfits hrun).invariant hs₀
    fun _ _ _ hfit hs hstep => hs.step hst hfit hstep
  refine ⟨hs.inv.settled, fun hfit now world => ?_⟩
  obtain ⟨v', shm', hrestart, hsame, -⟩ :=
    restart_keeps hst hs.inv hs.bounded hfit hs.clean.usable now world
  exact ⟨v', shm', hrestart, hsame, (hs.inv.of_same hsame.sessions hsame.timers).settled⟩


/-! ### A run with restarts -/

/-- The messages of a list, which are written as their numbers. -/
def numbered {ε : Type} [DecidableEq ε] (empty : ε) (es : List ε) : Protobuf ε where
  empty
  byteSize e := if e = empty then 0 else if es.idxOf e < min es.length 256 then 1 else 2 ^ 31
  serializeToArray e := if e = empty then [] else [UInt8.ofNat (es.idxOf e)]
  parseFromArray
    | [] => some empty
    | [b] => es[b.toNat]?
    | _ => none

theorem numbered_inverse {ε : Type} [DecidableEq ε] (empty : ε) (es : List ε) :
    (numbered empty es).Inverse where
  empty := if_pos rfl
  length e he := by
    rw [Protobuf.Fits, numbered] at he
    rw [numbered]
    simp only at he ⊢
    split_ifs at he ⊢
    · rfl
    · rfl
    · omega
  parse e he := by
    rw [Protobuf.Fits, numbered] at he
    rw [numbered]
    simp only at he ⊢
    split_ifs at he ⊢ with hempty hidx
    · rw [hempty]
    · have hlt : es.idxOf e < 256 := hidx.trans_le (min_le_right _ _)
      show es[(UInt8.ofNat (es.idxOf e)).toNat]? = some e
      rw [UInt8.toNat_ofNat', Nat.mod_eq_of_lt hlt,
        List.getElem?_eq_getElem (hidx.trans_le (min_le_left _ _)), List.getElem_idxOf]
    · omega

deriving instance DecidableEq for SessionData
deriving instance DecidableEq for Session
deriving instance DecidableEq for TimerMessage

instance decidableFits {ε : Type} (pb : Protobuf ε) (e : ε) : Decidable (pb.Fits e) :=
  inferInstanceAs (Decidable (pb.byteSize e < 2 ^ 31))

instance decidableRestartFits (st : Storage μ δ) :
    ∀ (event : ServerEvent μ ω) (s : Server μ δ ω × SharedMem), Decidable (RestartFits st event s)
  | .event .., _ | .crash .., _ => isTrue trivial
  | .restart .., (v, _) => decidable_of_iff
      ((∀ e ∈ (v.sessionManager st).elems, st.session.Fits e) ∧
        ∀ e ∈ (v.timerManager st).elems, st.timer.Fits e)
      ⟨fun h => ⟨h.1, h.2⟩, fun h => ⟨h.1, h.2⟩⟩

/-- The storage of a server with two sessions and three timers. -/
def sampleStorage : Storage (Option (BasicHandler.ENServerType × UInt32)) Unit where
  session := numbered { data := { other := () } }
    [⟨some 1, .dbsvrQueryWait, some 0, some 3, ⟨some none, none, none, ()⟩⟩,
      ⟨some 2, .confsvrWait, some 0, some 1, ⟨some none, none, none, ()⟩⟩]
  timer := numbered ⟨none, none, none, none, none, none⟩
    [⟨some 1, some 2000, some .sessionTimeout, none, some 2, none⟩,
      ⟨some 2, some 0, some .asyncInternalMessage, none, none, some none⟩,
      ⟨some 3, some 2000, some .sessionTimeout, none, some 1, none⟩]
  sessionKey := 101
  sessionSize := 4
  timerKey := 102
  timerSize := 8

theorem sampleStorage_usable : sampleStorage.Usable where
  session := numbered_inverse _ _
  timer := numbered_inverse _ _
  sessionKey := by decide
  timerKey := by decide
  distinct := by decide
  sessionSize := by decide
  timerSize := by decide

/-- A run with a restart and a crash. -/
def sampleEvents : List (ServerEvent (Option (BasicHandler.ENServerType × UInt32)) Unit) :=
  [.event 9 (.clientRequest none), .restart 5 (), .event 9 (.serverMessage (some (.dataServer, 1))),
    .event 9 .tick, .crash 6 (), .event 9 (.clientRequest none)]

/-- A restart while two sessions wait, a response and a tick after it, and a crash. -/
theorem settled_across_restarts_sample :
    ∃ v shm, ((Server.onRun sampleStorage 0 () ⟨∅, true⟩).bind
      (runSteps (serverStep sampleHandlers sampleStorage) sampleEvents)) = some (v, shm) ∧
      v.sessions.entries.length = 2 ∧ Settled v := by
  have hlength : ((Server.onRun sampleStorage 0 () ⟨∅, true⟩).bind
      (runSteps (serverStep sampleHandlers sampleStorage) sampleEvents)).map
        (fun s => s.1.sessions.entries.length) = some 2 := by decide +kernel
  have hguard : (Server.onRun sampleStorage 0 () ⟨∅, true⟩).map (fun s => decide
      (GuardedSteps (serverStep sampleHandlers sampleStorage) (RestartFits sampleStorage)
        sampleEvents s)) = some true := by decide +kernel
  obtain ⟨⟨v, shm⟩, hrun, hlength⟩ := Option.map_eq_some_iff.mp hlength
  obtain ⟨s₀, hstart, hsteps⟩ := Option.bind_eq_some_iff.mp hrun
  rw [hstart, Option.map_some, Option.some_inj, decide_eq_true_eq] at hguard
  exact ⟨v, shm, hrun, hlength, (settled_across_restarts sampleHandlers sampleStorage_usable hstart
    hguard hsteps).1⟩

end Lsf.Sessions
