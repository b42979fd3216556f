import Lsf.Svr.SessionMachine
import Lsf.Svr.TimerManager

/-!
# Sessions and their timers

A server has a session for every request that it has not finished. The state machine of a session
runs until it has to wait for something, and then sets a timer; a response, the result of an HTTP
request or the end of the time clears the timer and lets the state machine go on. A session that is
finished is released, and so is one that is found to be too old.

What the functions of the handlers do is taken from the outside: they change the data of the
session, post messages to the server itself and return any state. The type `δ` has the data that
only they use, and the type `ω` what else they see and change.

## Main definitions

* `Session`, `Server` — the records
* `Handlers` — the functions of the handlers for all messages
* `createSession`, `releaseSession`, `setSessionTimer`, `runStateMachine`, `getServerResponse`,
  `waitResponseTimeout`, … — the source's functions
* `step` — an event of the server
-/

namespace Lsf.Sessions

open BasicHandler (ENServerType ENSessionState awaited)
open Timers

variable {μ δ ω : Type}

/-! ### Records -/

/-- The fields of a session that the functions of the handlers change. -/
structure SessionData (μ δ : Type) where
  request : Option μ := none
  svrResponse : Option μ := none
  curlResult : Option (Bool × String) := none
  other : δ

/-- A session, as far as the server itself uses it. -/
structure Session (μ δ : Type) where
  sessionId : Option UInt32 := none
  sessionState : ENSessionState := .clientRequest
  createTime : Option UInt64 := none
  timerId : Option UInt32 := none
  data : SessionData μ δ

namespace Session

/-- `session_id()`. -/
def getSessionId (session : Session μ δ) : UInt32 := session.sessionId.getD 0

/-- `create_time()`. -/
def getCreateTime (session : Session μ δ) : UInt64 := session.createTime.getD 0

/-- `timer_id()`. -/
def getTimerId (session : Session μ δ) : UInt32 := session.timerId.getD 0

end Session

/-- The time to wait in a state, if the state machine waits there. -/
def waitTime : ENSessionState → Option UInt64
  | .httpsvrWait | .curlWait => some 10000
  | .confsvrWait | .dbsvrQueryWait | .dbsvrUpdateWait | .dbsvrDeleteWait | .dbsvrInsertWait =>
    some 2000
  | _ => none

/-- The state after the time is up, if `WaitResponseTimeout` accepts the state. -/
def timeoutState : ENSessionState → Option ENSessionState
  | .httpsvrWait => some .httpsvrTimeout
  | .confsvrWait => some .confsvrTimeout
  | .dbsvrQueryWait => some .dbsvrQueryTimeout
  | .dbsvrUpdateWait => some .dbsvrUpdateTimeout
  | .dbsvrDeleteWait => some .dbsvrDeleteTimeout
  | .dbsvrInsertWait => some .dbsvrInsertTimeout
  | .curlWait => some .curlTimeout
  | _ => none

theorem timeoutState_isSome {state : ENSessionState} :
    (timeoutState state).isSome = (waitTime state).isSome := by
  cases state <;> rfl

/-- The state of a single session after `WaitResponseTimeout`. -/
theorem waitResponseTimeout_state (s : BasicHandler.Session) :
    (BasicHandler.waitResponseTimeout s).state = (timeoutState s.state).getD s.state := by
  rw [BasicHandler.waitResponseTimeout]
  cases hstate : s.state <;> simp [timeoutState, hstate]

/-- What a function of a handler posts to its own server. -/
inductive Post (μ : Type)
  | internalMessage (message : μ)
  | asyncInternalMessage (message : μ)

/-- What a function of a handler does. It leaves the timer of the session, the other timers and the
other sessions alone: no override in the source touches `timer_id`, `TimerManager` or
`SessionManager`. -/
structure Reaction (μ δ ω : Type) where
  data : SessionData μ δ
  world : ω
  posts : List (Post μ) := []
  next : ENSessionState

/-- The handlers of all messages, and what the server reads in a message. -/
structure Handlers (μ δ ω : Type) where
  isRequest : μ → Bool
  srcServerType : μ → ENServerType
  sessionId : μ → UInt32
  /-- The function for the state of a session, in the handler for its request. -/
  on : Session μ δ → ω → Reaction μ δ ω
  onSessionFinish : Session μ δ → ω → List (Post μ) × ω

/-- The sessions and the timers of a server. -/
structure Server (μ δ ω : Type) where
  timers : TimerManager μ
  sessions : Table UInt32 (Session μ δ) := ∅
  maxSize : ℕ
  curMaxId : UInt32 := 0
  world : ω

/-- The greatest session id. -/
def MAX_SESSION_ID : UInt32 := 0xffffff

/-- A session that is older than this has leaked. -/
def DEF_SESSION_LEAK_TIME : UInt64 := 300000

namespace Server

/-! ### Sessions -/

/-- `Init` of both managers without anything to recover, and `OnRun`, which register their
handlers. -/
def init (maxTimers maxSessions : ℕ) (now : UInt64) (world : ω) : Option (Server μ δ ω) :=
  if maxSessions = 0 then none
  else
    (TimerManager.init maxTimers now []).map fun timers =>
      { timers := (timers.addTimerHandle .sessionTimeout).addTimerHandle .asyncInternalMessage
        maxSize := maxSessions
        world }

/-- `GetSession`. -/
def getSession (sessionId : UInt32) (v : Server μ δ ω) : Option (Session μ δ) :=
  v.sessions.lookup sessionId

/-- A change of a session in its place. -/
def modify (sessionId : UInt32) (f : Session μ δ → Session μ δ) (v : Server μ δ ω) :
    Server μ δ ω :=
  { v with sessions := Table.modify sessionId f v.sessions }

/-- `CreateSession`, with the id of the new session if there is one. -/
def createSession [Inhabited δ] (v : Server μ δ ω) : Option (Option UInt32 × Server μ δ ω) :=
  if v.maxSize ≤ v.sessions.entries.length then some (none, v)
  else
    (findId MAX_SESSION_ID v.sessions (2 ^ 24) v.curMaxId).map fun (sessionId, curMaxId) =>
      let session : Session μ δ :=
        { sessionId := some sessionId
          createTime := some v.timers.now
          data := { other := default } }
      (some sessionId, { v with sessions := v.sessions.insert sessionId session, curMaxId })

/-- `ReleaseSession`, which releases the timer of the session too. -/
def releaseSession (sessionId : UInt32) (v : Server μ δ ω) : Server μ δ ω :=
  let timers := ((v.getSession sessionId).bind Session.timerId).elim v.timers fun timerId =>
    v.timers.releaseTimer timerId
  { v with timers, sessions := v.sessions.erase sessionId }

/-- `SetSessionTimer` for the session `sessionId`. -/
def setSessionTimer (sessionId : UInt32) (milliSecond : UInt64) (v : Server μ δ ω) :
    Option (Server μ δ ω) :=
  (v.timers.createTimer milliSecond .sessionTimeout).map fun
    | (none, timers) => { v with timers }
    | (some timerId, timers) =>
      modify sessionId (fun session => { session with timerId := some timerId })
        { v with timers := timers.setSessionId timerId sessionId }

/-- `PostAsyncInternalMessage`. -/
def postAsyncInternalMessage (message : μ) (v : Server μ δ ω) : Option (Server μ δ ω) :=
  (v.timers.createTimer 0 .asyncInternalMessage).map fun
    | (none, timers) => { v with timers }
    | (some timerId, timers) => { v with timers := timers.setInternalMessage timerId message }

/-! ### The state machine -/

section Run

variable [Inhabited δ] (h : Handlers μ δ ω) (run : UInt32 → Server μ δ ω → Option (Server μ δ ω))

/-- A session is created for a request and run. -/
def getRequest (state : ENSessionState) (message : μ) (v : Server μ δ ω) :
    Option (Server μ δ ω) :=
  v.createSession.bind fun
    | (none, v) => some v
    | (some sessionId, v) =>
      run sessionId (v.modify sessionId fun session =>
        { session with data.request := some message, sessionState := state })

/-- `CreateSession` and `GetClientRequest`. -/
def getClientRequest : μ → Server μ δ ω → Option (Server μ δ ω) := getRequest run .clientRequest

/-- `CreateSession` and `GetServerRequest`. -/
def getServerRequest : μ → Server μ δ ω → Option (Server μ δ ω) := getRequest run .serverRequest

/-- `PostInternalMessage`. -/
def postInternalMessage (message : μ) (v : Server μ δ ω) : Option (Server μ δ ω) :=
  if h.isRequest message then getServerRequest run message v else some v

/-- A message that a handler posts. -/
def post : Post μ → Server μ δ ω → Option (Server μ δ ω)
  | .internalMessage message => postInternalMessage h run message
  | .asyncInternalMessage message => postAsyncInternalMessage message

/-- What a function of a handler posts is done in order. -/
def postAll : List (Post μ) → Server μ δ ω → Option (Server μ δ ω)
  | [], v => some v
  | p :: ps, v => (post h run p v).bind (postAll ps)

end Run

variable [Inhabited δ] (h : Handlers μ δ ω)

/-- `RunStateMachine` for the session `sessionId`, if it returns within `fuel` rounds. -/
def runStateMachine : ℕ → UInt32 → Server μ δ ω → Option (Server μ δ ω)
  | 0, _, _ => none
  | fuel + 1, sessionId, v =>
    (v.getSession sessionId).bind fun session =>
      match waitTime session.sessionState with
      | some milliSecond => v.setSessionTimer sessionId milliSecond
      | none =>
        if session.sessionState = .finish then
          let (posts, world) := h.onSessionFinish session v.world
          (postAll h (runStateMachine fuel) posts { v with world }).map (releaseSession sessionId)
        else
          let reaction := h.on session v.world
          (postAll h (runStateMachine fuel) reaction.posts
            (modify sessionId (fun session => { session with data := reaction.data })
              { v with world := reaction.world })).bind fun v =>
            runStateMachine fuel sessionId
              (v.modify sessionId fun session => { session with sessionState := reaction.next })

section Entries

variable (run : UInt32 → Server μ δ ω → Option (Server μ δ ω))

/-- The timer of a session is cleared and the session goes on in a state. -/
def resume (sessionId : UInt32) (state : ENSessionState) (v : Server μ δ ω) :
    Option (Server μ δ ω) :=
  run sessionId (v.modify sessionId fun session =>
    { session with timerId := none, sessionState := state })

/-- `ReleaseTimer` with the `timer_id()` of a session. -/
def releaseSessionTimer (session : Session μ δ) (v : Server μ δ ω) : Server μ δ ω :=
  { v with timers := v.timers.releaseTimer session.getTimerId }

/-- `GetServerResponse` for a stored session. -/
def getServerResponse (sessionId : UInt32) (session : Session μ δ) (message : μ)
    (v : Server μ δ ω) : Option (Server μ δ ω) :=
  let v := v.modify sessionId fun session => { session with data.svrResponse := some message }
  match awaited session.sessionState with
  | none => some v
  | some (needRspServerType, state) =>
    if h.srcServerType message ≠ needRspServerType then some v
    else (v.releaseSessionTimer session).resume run sessionId state

/-- `WaitResponseTimeout` for a stored session. -/
def waitResponseTimeout (sessionId : UInt32) (session : Session μ δ) (v : Server μ δ ω) :
    Option (Server μ δ ω) :=
  match timeoutState session.sessionState with
  | none => some v
  | some state => v.resume run sessionId state

/-- `GetCurlResult` for a stored session. -/
def getCurlResult (sessionId : UInt32) (session : Session μ δ) (result : Bool) (content : String)
    (v : Server μ δ ω) : Option (Server μ δ ω) :=
  resume run sessionId .curlMessage
    ((v.releaseSessionTimer session).modify sessionId fun session =>
      { session with data.curlResult := some (result, content) })

/-- `OnConnectionMessage` of the connections to other servers. -/
def onServerMessage (message : μ) (v : Server μ δ ω) : Option (Server μ δ ω) :=
  if h.isRequest message then getServerRequest run message v
  else
    -- restore session and process
    match v.getSession (h.sessionId message) with
    | none => some v
    | some session => v.getServerResponse h run (h.sessionId message) session message

/-- The callback of `RequestUrl`. -/
def onCurlFinish (sessionId : UInt32) (result : Bool) (content : String) (v : Server μ δ ω) :
    Option (Server μ δ ω) :=
  match v.getSession sessionId with
  | none => some v
  | some session => v.getCurlResult run sessionId session result content

/-- The handler of a timer. -/
def onTimer (timer : Timer μ) (v : Server μ δ ω) : Option (Server μ δ ω) :=
  match timer.getTimerType with
  | .sessionTimeout =>
    match v.getSession timer.getSessionId with
    | none => some v
    | some session => v.waitResponseTimeout run timer.getSessionId session
  | .asyncInternalMessage =>
    match timer.internalMessage with
    | none => some v
    | some message => postInternalMessage h run message v
  | _ => some v

/-- The handlers of timers, one after the other. -/
def onTimers : List (Timer μ) → Server μ δ ω → Option (Server μ δ ω)
  | [], v => some v
  | timer :: timers, v => (onTimer h run timer v).bind (onTimers timers)

/-- `OnTick`. -/
def onTick (v : Server μ δ ω) : Option (Server μ δ ω) :=
  let (triggers, timers) :=
    TimerManager.collect v.timers.timerHeap.items { v.timers with ticks := v.timers.ticks + 1 }
  onTimers h run triggers { v with timers }

/-- The check for sessions that are too old. -/
def checkLeak (v : Server μ δ ω) : Server μ δ ω :=
  let leaked := v.sessions.entries.filter fun e =>
    e.2.getCreateTime + DEF_SESSION_LEAK_TIME < v.timers.now
  (leaked.map fun e => e.2.getSessionId).foldl (fun v sessionId => v.releaseSession sessionId) v

end Entries

end Server

/-- What happens to a server. -/
inductive Event (μ : Type)
  | clientRequest (message : μ)
  | serverMessage (message : μ)
  | internalMessage (message : μ)
  | curlFinish (sessionId : UInt32) (result : Bool) (content : String)
  | tick
  | checkLeak
  | updateClock (now : UInt64)

open Server

/-- An event, in which the state machines return within so many rounds. -/
def step [Inhabited δ] (h : Handlers μ δ ω) : ℕ × Event μ → Server μ δ ω → Option (Server μ δ ω)
  | (fuel, .clientRequest message), v => getClientRequest (runStateMachine h fuel) message v
  | (fuel, .serverMessage message), v => onServerMessage h (runStateMachine h fuel) message v
  | (fuel, .internalMessage message), v => postInternalMessage h (runStateMachine h fuel) message v
  | (fuel, .curlFinish sessionId result content), v =>
    onCurlFinish (runStateMachine h fuel) sessionId result content v
  | (fuel, .tick), v => onTick h (runStateMachine h fuel) v
  | (_, .checkLeak), v => some v.checkLeak
  | (_, .updateClock now), v => some { v with timers.now := now }

end Lsf.Sessions
