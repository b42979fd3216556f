import Lsf.Svr.DataServer

/-!
# The state machine of a session

A session is driven by `BasicHandler::RunStateMachine`: a round of its loop calls the function for
the state of the session, which returns the next state. The loop ends in a state that waits for a
message, and events from outside set it going again.

Some of the functions are there to be overridden. What such a function does is taken from the
outside: it adds db handles, changes the data of handles and the process index, and returns any
state.

## Main definitions

* `DBHandle`, `Session` — the records that the state machine works on
* `onDBSvrQuery`, `onDBSvrQueryMessage`, `onDBSvrUpdate`, … — the source's functions
* `runStateMachine` — one round of the loop
* `Machine`, `SessionEvent`, `Machine.step` — a session, its messages to the data server and its
  events
-/

namespace Lsf.BasicHandler

open DataSvr

/-! ### Records -/

/-- The data of a robot. -/
structure RobotData where
  uid : Option UInt64 := none
  lastInitChipsTime : Option UInt32 := none

/-- The bytes of a number as a varint. -/
def varintSize (n : ℕ) : ℕ := n.log2 / 7 + 1

/-- `ByteSize()`: a tag and a varint for every field that is set. -/
def RobotData.byteSize (data : RobotData) : ℕ :=
  (data.uid.map fun n => 1 + varintSize n.toNat).getD 0 +
    (data.lastInitChipsTime.map fun n => 1 + varintSize n.toNat).getD 0

/-- The data of a handle, as far as the handler knows it. -/
structure DB where
  robotData : Option RobotData := none

instance : Inhabited DB := ⟨{}⟩

/-- `DBHandle`. -/
structure DBHandle where
  key : DataKey
  data : Option DB := none
  needLock : Option Bool := none
  queryFinish : Option Bool := none
  version : Option UInt32 := none
  lockId : Option UInt32 := none

/-- `data().robot_data()` of a handle. -/
def DBHandle.robotData (h : DBHandle) : RobotData := (h.data.getD {}).robotData.getD {}

/-- `ENServerType`, as far as the handler looks at it. -/
inductive ENServerType
  | httpServer
  | configCenter
  | dataServer
  | other
  deriving DecidableEq

/-- A response from a server, with those of its parts that the state machine reads. -/
structure SvrResponse where
  srcServerType : ENServerType
  queryDataRsp : Option (DataRsp DB) := none
  updateDataRsp : Option (DataRsp DB) := none
  insertDataRsp : Option (DataRsp DB) := none
  deleteDataRsp : Option (DataRsp DB) := none

/-- What is read where a response has not the part that is looked for. -/
def defaultRsp : DataRsp DB := { key := ⟨.userData, 0⟩ }

/-- `result()` of a response. -/
def getResult (response : DataRsp DB) : ENInternalError := response.result.getD .ok

/-- `ENSessionState`. -/
inductive ENSessionState
  | clientRequest
  | serverRequest
  | httpsvrWait
  | httpsvrMessage
  | httpsvrTimeout
  | curlWait
  | curlMessage
  | curlTimeout
  | confsvrWait
  | confsvrMessage
  | confsvrTimeout
  | dbsvrNext
  | dbsvrQuery
  | dbsvrQueryWait
  | dbsvrQueryMessage
  | dbsvrQueryTimeout
  | dbsvrQuerySuccess
  | dbsvrUpdate
  | dbsvrUpdateWait
  | dbsvrUpdateMessage
  | dbsvrUpdateTimeout
  | dbsvrUpdateSuccess
  | dbsvrDelete
  | dbsvrDeleteWait
  | dbsvrDeleteMessage
  | dbsvrDeleteTimeout
  | dbsvrDeleteSuccess
  | dbsvrInsert
  | dbsvrInsertWait
  | dbsvrInsertMessage
  | dbsvrInsertTimeout
  | dbsvrInsertSuccess
  | finish
  deriving DecidableEq

namespace ENSessionState

/-- The states in which the state machine waits for an event. -/
def isWait : ENSessionState → Bool
  | httpsvrWait | curlWait | confsvrWait | dbsvrQueryWait | dbsvrUpdateWait | dbsvrDeleteWait
  | dbsvrInsertWait => true
  | _ => false

/-- The states whose functions a derived class overrides. -/
def isOverridden : ENSessionState → Bool
  | clientRequest | serverRequest | httpsvrMessage | curlMessage | confsvrMessage
  | dbsvrQuerySuccess => true
  | _ => false

end ENSessionState

/-- The errors that the handler puts in the response of a session. -/
inductive ENError
  | httpsvrTimeout
  | confsvrTimeout
  | internalCurlTimeout
  | dbsvrQuery
  | dbsvrQueryTimeout
  | dbsvrParse
  | dbsvrUpdate
  | dbsvrUpdateTimeout
  | dbsvrInsert
  | dbsvrInsertTimeout
  | dbsvrDelete
  | dbsvrDeleteTimeout
  deriving DecidableEq

/-- A session, as far as the handler uses it. -/
structure Session where
  state : ENSessionState
  dbHandles : List DBHandle := []
  dbProcessIndex : UInt32 := 0
  svrResponse : SvrResponse := { srcServerType := .other }
  error : Option ENError := none

/-- `SetErrorResponse`. -/
def Session.setErrorResponse (s : Session) (error : ENError) : Session :=
  { s with error := some error }

/-- What a function of the handler does: the session afterwards, the messages for the data server
and the next state. -/
structure Outcome where
  session : Session
  sent : List (Request DB) := []
  next : ENSessionState

/-- The end of the session with an error. -/
def Session.fail (s : Session) (error : ENError) : Outcome :=
  { session := s.setErrorResponse error, next := .finish }

/-! ### Handles -/

namespace Session

/-- A handle for `key`, unless there is one. -/
def addHandle (s : Session) (h : DBHandle) : Session :=
  if s.dbHandles.any fun h' => h'.key = h.key then s
  else { s with dbHandles := s.dbHandles ++ [h] }

/-- `AddQueryData`. -/
def addQueryData (s : Session) (key : DataKey) : Session := s.addHandle { key }

/-- `AddQueryDataAndLock`, which asks for the lock in the last handle. -/
def addQueryDataAndLock (s : Session) (key : DataKey) : Session :=
  let s := s.addQueryData key
  { s with dbHandles :=
      s.dbHandles.modify (s.dbHandles.length - 1) fun h => { h with needLock := some true } }

/-- `AddDeleteData`. -/
def addDeleteData (s : Session) (key : DataKey) : Session := s.addHandle { key }

/-- `AddInsertData`, which returns the data of the handle for `key` to be filled in. -/
def addInsertData (s : Session) (key : DataKey) : Session :=
  let s := s.addHandle { key }
  { s with dbHandles := s.dbHandles.map fun h =>
      if h.key = key then { h with data := some (h.data.getD {}) } else h }

end Session

/-- What an overridden function may do to the handles. -/
inductive Edit
  | setData (i : ℕ) (data : Option DB)
  | addQueryData (key : DataKey)
  | addQueryDataAndLock (key : DataKey)
  | addDeleteData (key : DataKey)
  | addInsertData (key : DataKey)

/-- What an overridden function does to a session. -/
def Edit.apply : Edit → Session → Session
  | .setData i data, s => { s with dbHandles := s.dbHandles.modify i fun h => { h with data } }
  | .addQueryData key, s => s.addQueryData key
  | .addQueryDataAndLock key, s => s.addQueryDataAndLock key
  | .addDeleteData key, s => s.addDeleteData key
  | .addInsertData key, s => s.addInsertData key

/-! ### Query -/

/-- `IsQueryReady`. -/
def isQueryReady (s : Session) : Bool := s.dbHandles.all fun h => h.queryFinish.getD false

/-- `QueryData`: the request for a handle. -/
def queryData (h : DBHandle) : Request DB := .queryData ⟨h.key, h.version, h.needLock⟩

/-- `OnDBSvrQuery`. -/
def onDBSvrQuery (s : Session) : Outcome :=
  if s.dbHandles.length ≤ s.dbProcessIndex.toNat then { session := s, next := .finish }
  else if s.dbHandles.length = 0 then s.fail .dbsvrQuery
  -- query all, and check all data is ready
  else if isQueryReady s then
    { session := { s with dbProcessIndex := 0 }, sent := s.dbHandles.map queryData
      next := .dbsvrQuerySuccess }
  else { session := s, sent := s.dbHandles.map queryData, next := .dbsvrQueryWait }

/-- The handle with what the response to its query says, and whether its type is known. -/
def DBHandle.assign (response : DataRsp DB) (h : DBHandle) : DBHandle × Bool :=
  let h := { h with
    queryFinish := some true
    lockId := response.lockId <|> h.lockId
    version := response.version <|> h.version }
  match h.key.type with
  | .robotData =>
    let robotData := ((response.data.getD {}).robotData.getD {})
    ({ h with data := some { robotData := some { robotData with uid := some h.key.id } } }, true)
  | _ => (h, false)

/-- The loop of `OnDBSvrQueryMessage`, which assigns the data to the first handle that matches. -/
def assignData (response : DataRsp DB) : List DBHandle → List DBHandle × Bool
  | [] => ([], true)
  | h :: hs =>
    if h.key ≠ response.key then (h :: (assignData response hs).1, (assignData response hs).2)
    else ((h.assign response).1 :: hs, (h.assign response).2)

/-- `OnDBSvrQueryMessage`. -/
def onDBSvrQueryMessage (s : Session) : Outcome :=
  let response := s.svrResponse.queryDataRsp.getD defaultRsp
  if getResult response ≠ .ok then s.fail .dbsvrQuery
  else
    let (dbHandles, known) := assignData response s.dbHandles
    let s := { s with dbHandles }
    if known = false then s.fail .dbsvrParse
    else if isQueryReady s then
      { session := { s with dbProcessIndex := 0 }, next := .dbsvrQuerySuccess }
    else { session := s, next := .dbsvrQueryWait }

/-- `OnDBSvrNext`. -/
def onDBSvrNext (s : Session) : Outcome :=
  let s := { s with dbProcessIndex := s.dbProcessIndex + 1 }
  { session := s
    next := if s.dbHandles.length ≤ s.dbProcessIndex.toNat then .finish else .dbsvrQuerySuccess }

/-! ### Update, insert and delete -/

/-- The request of `OnDBSvrUpdate` for a handle, as far as it is the same for all data. -/
def updateRequest (h : DBHandle) : UpdateDataReq DB :=
  { key := h.key
    version := some (h.version.getD 0)
    data := none
    lockId := some (h.lockId.getD 0) }

/-- `OnDBSvrUpdate`. -/
def onDBSvrUpdate (s : Session) : Outcome :=
  match s.dbHandles[s.dbProcessIndex.toNat]? with
  | none => { session := s, next := .finish }
  | some h =>
    -- this is one time lock
    let s := { s with dbHandles := s.dbHandles.modify s.dbProcessIndex.toNat fun h =>
      { h with lockId := none } }
    -- if no data need to save, just jump to update success
    match h.key.type with
    | .robotData =>
      if h.robotData.byteSize = 0 then { session := s, next := .dbsvrUpdateSuccess }
      else
        { session := s
          sent := [.updateData { updateRequest h with
            data := some { robotData := some h.robotData } }]
          next := .dbsvrUpdateWait }
    | _ => s.fail .dbsvrUpdate

/-- `OnDBSvrUpdateSuccess`. -/
def onDBSvrUpdateSuccess (s : Session) : Outcome := { session := s, next := .dbsvrNext }

/-- `OnDBSvrInsert`. -/
def onDBSvrInsert (s : Session) : Outcome :=
  match s.dbHandles[s.dbProcessIndex.toNat]? with
  | none => { session := s, next := .finish }
  | some h =>
    { session := s, sent := [.insertData ⟨h.key, some (h.data.getD {})⟩], next := .dbsvrInsertWait }

/-- `OnDBSvrDelete`. -/
def onDBSvrDelete (s : Session) : Outcome :=
  match s.dbHandles[s.dbProcessIndex.toNat]? with
  | none => { session := s, next := .finish }
  | some h => { session := s, sent := [.deleteData h.key], next := .dbsvrDeleteWait }

/-- What `OnDBSvrUpdateMessage` and its siblings do, none where they index past the handles. -/
def onDBSvrMessage (response : DataRsp DB) (error : ENError) (success : ENSessionState)
    (s : Session) : Option Outcome :=
  s.dbHandles[s.dbProcessIndex.toNat]?.map fun h =>
    if h.key ≠ response.key then s.fail error
    else if getResult response ≠ .ok then s.fail error
    else { session := s, next := success }

/-- `OnDBSvrUpdateMessage`. -/
def onDBSvrUpdateMessage (s : Session) : Option Outcome :=
  onDBSvrMessage (s.svrResponse.updateDataRsp.getD defaultRsp) .dbsvrUpdate .dbsvrUpdateSuccess s

/-- `OnDBSvrInsertMessage`. -/
def onDBSvrInsertMessage (s : Session) : Option Outcome :=
  onDBSvrMessage (s.svrResponse.insertDataRsp.getD defaultRsp) .dbsvrInsert .dbsvrInsertSuccess s

/-- `OnDBSvrDeleteMessage`. -/
def onDBSvrDeleteMessage (s : Session) : Option Outcome :=
  onDBSvrMessage (s.svrResponse.deleteDataRsp.getD defaultRsp) .dbsvrDelete .dbsvrDeleteSuccess s

/-- `OnDBSvrInsertSuccess`. -/
def onDBSvrInsertSuccess (s : Session) : Outcome := { session := s, next := .finish }

/-- `OnDBSvrDeleteSuccess`. -/
def onDBSvrDeleteSuccess (s : Session) : Outcome := { session := s, next := .finish }

/-! ### Timeouts and the end -/

/-- `OnHttpSvrTimeout`. -/
def onHttpSvrTimeout (s : Session) : Outcome := s.fail .httpsvrTimeout

/-- `OnConfSvrTimeOut`. -/
def onConfSvrTimeOut (s : Session) : Outcome := s.fail .confsvrTimeout

/-- `OnCurlTimeout`. -/
def onCurlTimeout (s : Session) : Outcome := s.fail .internalCurlTimeout

/-- `OnDBSvrQueryTimeout`. -/
def onDBSvrQueryTimeout (s : Session) : Outcome := s.fail .dbsvrQueryTimeout

/-- `OnDBSvrUpdateTimeout`. -/
def onDBSvrUpdateTimeout (s : Session) : Outcome := s.fail .dbsvrUpdateTimeout

/-- `OnDBSvrInsertTimeout`. -/
def onDBSvrInsertTimeout (s : Session) : Outcome := s.fail .dbsvrInsertTimeout

/-- `OnDBSvrDeleteTimeout`. -/
def onDBSvrDeleteTimeout (s : Session) : Outcome := s.fail .dbsvrDeleteTimeout

/-- `OnSessionFinish`: the messages that unlock all data. -/
def onSessionFinish (s : Session) : List (Request DB) :=
  (s.dbHandles.filter fun h => h.needLock.getD false && h.lockId.isSome).map fun h =>
    .unlockData ⟨h.key, some (h.lockId.getD 0)⟩

/-! ### The machine -/

/-- One round of the loop of `RunStateMachine` in a state whose function is not overridden. -/
def runStateMachine (s : Session) : Option Outcome :=
  match s.state with
  | .httpsvrTimeout => some (onHttpSvrTimeout s)
  | .confsvrTimeout => some (onConfSvrTimeOut s)
  | .curlTimeout => some (onCurlTimeout s)
  | .dbsvrNext => some (onDBSvrNext s)
  | .dbsvrQuery => some (onDBSvrQuery s)
  | .dbsvrQueryTimeout => some (onDBSvrQueryTimeout s)
  | .dbsvrQueryMessage => some (onDBSvrQueryMessage s)
  | .dbsvrUpdate => some (onDBSvrUpdate s)
  | .dbsvrUpdateTimeout => some (onDBSvrUpdateTimeout s)
  | .dbsvrUpdateMessage => onDBSvrUpdateMessage s
  | .dbsvrUpdateSuccess => some (onDBSvrUpdateSuccess s)
  | .dbsvrDelete => some (onDBSvrDelete s)
  | .dbsvrDeleteTimeout => some (onDBSvrDeleteTimeout s)
  | .dbsvrDeleteMessage => onDBSvrDeleteMessage s
  | .dbsvrDeleteSuccess => some (onDBSvrDeleteSuccess s)
  | .dbsvrInsert => some (onDBSvrInsert s)
  | .dbsvrInsertTimeout => some (onDBSvrInsertTimeout s)
  | .dbsvrInsertMessage => onDBSvrInsertMessage s
  | .dbsvrInsertSuccess => some (onDBSvrInsertSuccess s)
  | _ => none

/-- The server that has to answer in a state, and the state after its answer. -/
def awaited : ENSessionState → Option (ENServerType × ENSessionState)
  | .httpsvrWait => some (.httpServer, .httpsvrMessage)
  | .confsvrWait => some (.configCenter, .confsvrMessage)
  | .dbsvrQueryWait => some (.dataServer, .dbsvrQueryMessage)
  | .dbsvrUpdateWait => some (.dataServer, .dbsvrUpdateMessage)
  | .dbsvrDeleteWait => some (.dataServer, .dbsvrDeleteMessage)
  | .dbsvrInsertWait => some (.dataServer, .dbsvrInsertMessage)
  | _ => none

/-- `GetServerResponse` up to the call of `RunStateMachine`. -/
def getServerResponse (message : SvrResponse) (s : Session) : Session :=
  let s := { s with svrResponse := message }
  match awaited s.state with
  | none => s
  | some (serverType, state) =>
    if message.srcServerType ≠ serverType then s else { s with state }

/-- `WaitResponseTimeout` up to the call of `RunStateMachine`. -/
def waitResponseTimeout (s : Session) : Session :=
  match s.state with
  | .httpsvrWait => { s with state := .httpsvrTimeout }
  | .confsvrWait => { s with state := .confsvrTimeout }
  | .dbsvrQueryWait => { s with state := .dbsvrQueryTimeout }
  | .dbsvrUpdateWait => { s with state := .dbsvrUpdateTimeout }
  | .dbsvrDeleteWait => { s with state := .dbsvrDeleteTimeout }
  | .dbsvrInsertWait => { s with state := .dbsvrInsertTimeout }
  | .curlWait => { s with state := .curlTimeout }
  | _ => s

/-- What happens to a session. -/
inductive SessionEvent
  /-- The overridden function for the state is called. -/
  | overridden (edits : List Edit) (dbProcessIndex : UInt32) (next : ENSessionState)
  /-- One round of the loop otherwise. -/
  | round
  | serverResponse (message : SvrResponse)
  | timeout
  | curlResult

/-- A session and what it has sent to the data server. A message is sent when it is handed to
`TransferMessageByHash`; the source ignores what that returns. -/
structure Machine where
  session : Session
  sent : List (Request DB)
  /-- The lock ids that `OnDBSvrQueryMessage` stored in handles with `need_lock`. -/
  stored : List (DataKey × UInt32)
  /-- `OnSessionFinish` has returned. -/
  released : Bool

/-- The lock id that the response in a session is about to store in a handle with `need_lock`. -/
def lockToStore (s : Session) : List (DataKey × UInt32) :=
  let response := s.svrResponse.queryDataRsp.getD defaultRsp
  if s.state = .dbsvrQueryMessage ∧ getResult response = .ok then
    ((s.dbHandles.find? fun h => h.key = response.key).filter fun h =>
      h.needLock.getD false).toList.flatMap fun h => response.lockId.toList.map (h.key, ·)
  else []

namespace Machine

/-- A session for a request. -/
def initial (request : ENSessionState) : Machine := ⟨{ state := request }, [], [], false⟩

/-- An event, none where it is not possible. -/
def step : SessionEvent → Machine → Option Machine
  | .overridden edits dbProcessIndex next, m =>
    if m.released = false ∧ m.session.state.isOverridden = true then
      let session := edits.foldl (fun s e => e.apply s) m.session
      some { m with session := { session with dbProcessIndex, state := next } }
    else none
  | .round, m =>
    if m.released then none
    else if m.session.state = .finish then
      some { m with sent := m.sent ++ onSessionFinish m.session, released := true }
    else
      (runStateMachine m.session).map fun o =>
        { m with
          session := { o.session with state := o.next }
          sent := m.sent ++ o.sent
          stored := m.stored ++ lockToStore m.session }
  | .serverResponse message, m =>
    if m.released = false ∧ m.session.state.isWait = true then
      some { m with session := getServerResponse message m.session }
    else none
  | .timeout, m =>
    if m.released = false ∧ m.session.state.isWait = true then
      some { m with session := waitResponseTimeout m.session }
    else none
  | .curlResult, m =>
    if m.released = false ∧ m.session.state.isWait = true then
      some { m with session := { m.session with state := .curlMessage } }
    else none

end Machine

end Lsf.BasicHandler
