import Lsf.Svr.ClientConnManager
import Lsf.Svr.ReadPath

/-!
# The connection server

The connection server accepts the clients and passes their messages on to a game server. It knows a
client by the number of its descriptor, and it tells the game server of connections only by flags in
the heads of the messages that it passes on: the first message of a connection says that the
connection is new, and a message that has nothing but a head says that a connection is closed.

A socket is known by its descriptor here, and the messages of a read event are the complete messages
of its buffer. What is sent to the game server stays in `channel` until it is delivered.

## Main definitions

* `CS`, `SockInfo`, `AcceptClientMsgService` — the records
* `handleLogin`, `handleOther`, `onConnectionPeerClose`, … — the source's functions
* `ClientEvent`, `AcceptClientMsgService.step` — what can happen to the connections
* `System`, `System.step` — the connection server and a game server
-/

namespace Lsf.Conn

open Svr (Ending)

/-! ### Records -/

/-- `ENCSType`. -/
inductive ENCSType
  | none
  | timeSyncReq
  | timeSyncRsp
  | loginReq
  | loginRsp
  | heartBeatReq
  | heartBeatRsp
  | enterTableReq
  | enterTableRsp
  deriving DecidableEq

/-- `ENError`. -/
inductive ENError
  | ok
  | invalidUid
  deriving DecidableEq

/-- `LoginReq`. -/
structure LoginReq where
  uid : Option ℕ := none
  uname : Option String := none
  clientVersion : Option ℕ := none
  platform : Option ENPlatformType := none
  deriving DecidableEq

/-- `LoginRsp`. -/
structure LoginRsp where
  result : Option ENError := none
  deriving DecidableEq

/-- `TimeSyncRsp`. -/
structure TimeSyncRsp where
  serverTime : Option UInt32 := none
  serverTimeMilli : Option UInt64 := none
  deriving DecidableEq

/-- `msg::CS`, without the requests of the game server. -/
structure CS where
  msgType : Option ENCSType := none
  connHead : ConnHead := {}
  loginReq : LoginReq := {}
  loginRsp : LoginRsp := {}
  timeSyncRsp : TimeSyncRsp := {}
  deriving DecidableEq

/-- `msg_type()`. -/
def CS.getMsgType (message : CS) : ENCSType := message.msgType.getD .none

namespace ConnHead

/-- `is_new_conn()`. -/
def getIsNewConn (head : ConnHead) : Bool := head.isNewConn.getD false

/-- `is_close_conn()`. -/
def getIsCloseConn (head : ConnHead) : Bool := head.isCloseConn.getD false

/-- `is_login()`. -/
def getIsLogin (head : ConnHead) : Bool := head.isLogin.getD false

end ConnHead

/-- The `timespec` of the event loop. -/
structure Clock where
  tvSec : UInt64
  tvNsec : UInt64

namespace Clock

/-- `ClockTime`, in seconds. -/
def clockTime (ts : Clock) : UInt64 := ts.tvSec + ts.tvNsec / 1000000000

/-- `ClockTimeMilli`, in milliseconds. -/
def clockTimeMilli (ts : Clock) : UInt64 := ts.tvSec * 1000 + ts.tvNsec / 1000000

end Clock

/-- What the server has of a connection. -/
structure SockInfo where
  connHead : ConnHead := {}
  lastHeartBeatTime : UInt64 := 0
  /-- How many messages of the connection were passed on; the code does not have this count. -/
  forwarded : ℕ := 0

/-- The service, with what the event loop knows of its sockets. -/
structure AcceptClientMsgService where
  sockMap : Table ℕ SockInfo
  /-- `_is_connect` of the socket that holds a descriptor. -/
  isConnect : ℕ → Bool
  /-- Whether there is a read completion for a descriptor. -/
  readFunc : ℕ → Bool
  /-- What was sent to the clients. -/
  replies : List (ℕ × CS)
  /-- What was sent to the game server and is not delivered yet. -/
  channel : List CS
  /-- `need_heart_beat` of the configuration. -/
  needHeartBeat : Bool

namespace AcceptClientMsgService

/-- A connection without heart beat is closed after this time. -/
def DEF_HEART_BEAT_TIMEOUT : UInt64 := 15 * 1000

/-- A server without connections. -/
def initial (needHeartBeat : Bool) : AcceptClientMsgService :=
  ⟨∅, fun _ => false, fun _ => false, [], [], needHeartBeat⟩

/-! ### Sockets -/

/-- The entry of a descriptor, where a missing one reads as an empty one. -/
def sockInfo (s : AcceptClientMsgService) (fd : ℕ) : SockInfo := (s.sockMap.lookup fd).getD {}

/-- `_sock_map[fd]`, and what is done to the entry. -/
def withSockInfo (fd : ℕ) (f : SockInfo → SockInfo) (s : AcceptClientMsgService) :
    AcceptClientMsgService :=
  { s with sockMap := s.sockMap.insert fd (f (s.sockInfo fd)) }

/-- `ConnectionSend`. -/
def connectionSend (fd : ℕ) (message : CS) (s : AcceptClientMsgService) : AcceptClientMsgService :=
  if s.isConnect fd then { s with replies := s.replies ++ [(fd, message)] } else s

/-- `TransferMessage`, while the game server is connected. -/
def transferMessage (message : CS) (s : AcceptClientMsgService) : AcceptClientMsgService :=
  { s with channel := s.channel ++ [message] }

/-- `AsyncCancel`, after which the socket is not read. -/
def asyncCancel (fd : ℕ) (s : AcceptClientMsgService) : AcceptClientMsgService :=
  { s with readFunc := Function.update s.readFunc fd false }

/-- `ShutDown`, after which nothing is sent to the socket. -/
def shutDown (fd : ℕ) (s : AcceptClientMsgService) : AcceptClientMsgService :=
  { s with isConnect := Function.update s.isConnect fd false }

/-- `OnConnectionClose`, which drops what there is of the connection. -/
def onConnectionClose (fd : ℕ) (s : AcceptClientMsgService) : AcceptClientMsgService :=
  { s with sockMap := s.sockMap.erase fd }

/-- `ConnectionClose`. -/
def connectionClose (fd : ℕ) (s : AcceptClientMsgService) : AcceptClientMsgService :=
  ((s.asyncCancel fd).shutDown fd).onConnectionClose fd

/-! ### Messages -/

/-- The heart beat of a client is answered and noted. -/
def handleHeartBeat (ts : Clock) (fd : ℕ) (s : AcceptClientMsgService) : AcceptClientMsgService :=
  let s := s.connectionSend fd { msgType := some .heartBeatRsp }
  s.withSockInfo fd fun info => { info with lastHeartBeatTime := ts.clockTimeMilli }

/-- The server sends its time. -/
def handleTimeSync (ts : Clock) (fd : ℕ) (s : AcceptClientMsgService) : AcceptClientMsgService :=
  s.connectionSend fd
    { msgType := some .timeSyncRsp
      timeSyncRsp := ⟨some ts.clockTime.toUInt32, some ts.clockTimeMilli⟩ }

/-- The head of a connection after a login. -/
def loggedIn (request : LoginReq) (uid : ℕ) (connHead : ConnHead) : ConnHead :=
  { connHead with
    uid := some uid
    uname := some (request.uname.getD "")
    isLogin := some true
    platform := request.platform.or connHead.platform
    clientVersion := request.clientVersion.or connHead.clientVersion }

/-- A login without a `uid` closes the connection, and others are passed on. -/
def handleLogin (fd : ℕ) (request : LoginReq) (s : AcceptClientMsgService) :
    AcceptClientMsgService :=
  let response : CS := { msgType := some .loginRsp, connHead := (s.sockInfo fd).connHead }
  match request.uid with
  | none =>
    let s := s.connectionSend fd { response with loginRsp := ⟨some .invalidUid⟩ }
    s.connectionClose fd
  | some uid =>
    let s := s.withSockInfo fd fun info =>
      { info with connHead := loggedIn request uid info.connHead }
    s.connectionSend fd response

/-- The entry of a connection after a message of it was passed on. -/
def passedOn (info : SockInfo) : SockInfo :=
  { info with
    connHead := if info.connHead.getIsNewConn then { info.connHead with isNewConn := none }
      else info.connHead
    forwarded := info.forwarded + 1 }

/-- Other messages are passed on after the login, and dropped before it. -/
def handleOther (fd : ℕ) (message : CS) (s : AcceptClientMsgService) : AcceptClientMsgService :=
  let connHead := (s.sockInfo fd).connHead
  if connHead.getIsLogin then
    (s.withSockInfo fd passedOn).transferMessage { message with connHead }
  else s

/-- `OnConnectionMessage` for a message, or for one that does not parse. -/
def onConnectionMessage (ts : Clock) (fd : ℕ) :
    Option CS → AcceptClientMsgService → AcceptClientMsgService
  | none, s => s
  | some message, s =>
    let s := s.withSockInfo fd id
    match message.getMsgType with
    | .loginReq => s.handleLogin fd message.loginReq
    | .heartBeatReq => s.handleHeartBeat ts fd
    | .timeSyncReq => s.handleTimeSync ts fd
    | _ => s.handleOther fd message

/-! ### Connections -/

/-- `OnConnectionCreate`. -/
def onConnectionCreate (ts : Clock) (fd : ℕ) (ip : String) (port : ℕ)
    (s : AcceptClientMsgService) : AcceptClientMsgService :=
  s.withSockInfo fd fun info =>
    { info with
      connHead :=
        { info.connHead with
          connId := some fd
          connIp := some ip
          connPort := some port
          isNewConn := some true }
      lastHeartBeatTime := ts.clockTimeMilli }

/-- `OnConnectionPeerClose`. -/
def onConnectionPeerClose (fd : ℕ) (s : AcceptClientMsgService) : AcceptClientMsgService :=
  let s := s.withSockInfo fd id
  let connHead := (s.sockInfo fd).connHead
  -- send close connection notify
  if connHead.getIsNewConn then s
  else s.transferMessage { connHead := { connHead with isCloseConn := some true } }

/-- `OnSocketPeerClose`. -/
def onSocketPeerClose (fd : ℕ) (s : AcceptClientMsgService) : AcceptClientMsgService :=
  (s.onConnectionPeerClose fd).onConnectionClose fd

/-! ### Events -/

/-- `OnSocketAccept` for a socket with the descriptor `fd`, where `AsyncRead` succeeds or fails. -/
def onSocketAccept (ts : Clock) (fd : ℕ) (ip : String) (port : ℕ) (asyncRead : Bool)
    (s : AcceptClientMsgService) : AcceptClientMsgService :=
  let s := { s with isConnect := Function.update s.isConnect fd true }
  if asyncRead then
    let s := { s with readFunc := Function.update s.readFunc fd true }
    s.onConnectionCreate ts fd ip port
  else s.connectionClose fd

/-- A message goes to the handler while the socket is connected. -/
def passMessage (ts : Clock) (fd : ℕ) (message : Option CS) (s : AcceptClientMsgService) :
    AcceptClientMsgService :=
  if s.isConnect fd then s.onConnectionMessage ts fd message else s

/-- `OnSocketRead`, for the messages of the buffer. -/
def onSocketRead (ts : Clock) (fd : ℕ) :
    List (Option CS) → AcceptClientMsgService → AcceptClientMsgService
  | [], s => s
  | message :: messages, s => onSocketRead ts fd messages (s.passMessage ts fd message)

/-- `OnReadEvent`. -/
def onReadEvent (ts : Clock) (fd : ℕ) (messages : List (Option CS)) (ending : Ending)
    (s : AcceptClientMsgService) : AcceptClientMsgService :=
  let s := s.onSocketRead ts fd messages
  match ending with
  | .wouldBlock => s
  -- handle shutdown connection
  | .error => (s.asyncCancel fd).shutDown fd
  | .peerClose => ((s.asyncCancel fd).shutDown fd).onSocketPeerClose fd

/-- `OnErrorEvent` for a socket of a client, which never has a write completion. -/
def onErrorEvent (fd : ℕ) (s : AcceptClientMsgService) : AcceptClientMsgService :=
  if s.readFunc fd then (s.asyncCancel fd).shutDown fd else s

/-- The descriptors of the connections whose last heart beat is too long ago. -/
def timedOut (ts : Clock) (s : AcceptClientMsgService) : List ℕ :=
  (s.sockMap.entries.filter fun e =>
    DEF_HEART_BEAT_TIMEOUT < ts.clockTimeMilli - e.2.lastHeartBeatTime).map Sigma.fst

/-- The loop of the heart beat check over the connections that it closes. -/
def closeTimedOut : List ℕ → AcceptClientMsgService → AcceptClientMsgService
  | [], s => s
  | fd :: closeSocks, s =>
    closeTimedOut closeSocks ((s.onConnectionPeerClose fd).connectionClose fd)

end AcceptClientMsgService

/-- What the connection server does. -/
inductive ClientEvent
  /-- A client is accepted with a descriptor that is free. -/
  | accept (fd : ℕ) (ip : String) (port : ℕ) (asyncRead : Bool) (ts : Clock)
  /-- A read event with the messages of its buffer. -/
  | read (fd : ℕ) (messages : List (Option CS)) (ending : Ending) (ts : Clock)
  /-- An error event. -/
  | error (fd : ℕ)
  /-- The timer of the heart beat check, with the order in which it finds the connections. -/
  | heartBeatCheck (closeSocks : List ℕ) (ts : Clock)

namespace AcceptClientMsgService

/-- An event, none where it is not possible. -/
def step : ClientEvent → AcceptClientMsgService → Option AcceptClientMsgService
  | .accept fd ip port asyncRead ts, s =>
    if fd ∈ s.sockMap then none else some (s.onSocketAccept ts fd ip port asyncRead)
  | .read fd messages ending ts, s =>
    if s.readFunc fd then some (s.onReadEvent ts fd messages ending) else none
  | .error fd, s => some (s.onErrorEvent fd)
  | .heartBeatCheck closeSocks ts, s =>
    if s.needHeartBeat ∧ closeSocks.Perm (s.timedOut ts) then some (s.closeTimedOut closeSocks)
    else none

end AcceptClientMsgService

/-! ### What the functions do to the entries -/

/-- The login request in a message, if the message is one. -/
def CS.loginRequest (message : CS) : Option LoginReq :=
  if message.getMsgType = .loginReq then some message.loginReq else none

namespace AcceptClientMsgService

variable {s : AcceptClientMsgService} {fd : ℕ} {f : SockInfo → SockInfo}

theorem sockInfo_withSockInfo :
    (s.withSockInfo fd f).sockInfo = Function.update s.sockInfo fd (f (s.sockInfo fd)) := by
  funext other
  show ((s.sockMap.insert fd _).lookup other).getD {} = _
  by_cases hfd : other = fd
  · subst hfd
    rw [AList.lookup_insert, Function.update_self]
    rfl
  · rw [AList.lookup_insert_ne hfd, Function.update_of_ne hfd]
    rfl

theorem sockInfo_onConnectionClose :
    (s.onConnectionClose fd).sockInfo = Function.update s.sockInfo fd {} := by
  funext other
  show ((s.sockMap.erase fd).lookup other).getD {} = _
  by_cases hfd : other = fd
  · subst hfd
    rw [AList.lookup_erase, Function.update_self]
    rfl
  · rw [AList.lookup_erase_ne hfd, Function.update_of_ne hfd]
    rfl

theorem sockInfo_touch : (s.withSockInfo fd id).sockInfo = s.sockInfo := by
  rw [sockInfo_withSockInfo]
  exact Function.update_eq_self fd s.sockInfo

theorem mem_withSockInfo : fd ∈ (s.withSockInfo fd f).sockMap :=
  (AList.mem_insert _).mpr (Or.inl rfl)

theorem sockMap_connectionSend {message : CS} :
    (s.connectionSend fd message).sockMap = s.sockMap := by
  rw [connectionSend]
  split_ifs <;> rfl

theorem sockInfo_connectionSend {message : CS} :
    (s.connectionSend fd message).sockInfo = s.sockInfo := by
  funext other
  rw [sockInfo, sockMap_connectionSend]
  rfl

theorem sockInfo_of_notMem (hfd : fd ∉ s.sockMap) : s.sockInfo fd = {} := by
  rw [sockInfo, AList.lookup_eq_none.mpr hfd]
  rfl

/-- Which handler a message goes to. -/
theorem onConnectionMessage_cases (ts : Clock) (fd : ℕ) (message : CS)
    (s : AcceptClientMsgService) :
    (message.loginRequest = some message.loginReq ∧
      s.onConnectionMessage ts fd (some message) =
        (s.withSockInfo fd id).handleLogin fd message.loginReq) ∨
    (message.loginRequest = none ∧
      (s.onConnectionMessage ts fd (some message) =
          (s.withSockInfo fd id).handleHeartBeat ts fd ∨
        s.onConnectionMessage ts fd (some message) =
          (s.withSockInfo fd id).handleTimeSync ts fd ∨
        s.onConnectionMessage ts fd (some message) =
          (s.withSockInfo fd id).handleOther fd message)) := by
  simp only [onConnectionMessage, CS.loginRequest]
  cases message.getMsgType <;> simp

/-- What the peer close handler sends to the game server. -/
def closeNotice (info : SockInfo) : List CS :=
  if info.connHead.getIsNewConn then []
  else [{ connHead := { info.connHead with isCloseConn := some true } }]

theorem onConnectionPeerClose_eq :
    s.onConnectionPeerClose fd =
      { s.withSockInfo fd id with channel := s.channel ++ closeNotice (s.sockInfo fd) } := by
  rw [onConnectionPeerClose, sockInfo_touch, closeNotice]
  cases (s.sockInfo fd).connHead.getIsNewConn with
  | false => rfl
  | true =>
    rw [if_pos rfl, if_pos rfl, List.append_nil]
    rfl

/-- Closing after the peer close handler is the same as what a read event does at the end of the
stream. -/
theorem onConnectionPeerClose_connectionClose :
    (s.onConnectionPeerClose fd).connectionClose fd =
      ((s.asyncCancel fd).shutDown fd).onSocketPeerClose fd := by
  rw [onSocketPeerClose, onConnectionPeerClose_eq, onConnectionPeerClose_eq]
  rfl

theorem sockMap_onSocketPeerClose :
    (s.onSocketPeerClose fd).sockMap = s.sockMap.erase fd := by
  rw [onSocketPeerClose, onConnectionPeerClose_eq]
  exact AList.ext (List.kerase_cons_eq rfl)

end AcceptClientMsgService

/-! ### The game server -/

/-- `ConnectClientMsgTransferService::OnConnectionMessage`, as far as it concerns the manager. -/
def ClientConnManager.onConnectionMessage (message : CS) (m : ClientConnManager) :
    ClientConnManager :=
  let checkClose (m : ClientConnManager) : ClientConnManager :=
    if message.connHead.getIsCloseConn then m.releaseClientConn message.connHead.getConnId else m
  if message.connHead.getIsNewConn then
    match m.createClientConn message.connHead with
    | (none, m) => m
    | (some _, m) => checkClose m
  else checkClose m

/-- The connection server and the manager of the game server. -/
structure System where
  service : AcceptClientMsgService
  manager : ClientConnManager

/-- What the two servers do. -/
inductive SystemEvent
  | client (e : ClientEvent)
  /-- The first message in the channel arrives at the game server. -/
  | deliver

namespace System

/-- A server without connections, and a manager. -/
def initial (needHeartBeat : Bool) (m : ClientConnManager) : System := ⟨.initial needHeartBeat, m⟩

/-- An event, none where it is not possible. -/
def step : SystemEvent → System → Option System
  | .client e, s => (s.service.step e).map fun service => { s with service }
  | .deliver, s =>
    match s.service.channel with
    | [] => none
    | message :: channel =>
      some ⟨{ s.service with channel }, s.manager.onConnectionMessage message⟩

end System

end Lsf.Conn
