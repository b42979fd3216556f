import Lsf.Foundations.Correlation
import Lsf.Svr.ClientTransfer

/-!
# Responses to the clients

A client's request is passed on to the game server, a session is created for it, and at some time
the session sends its response, which goes back under the head of the request. In the meantime the
connection may be closed and its descriptor may be given to another client.

A connection is known by its descriptor and by how many connections have had this descriptor, and
every message that is passed on has a number of its own; the code has neither.

## Main definitions

* `Gateway`, `GatewayEvent`, `Gateway.step` — the connection server, the game server and the two
  streams between them
* `Gateway.pending` — the connections that wait for a response
* `GatewayEvent.Spares` — the condition on the events

## Main results

* `Gateway.Routed.step`, `Gateway.Once.step` — what every event keeps
* `responses_reach_their_connections`, `response_to_later_connection` — under the condition, and
  without it
* `one_response_for_request`
-/

namespace Lsf.Conn

open ServerNet (Node)

/-! ### The servers -/

/-- The connection that a request came from, and the number of the request. -/
structure Asker where
  conn : ℕ × ℕ
  number : ℕ

/-- A message on its way to the game server. -/
structure Passed where
  message : CS
  asker : Option Asker

/-- The game server creates a session for the message: it does not say that its connection was
closed, and it has a type. -/
def Passed.isRequest (x : Passed) : Bool :=
  !(x.message.connHead.getIsCloseConn || x.message.msgType.isNone)

/-- A session of the game server, with the request of a client if it has one. -/
structure ClientSession where
  csRequest : Option Passed := none
  isSendRsp : Bool := false

/-- `set_is_send_rsp(true)`. -/
def ClientSession.setIsSendRsp (session : ClientSession) : ClientSession :=
  { session with isSendRsp := true }

/-- A message on its way to the clients, with the request that it answers. -/
structure Sending where
  toClient : ToClient
  asker : Option Asker

/-- What a connection got. -/
structure Received where
  conn : ℕ × ℕ
  message : CS
  asker : Option Asker

/-- The connection server and the game server, with the streams between them. -/
structure Gateway where
  service : AcceptClientMsgService
  /-- How many connections have had a descriptor. -/
  age : ℕ → ℕ := fun _ => 0
  /-- How many messages were passed on. -/
  number : ℕ := 0
  /-- The stream to the game server. -/
  up : List Passed := []
  manager : ClientConnManager
  sessions : Node ClientSession
  /-- The stream to the connection server. -/
  down : List Sending := []
  received : List Received := []

/-- What the two servers do. -/
inductive GatewayEvent
  | client (e : ClientEvent)
  /-- The game server gets the next message. -/
  | deliverUp
  /-- A session is created for another server or for the game server itself. -/
  | createSession
  /-- `SendResponse` for a session, whose response has this content. -/
  | sendResponse (sessionId : UInt32) (content : CS)
  | releaseSession (sessionId : UInt32)
  | transferMessageByConnId (connId : ℕ) (message : CS)
  | transferMessageByConnIds (connIds : List ℕ) (message : CS)
  /-- The connection server gets the next message. -/
  | deliverDown
  /-- The two servers are connected anew, and what was on its way is lost. -/
  | reconnect

/-- The handlers that `GameServer::OnRun` adds, with the types of their responses. -/
def gameServerHandlers : ENCSType → Option ENCSType
  | .enterTableReq => some .enterTableRsp
  | _ => none

namespace Gateway

/-- No client and no session. -/
def initial (needHeartBeat : Bool) (manager : ClientConnManager) (maxSize : ℕ) : Gateway where
  service := .initial needHeartBeat
  manager
  sessions := { maxSize }

/-- What an event of the connection server passes on is taken over into the stream. -/
def takeOver (e : ClientEvent) (service : AcceptClientMsgService) (g : Gateway) : Gateway :=
  let conn := (e.sockFd, g.age e.sockFd)
  { g with
    service := { service with channel := [] }
    number := g.number + service.channel.length
    up := g.up ++ service.channel.mapIdx fun i message => ⟨message, some ⟨conn, g.number + i⟩⟩ }

/-- A descriptor is given to another connection. -/
def countAccept : ClientEvent → Gateway → Gateway
  | .accept fd .., g => { g with age := Function.update g.age fd (g.age fd + 1) }
  | _, g => g

/-- A session is created, for a request or for none. -/
def createSession (csRequest : Option Passed) (g : Gateway) : Option Gateway :=
  (g.sessions.createSession fun _ => { csRequest }).map fun (_, sessions) => { g with sessions }

/-- `ConnectClientMsgTransferService::OnConnectionMessage`. -/
def onConnectionMessage (x : Passed) (g : Gateway) : Option Gateway :=
  let head := x.message.connHead
  -- check new connection
  if head.getIsNewConn ∧ g.manager.full then
    -- the head that is sent back is a copy of itself
    some { g with down := g.down ++ [⟨{}, none⟩] }
  else
    let g := { g with manager := g.manager.onConnectionMessage x.message }
    -- check close connection, and just ignore empty content
    if head.getIsCloseConn ∨ x.message.msgType.isNone then some g
    else g.createSession (some x)

/-- `SendResponse`, for a session that was created for a request of a client. -/
def sendResponse (csRspType : ENCSType → Option ENCSType) (sessionId : UInt32) (content : CS)
    (g : Gateway) : Option Gateway :=
  (g.sessions.getSession sessionId).map fun session =>
    if session.isSendRsp then g
    else
      match session.csRequest with
      | none => g
      | some x =>
        match x.message.msgType.bind csRspType with
        | none => g
        | some rspType =>
          { g with
            sessions := g.sessions.modify sessionId ClientSession.setIsSendRsp
            down := g.down ++
              [⟨transferResponse x.message { content with msgType := some rspType }, x.asker⟩] }

/-- The connection server gets a message for clients. -/
def onTransferMessage (x : Sending) (g : Gateway) : Gateway :=
  let service := g.service.onTransferMessage x.toClient
  { g with
    service
    received := g.received ++ (service.replies.drop g.service.replies.length).map
      fun (fd, message) => ⟨(fd, g.age fd), message, x.asker⟩ }

/-- An event, none where it is not possible. -/
def step (csRspType : ENCSType → Option ENCSType) : GatewayEvent → Gateway → Option Gateway
  | .client e, g => (g.service.step e).map fun service => (g.countAccept e).takeOver e service
  | .deliverUp, g =>
    match g.up with
    | [] => none
    | x :: up => onConnectionMessage x { g with up }
  | .createSession, g => g.createSession none
  | .sendResponse sessionId content, g => g.sendResponse csRspType sessionId content
  | .releaseSession sessionId, g =>
    some { g with sessions := g.sessions.releaseSession sessionId }
  | .transferMessageByConnId connId message, g =>
    some { g with down := g.down ++ [⟨Conn.transferMessageByConnId connId message, none⟩] }
  | .transferMessageByConnIds connIds message, g =>
    some { g with down := g.down ++ [⟨Conn.transferMessageByConnIds connIds message, none⟩] }
  | .deliverDown, g =>
    match g.down with
    | [] => none
    | x :: down => some (onTransferMessage x { g with down })
  | .reconnect, g => some { g with up := [], down := [] }

/-! ### Who waits for a response -/

/-- A request that may still be answered: it is on its way to the game server, its session has not
sent a response, or this is on its way back. -/
inductive Open (g : Gateway) (a : Asker) : Prop
  | up (x : Passed) (h : x ∈ g.up) (hreq : x.isRequest) (ha : x.asker = some a)
  | session (sessionId : UInt32) (session : ClientSession) (x : Passed)
      (h : g.sessions.getSession sessionId = some session) (hsend : session.isSendRsp = false)
      (hreq : session.csRequest = some x) (ha : x.asker = some a)
  | down (x : Sending) (h : x ∈ g.down) (ha : x.asker = some a)

/-- The connections that wait for a response. -/
def pending (g : Gateway) : Set (ℕ × ℕ) := {q | ∃ a, g.Open a ∧ a.conn = q}

end Gateway

/-- A descriptor is given to another connection only when nobody who had it waits for a response. -/
def GatewayEvent.Spares : GatewayEvent → Gateway → Prop
  | .client (.accept fd ..), g => Lsf.Spares fd g.pending
  | _, _ => True

namespace Gateway

/-- What is on its way names the connection that it is from or for, and the connections that wait
have their descriptors. -/
structure Routed (g : Gateway) : Prop where
  owned : g.service.Owned
  channel : g.service.channel = []
  up : ∀ x ∈ g.up, ∀ a, x.asker = some a → x.message.Names a.conn.1
  session : ∀ sessionId session x a, g.sessions.getSession sessionId = some session →
    session.csRequest = some x → x.asker = some a → x.message.connHead.connId = some a.conn.1
  down : ∀ x ∈ g.down, ∀ a, x.asker = some a →
    x.toClient.message.connHead.connId = some a.conn.1 ∧ x.toClient.connIds = []
  current : Current g.age g.pending
  received : ∀ r ∈ g.received, ∀ a, r.asker = some a → a.conn = r.conn

section Routed

variable {g g' : Gateway} {csRspType : ENCSType → Option ENCSType}

theorem mem_pending {a : Asker} (h : g.Open a) : a.conn ∈ g.pending := ⟨a, h, rfl⟩

theorem pending_subset (h : ∀ a, g'.Open a → g.Open a) : g'.pending ⊆ g.pending := by
  rintro q ⟨a, ha, rfl⟩
  exact mem_pending (h a ha)

namespace Routed

/-- Nothing is sent, and the sessions that are left were there before. -/
theorem mono (hi : g.Routed) (hservice : g'.service = g.service) (hage : g'.age = g.age)
    (hup : g'.up ⊆ g.up) (hdown : g'.down ⊆ g.down) (hreceived : g'.received = g.received)
    (hsession : ∀ sessionId session, g'.sessions.getSession sessionId = some session →
      ∃ old, g.sessions.getSession sessionId = some old ∧ old.csRequest = session.csRequest ∧
        (session.isSendRsp = false → old.isSendRsp = false)) : g'.Routed where
  owned := hservice ▸ hi.owned
  channel := hservice ▸ hi.channel
  up x hx := hi.up x (hup hx)
  session sessionId session x a hget hreq ha := by
    obtain ⟨old, hold, heq, -⟩ := hsession sessionId session hget
    exact hi.session sessionId old x a hold (heq.trans hreq) ha
  down x hx := hi.down x (hdown hx)
  current := by
    rw [hage]
    refine hi.current.mono (pending_subset fun a ha => ?_)
    obtain ⟨x, hx, hreq', ha⟩ | ⟨sessionId, session, x, hget, hsend, hreq, ha⟩ | ⟨x, hx, ha⟩ := ha
    · exact .up x (hup hx) hreq' ha
    · obtain ⟨old, hold, heq, hflag⟩ := hsession sessionId session hget
      exact .session sessionId old x hold (hflag hsend) (heq.trans hreq) ha
    · exact .down x (hdown hx) ha
  received := hreceived ▸ hi.received

/-- A message to the clients is sent, which answers an open request if it answers any. -/
theorem send (hi : g.Routed) {x : Sending}
    (hx : ∀ a, x.asker = some a → g.Open a ∧
      x.toClient.message.connHead.connId = some a.conn.1 ∧ x.toClient.connIds = []) :
    ({ g with down := g.down ++ [x] } : Gateway).Routed where
  owned := hi.owned
  channel := hi.channel
  up := hi.up
  session := hi.session
  down y hy a ha := by
    obtain hy | hy := List.mem_append.mp hy
    · exact hi.down y hy a ha
    · obtain rfl := List.mem_singleton.mp hy
      exact (hx a ha).2
  current := by
    refine hi.current.mono (pending_subset fun a ha => ?_)
    obtain ⟨y, hy, hreq', ha⟩ | ⟨sessionId, session, y, hget, hsend, hreq, ha⟩ | ⟨y, hy, ha⟩ := ha
    · exact .up y hy hreq' ha
    · exact .session sessionId session y hget hsend hreq ha
    · obtain hy | hy := List.mem_append.mp hy
      · exact .down y hy ha
      · obtain rfl := List.mem_singleton.mp hy
        exact (hx a ha).1
  received := hi.received

/-- A session is created, for an open request if it is for any. -/
theorem createSession (hi : g.Routed) {csRequest : Option Passed}
    (hreq : ∀ x, csRequest = some x → ∀ a, x.asker = some a → g.Open a ∧
      x.message.connHead.connId = some a.conn.1)
    (h : g.createSession csRequest = some g') : g'.Routed := by
  obtain ⟨⟨created, sessions⟩, hcreate, rfl⟩ := Option.map_eq_some_iff.mp h
  obtain ⟨-, rfl⟩ | ⟨newId, -, -, -, hget⟩ := Node.createSession_cases hcreate
  · exact hi
  refine ⟨hi.owned, hi.channel, hi.up, fun sessionId session x a hs hx ha => ?_, hi.down, ?_,
    hi.received⟩
  · rw [hget] at hs
    split_ifs at hs with hid
    · cases hs
      exact (hreq x hx a ha).2
    · exact hi.session sessionId session x a hs hx ha
  · refine hi.current.mono (pending_subset fun a ha => ?_)
    obtain ⟨y, hy, hreq', ha⟩ | ⟨sessionId, session, y, hs, hsend, hy, ha⟩ | ⟨y, hy, ha⟩ := ha
    · exact .up y hy hreq' ha
    · rw [hget] at hs
      split_ifs at hs with hid
      · cases hs
        exact (hreq y hy a ha).1
      · exact .session sessionId session y hs hsend hy ha
    · exact .down y hy ha

/-- A request gets to the game server. -/
theorem onConnectionMessage (hi : g.Routed) {x : Passed} {up : List Passed} (hup : g.up = x :: up)
    (h : Gateway.onConnectionMessage x { g with up } = some g') : g'.Routed := by
  have hx : x ∈ g.up := hup ▸ List.mem_cons_self
  have hrest : ∀ manager : ClientConnManager, ({ g with up, manager } : Gateway).Routed := by
    intro manager
    refine hi.mono rfl rfl ?_ (List.Subset.refl _) rfl fun _ s h => ⟨s, h, rfl, id⟩
    rw [hup]
    exact List.subset_cons_self _ _
  rw [Gateway.onConnectionMessage] at h
  split_ifs at h with hfull hclose
  · cases h
    exact (hrest g.manager).send fun a ha => absurd ha (Option.some_ne_none a).symm
  · cases h
    exact hrest _
  · -- the session is created while the request is still in the stream, and then it is taken out
    obtain ⟨created, hcreate, rfl⟩ := Option.map_eq_some_iff.mp h
    have hsome : x.message.msgType.isSome = true := by
      rw [not_or, Option.isNone_iff_eq_none] at hclose
      exact Option.isSome_iff_ne_none.mpr hclose.2
    have hcreated : g.createSession (some x) = some { g with sessions := created.2 } :=
      Option.map_eq_some_iff.mpr ⟨created, hcreate, rfl⟩
    have hreq : x.isRequest = true := by
      simpa [Passed.isRequest, Option.isSome_iff_ne_none] using hclose
    refine (hi.createSession (fun y hy a ha => ?_) hcreated).mono rfl rfl ?_ (List.Subset.refl _)
      rfl fun _ s h => ⟨s, h, rfl, id⟩
    · obtain rfl := Option.some.inj hy
      exact ⟨.up x hx hreq ha, hi.up x hx a ha hsome⟩
    · show up ⊆ g.up
      rw [hup]
      exact List.subset_cons_self _ _

/-- A session sends its response. -/
theorem sendResponse (hi : g.Routed) {sessionId : UInt32} {content : CS}
    (h : g.sendResponse csRspType sessionId content = some g') : g'.Routed := by
  obtain ⟨session, hget, rfl⟩ := Option.map_eq_some_iff.mp h
  split_ifs with hsend
  · exact hi
  cases hreq : session.csRequest with
  | none => exact hi
  | some x =>
    dsimp only
    cases x.message.msgType.bind csRspType with
    | none => exact hi
    | some rspType =>
      have hsent := hi.send (x := ⟨transferResponse x.message
        { content with msgType := some rspType }, x.asker⟩) fun a ha =>
          ⟨.session sessionId session x hget (Bool.eq_false_iff.mpr hsend) hreq ha,
            hi.session sessionId session x a hget hreq ha, rfl⟩
      refine hsent.mono rfl rfl (List.Subset.refl _) (List.Subset.refl _) rfl fun k s hs => ?_
      rw [Node.getSession_modify] at hs
      split_ifs at hs with hk
      · obtain ⟨old, hold, rfl⟩ := Option.map_eq_some_iff.mp hs
        exact ⟨old, hk ▸ hold, rfl, fun hfalse => by cases hfalse⟩
      · exact ⟨s, hs, rfl, id⟩

/-- An event of the connection server. -/
theorem client (hi : g.Routed) {e : ClientEvent} (hspares : (GatewayEvent.client e).Spares g)
    {service : AcceptClientMsgService} (hstep : g.service.step e = some service) :
    ((g.countAccept e).takeOver e service).Routed := by
  obtain ⟨howned, passed, hchannel, hnames⟩ :=
    AcceptClientMsgService.owned_step hi.owned hstep
  rw [hi.channel, List.nil_append] at hchannel
  -- what is passed on now is from a connection that has its descriptor
  have hcurrent : Current (g.countAccept e).age g.pending := by
    cases e with
    | accept fd ip port asyncRead ts => exact hi.current.take_iff.mpr hspares
    | _ => exact hi.current
  have hsame : (g.countAccept e).up = g.up ∧ (g.countAccept e).down = g.down ∧
      (g.countAccept e).sessions = g.sessions ∧ (g.countAccept e).received = g.received := by
    cases e <;> exact ⟨rfl, rfl, rfl, rfl⟩
  obtain ⟨hup, hdown, hsessions, hreceived⟩ := hsame
  have hnew : ∀ x ∈ ((g.countAccept e).takeOver e service).up, x ∈ g.up ∨ ∀ a, x.asker = some a →
      a.conn = (e.sockFd, (g.countAccept e).age e.sockFd) ∧ x.message.Names e.sockFd := by
    intro x hx
    obtain hx | hx := List.mem_append.mp hx
    · exact .inl (hup ▸ hx)
    · obtain ⟨i, hi, rfl⟩ := List.mem_mapIdx.mp hx
      refine .inr fun a ha => ?_
      obtain rfl := Option.some.inj ha
      exact ⟨rfl, hnames _ (hchannel ▸ List.getElem_mem hi)⟩
  refine ⟨⟨howned.connId, howned.entered⟩, rfl, fun x hx a ha => ?_, hsessions ▸ hi.session,
    hdown ▸ hi.down, ?_, hreceived ▸ hi.received⟩
  · obtain hx | hx := hnew x hx
    · exact hi.up x hx a ha
    · obtain ⟨hconn, hmessage⟩ := hx a ha
      rw [hconn]
      exact hmessage
  · refine (hcurrent.ask e.sockFd).mono ?_
    rintro q ⟨a, ha, rfl⟩
    obtain ⟨x, hx, hreq', ha⟩ | ⟨sessionId, session, x, hget, hsend, hreq, ha⟩ | ⟨x, hx, ha⟩ := ha
    · obtain hx | hx := hnew x hx
      · exact .inr (mem_pending (.up x hx hreq' ha))
      · exact .inl (hx a ha).1
    · exact .inr (mem_pending (.session sessionId session x (hsessions ▸ hget) hsend hreq ha))
    · exact .inr (mem_pending (.down x (hdown ▸ hx) ha))

/-- The connection server gets a message. -/
theorem onTransferMessage (hi : g.Routed) {x : Sending} {down : List Sending}
    (hdown : g.down = x :: down) :
    (Gateway.onTransferMessage x { g with down }).Routed := by
  have hx : x ∈ g.down := hdown ▸ List.mem_cons_self
  have hrest : ({ g with down } : Gateway).Routed := by
    refine hi.mono rfl rfl (List.Subset.refl _) ?_ rfl fun _ s h => ⟨s, h, rfl, id⟩
    rw [hdown]
    exact List.subset_cons_self _ _
  obtain ⟨sent, heq, hone⟩ :=
    AcceptClientMsgService.onTransferMessage_cases x.toClient g.service
  rw [Gateway.onTransferMessage]
  simp only [heq, List.drop_left]
  refine ⟨⟨hi.owned.connId, hi.owned.entered⟩, hi.channel, hrest.up, hrest.session, hrest.down,
    hrest.current.mono (pending_subset fun a ha => ?_), fun r hr a ha => ?_⟩
  · obtain ⟨y, hy, hreq', ha⟩ | ⟨sessionId, session, y, hget, hsend, hreq, ha⟩ | ⟨y, hy, ha⟩ := ha
    · exact .up y hy hreq' ha
    · exact .session sessionId session y hget hsend hreq ha
    · exact .down y hy ha
  obtain hr | hr := List.mem_append.mp hr
  · exact hi.received r hr a ha
  · obtain ⟨⟨fd, message⟩, hmem, rfl⟩ := List.mem_map.mp hr
    obtain ⟨hid, hids⟩ := hi.down x hx a ha
    have hfd := (hone hids).2 _ hmem
    obtain rfl : a.conn.1 = fd := Option.some.inj (hid.symm.trans hfd)
    exact Prod.ext rfl (hi.current.holder (mem_pending (.down x hx ha)))

/-- **Every event keeps messages on their way to the connections that they are for.** -/
theorem step (hi : g.Routed) {e : GatewayEvent} (hspares : e.Spares g)
    (hstep : Gateway.step csRspType e g = some g') : g'.Routed := by
  cases e with
  | client e =>
    obtain ⟨service, hservice, rfl⟩ := Option.map_eq_some_iff.mp hstep
    exact hi.client hspares hservice
  | deliverUp =>
    rw [Gateway.step] at hstep
    split at hstep
    · cases hstep
    · exact hi.onConnectionMessage ‹_› hstep
  | createSession =>
    exact hi.createSession (fun x hx => absurd hx (Option.some_ne_none x).symm) hstep
  | sendResponse sessionId content => exact hi.sendResponse hstep
  | releaseSession sessionId =>
    cases hstep
    refine hi.mono rfl rfl (List.Subset.refl _) (List.Subset.refl _) rfl fun k s hs => ?_
    rw [Node.getSession_releaseSession] at hs
    split_ifs at hs
    exact ⟨s, hs, rfl, id⟩
  | transferMessageByConnId connId message =>
    cases hstep
    exact hi.send fun a ha => absurd ha (Option.some_ne_none a).symm
  | transferMessageByConnIds connIds message =>
    cases hstep
    exact hi.send fun a ha => absurd ha (Option.some_ne_none a).symm
  | deliverDown =>
    rw [Gateway.step] at hstep
    split at hstep
    · cases hstep
    · cases hstep
      exact hi.onTransferMessage ‹_›
  | reconnect =>
    cases hstep
    exact hi.mono rfl rfl (List.nil_subset _) (List.nil_subset _) rfl fun _ s h => ⟨s, h, rfl, id⟩

end Routed

end Routed

/-! ### One response for a request -/

/-- The numbers of the requests behind these. -/
def numbersOf {α : Type} (asker : α → Option Asker) (l : List α) : List ℕ :=
  (l.filterMap asker).map Asker.number

/-- In how many places a request is: on its way to the game server, as a response on its way back,
and as a response at a connection. -/
def places (g : Gateway) (n : ℕ) : ℕ :=
  (numbersOf Passed.asker g.up).count n + (numbersOf Sending.asker g.down).count n +
    (numbersOf Received.asker g.received).count n

/-- A request is in one place. A session has its request to itself, and until it has answered there
is no response for it. -/
structure Once (g : Gateway) : Prop where
  once : ∀ n, g.places n ≤ 1
  fresh : ∀ n, g.number ≤ n → g.places n = 0
  session : ∀ sessionId session x a, g.sessions.getSession sessionId = some session →
    session.csRequest = some x → x.asker = some a →
      a.number < g.number ∧ (numbersOf Passed.asker g.up).count a.number = 0 ∧
        (session.isSendRsp = false → g.places a.number = 0)
  unique : ∀ i j session session' x x' a a', g.sessions.getSession i = some session →
    g.sessions.getSession j = some session' → session.csRequest = some x →
    session'.csRequest = some x' → x.asker = some a → x'.asker = some a' →
    a.number = a'.number → i = j
  down : ∀ x ∈ g.down, ∀ a, x.asker = some a → x.toClient.connIds = []

section Once

variable {α : Type} {asker : α → Option Asker} {g g' : Gateway}
  {csRspType : ENCSType → Option ENCSType}

theorem numbersOf_append (l l' : List α) :
    numbersOf asker (l ++ l') = numbersOf asker l ++ numbersOf asker l' := by
  rw [numbersOf, List.filterMap_append, List.map_append]
  rfl

theorem numbersOf_of_some {x : α} {a : Asker} (h : asker x = some a) (l : List α) :
    numbersOf asker (x :: l) = a.number :: numbersOf asker l := by
  rw [numbersOf, List.filterMap_cons_some h]
  rfl

theorem numbersOf_of_none {x : α} (h : asker x = none) (l : List α) :
    numbersOf asker (x :: l) = numbersOf asker l := by
  rw [numbersOf, List.filterMap_cons_none h]
  rfl

theorem numbersOf_sublist (asker : α → Option Asker) {l l' : List α} (h : l.Sublist l') :
    (numbersOf asker l).Sublist (numbersOf asker l') := (h.filterMap asker).map _

/-- The numbers that messages get when they are passed on. -/
theorem numbersOf_mapIdx (conn : ℕ × ℕ) (number : ℕ) (messages : List CS) :
    numbersOf Passed.asker (messages.mapIdx fun i message =>
      ⟨message, some ⟨conn, number + i⟩⟩) = List.range' number messages.length := by
  induction messages generalizing number with
  | nil => rfl
  | cons message messages ih =>
    rw [List.mapIdx_cons, numbersOf_of_some (show Passed.asker _ = some _ from rfl),
      List.length_cons, List.range'_succ, ← ih]
    simp only [Nat.add_zero, Nat.add_assoc, Nat.add_comm 1]

namespace Once

/-- No request is in more places than before, and the sessions that are left were there before. -/
theorem of_places (hi : g.Once) (hnumber : g'.number = g.number)
    (hup : g'.up.Sublist g.up) (hdown : g'.down ⊆ g.down) (hplaces : ∀ n, g'.places n ≤ g.places n)
    (hsession : ∀ sessionId session, g'.sessions.getSession sessionId = some session →
      ∃ old, g.sessions.getSession sessionId = some old ∧ old.csRequest = session.csRequest ∧
        (session.isSendRsp = false → old.isSendRsp = false)) : g'.Once := by
  refine ⟨fun n => (hplaces n).trans (hi.once n), fun n hn => ?_,
    fun sessionId session x a hget hreq ha => ?_,
    fun i j session session' x x' a a' hs hs' hreq hreq' ha ha' heq => ?_,
    fun x hx => hi.down x (hdown hx)⟩
  · exact Nat.le_zero.mp (hi.fresh n (hnumber ▸ hn) ▸ hplaces n)
  · obtain ⟨old, hold, hsame, hflag⟩ := hsession sessionId session hget
    obtain ⟨hlt, hnotUp, hnone⟩ := hi.session sessionId old x a hold (hsame.trans hreq) ha
    have hcount := (numbersOf_sublist Passed.asker hup).count_le a.number
    refine ⟨hnumber ▸ hlt, Nat.le_zero.mp (hnotUp ▸ hcount), fun hsend => ?_⟩
    exact Nat.le_zero.mp (hnone (hflag hsend) ▸ hplaces _)
  · obtain ⟨old, hold, hsame, -⟩ := hsession i session hs
    obtain ⟨old', hold', hsame', -⟩ := hsession j session' hs'
    exact hi.unique i j old old' x x' a a' hold hold' (hsame.trans hreq) (hsame'.trans hreq') ha
      ha' heq

/-- Requests get lost, and the sessions that are left were there before. -/
theorem mono (hi : g.Once) (hnumber : g'.number = g.number)
    (hup : g'.up.Sublist g.up) (hdown : g'.down.Sublist g.down)
    (hreceived : g'.received = g.received)
    (hsession : ∀ sessionId session, g'.sessions.getSession sessionId = some session →
      ∃ old, g.sessions.getSession sessionId = some old ∧ old.csRequest = session.csRequest ∧
        (session.isSendRsp = false → old.isSendRsp = false)) : g'.Once := by
  refine hi.of_places hnumber hup hdown.subset (fun n => ?_) hsession
  have hupCount := (numbersOf_sublist Passed.asker hup).count_le n
  have hdownCount := (numbersOf_sublist Sending.asker hdown).count_le n
  rw [places, places, hreceived]
  exact Nat.add_le_add_right (Nat.add_le_add hupCount hdownCount) _

/-- A message to the clients is sent that answers nothing. -/
theorem send (hi : g.Once) {x : Sending} (hx : x.asker = none) :
    ({ g with down := g.down ++ [x] } : Gateway).Once := by
  have hplaces : ∀ n, ({ g with down := g.down ++ [x] } : Gateway).places n = g.places n := by
    intro n
    rw [places, places, numbersOf_append, numbersOf_of_none hx]
    simp [numbersOf]
  refine ⟨fun n => hplaces n ▸ hi.once n, fun n hn => (hplaces n).trans (hi.fresh n hn),
    fun sessionId session y a hget hreq ha => ?_, hi.unique, fun y hy a ha => ?_⟩
  · rw [hplaces]
    exact hi.session sessionId session y a hget hreq ha
  · obtain hy | hy := List.mem_append.mp hy
    · exact hi.down y hy a ha
    · rw [List.mem_singleton.mp hy, hx] at ha
      cases ha

/-- What the connection server passes on gets numbers that are new. -/
theorem client (hi : g.Once) (e : ClientEvent) (service : AcceptClientMsgService) :
    ((g.countAccept e).takeOver e service).Once := by
  obtain ⟨age, heq⟩ : ∃ age, g.countAccept e = { g with age } := by
    rcases e <;> exact ⟨_, rfl⟩
  rw [heq]
  have hup : ∀ n, (numbersOf Passed.asker
      (({ g with age } : Gateway).takeOver e service).up).count n =
      (numbersOf Passed.asker g.up).count n +
        (List.range' g.number service.channel.length).count n := by
    intro n
    rw [takeOver, numbersOf_append, numbersOf_mapIdx, List.count_append]
  have hplaces : ∀ n, (({ g with age } : Gateway).takeOver e service).places n =
      g.places n + (List.range' g.number service.channel.length).count n := by
    intro n
    rw [places, hup, places]
    exact (by omega : ∀ a b c d : ℕ, a + b + c + d = a + c + d + b) _ _ _ _
  have hnew : ∀ n, n < g.number → (List.range' g.number service.channel.length).count n = 0 := by
    intro n hn
    refine List.count_eq_zero.mpr fun hmem => ?_
    exact absurd (List.mem_range'_1.mp hmem).1 (Nat.not_le.mpr hn)
  refine ⟨fun n => ?_, fun n hn => ?_, fun sessionId session x a hget hreq ha => ?_, hi.unique,
    hi.down⟩
  · rw [hplaces]
    by_cases hn : n < g.number
    · rw [hnew n hn]
      exact hi.once n
    · rw [hi.fresh n (Nat.not_lt.mp hn), Nat.zero_add]
      exact List.nodup_iff_count_le_one.mp List.nodup_range' n
  · have hn : g.number + service.channel.length ≤ n := hn
    rw [hplaces, hi.fresh n (by omega), Nat.zero_add]
    refine List.count_eq_zero.mpr fun hmem => ?_
    exact absurd (List.mem_range'_1.mp hmem).2 (Nat.not_lt.mpr hn)
  · obtain ⟨hlt, hnotUp, hnone⟩ := hi.session sessionId session x a hget hreq ha
    refine ⟨Nat.lt_add_right _ hlt, ?_, fun hsend => ?_⟩
    · rw [hup, hnotUp, hnew _ hlt]
    · rw [hplaces, hnone hsend, hnew _ hlt]

/-- A session is created, for a request that is nowhere else if it is for any. -/
theorem createSession (hi : g.Once) {csRequest : Option Passed}
    (hreq : ∀ x, csRequest = some x → ∀ a, x.asker = some a →
      a.number < g.number ∧ g.places a.number = 0 ∧
        ∀ sessionId session y b, g.sessions.getSession sessionId = some session →
          session.csRequest = some y → y.asker = some b → b.number ≠ a.number)
    (h : g.createSession csRequest = some g') : g'.Once := by
  obtain ⟨⟨created, sessions⟩, hcreate, rfl⟩ := Option.map_eq_some_iff.mp h
  obtain ⟨-, rfl⟩ | ⟨newId, -, -, -, hget⟩ := Node.createSession_cases hcreate
  · exact hi
  refine ⟨hi.once, hi.fresh, fun sessionId session x a hs hx ha => ?_,
    fun i j session session' x x' a a' hs hs' hx hx' ha ha' heq => ?_, hi.down⟩
  · rw [hget] at hs
    split_ifs at hs with hid
    · cases hs
      obtain ⟨hlt, hnone, -⟩ := hreq x hx a ha
      have hnotUp : (numbersOf Passed.asker g.up).count a.number = 0 := by
        rw [places] at hnone
        omega
      exact ⟨hlt, hnotUp, fun _ => hnone⟩
    · exact hi.session sessionId session x a hs hx ha
  · rw [hget] at hs hs'
    split_ifs at hs with hid
    · split_ifs at hs' with hid'
      · rw [hid, hid']
      · cases hs
        exact absurd heq.symm ((hreq x hx a ha).2.2 j session' x' a' hs' hx' ha')
    · split_ifs at hs' with hid'
      · cases hs'
        exact absurd heq ((hreq x' hx' a' ha').2.2 i session x a hs hx ha)
      · exact hi.unique i j session session' x x' a a' hs hs' hx hx' ha ha' heq

/-- A request gets to the game server. -/
theorem onConnectionMessage (hi : g.Once) {x : Passed} {up : List Passed} (hup : g.up = x :: up)
    (h : Gateway.onConnectionMessage x { g with up } = some g') : g'.Once := by
  have hrest : ∀ manager : ClientConnManager, ({ g with up, manager } : Gateway).Once := by
    intro manager
    refine hi.mono rfl ?_ (List.Sublist.refl _) rfl fun _ s h => ⟨s, h, rfl, id⟩
    rw [hup]
    exact List.sublist_cons_self _ _
  rw [Gateway.onConnectionMessage] at h
  split_ifs at h with hfull hclose
  · cases h
    exact (hrest g.manager).send rfl
  · cases h
    exact hrest _
  · refine (hrest _).createSession (fun y hy a ha => ?_) h
    obtain rfl := Option.some.inj hy
    -- the request was on its way, so that it was nowhere else
    have hupCount : (numbersOf Passed.asker g.up).count a.number =
        (numbersOf Passed.asker up).count a.number + 1 := by
      rw [hup, numbersOf_of_some ha, List.count_cons_self]
    have hplaces := hi.once a.number
    rw [places, hupCount] at hplaces
    refine ⟨?_, ?_, fun sessionId session y b hget hreq hb heq => ?_⟩
    · by_contra hle
      have hnone := hi.fresh a.number (Nat.not_lt.mp hle)
      rw [places, hupCount] at hnone
      omega
    · rw [places]
      dsimp only
      omega
    · have hnotUp := (hi.session sessionId session y b hget hreq hb).2.1
      rw [heq, hupCount] at hnotUp
      omega

/-- A session sends its response, and the flag keeps it from sending another. -/
theorem sendResponse (hi : g.Once) {sessionId : UInt32} {content : CS}
    (h : g.sendResponse csRspType sessionId content = some g') : g'.Once := by
  obtain ⟨session, hget, rfl⟩ := Option.map_eq_some_iff.mp h
  split_ifs with hsend
  · exact hi
  have hmodify : ∀ k s, (g.sessions.modify sessionId
      ClientSession.setIsSendRsp).getSession k = some s →
      ∃ old, g.sessions.getSession k = some old ∧ old.csRequest = s.csRequest ∧
        (s.isSendRsp = false → old.isSendRsp = false ∧ k ≠ sessionId) := by
    intro k s hs
    rw [Node.getSession_modify] at hs
    split_ifs at hs with hk
    · obtain ⟨old, hold, rfl⟩ := Option.map_eq_some_iff.mp hs
      exact ⟨old, hk ▸ hold, rfl, fun hfalse => by cases hfalse⟩
    · exact ⟨s, hs, rfl, fun hflag => ⟨hflag, hk⟩⟩
  cases hreq : session.csRequest with
  | none => exact hi
  | some x =>
    dsimp only
    cases x.message.msgType.bind csRspType with
    | none => exact hi
    | some rspType =>
      dsimp only
      generalize hresponse : (⟨transferResponse x.message { content with msgType := some rspType },
        x.asker⟩ : Sending) = response
      have hids : response.toClient.connIds = [] := hresponse ▸ rfl
      have hasker : response.asker = x.asker := hresponse ▸ rfl
      clear hresponse
      cases ha : x.asker with
      | none =>
        refine (hi.send (hasker.trans ha)).mono rfl (List.Sublist.refl _) (List.Sublist.refl _) rfl
          fun k s hs => ?_
        obtain ⟨old, hold, hsame, hflag⟩ := hmodify k s hs
        exact ⟨old, hold, hsame, fun hs => (hflag hs).1⟩
      | some a =>
        obtain ⟨hlt, -, hnone⟩ := hi.session sessionId session x a hget hreq ha
        have hnone := hnone (Bool.eq_false_iff.mpr hsend)
        have hplaces : ∀ n, places { g with
            sessions := g.sessions.modify sessionId ClientSession.setIsSendRsp
            down := g.down ++ [response] } n = g.places n + if a.number = n then 1 else 0 := by
          intro n
          rw [places, places, numbersOf_append, numbersOf_of_some (hasker.trans ha),
            List.count_append]
          simp only [numbersOf, List.filterMap_nil, List.map_nil, List.count_cons, List.count_nil,
            beq_iff_eq]
          omega
        refine ⟨fun n => ?_, fun n hn => ?_, fun k s y b hs hy hb => ?_,
          fun i j s s' y y' b b' hs hs' hy hy' hb hb' heq => ?_, fun y hy b hb => ?_⟩
        · rw [hplaces]
          split_ifs with hn
          · rw [← hn, hnone]
          · exact hi.once n
        · have hn : g.number ≤ n := hn
          rw [hplaces, hi.fresh n hn, if_neg (by omega)]
        · obtain ⟨old, hold, hsame, hflag⟩ := hmodify k s hs
          obtain ⟨hlt', hnotUp, hnone'⟩ := hi.session k old y b hold (hsame.trans hy) hb
          refine ⟨hlt', hnotUp, fun hs => ?_⟩
          obtain ⟨hfalse, hk⟩ := hflag hs
          rw [hplaces, hnone' hfalse, if_neg]
          intro heq
          exact hk (hi.unique k sessionId old session y x b a hold hget (hsame.trans hy) hreq hb ha
            heq.symm)
        · obtain ⟨old, hold, hsame, -⟩ := hmodify i s hs
          obtain ⟨old', hold', hsame', -⟩ := hmodify j s' hs'
          exact hi.unique i j old old' y y' b b' hold hold' (hsame.trans hy) (hsame'.trans hy') hb
            hb' heq
        · obtain hy | hy := List.mem_append.mp hy
          · exact hi.down y hy b hb
          · rw [List.mem_singleton.mp hy]
            exact hids

/-- The connection server gets a message. -/
theorem onTransferMessage (hi : g.Once) {x : Sending} {down : List Sending}
    (hdown : g.down = x :: down) :
    (Gateway.onTransferMessage x { g with down }).Once := by
  have hx : x ∈ g.down := hdown ▸ List.mem_cons_self
  obtain ⟨sent, heq, hone⟩ :=
    AcceptClientMsgService.onTransferMessage_cases x.toClient g.service
  rw [Gateway.onTransferMessage]
  simp only [heq, List.drop_left]
  refine hi.of_places rfl (List.Sublist.refl _) ?_ (fun n => ?_) fun _ s h => ⟨s, h, rfl, id⟩
  · rw [hdown]
    exact List.subset_cons_self _ _
  rw [places, places, numbersOf_append, List.count_append, hdown]
  dsimp only
  cases ha : x.asker with
  | none =>
    -- what answers nothing is not counted, to however many clients it goes
    have hzero : numbersOf Received.asker (sent.map fun r =>
        (⟨(r.1, g.age r.1), r.2, none⟩ : Received)) = [] := by
      rw [numbersOf, List.map_eq_nil_iff, List.filterMap_eq_nil_iff]
      intro r hr
      obtain ⟨-, -, rfl⟩ := List.mem_map.mp hr
      rfl
    rw [hzero, numbersOf_of_none ha, List.count_nil]
    omega
  | some a =>
    have hlength := (hone (hi.down x hx a ha)).1
    rw [numbersOf_of_some ha, List.count_cons]
    have hcount : (numbersOf Received.asker (sent.map fun r =>
        (⟨(r.1, g.age r.1), r.2, some a⟩ : Received))).count n ≤
        if (a.number == n) = true then 1 else 0 := by
      obtain - | ⟨r, - | ⟨r', sent⟩⟩ := sent
      · exact Nat.zero_le _
      · rw [List.map_cons, numbersOf_of_some (show Received.asker _ = some a from rfl),
          List.count_cons]
        simp [numbersOf]
      · exact absurd hlength (by simp)
    omega

/-- **Every event keeps a request in one place.** -/
theorem step (hi : g.Once) {e : GatewayEvent} (hstep : Gateway.step csRspType e g = some g') :
    g'.Once := by
  cases e with
  | client e =>
    obtain ⟨service, -, rfl⟩ := Option.map_eq_some_iff.mp hstep
    exact hi.client e service
  | deliverUp =>
    rw [Gateway.step] at hstep
    split at hstep
    · cases hstep
    · exact hi.onConnectionMessage ‹_› hstep
  | createSession =>
    exact hi.createSession (fun x hx => absurd hx (Option.some_ne_none x).symm) hstep
  | sendResponse sessionId content => exact hi.sendResponse hstep
  | releaseSession sessionId =>
    cases hstep
    refine hi.mono rfl (List.Sublist.refl _) (List.Sublist.refl _) rfl fun k s hs => ?_
    rw [Node.getSession_releaseSession] at hs
    split_ifs at hs
    exact ⟨s, hs, rfl, id⟩
  | transferMessageByConnId connId message =>
    cases hstep
    exact hi.send rfl
  | transferMessageByConnIds connIds message =>
    cases hstep
    exact hi.send rfl
  | deliverDown =>
    rw [Gateway.step] at hstep
    split at hstep
    · cases hstep
    · cases hstep
      exact hi.onTransferMessage ‹_›
  | reconnect =>
    cases hstep
    exact hi.mono rfl (List.nil_sublist _) (List.nil_sublist _) rfl fun _ s h => ⟨s, h, rfl, id⟩

end Once

end Once

end Gateway

section Responses

variable {needHeartBeat : Bool} {manager : ClientConnManager} {maxSize : ℕ} {g : Gateway}
  {csRspType : ENCSType → Option ENCSType} {events : List GatewayEvent}

theorem Gateway.not_open_initial (a : Asker) :
    ¬(Gateway.initial needHeartBeat manager maxSize).Open a := by
  rintro (⟨x, hx, -, -⟩ | ⟨sessionId, session, x, hget, -⟩ | ⟨x, hx, -⟩)
  · cases hx
  · cases hget
  · cases hx

theorem Gateway.Routed.initial : (Gateway.initial needHeartBeat manager maxSize).Routed where
  owned := AcceptClientMsgService.owned_initial needHeartBeat
  channel := rfl
  up x hx := by cases hx
  session sessionId session x a hget := by cases hget
  down x hx := by cases hx
  current := by
    rintro q ⟨a, ha, -⟩
    exact absurd ha (not_open_initial a)
  received r hr := by cases hr

theorem Gateway.Once.initial : (Gateway.initial needHeartBeat manager maxSize).Once where
  once n := Nat.zero_le 1
  fresh n hn := rfl
  session sessionId session x a hget := by cases hget
  unique i j session session' x x' a a' hget := by cases hget
  down x hx := by cases hx

/-- **A response is given to the connection that asked**, to this very connection and no later one
with its descriptor, in every run in which no descriptor is given to another connection while one
that had it waits for a response. -/
theorem responses_reach_their_connections
    (hspares : GuardedSteps (Gateway.step csRspType) GatewayEvent.Spares events
      (.initial needHeartBeat manager maxSize))
    (hrun : runSteps (Gateway.step csRspType) events (.initial needHeartBeat manager maxSize) =
      some g) :
    ∀ r ∈ g.received, ∀ a, r.asker = some a → a.conn = r.conn := by
  have hrouted : g.Routed := (reachable_of_runSteps hspares hrun).invariant .initial
    fun _ _ _ hg hi hstep => hi.step hg hstep
  exact hrouted.received

/-- **Nobody gets two responses for one request**, whatever happens. -/
theorem one_response_for_request
    (hrun : runSteps (Gateway.step csRspType) events (.initial needHeartBeat manager maxSize) =
      some g) :
    (g.received.filterMap Received.asker).Pairwise fun a b => a.number ≠ b.number := by
  have honce : g.Once := (reachable_of_runSteps (guardedSteps_true events _) hrun).invariant
    .initial fun _ _ _ _ hi hstep => hi.step hstep
  have hnodup : (Gateway.numbersOf Received.asker g.received).Nodup := by
    refine List.nodup_iff_count_le_one.mpr fun n => ?_
    have hone := honce.once n
    rw [Gateway.places] at hone
    omega
  exact List.pairwise_map.mp hnodup

/-- A client logs in and asks for a table. -/
def loginAndEnter : List GatewayEvent :=
  [.client (.accept 5 "10.0.0.1" 4000 true ⟨1, 0⟩),
    .client (.read 5 [some { msgType := some .loginReq, loginReq := { uid := some 7 } },
      some { msgType := some .enterTableReq }] .wouldBlock ⟨1, 0⟩),
    .deliverUp]

/-- The game server answers the session that was created for it. -/
def answerSession : List GatewayEvent := [.sendResponse 1 {}, .deliverDown]

/-- A manager with room for eight connections. -/
def gameManager : ClientConnManager := ⟨∅, 8, true, []⟩

/-- The client leaves, and its descriptor is given to another one. -/
def leaveAndAccept : List GatewayEvent :=
  [.client (.read 5 [] .peerClose ⟨1, 0⟩), .client (.accept 5 "10.0.0.2" 4000 true ⟨1, 0⟩)]

/-- Nothing on its way to the game server is a request, all sessions have answered, and nothing is
on its way back. -/
def Gateway.isIdle (g : Gateway) : Bool :=
  g.up.all (fun x => !x.isRequest) && g.sessions.sessions.entries.all (fun e => e.2.isSendRsp) &&
    g.down.isEmpty

theorem Gateway.not_open_of_isIdle (h : g.isIdle = true) (a : Asker) : ¬g.Open a := by
  simp only [isIdle, Bool.and_eq_true, List.all_eq_true, List.isEmpty_iff] at h
  obtain ⟨⟨hup, hsessions⟩, hdown⟩ := h
  rintro (⟨x, hx, hreq, -⟩ | ⟨sessionId, session, x, hget, hsend, -⟩ | ⟨x, hx, -⟩)
  · simpa [hreq] using hup x hx
  · have hanswered := hsessions ⟨sessionId, session⟩ (AList.mem_lookup_iff.mp hget)
    rw [hsend] at hanswered
    cases hanswered
  · rw [hdown] at hx
    cases hx

/-- A condition on the events that can be computed. -/
def GatewayEvent.isSpared : GatewayEvent → Gateway → Bool
  | .client (.accept ..), g => g.isIdle
  | _, _ => true

theorem GatewayEvent.spares_of_isSpared {e : GatewayEvent} (h : e.isSpared g = true) :
    e.Spares g := by
  cases e with
  | client e =>
    cases e with
    | accept fd ip port asyncRead ts =>
      rintro q ⟨a, ha, -⟩
      exact absurd ha (Gateway.not_open_of_isIdle h a)
    | _ => trivial
  | _ => trivial

/-- A client gets its response and leaves, and another one gets its descriptor while the notice that
the first one left is still on its way. Each gets its own response. -/
theorem responses_reach_their_connections_enterTable :
    ∃ g, runSteps (Gateway.step gameServerHandlers)
        (loginAndEnter ++ answerSession ++ leaveAndAccept ++ loginAndEnter.tail ++
          [.deliverUp, .sendResponse 2 {}, .deliverDown]) (.initial true gameManager 8) = some g ∧
      g.received.map Received.conn = [(5, 1), (5, 2)] ∧
      ∀ r ∈ g.received, ∀ a, r.asker = some a → a.conn = r.conn := by
  have hspares : GuardedSteps (Gateway.step gameServerHandlers) GatewayEvent.Spares
      (loginAndEnter ++ answerSession ++ leaveAndAccept ++ loginAndEnter.tail ++
        [.deliverUp, .sendResponse 2 {}, .deliverDown]) (.initial true gameManager 8) := by
    refine GuardedSteps.of_invariant (G := fun e g => e.isSpared g = true) (I := fun _ => True)
      (fun _ _ _ _ _ _ => trivial) (fun _ _ h _ => GatewayEvent.spares_of_isSpared h) trivial ?_
    decide +kernel
  have hreceived : (runSteps (Gateway.step gameServerHandlers)
    (loginAndEnter ++ answerSession ++ leaveAndAccept ++ loginAndEnter.tail ++
      [.deliverUp, .sendResponse 2 {}, .deliverDown]) (.initial true gameManager 8)).map
    (fun g => g.received.map Received.conn) = some [(5, 1), (5, 2)] := by decide +kernel
  obtain ⟨g, hrun, hconn⟩ := Option.map_eq_some_iff.mp hreceived
  exact ⟨g, hrun, hconn, responses_reach_their_connections hspares hrun⟩

theorem one_response_for_request_enterTable :
    ∃ g, runSteps (Gateway.step gameServerHandlers) (loginAndEnter ++ answerSession ++
        [.sendResponse 1 {}]) (.initial true gameManager 8) = some g ∧
      g.received.length = 1 ∧
      (g.received.filterMap Received.asker).Pairwise fun a b => a.number ≠ b.number := by
  have hreceived : (runSteps (Gateway.step gameServerHandlers) (loginAndEnter ++ answerSession ++
    [.sendResponse 1 {}]) (.initial true gameManager 8)).map (fun g => g.received.length) =
      some 1 := by decide +kernel
  obtain ⟨g, hrun, hlength⟩ := Option.map_eq_some_iff.mp hreceived
  exact ⟨g, hrun, hlength, one_response_for_request hrun⟩

/-- A client leaves while it waits for its response, and the next client gets the response with its
descriptor. -/
theorem response_to_later_connection :
    ¬ ∀ events g, runSteps (Gateway.step gameServerHandlers) events
        (.initial true gameManager 8) = some g →
      ∀ r ∈ g.received, ∀ a, r.asker = some a → a.conn = r.conn := by
  intro hall
  have hreceived : (runSteps (Gateway.step gameServerHandlers)
      (loginAndEnter ++ leaveAndAccept ++ answerSession) (.initial true gameManager 8)).map
      (fun g => g.received.map fun r => (r.conn, r.asker.map Asker.conn)) =
      some [((5, 2), some (5, 1))] := by decide +kernel
  obtain ⟨g, hrun, hmap⟩ := Option.map_eq_some_iff.mp hreceived
  obtain ⟨r, hr, hconn⟩ := List.mem_map.mp (hmap ▸ List.mem_singleton.mpr rfl)
  obtain ⟨a, ha, haconn⟩ := Option.map_eq_some_iff.mp (Prod.mk.inj hconn).2
  have hsame := hall _ g hrun r hr a ha
  rw [haconn, (Prod.mk.inj hconn).1] at hsame
  exact absurd hsame (by decide)

end Responses

end Lsf.Conn
