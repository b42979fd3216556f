import Lsf.Foundations.Reachability
import Lsf.Svr.ServerTransfer

/-!
# Requests and responses between the servers

Servers ask each other through the proxies. A request goes to any of the proxies, which hands it to
one or more servers by the rule in its head; a server creates a session for it, and the response
goes back to the server and the session that the head of the request names. Messages overtake each
other and get lost, servers connect to the proxies at any time, and what the sessions do is up to
their handlers.

A session is known by its id, and ids are used again. To say which session is meant, a session has
the number of the sessions with its id before it, and a message on its way has the request behind
it.

## Main definitions

* `Cluster`, `Event`, `step` — the servers, the proxies and what can happen
* `Cluster.Routed` — messages are on their way to servers that they are for

## Main results

* `Cluster.Routed.step` — every event keeps this
* `same_hash_same_server` — where requests go that are sent by a hash
-/

namespace Lsf.ServerNet

open Proxy (ENServerType AcceptServerMsgTransferService ServerConfig)

/-! ### The cluster -/

/-- A request with the session that sent it. -/
structure Origin where
  addr : ServerAddr
  sessionId : UInt32
  /-- How many sessions with the id there had been, with this one. -/
  age : ℕ
  request : SS

/-- The session that sent a request, as it is looked up and as it is. -/
def Origin.asker (o : Origin) : (ServerAddr × UInt32) × ℕ := ((o.addr, o.sessionId), o.age)

/-- A message on its way, with the request that it is or answers. A notice has none. -/
structure Sent where
  message : SS
  origin : Option Origin

/-- A session, as far as it answers a request. -/
structure Session where
  ssRequest : Option Sent := none
  isSendRsp : Bool := false
  /-- How many sessions with the id there had been, with this one. -/
  age : ℕ

/-- A response that was given to a session. -/
structure Handed where
  addr : ServerAddr
  sessionId : UInt32
  age : ℕ
  response : Sent

/-- The servers and the proxies, with the messages between them. -/
structure Cluster where
  nodes : ServerAddr → Node Session
  proxies : ℕ → AcceptServerMsgTransferService
  /-- The server at the other end of a socket of a proxy. -/
  peer : ℕ → ℕ → ServerAddr
  /-- How many sessions with an id a server has created. -/
  age : ServerAddr × UInt32 → ℕ
  /-- The messages on their way to the proxies. -/
  up : List (ℕ × Sent) := []
  /-- The messages on their way to the servers. -/
  down : List (ServerAddr × Sent) := []
  /-- The requests that sessions sent. -/
  asked : List Origin := []
  /-- The requests that arrived at a server. -/
  served : List (ServerAddr × Sent) := []
  handed : List Handed := []

/-- What the servers and the proxies do. -/
inductive Event
  /-- A server connects to a proxy. -/
  | accept (proxy sockfd : ℕ) (addr : ServerAddr)
  /-- The registration that a server sends first arrives at the proxy. -/
  | register (proxy sockfd : ℕ)
  | close (proxy sockfd : ℕ)
  /-- A proxy gets one of the messages on their way to it. -/
  | transfer (i : ℕ) (calls : Proxy.Random.Calls)
  | loseUp (i : ℕ)
  /-- A server gets one of the messages on their way to it. -/
  | deliver (i : ℕ)
  | loseDown (i : ℕ)
  /-- A session is created for a client or for the server itself. -/
  | createSession (addr : ServerAddr)
  /-- A session sends a request with its id. -/
  | request (proxy : ℕ) (addr : ServerAddr) (sessionId : UInt32) (mode : Mode)
      (serverType : ENServerType) (msgType : ENSSType) (content : String)
  /-- A message is sent without the id of a session. -/
  | notify (proxy : ℕ) (addr : ServerAddr) (mode : Mode) (serverType : ENServerType)
      (msgType : ENSSType) (content : String)
  | sendResponse (proxy : ℕ) (addr : ServerAddr) (sessionId : UInt32) (content : String)
  | releaseSession (addr : ServerAddr) (sessionId : UInt32)

namespace Cluster

/-- A cluster in which nothing has happened, where the proxies got these configurations. -/
def initial (configs : ℕ → List ServerConfig) (maxSize : ServerAddr → ℕ)
    (peer : ℕ → ℕ → ServerAddr) : Cluster where
  nodes addr := { maxSize := maxSize addr }
  proxies proxy := ⟨Proxy.initSocketMapFromServerConfig (configs proxy), fun _ => false,
    fun _ => false, []⟩
  peer
  age _ := 0

/-- A descriptor is free at a proxy: its socket is not connected, and no slot holds it open. -/
def freeAt (c : Cluster) (proxy sockfd : ℕ) : Bool :=
  !(c.proxies proxy).isConnect sockfd &&
    (c.proxies proxy).sockMap.all fun sockList => sockList.all fun slot => slot != some sockfd

/-- A proxy is changed. -/
def setProxy (proxy : ℕ) (s : AcceptServerMsgTransferService) (c : Cluster) : Cluster :=
  { c with proxies := Function.update c.proxies proxy s }

/-- `_is_connect` of a socket of a proxy changes. -/
def setConnect (proxy sockfd : ℕ) (isConnect : Bool) (c : Cluster) : Cluster :=
  let s := c.proxies proxy
  c.setProxy proxy { s with isConnect := Function.update s.isConnect sockfd isConnect }

/-- A server is at the other end of a socket of a proxy. -/
def setPeer (proxy sockfd : ℕ) (addr : ServerAddr) (c : Cluster) : Cluster :=
  let peer := Function.update (c.peer proxy) sockfd addr
  { c with peer := Function.update c.peer proxy peer }

/-- A session is created, for a request or for none. -/
def createSession (addr : ServerAddr) (ssRequest : Option Sent) (c : Cluster) : Option Cluster :=
  ((c.nodes addr).createSession fun sessionId =>
    { ssRequest, age := c.age (addr, sessionId) + 1 }).map fun
    | (none, _) => c
    | (some sessionId, node) =>
      { c with
        nodes := Function.update c.nodes addr node
        age := Function.update c.age (addr, sessionId) (c.age (addr, sessionId) + 1) }

/-- `OnConnectionMessage` of the connections to the proxies. -/
def onConnectionMessage (handlers : ENServerType → HandlerManager) (addr : ServerAddr) (x : Sent)
    (c : Cluster) : Option Cluster :=
  match x.message.msgType with
  -- just ignore empty content
  | none => some c
  | some msgType =>
    -- check proxy transfer
    if x.message.proxyHead.getDstServerType ≠ addr.serverType then some c
    else if (handlers addr.serverType).isRequest msgType then
      createSession addr (some x) { c with served := c.served ++ [(addr, x)] }
    else
      let sessionId := x.message.proxyHead.getSessionId
      match (c.nodes addr).getSession sessionId with
      | none => some c
      | some session =>
        some { c with handed := c.handed ++ [⟨addr, sessionId, session.age, x⟩] }

/-- `SendResponse` for a session that was created for a request of another server. -/
def sendResponse (handlers : ENServerType → HandlerManager) (proxy : ℕ) (addr : ServerAddr)
    (sessionId : UInt32) (content : String) (c : Cluster) : Option Cluster :=
  ((c.nodes addr).getSession sessionId).map fun session =>
    if session.isSendRsp then c
    else
      match session.ssRequest with
      | none => c
      | some x =>
        match x.message.msgType.bind (handlers addr.serverType).ssRspType with
        | none => c
        | some ssRspType =>
          let response := transferResponse addr x.message { msgType := some ssRspType, content }
          { c with
            nodes := Function.update c.nodes addr
              ((c.nodes addr).modify sessionId fun session => { session with isSendRsp := true })
            up := c.up ++ [(proxy, ⟨response, x.origin⟩)] }

end Cluster

/-- An event, none where it is not possible. -/
def step (handlers : ENServerType → HandlerManager) : Event → Cluster → Option Cluster
  | .accept proxy sockfd addr, c =>
    if c.freeAt proxy sockfd then
      some ((c.setPeer proxy sockfd addr).setConnect proxy sockfd true)
    else none
  | .register proxy sockfd, c =>
    let addr := c.peer proxy sockfd
    ((Proxy.handleRegisterRequest sockfd addr.serverType addr.serverId).run (c.proxies proxy)).map
      fun (_, s) => c.setProxy proxy s
  | .close proxy sockfd, c => some (c.setConnect proxy sockfd false)
  | .transfer i calls, c =>
    c.up[i]?.bind fun (proxy, x) =>
      let s := c.proxies proxy
      -- registrations are handled by the proxy itself
      if x.message.msgType = some .registerToProxyReq then none
      else ((Proxy.handleMessageTransfer calls (some x.message.proxyHead.toProxyHead)
        x.message.content).run s).map fun (_, s') =>
        { c.setProxy proxy s' with
          up := c.up.eraseIdx i
          down := c.down ++ (s'.sent.drop s.sent.length).map fun t => (c.peer proxy t.sockfd, x) }
  | .loseUp i, c => some { c with up := c.up.eraseIdx i }
  | .deliver i, c =>
    c.down[i]?.bind fun (addr, x) =>
      Cluster.onConnectionMessage handlers addr x { c with down := c.down.eraseIdx i }
  | .loseDown i, c => some { c with down := c.down.eraseIdx i }
  | .createSession addr, c => c.createSession addr none
  | .request proxy addr sessionId mode serverType msgType content, c =>
    ((c.nodes addr).getSession sessionId).map fun session =>
      let message := sentBy addr mode serverType
        { msgType := some msgType, proxyHead := { sessionId := some sessionId }, content }
      let origin : Origin := ⟨addr, sessionId, session.age, message⟩
      { c with up := c.up ++ [(proxy, ⟨message, some origin⟩)], asked := c.asked ++ [origin] }
  | .notify proxy addr mode serverType msgType content, c =>
    some { c with
      up := c.up ++ [(proxy,
        ⟨sentBy addr mode serverType { msgType := some msgType, content }, none⟩)] }
  | .sendResponse proxy addr sessionId content, c =>
    c.sendResponse handlers proxy addr sessionId content
  | .releaseSession addr sessionId, c =>
    some { c with
      nodes := Function.update c.nodes addr ((c.nodes addr).releaseSession sessionId) }

/-! ### Where messages go -/

/-- A message may come to a server: the server has the type in its head, and where the head decides
the id, it has this id. `counts` are the numbers of slots of the proxies. -/
structure Sent.ArrivesAt (counts : ℕ → ENServerType → ℕ) (x : Sent) (addr : ServerAddr) :
    Prop where
  serverType : addr.serverType = x.message.proxyHead.getDstServerType
  byId : x.message.proxyHead.getTransferType = .byId →
    addr.serverId = x.message.proxyHead.getDstServerId
  byHash : x.message.proxyHead.getTransferType = .byHash → ∃ proxy, addr.serverId.toNat =
    x.message.proxyHead.getDstHashId.toNat %
      counts proxy x.message.proxyHead.getDstServerType % 2 ^ 32

/-- Slots have the sockets of their servers, and messages are on their way to servers that they are
for. -/
structure Cluster.Routed (counts : ℕ → ENServerType → ℕ) (c : Cluster) : Prop where
  slot : ∀ proxy serverType k sockfd, (c.proxies proxy).slot serverType k = some sockfd →
    (c.peer proxy sockfd).serverType = serverType ∧ (c.peer proxy sockfd).serverId.toNat = k
  count : ∀ proxy serverType, slotCount (c.proxies proxy) serverType = counts proxy serverType
  down : ∀ e ∈ c.down, e.2.ArrivesAt counts e.1
  served : ∀ e ∈ c.served, e.2.ArrivesAt counts e.1

section Routed

variable {handlers : ENServerType → HandlerManager} {counts : ℕ → ENServerType → ℕ}
  {c c' : Cluster} {addr : ServerAddr} {x : Sent}

theorem mem_of_slot {s : AcceptServerMsgTransferService} {serverType : ENServerType}
    {k sockfd : ℕ} (h : s.slot serverType k = some sockfd) :
    ∃ sockList ∈ s.sockMap, some sockfd ∈ sockList := by
  rw [AcceptServerMsgTransferService.slot] at h
  obtain ⟨sockList, hlist, hget⟩ := Option.bind_eq_some_iff.mp (Option.join_eq_some_iff.mp h)
  exact ⟨sockList, List.mem_of_getElem? hlist, List.mem_of_getElem? hget⟩

theorem slot_of_freeAt {proxy sockfd : ℕ} (h : c.freeAt proxy sockfd = true)
    {serverType : ENServerType} {k : ℕ} :
    (c.proxies proxy).slot serverType k ≠ some sockfd := by
  intro hslot
  obtain ⟨sockList, hlist, hmem⟩ := mem_of_slot hslot
  rw [Cluster.freeAt, Bool.and_eq_true, List.all_eq_true] at h
  have hall := List.all_eq_true.mp (h.2 sockList hlist) _ hmem
  exact absurd hall (by simp)

/-- `createSession` changes only the sessions and their numbers. -/
theorem createSession_eq {ssRequest : Option Sent}
    (h : c.createSession addr ssRequest = some c') :
    c' = { c with nodes := c'.nodes, age := c'.age } := by
  rw [Cluster.createSession] at h
  obtain ⟨⟨created, node⟩, -, rfl⟩ := Option.map_eq_some_iff.mp h
  cases created <;> rfl

namespace Cluster.Routed

theorem setProxy (hi : c.Routed counts) {proxy : ℕ} {s : AcceptServerMsgTransferService}
    (hslot : ∀ serverType k sockfd, s.slot serverType k = some sockfd →
      (c.peer proxy sockfd).serverType = serverType ∧ (c.peer proxy sockfd).serverId.toNat = k)
    (hcount : ∀ serverType, slotCount s serverType = slotCount (c.proxies proxy) serverType) :
    (c.setProxy proxy s).Routed counts where
  slot p t k fd h := by
    simp only [Cluster.setProxy] at h ⊢
    obtain rfl | hp := eq_or_ne p proxy
    · rw [Function.update_self] at h
      exact hslot t k fd h
    · rw [Function.update_of_ne hp] at h
      exact hi.slot p t k fd h
  count p t := by
    simp only [Cluster.setProxy]
    obtain rfl | hp := eq_or_ne p proxy
    · rw [Function.update_self, hcount, hi.count]
    · rw [Function.update_of_ne hp, hi.count]
  down := hi.down
  served := hi.served

theorem setConnect (hi : c.Routed counts) (proxy sockfd : ℕ) (isConnect : Bool) :
    (c.setConnect proxy sockfd isConnect).Routed counts :=
  hi.setProxy (hi.slot proxy) fun _ => rfl

theorem setPeer (hi : c.Routed counts) {proxy sockfd : ℕ} (hfree : c.freeAt proxy sockfd = true)
    (addr : ServerAddr) : (c.setPeer proxy sockfd addr).Routed counts where
  slot p t k fd h := by
    simp only [Cluster.setPeer]
    obtain rfl | hp := eq_or_ne p proxy
    · have hfd : fd ≠ sockfd := by
        rintro rfl
        exact slot_of_freeAt hfree h
      rw [Function.update_self, Function.update_of_ne hfd]
      exact hi.slot p t k fd h
    · rw [Function.update_of_ne hp]
      exact hi.slot p t k fd h
  count := hi.count
  down := hi.down
  served := hi.served

/-- A proxy changes its slots as it does for a registration. -/
theorem register (hi : c.Routed counts) {proxy sockfd : ℕ} {s : AcceptServerMsgTransferService}
    (hrun : (Proxy.handleRegisterRequest sockfd (c.peer proxy sockfd).serverType
      (c.peer proxy sockfd).serverId).run (c.proxies proxy) = some ((), s)) :
    (c.setProxy proxy s).Routed counts := by
  obtain ⟨hslot, hcount⟩ := slot_registered hrun
  refine hi.setProxy (fun t k fd h => ?_) hcount
  obtain hold | ⟨rfl, rfl, rfl⟩ := hslot t k fd h
  · exact hi.slot proxy t k fd hold
  · exact ⟨rfl, rfl⟩

/-- A message is handed to sockets whose servers it is for. -/
theorem transfer (hi : c.Routed counts) {proxy : ℕ} {up : List (ℕ × Sent)}
    {calls : Proxy.Random.Calls} {s : AcceptServerMsgTransferService}
    (hrun : (Proxy.handleMessageTransfer calls (some x.message.proxyHead.toProxyHead)
      x.message.content).run (c.proxies proxy) = some ((), s)) :
    ({ c.setProxy proxy s with
      up
      down := c.down ++ (s.sent.drop (c.proxies proxy).sent.length).map
        fun t => (c.peer proxy t.sockfd, x) } : Cluster).Routed counts := by
  obtain ⟨ts, rfl, hts⟩ := transfer_cases hrun
  have hnew : ((c.proxies proxy).handOver ts).sent.drop (c.proxies proxy).sent.length = ts :=
    List.drop_left
  have hproxy := hi.setProxy (s := (c.proxies proxy).handOver ts) (hi.slot proxy) fun _ => rfl
  refine ⟨hproxy.slot, hproxy.count, fun e he => ?_, hi.served⟩
  obtain he | he := List.mem_append.mp he
  · exact hi.down e he
  rw [hnew] at he
  obtain ⟨t, ht, rfl⟩ := List.mem_map.mp he
  obtain ⟨hslot, hid, hhash⟩ := hts t ht
  obtain ⟨htype, hserverId⟩ := hi.slot proxy _ _ _ hslot
  refine ⟨htype, fun hmode => UInt32.toNat.inj ?_, fun hmode => ⟨proxy, ?_⟩⟩
  · exact hserverId.trans (hid hmode)
  · rw [← hi.count]
    exact hserverId.trans (hhash hmode)

theorem onConnectionMessage (hi : c.Routed counts) (hx : x.ArrivesAt counts addr)
    (h : c.onConnectionMessage handlers addr x = some c') : c'.Routed counts := by
  rw [Cluster.onConnectionMessage] at h
  cases hmsg : x.message.msgType with
  | none =>
    rw [hmsg] at h
    cases h
    exact hi
  | some msgType =>
    simp only [hmsg] at h
    split_ifs at h with htype hrequest
    · cases h
      exact hi
    · rw [createSession_eq h]
      refine ⟨hi.slot, hi.count, hi.down, fun e he => ?_⟩
      obtain he | he := List.mem_append.mp he
      · exact hi.served e he
      · obtain rfl := List.mem_singleton.mp he
        exact hx
    · cases hget : (c.nodes addr).getSession x.message.proxyHead.getSessionId with
      | none =>
        rw [hget] at h
        cases h
        exact hi
      | some session =>
        rw [hget] at h
        cases h
        exact ⟨hi.slot, hi.count, hi.down, hi.served⟩

/-- **Every event keeps messages on their way to servers that they are for.** -/
theorem step (hi : c.Routed counts) {e : Event}
    (hstep : ServerNet.step handlers e c = some c') : c'.Routed counts := by
  cases e with
  | accept proxy sockfd addr =>
    rw [ServerNet.step] at hstep
    split_ifs at hstep with hfree
    cases hstep
    exact (hi.setPeer hfree addr).setConnect proxy sockfd true
  | register proxy sockfd =>
    obtain ⟨⟨⟨⟩, s⟩, hrun, rfl⟩ := Option.map_eq_some_iff.mp hstep
    exact hi.register hrun
  | close proxy sockfd =>
    cases hstep
    exact hi.setConnect proxy sockfd false
  | transfer i calls =>
    obtain ⟨⟨proxy, x⟩, -, hstep⟩ := Option.bind_eq_some_iff.mp hstep
    obtain ⟨-, hstep⟩ := Option.ite_none_left_eq_some.mp hstep
    obtain ⟨⟨⟨⟩, s⟩, hrun, rfl⟩ := Option.map_eq_some_iff.mp hstep
    exact hi.transfer hrun
  | loseUp i =>
    cases hstep
    exact ⟨hi.slot, hi.count, hi.down, hi.served⟩
  | deliver i =>
    obtain ⟨⟨addr, x⟩, hget, hstep⟩ := Option.bind_eq_some_iff.mp hstep
    have herase : ({ c with down := c.down.eraseIdx i } : Cluster).Routed counts :=
      ⟨hi.slot, hi.count, fun e he => hi.down e (List.mem_of_mem_eraseIdx he), hi.served⟩
    exact herase.onConnectionMessage (hi.down _ (List.mem_of_getElem? hget)) hstep
  | loseDown i =>
    cases hstep
    exact ⟨hi.slot, hi.count, fun e he => hi.down e (List.mem_of_mem_eraseIdx he), hi.served⟩
  | createSession addr =>
    rw [createSession_eq hstep]
    exact ⟨hi.slot, hi.count, hi.down, hi.served⟩
  | request proxy addr sessionId mode serverType msgType content =>
    obtain ⟨session, -, rfl⟩ := Option.map_eq_some_iff.mp hstep
    exact ⟨hi.slot, hi.count, hi.down, hi.served⟩
  | notify proxy addr mode serverType msgType content =>
    cases hstep
    exact ⟨hi.slot, hi.count, hi.down, hi.served⟩
  | sendResponse proxy addr sessionId content =>
    obtain ⟨session, -, rfl⟩ := Option.map_eq_some_iff.mp hstep
    split_ifs
    · exact hi
    · split
      · exact hi
      · split
        · exact hi
        · exact ⟨hi.slot, hi.count, hi.down, hi.served⟩
  | releaseSession addr sessionId =>
    cases hstep
    exact ⟨hi.slot, hi.count, hi.down, hi.served⟩

end Cluster.Routed

/-! ### The start -/

/-- All slots are empty. -/
def Vacant (sockMap : List (List (Option ℕ))) : Prop :=
  ∀ sockList ∈ sockMap, ∀ slot ∈ sockList, slot = none

theorem vacant_initSocketMapFromServerConfig (configs : List ServerConfig) :
    Vacant (Proxy.initSocketMapFromServerConfig configs) := by
  have hall : ∀ sockMap, Vacant sockMap → Vacant (configs.foldl (fun sockMap conf =>
      (Proxy.growTo conf.serverType.number [] sockMap).modify conf.serverType.number
        (Proxy.growTo conf.serverId.toNat none)) sockMap) := by
    induction configs with
    | nil => exact fun _ h => h
    | cons conf configs ih =>
      intro sockMap h
      refine ih _ fun sockList hmem slot hslot => ?_
      obtain ⟨i, hi⟩ := List.mem_iff_getElem?.mp hmem
      rw [List.getElem?_modify] at hi
      obtain ⟨old, hold, rfl⟩ := Option.map_eq_some_iff.mp hi
      have hvacant : ∀ slot ∈ old, slot = none := by
        intro slot hslot
        obtain hmem | hmem := List.mem_append.mp (List.mem_of_getElem? hold)
        · exact h old hmem slot hslot
        · rw [List.eq_of_mem_replicate hmem] at hslot
          cases hslot
      split_ifs at hslot
      · obtain hslot | hslot := List.mem_append.mp hslot
        · exact hvacant slot hslot
        · exact List.eq_of_mem_replicate hslot
      · exact hvacant slot hslot
  exact hall [] fun _ hmem => absurd hmem List.not_mem_nil

/-- How many slots the proxies have after these configurations. -/
def slotCounts (configs : ℕ → List ServerConfig) (proxy : ℕ) (serverType : ENServerType) : ℕ :=
  ((Proxy.initSocketMapFromServerConfig (configs proxy))[serverType.number]?.getD []).length

theorem Cluster.Routed.initial (configs : ℕ → List ServerConfig) (maxSize : ServerAddr → ℕ)
    (peer : ℕ → ℕ → ServerAddr) :
    (Cluster.initial configs maxSize peer).Routed (slotCounts configs) where
  slot p t k fd h := by
    obtain ⟨sockList, hlist, hmem⟩ := mem_of_slot h
    cases vacant_initSocketMapFromServerConfig (configs p) sockList hlist _ hmem
  count _ _ := rfl
  down _ he := by cases he
  served _ he := by cases he

/-- A request that goes to the server of a type that a hash picks. -/
structure Sent.ByHash (serverType : ENServerType) (hashId : UInt64) (x : Sent) : Prop where
  transferType : x.message.proxyHead.getTransferType = .byHash
  dstServerType : x.message.proxyHead.getDstServerType = serverType
  dstHashId : x.message.proxyHead.getDstHashId = hashId

/-- **Requests that are sent by the same hash to the same type of server come to the same server**,
whatever way they take, if the proxies have the same number of slots for this type. -/
theorem same_hash_same_server {configs : ℕ → List ServerConfig} {maxSize : ServerAddr → ℕ}
    {peer : ℕ → ℕ → ServerAddr} {events : List Event} {serverType : ENServerType} {hashId : UInt64}
    (hsame : ∀ p q, slotCounts configs p serverType = slotCounts configs q serverType)
    (hrun : runSteps (step handlers) events (.initial configs maxSize peer) = some c) :
    ∀ e ∈ c.served, ∀ e' ∈ c.served, e.2.ByHash serverType hashId → e'.2.ByHash serverType hashId →
      e.1 = e'.1 := by
  have hrouted : c.Routed (slotCounts configs) :=
    (reachable_of_runSteps (guardedSteps_true events _) hrun).invariant (.initial _ _ _)
      fun _ _ _ _ hi hstep => hi.step hstep
  intro e he e' he' hhash hhash'
  have harrives := hrouted.served e he
  have harrives' := hrouted.served e' he'
  obtain ⟨p, hp⟩ := harrives.byHash hhash.transferType
  obtain ⟨q, hq⟩ := harrives'.byHash hhash'.transferType
  rw [hhash.dstServerType, hhash.dstHashId] at hp
  rw [hhash'.dstServerType, hhash'.dstHashId, ← hsame p q, ← hp] at hq
  have htype : e.1.serverType = e'.1.serverType := by
    rw [harrives.serverType, harrives'.serverType, hhash.dstServerType, hhash'.dstServerType]
  obtain ⟨⟨t, id⟩, x⟩ := e
  obtain ⟨⟨t', id'⟩, x'⟩ := e'
  obtain rfl : t = t' := htype
  obtain rfl : id' = id := UInt32.toNat.inj hq
  rfl

/-- A data server. -/
def dataServer₁ : ServerAddr := ⟨.dataServer, 1⟩

/-- A game server. -/
def gameServer₁ : ServerAddr := ⟨.gameServer, 1⟩

/-- Where there is room for one data server and one game server. -/
def smallCluster : Cluster :=
  .initial (fun _ => [⟨.gameServer, 0⟩, ⟨.gameServer, 1⟩, ⟨.dataServer, 0⟩, ⟨.dataServer, 1⟩])
    (fun _ => 8) fun _ _ => dataServer₁

/-- Two requests with the same hash, each over a proxy of its own. -/
def sameHashTwice : List Event :=
  [.accept 0 3 dataServer₁, .register 0 3, .accept 1 3 dataServer₁, .register 1 3,
    .createSession gameServer₁,
    .request 0 gameServer₁ 1 (.byHash 7) .dataServer .queryDataReq "",
    .request 1 gameServer₁ 1 (.byHash 7) .dataServer .updateDataReq "",
    .transfer 1 ⟨0, 0, 0⟩, .transfer 0 ⟨0, 0, 0⟩, .deliver 0, .deliver 0]

theorem same_hash_same_server_twice :
    ∃ c, runSteps (step serverHandlers) sameHashTwice smallCluster = some c ∧
      c.served.length = 2 ∧
      ∀ e ∈ c.served, ∀ e' ∈ c.served, e.2.ByHash .dataServer 7 → e'.2.ByHash .dataServer 7 →
        e.1 = e'.1 := by
  have hserved : (runSteps (step serverHandlers) sameHashTwice smallCluster).map
    (fun c => c.served.length) = some 2 := rfl
  obtain ⟨c, hrun, hlen⟩ := Option.map_eq_some_iff.mp hserved
  exact ⟨c, hrun, hlen, same_hash_same_server (fun _ _ => rfl) hrun⟩

end Routed

end Lsf.ServerNet
