import Lsf.Svr.ProxyRegister
import Lsf.Svr.SessionServer

/-!
# Messages between the servers

A server sends its messages to the other servers through the proxies. The proxy head of a message
says where it goes and who sent it, and it has the id of the session that waits for the response; a
response is made from the head of its request, with the two servers exchanged.

What a message has besides its type and its head is `content`, which the proxies pass on as it is.

## Main definitions

* `ProxyHead`, `SS`, `ServerAddr` — the records
* `transferMessageById`, …, `transferResponse` — the source's functions, and `sentBy` — one of them
* `HandlerManager` — the message types that a server has handlers for
* `Node` — the sessions of a server, with `createSession`, `getSession`, `releaseSession`

## Main results

* `transfer_cases` — what a proxy hands a message to
* `slot_registered` — what a registration does to the slots
-/

namespace Lsf.ServerNet

open Proxy (ENServerType ENProxyTransferType AcceptServerMsgTransferService Transfer)

/-! ### Records -/

/-- `ENSSType`. -/
inductive ENSSType
  | none
  | getServerConfigReq
  | getServerConfigRsp
  | getGameConfigReq
  | getGameConfigRsp
  | getAllServerConfigReq
  | getAllServerConfigRsp
  | queryDataReq
  | queryDataRsp
  | updateDataReq
  | updateDataRsp
  | deleteDataReq
  | deleteDataRsp
  | insertDataReq
  | insertDataRsp
  | unlockDataNotify
  | registerToProxyReq
  | registerToProxyRsp
  deriving DecidableEq

/-- `msg::ProxyHead`. -/
structure ProxyHead extends Proxy.ProxyHead where
  srcServerType : Option ENServerType := none
  srcServerId : Option UInt32 := none
  sessionId : Option UInt32 := none

namespace ProxyHead

/-- `src_server_type()`. -/
def getSrcServerType (head : ProxyHead) : ENServerType := head.srcServerType.getD .configCenter

/-- `src_server_id()`. -/
def getSrcServerId (head : ProxyHead) : UInt32 := head.srcServerId.getD 0

/-- `session_id()`. -/
def getSessionId (head : ProxyHead) : UInt32 := head.sessionId.getD 0

end ProxyHead

/-- A message between servers. -/
structure SS where
  msgType : Option ENSSType := none
  proxyHead : ProxyHead := {}
  content : String := ""

/-- The type and the id by which a server is known to the others. -/
structure ServerAddr where
  serverType : ENServerType
  serverId : UInt32
  deriving DecidableEq

/-! ### Sending -/

/-- The rule by which a message finds its server, with what the rule needs. -/
inductive Mode
  | byId (serverId : UInt32)
  | byHash (hashId : UInt64)
  | byBroadCast
  | byRandom
  | byRandomExceptId (exceptId : UInt32)

/-- What a rule sets in the proxy head. -/
def Mode.set (mode : Mode) (head : ProxyHead) : ProxyHead :=
  match mode with
  | .byId serverId => { head with transferType := some .byId, dstServerId := some serverId }
  | .byHash hashId => { head with transferType := some .byHash, dstHashId := some hashId }
  | .byBroadCast => { head with transferType := some .byBroadcast }
  | .byRandom => { head with transferType := some .byRandom }
  | .byRandomExceptId exceptId =>
    { head with transferType := some .byRandomExceptId, dstExceptId := some exceptId }

/-- The message with the head for a rule and a server type. -/
def transferMessage (self : ServerAddr) (mode : Mode) (serverType : ENServerType) (message : SS) :
    SS :=
  { message with
    proxyHead := { mode.set message.proxyHead with
      dstServerType := some serverType
      srcServerType := some self.serverType
      srcServerId := some self.serverId } }

/-- `TransferMessageById`. -/
def transferMessageById (self : ServerAddr) (serverType : ENServerType) (serverId : UInt32) :
    SS → SS := transferMessage self (.byId serverId) serverType

/-- `TransferMessageByHash`. -/
def transferMessageByHash (self : ServerAddr) (serverType : ENServerType) (hashId : UInt64) :
    SS → SS := transferMessage self (.byHash hashId) serverType

/-- `TransferMessageByBroadCast`. -/
def transferMessageByBroadCast (self : ServerAddr) (serverType : ENServerType) : SS → SS :=
  transferMessage self .byBroadCast serverType

/-- `TransferMessageByRandom`. -/
def transferMessageByRandom (self : ServerAddr) (serverType : ENServerType) : SS → SS :=
  transferMessage self .byRandom serverType

/-- `TransferMessageByRandomExceptId`. -/
def transferMessageByRandomExceptId (self : ServerAddr) (serverType : ENServerType)
    (exceptId : UInt32) : SS → SS := transferMessage self (.byRandomExceptId exceptId) serverType

/-- The message as the function for a rule sends it. -/
def sentBy (self : ServerAddr) (mode : Mode) (serverType : ENServerType) : SS → SS :=
  match mode with
  | .byId serverId => transferMessageById self serverType serverId
  | .byHash hashId => transferMessageByHash self serverType hashId
  | .byBroadCast => transferMessageByBroadCast self serverType
  | .byRandom => transferMessageByRandom self serverType
  | .byRandomExceptId exceptId => transferMessageByRandomExceptId self serverType exceptId

/-- `TransferResponse` for the request of a session. -/
def transferResponse (self : ServerAddr) (request response : SS) : SS :=
  let head := request.proxyHead
  { response with
    proxyHead := { head with
      transferType := some .byId
      dstServerType := some head.getSrcServerType
      dstServerId := some head.getSrcServerId
      srcServerType := some self.serverType
      srcServerId := some self.serverId } }

/-! ### Handlers -/

/-- The message types that have a handler, with the type of its response if it sends one. -/
abbrev HandlerManager := ENSSType → Option (Option ENSSType)

/-- `IsRequest`. -/
def HandlerManager.isRequest (handlers : HandlerManager) (msgType : ENSSType) : Bool :=
  (handlers msgType).isSome

/-- `_ss_rsp_type` of the handler of a message type. -/
def HandlerManager.ssRspType (handlers : HandlerManager) (msgType : ENSSType) : Option ENSSType :=
  (handlers msgType).join

/-- The handlers that `DataServer::OnRun` adds. -/
def dataServerHandlers : HandlerManager
  | .queryDataReq => some (some .queryDataRsp)
  | .updateDataReq => some (some .updateDataRsp)
  | .deleteDataReq => some (some .deleteDataRsp)
  | .insertDataReq => some (some .insertDataRsp)
  | .unlockDataNotify => some none
  | _ => none

/-- The handlers of all servers. Those of the other types of servers add no handlers for messages
between servers. -/
def serverHandlers : ENServerType → HandlerManager
  | .dataServer => dataServerHandlers
  | _ => fun _ => none

/-! ### Proxies -/

section Proxy

variable {s s' : AcceptServerMsgTransferService}

/-- How many slots a proxy has for the servers of a type. -/
def slotCount (s : AcceptServerMsgTransferService) (serverType : ENServerType) : ℕ :=
  (s.sockMap[serverType.number]?.getD []).length

theorem slot_of_mem_transfers {serverType : ENServerType} {k : ℕ} {content : String} {t : Transfer}
    (h : t ∈ s.transfers serverType k content) :
    t.serverId = k ∧ s.slot serverType k = some t.sockfd := by
  rw [AcceptServerMsgTransferService.transfers] at h
  cases hslot : s.slot serverType k with
  | none => simp [hslot] at h
  | some sockfd =>
    simp only [hslot] at h
    split_ifs at h with hconn
    · obtain rfl := List.mem_singleton.mp h
      exact ⟨rfl, rfl⟩
    · cases h

/-- **What a proxy hands a message to**: sockets in the slots of the server type in its head, and by
an id or a hash only one slot, which is known from the head. -/
theorem transfer_cases {calls : Proxy.Random.Calls} {head : Proxy.ProxyHead} {content : String}
    (hrun : (Proxy.handleMessageTransfer calls (some head) content).run s = some ((), s')) :
    ∃ ts, s' = s.handOver ts ∧ ∀ t ∈ ts,
      s.slot head.getDstServerType t.serverId = some t.sockfd ∧
      (head.getTransferType = .byId → t.serverId = head.getDstServerId.toNat) ∧
      (head.getTransferType = .byHash → t.serverId =
        head.getDstHashId.toNat % slotCount s head.getDstServerType % 2 ^ 32) := by
  have hens : Ensures (Proxy.handleMessageTransfer calls (some head) content) s
      fun _ final => final = s' := Ensures.of_run hrun rfl
  cases hlist : s.sockMap[head.getDstServerType.number]? with
  | none =>
    rw [Proxy.ensures_handleMessageTransfer_of_unknown hlist] at hens
    exact ⟨[], by rw [← hens, AcceptServerMsgTransferService.handOver_nil], by simp⟩
  | some sockList =>
    have hcount : slotCount s head.getDstServerType = sockList.length := by
      rw [slotCount, hlist]
      rfl
    rw [Proxy.ensures_handleMessageTransfer hlist, Proxy.Handles] at hens
    rw [hcount]
    cases hmode : head.getTransferType with
    | byId =>
      rw [hmode] at hens
      refine ⟨_, hens.symm, fun t ht => ?_⟩
      obtain ⟨hid, hslot⟩ := slot_of_mem_transfers ht
      exact ⟨hid ▸ hslot, fun _ => hid, by simp⟩
    | byHash =>
      rw [hmode] at hens
      refine ⟨_, hens.symm, fun t ht => ?_⟩
      split_ifs at ht with hzero
      · cases ht
      · obtain ⟨hid, hslot⟩ := slot_of_mem_transfers ht
        exact ⟨hid ▸ hslot, by simp, fun _ => hid⟩
    | byBroadcast =>
      rw [hmode] at hens
      refine ⟨_, hens.2.symm, fun t ht => ?_⟩
      obtain ⟨k, -, ht⟩ := List.mem_flatMap.mp ht
      obtain ⟨hid, hslot⟩ := slot_of_mem_transfers ht
      exact ⟨hid ▸ hslot, by simp, by simp⟩
    | byRandom =>
      rw [hmode] at hens
      obtain ⟨-, hens⟩ := hens
      cases hfirst : Proxy.firstOccupied sockList (fun _ => false)
        (Proxy.Random.drawn calls sockList.length) with
      | none =>
        simp only [hfirst] at hens
        exact ⟨[], by rw [← hens.2, AcceptServerMsgTransferService.handOver_nil], by simp⟩
      | some k =>
        simp only [hfirst] at hens
        refine ⟨_, hens.symm, fun t ht => ?_⟩
        obtain ⟨hid, hslot⟩ := slot_of_mem_transfers ht
        exact ⟨hid ▸ hslot, by simp, by simp⟩
    | byRandomExceptId =>
      rw [hmode] at hens
      obtain ⟨-, hens⟩ := hens
      have hsend : ∃ k, s.handOver (s.transfers head.getDstServerType k content) = s' := by
        cases hfirst : Proxy.firstOccupied sockList (fun k => k = head.getDstExceptId.toNat)
          (Proxy.Random.drawn calls sockList.length) with
        | none =>
          simp only [hfirst] at hens
          exact ⟨_, hens.2.2⟩
        | some k =>
          simp only [hfirst] at hens
          exact ⟨k, hens⟩
      obtain ⟨k, hsend⟩ := hsend
      refine ⟨_, hsend.symm, fun t ht => ?_⟩
      obtain ⟨hid, hslot⟩ := slot_of_mem_transfers ht
      exact ⟨hid ▸ hslot, by simp, by simp⟩

theorem number_inj {t t' : ENServerType} : t.number = t'.number ↔ t = t' := by
  constructor
  · cases t <;> cases t' <;> simp [ENServerType.number]
  · exact congrArg _

theorem slot_setSlot_of_some {serverType t : ENServerType} {serverId : UInt32} {sockfd k fd : ℕ}
    (h : (s.setSlot serverType serverId sockfd).slot t k = some fd) :
    s.slot t k = some fd ∨ t = serverType ∧ k = serverId.toNat ∧ fd = sockfd := by
  rw [AcceptServerMsgTransferService.setSlot, AcceptServerMsgTransferService.slot,
    List.getElem?_modify] at h
  rw [AcceptServerMsgTransferService.slot]
  cases hlist : s.sockMap[t.number]? with
  | none => simp [hlist] at h
  | some sockList =>
    rw [hlist] at h
    by_cases htype : serverType.number = t.number
    · by_cases hk : serverId.toNat = k
      · subst hk
        simp only [htype, if_true, Option.map_eq_map, Option.map_some, Option.bind_some,
          List.getElem?_set] at h
        refine .inr ⟨(number_inj.mp htype).symm, rfl, ?_⟩
        split_ifs at h with hlt
        · exact (Option.some.inj h).symm
        · cases h
      · refine .inl ?_
        simpa [htype, List.getElem?_set_ne hk] using h
    · refine .inl ?_
      simpa [htype] using h

theorem slotCount_setSlot (serverType t : ENServerType) (serverId : UInt32) (sockfd : ℕ) :
    slotCount (s.setSlot serverType serverId sockfd) t = slotCount s t := by
  rw [slotCount, slotCount, AcceptServerMsgTransferService.setSlot, List.getElem?_modify]
  cases s.sockMap[t.number]? with
  | none => rfl
  | some sockList => split_ifs <;> simp

theorem slot_closeSlot (serverType t : ENServerType) (serverId : UInt32) (k : ℕ) :
    (s.closeSlot serverType serverId).slot t k = s.slot t k := by
  rw [AcceptServerMsgTransferService.slot, AcceptServerMsgTransferService.slot,
    AcceptServerMsgTransferService.sockMap_closeSlot]

/-- **What a registration does to the slots**: its own may get its socket, and no other changes. -/
theorem slot_registered {serverType : ENServerType} {serverId : UInt32} {sockfd : ℕ}
    (hrun : (Proxy.handleRegisterRequest sockfd serverType serverId).run s = some ((), s')) :
    (∀ t k fd, s'.slot t k = some fd →
      s.slot t k = some fd ∨ t = serverType ∧ k = serverId.toNat ∧ fd = sockfd) ∧
    ∀ t, slotCount s' t = slotCount s t := by
  have hens : Ensures (Proxy.handleRegisterRequest sockfd serverType serverId) s
      fun _ final => final = s' := Ensures.of_run hrun rfl
  by_cases hrange : Proxy.InRange s serverType serverId
  · rw [Proxy.ensures_handleRegisterRequest hrange] at hens
    rw [← hens]
    refine ⟨fun t k fd h => ?_, fun t => ?_⟩
    · have hslot := slot_setSlot_of_some h
      rwa [slot_closeSlot] at hslot
    · rw [slotCount_setSlot, slotCount, slotCount,
        AcceptServerMsgTransferService.sockMap_closeSlot]
  · obtain rfl : s' = s := (Proxy.ensures_handleRegisterRequest_of_unknown hrange).elim hrun
    exact ⟨fun _ _ _ h => .inl h, fun _ => rfl⟩

end Proxy

/-! ### Sessions -/

section Node

variable {σ : Type}

/-- The sessions of a server. -/
structure Node (σ : Type) where
  sessions : Table UInt32 σ := ∅
  maxSize : ℕ
  curMaxId : UInt32 := 0

namespace Node

/-- The id that the next session gets, with `_cur_max_id` afterwards. -/
def nextId (n : Node σ) : Option (UInt32 × UInt32) :=
  Timers.findId Sessions.MAX_SESSION_ID n.sessions (2 ^ 24) n.curMaxId

/-- `CreateSession` for a session with this content, with its id if there is room. -/
def createSession (session : UInt32 → σ) (n : Node σ) : Option (Option UInt32 × Node σ) :=
  if n.maxSize ≤ n.sessions.entries.length then some (none, n)
  else
    n.nextId.map fun (sessionId, curMaxId) =>
      (some sessionId,
        { n with sessions := n.sessions.insert sessionId (session sessionId), curMaxId })

/-- `GetSession`. -/
def getSession (sessionId : UInt32) (n : Node σ) : Option σ := n.sessions.lookup sessionId

/-- `ReleaseSession`. -/
def releaseSession (sessionId : UInt32) (n : Node σ) : Node σ :=
  { n with sessions := n.sessions.erase sessionId }

/-- A change of a session in its place. -/
def modify (sessionId : UInt32) (f : σ → σ) (n : Node σ) : Node σ :=
  { n with sessions := Table.modify sessionId f n.sessions }

theorem createSession_cases {session : UInt32 → σ} {n n' : Node σ} {created : Option UInt32}
    (h : n.createSession session = some (created, n')) :
    created = none ∧ n' = n ∨ ∃ sessionId, created = some sessionId ∧
      n.nextId.map Prod.fst = some sessionId ∧ n.getSession sessionId = none ∧
      ∀ id, n'.getSession id =
        if id = sessionId then some (session sessionId) else n.getSession id := by
  rw [createSession] at h
  split_ifs at h with hfull
  · cases h
    exact .inl ⟨rfl, rfl⟩
  · obtain ⟨⟨sessionId, curMaxId⟩, hfind, heq⟩ := Option.map_eq_some_iff.mp h
    cases heq
    refine .inr ⟨sessionId, rfl, by rw [hfind]; rfl,
      AList.lookup_eq_none.mpr (Timers.findId_notMem hfind), fun id => ?_⟩
    exact Table.lookup_insert _ _ _ _

theorem getSession_releaseSession (sessionId id : UInt32) (n : Node σ) :
    (n.releaseSession sessionId).getSession id =
      if id = sessionId then none else n.getSession id :=
  Table.lookup_erase _ _ _

theorem getSession_modify (sessionId id : UInt32) (f : σ → σ) (n : Node σ) :
    (n.modify sessionId f).getSession id =
      if id = sessionId then (n.getSession sessionId).map f else n.getSession id :=
  Table.lookup_modify _ _ _ _

end Node

end Node

end Lsf.ServerNet
