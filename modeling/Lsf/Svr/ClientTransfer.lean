import Lsf.Svr.ConnSockets
import Lsf.Svr.ServerTransfer

/-!
# Messages to the clients

The game server sends its messages to the clients through the connection server, which finds a
client by the descriptor in the head of a message. A response gets the head of its request, and so
it depends on what the connection server put there.

## Main definitions

* `ToClient` — a message to the clients
* `sendMessageToClient`, `onTransferMessage` — the source's functions at the connection server
* `transferResponse`, `transferMessageByConnId`, `transferMessageByConnIds` — and at the game server
* `Owned` — every entry has a head that names its own descriptor

## Main results

* `onTransferMessage_byConnId`, `onTransferMessage_byConnIds` — who gets a message
* `owned_step` — every event keeps `Owned`, and what is passed on names the descriptor it is from
-/

namespace Lsf.Conn

open Svr (Ending)

/-! ### Sending to clients -/

/-- A message to the clients: `msg::CS`, with the `conn_ids` of its head. -/
structure ToClient where
  message : CS := {}
  connIds : List ℕ := []

namespace ToClient

/-- `clear_conn_head()`. -/
def clearConnHead (x : ToClient) : ToClient := ⟨{ x.message with connHead := {} }, []⟩

/-- `mutable_conn_head()->set_conn_id(conn_id)`. -/
def setConnId (connId : ℕ) (x : ToClient) : ToClient :=
  { x with message := { x.message with connHead := { x.message.connHead with
    connId := some connId } } }

end ToClient

namespace AcceptClientMsgService

/-- `SendMessageToClient`, with what it leaves of the message. -/
def sendMessageToClient (x : ToClient) (s : AcceptClientMsgService) :
    ToClient × AcceptClientMsgService :=
  let connId := x.message.connHead.getConnId
  if connId ∈ s.sockMap then
    (x.clearConnHead, s.connectionSend connId x.clearConnHead.message)
  else (x, s)

/-- The loop over the ids. Its bounds are taken before it, so that it goes on when the head is
cleared in it. -/
def sendByConnIds : List ℕ → ToClient → AcceptClientMsgService → AcceptClientMsgService
  | [], _, s => s
  | connId :: connIds, x, s =>
    let (x, s) := s.sendMessageToClient (x.setConnId connId)
    sendByConnIds connIds x s

/-- `AcceptClientMsgTransferService::OnConnectionMessage`. -/
def onTransferMessage (x : ToClient) (s : AcceptClientMsgService) : AcceptClientMsgService :=
  -- transfer by id
  let (x, s) := if x.message.connHead.connId.isSome then s.sendMessageToClient x else (x, s)
  -- transfer by ids
  sendByConnIds x.connIds x s

end AcceptClientMsgService

/-! ### The game server -/

/-- `TransferResponse` for the request of a session. -/
def transferResponse (csRequest csResponse : CS) : ToClient :=
  ⟨{ csResponse with connHead := csRequest.connHead }, []⟩

/-- `TransferMessageByConnId`. -/
def transferMessageByConnId (connId : ℕ) (message : CS) : ToClient :=
  ToClient.setConnId connId ⟨message, []⟩

/-- `TransferMessageByConnIds`. -/
def transferMessageByConnIds (connIds : List ℕ) (message : CS) : ToClient := ⟨message, connIds⟩

/-! ### Who gets a message -/

namespace AcceptClientMsgService

variable {s s' s'' : AcceptClientMsgService} {fd : ℕ}

/-- What a client gets that is found by its descriptor: nothing if there is no entry or if its
socket is closed. -/
def delivered (message : CS) (s : AcceptClientMsgService) (connId : ℕ) : List (ℕ × CS) :=
  if connId ∈ s.sockMap ∧ s.isConnect connId = true then
    [(connId, { message with connHead := {} })] else []

theorem sendMessageToClient_eq (x : ToClient) (s : AcceptClientMsgService) :
    (s.sendMessageToClient x).2 =
      { s with replies := s.replies ++ s.delivered x.message x.message.connHead.getConnId } := by
  rw [sendMessageToClient, delivered]
  by_cases hmem : x.message.connHead.getConnId ∈ s.sockMap
  · rw [if_pos hmem]
    show s.connectionSend _ _ = _
    rw [connectionSend]
    by_cases hconn : s.isConnect x.message.connHead.getConnId = true
    · rw [if_pos hconn, if_pos ⟨hmem, hconn⟩]
      rfl
    · rw [if_neg hconn, if_neg fun h => hconn h.2, List.append_nil]
  · rw [if_neg hmem, if_neg fun h => hmem h.1, List.append_nil]

/-- What is left of a message differs from it only in its head. -/
theorem sendMessageToClient_message (x : ToClient) (s : AcceptClientMsgService) :
    { (s.sendMessageToClient x).1.message with connHead := {} } =
      { x.message with connHead := {} } := by
  rw [sendMessageToClient]
  split_ifs <;> rfl

/-- **The loop over the ids** sends to each of them in turn, whatever the head was before. -/
theorem sendByConnIds_eq (connIds : List ℕ) (x : ToClient) (s : AcceptClientMsgService) :
    s.sendByConnIds connIds x =
      { s with replies := s.replies ++ connIds.flatMap (s.delivered x.message) } := by
  induction connIds generalizing x s with
  | nil =>
    rw [sendByConnIds, List.flatMap_nil, List.append_nil]
  | cons connId connIds ih =>
    have hmessage := sendMessageToClient_message (x.setConnId connId) s
    have hsend := sendMessageToClient_eq (x.setConnId connId) s
    rw [sendByConnIds]
    generalize s.sendMessageToClient (x.setConnId connId) = sent at hmessage hsend ⊢
    obtain ⟨y, s₁⟩ := sent
    obtain rfl : s₁ = _ := hsend
    have hdelivered : ∀ replies, ({ s with replies } : AcceptClientMsgService).delivered
        y.message = s.delivered x.message := by
      intro replies
      funext id
      rw [delivered, hmessage]
      rfl
    dsimp only
    rw [ih, hdelivered, List.flatMap_cons, ← List.append_assoc]
    rfl

/-- A message with an id goes to this id, and if there is an entry for it to no other. -/
theorem onTransferMessage_byConnId {x : ToClient} {connId : ℕ}
    (hid : x.message.connHead.connId = some connId) (hmem : connId ∈ s.sockMap) :
    s.onTransferMessage x = { s with replies := s.replies ++ s.delivered x.message connId } := by
  have hget : x.message.connHead.getConnId = connId := by
    rw [ConnHead.getConnId, hid]
    rfl
  have hsend := sendMessageToClient_eq x s
  have hclear : (s.sendMessageToClient x).1 = x.clearConnHead := by
    rw [sendMessageToClient, hget, if_pos hmem]
  rw [onTransferMessage, hid, Option.isSome_some, if_pos rfl]
  generalize s.sendMessageToClient x = sent at hclear hsend ⊢
  obtain ⟨y, s₁⟩ := sent
  obtain rfl : y = x.clearConnHead := hclear
  obtain rfl : s₁ = _ := hsend
  rw [hget]
  rfl

/-- A message without an id, or with one for which there is no entry, goes to the ids in its list.
-/
theorem onTransferMessage_byConnIds {x : ToClient}
    (hid : ∀ connId, x.message.connHead.connId = some connId → connId ∉ s.sockMap) :
    s.onTransferMessage x =
      { s with replies := s.replies ++ x.connIds.flatMap (s.delivered x.message) } := by
  have hskip : (if x.message.connHead.connId.isSome then s.sendMessageToClient x else (x, s)) =
      (x, s) := by
    split_ifs with hsome
    · obtain ⟨connId, hconn⟩ := Option.isSome_iff_exists.mp hsome
      rw [sendMessageToClient, ConnHead.getConnId, hconn, Option.getD_some,
        if_neg (hid connId hconn)]
    · rfl
  rw [onTransferMessage, hskip]
  exact sendByConnIds_eq _ _ _

/-- Only what the clients got is changed, and a message without a list of ids goes to one client at
most, the one with its id. -/
theorem onTransferMessage_cases (x : ToClient) (s : AcceptClientMsgService) :
    ∃ sent, s.onTransferMessage x = { s with replies := s.replies ++ sent } ∧
      (x.connIds = [] → sent.length ≤ 1 ∧
        ∀ r ∈ sent, x.message.connHead.connId = some r.1) := by
  by_cases hid : ∃ connId, x.message.connHead.connId = some connId ∧ connId ∈ s.sockMap
  · obtain ⟨connId, hconn, hmem⟩ := hid
    refine ⟨_, onTransferMessage_byConnId hconn hmem, fun _ => ?_⟩
    rw [delivered]
    split_ifs
    · refine ⟨le_rfl, fun r hr => ?_⟩
      rw [List.mem_singleton.mp hr, hconn]
    · exact ⟨Nat.zero_le _, fun r hr => absurd hr List.not_mem_nil⟩
  · refine ⟨_, onTransferMessage_byConnIds fun connId hconn hmem => hid ⟨connId, hconn, hmem⟩,
      fun hids => ?_⟩
    rw [hids]
    exact ⟨Nat.zero_le _, fun r hr => absurd hr List.not_mem_nil⟩

/-! ### Whose messages are passed on -/

/-- Every entry has a head that names its own descriptor, and only entries have live sockets. -/
structure Owned (s : AcceptClientMsgService) : Prop where
  connId : ∀ fd ∈ s.sockMap, (s.sockInfo fd).connHead.connId = some fd
  entered : s.Entered

/-- The entries of `s'` were there in `s`, under heads that name the same descriptors. -/
def Narrows (s s' : AcceptClientMsgService) : Prop :=
  ∀ fd ∈ s'.sockMap, fd ∈ s.sockMap ∧
    (s'.sockInfo fd).connHead.connId = (s.sockInfo fd).connHead.connId

namespace Narrows

theorem refl (s : AcceptClientMsgService) : s.Narrows s := fun _ h => ⟨h, rfl⟩

theorem trans (h : s.Narrows s') (h' : s'.Narrows s'') : s.Narrows s'' := by
  intro other hmem
  obtain ⟨hmem', heq'⟩ := h' other hmem
  obtain ⟨hmem, heq⟩ := h other hmem'
  exact ⟨hmem, heq'.trans heq⟩

theorem withSockInfo {f : SockInfo → SockInfo} (hfd : fd ∈ s.sockMap)
    (hf : (f (s.sockInfo fd)).connHead.connId = (s.sockInfo fd).connHead.connId) :
    s.Narrows (s.withSockInfo fd f) := by
  intro other hmem
  refine ⟨(AList.mem_insert _).mp hmem |>.elim (fun h => h ▸ hfd) id, ?_⟩
  rw [sockInfo_withSockInfo]
  obtain rfl | hne := eq_or_ne other fd
  · rw [Function.update_self, hf]
  · rw [Function.update_of_ne hne]

theorem connectionSend (message : CS) : s.Narrows (s.connectionSend fd message) := by
  intro other hmem
  rw [sockMap_connectionSend] at hmem
  rw [sockInfo_connectionSend]
  exact ⟨hmem, rfl⟩

theorem onConnectionClose : s.Narrows (s.onConnectionClose fd) := by
  intro other hmem
  obtain ⟨hne, hmem⟩ := AList.mem_erase.mp hmem
  rw [sockInfo_onConnectionClose, Function.update_of_ne hne]
  exact ⟨hmem, rfl⟩

theorem owned (h : s.Narrows s') (hs : s.Owned) (hentered : s'.Entered) : s'.Owned where
  connId other hmem := by
    obtain ⟨hmem, heq⟩ := h other hmem
    rw [heq, hs.connId other hmem]
  entered := hentered

end Narrows

end AcceptClientMsgService

/-- Where the game server takes a message for a request, its head names this descriptor. -/
def CS.Names (fd : ℕ) (message : CS) : Prop :=
  message.msgType.isSome = true → message.connHead.connId = some fd

namespace AcceptClientMsgService

variable {s s' s'' : AcceptClientMsgService} {fd : ℕ}

/-- What was added to the channel names the descriptor. -/
def PassesOn (fd : ℕ) (s s' : AcceptClientMsgService) : Prop :=
  ∃ passed, s'.channel = s.channel ++ passed ∧ ∀ m ∈ passed, m.Names fd

theorem PassesOn.of_eq (h : s'.channel = s.channel) : s.PassesOn fd s' :=
  ⟨[], by rw [h, List.append_nil], fun _ hm => absurd hm List.not_mem_nil⟩

theorem PassesOn.trans (h : s.PassesOn fd s') (h' : s'.PassesOn fd s'') : s.PassesOn fd s'' := by
  obtain ⟨passed, heq, hnames⟩ := h
  obtain ⟨passed', heq', hnames'⟩ := h'
  refine ⟨passed ++ passed', by rw [heq', heq, List.append_assoc], fun m hm => ?_⟩
  exact (List.mem_append.mp hm).elim (hnames m) (hnames' m)

theorem channel_connectionSend (message : CS) :
    (s.connectionSend fd message).channel = s.channel := by
  rw [connectionSend]
  split_ifs <;> rfl

/-- A message of a client keeps the heads in order, and is passed on under the head of its entry. -/
theorem narrows_onConnectionMessage (hs : s.Owned) (hfd : fd ∈ s.sockMap) (ts : Clock)
    (message : Option CS) :
    s.Narrows (s.onConnectionMessage ts fd message) ∧
      s.PassesOn fd (s.onConnectionMessage ts fd message) := by
  cases message with
  | none => exact ⟨.refl s, .of_eq rfl⟩
  | some message =>
    have htouch : s.Narrows (s.withSockInfo fd id) := .withSockInfo hfd rfl
    have hmem : fd ∈ (s.withSockInfo fd id).sockMap := mem_withSockInfo
    obtain ⟨-, heq⟩ | ⟨-, heq | heq | heq⟩ := onConnectionMessage_cases ts fd message s
    · rw [heq, handleLogin]
      cases message.loginReq.uid with
      | none =>
        exact ⟨htouch.trans ((Narrows.connectionSend _).trans .onConnectionClose),
          .of_eq (channel_connectionSend _)⟩
      | some uid =>
        exact ⟨htouch.trans ((Narrows.withSockInfo hmem rfl).trans (.connectionSend _)),
          .of_eq (channel_connectionSend _)⟩
    · rw [heq, handleHeartBeat]
      have hsend : (s.withSockInfo fd id).Narrows ((s.withSockInfo fd id).connectionSend fd
        { msgType := some .heartBeatRsp }) := .connectionSend _
      refine ⟨htouch.trans (hsend.trans (.withSockInfo ?_ rfl)), .of_eq ?_⟩
      · rw [sockMap_connectionSend]
        exact hmem
      · exact channel_connectionSend _
    · rw [heq, handleTimeSync]
      exact ⟨htouch.trans (.connectionSend _), .of_eq (channel_connectionSend _)⟩
    · rw [heq, handleOther]
      split_ifs with hlogin
      · have hpassed : (passedOn ((s.withSockInfo fd id).sockInfo fd)).connHead.connId =
            ((s.withSockInfo fd id).sockInfo fd).connHead.connId := by
          rw [passedOn]
          split_ifs <;> rfl
        refine ⟨htouch.trans (Narrows.withSockInfo hmem hpassed), _, rfl, fun m hm _ => ?_⟩
        rw [List.mem_singleton.mp hm]
        rw [sockInfo_touch]
        exact hs.connId fd hfd
      · exact ⟨htouch, .of_eq rfl⟩

theorem entered_onConnectionMessage (hs : s.Owned) (hfd : fd ∈ s.sockMap) (ts : Clock)
    (message : Option CS) : (s.onConnectionMessage ts fd message).Entered := by
  obtain ⟨-, hclosed⟩ | ⟨-, hsame⟩ := sockets_onConnectionMessage ts hfd message
  · exact hclosed.entered hs.entered
  · exact hsame.entered hs.entered

theorem owned_onSocketRead (hs : s.Owned) (ts : Clock) (fd : ℕ) (messages : List (Option CS)) :
    (s.onSocketRead ts fd messages).Owned ∧
      s.PassesOn fd (s.onSocketRead ts fd messages) := by
  induction messages generalizing s with
  | nil => exact ⟨hs, .of_eq rfl⟩
  | cons message messages ih =>
    rw [onSocketRead, passMessage]
    split_ifs with hconn
    · have hfd := hs.entered fd (Or.inl hconn)
      obtain ⟨hnarrows, hpasses⟩ := narrows_onConnectionMessage hs hfd ts message
      have howned := hnarrows.owned hs (entered_onConnectionMessage hs hfd ts message)
      obtain ⟨hrest, hpasses'⟩ := ih howned
      exact ⟨hrest, hpasses.trans hpasses'⟩
    · exact ih hs

theorem narrows_shutDown : s.Narrows ((s.asyncCancel fd).shutDown fd) := fun _ h => ⟨h, rfl⟩

/-- The end of a connection, after which there is no entry for it. -/
theorem owned_onSocketPeerClose (hs : s.Owned) (fd other : ℕ) :
    (((s.asyncCancel fd).shutDown fd).onSocketPeerClose fd).Owned ∧
      s.PassesOn other (((s.asyncCancel fd).shutDown fd).onSocketPeerClose fd) := by
  have hclosed : s.ClosedAt fd (((s.asyncCancel fd).shutDown fd).onSocketPeerClose fd) :=
    .onSocketPeerClose
  have hentered := hclosed.entered hs.entered
  refine ⟨Narrows.owned (s := s) (fun k hk => ?_) hs hentered, ?_⟩
  · rw [sockMap_onSocketPeerClose] at hk
    obtain ⟨hne, hk⟩ := AList.mem_erase.mp hk
    rw [onSocketPeerClose, sockInfo_onConnectionClose, Function.update_of_ne hne,
      onConnectionPeerClose_eq]
    refine ⟨hk, ?_⟩
    show ((((s.asyncCancel fd).shutDown fd).withSockInfo fd id).sockInfo k).connHead.connId = _
    rw [sockInfo_touch]
    rfl
  · rw [onSocketPeerClose, onConnectionPeerClose_eq]
    refine ⟨_, rfl, fun m hm htype => ?_⟩
    rw [closeNotice] at hm
    split_ifs at hm with hnew
    · exact absurd hm List.not_mem_nil
    · rw [List.mem_singleton.mp hm] at htype
      exact absurd htype Bool.false_ne_true

theorem owned_closeTimedOut (hs : s.Owned) (closeSocks : List ℕ) (other : ℕ) :
    (s.closeTimedOut closeSocks).Owned ∧ s.PassesOn other (s.closeTimedOut closeSocks) := by
  induction closeSocks generalizing s with
  | nil => exact ⟨hs, .of_eq rfl⟩
  | cons fd closeSocks ih =>
    obtain ⟨howned, hpasses⟩ := owned_onSocketPeerClose hs fd other
    rw [closeTimedOut, onConnectionPeerClose_connectionClose]
    obtain ⟨hrest, hpasses'⟩ := ih howned
    exact ⟨hrest, hpasses.trans hpasses'⟩

theorem owned_onSocketAccept (hs : s.Owned) (ts : Clock) (ip : String) (port : ℕ)
    (asyncRead : Bool) : (s.onSocketAccept ts fd ip port asyncRead).Owned := by
  cases asyncRead with
  | false =>
    have hclosed : s.ClosedAt fd (s.onSocketAccept ts fd ip port false) :=
      ⟨fun _ => AList.mem_erase, Function.update_idem _ _ _, rfl⟩
    have hnarrows : s.Narrows (s.onSocketAccept ts fd ip port false) := fun k hk =>
      (Narrows.onConnectionClose (s := s)) k hk
    exact hnarrows.owned hs (hclosed.entered hs.entered)
  | true =>
    refine ⟨fun k hk => ?_, fun k hk => (AList.mem_insert _).mpr ?_⟩
    · rw [onSocketAccept, if_pos rfl, onConnectionCreate, sockInfo_withSockInfo]
      obtain rfl | hne := eq_or_ne k fd
      · rw [Function.update_self]
      · rw [Function.update_of_ne hne]
        exact hs.connId k (((AList.mem_insert _).mp hk).resolve_left hne)
    · by_cases hne : k = fd
      · exact .inl hne
      · change Function.update s.isConnect fd true k = true ∨
          Function.update s.readFunc fd true k = true at hk
        rw [Function.update_of_ne hne, Function.update_of_ne hne] at hk
        exact .inr (hs.entered k hk)

end AcceptClientMsgService

/-- The descriptor of the connection that an event is about. -/
def ClientEvent.sockFd : ClientEvent → ℕ
  | .accept fd .. | .read fd .. | .error fd => fd
  | .heartBeatCheck .. => 0

namespace AcceptClientMsgService

variable {s s' : AcceptClientMsgService}

/-- **Every event keeps the heads in order**, and the requests that it passes on name the connection
that they come from. -/
theorem owned_step {e : ClientEvent} (hs : s.Owned) (hstep : step e s = some s') :
    s'.Owned ∧ s.PassesOn e.sockFd s' := by
  cases e with
  | accept fd ip port asyncRead ts =>
    obtain ⟨-, heq⟩ := Option.ite_none_left_eq_some.mp hstep
    cases heq
    refine ⟨owned_onSocketAccept hs ts ip port asyncRead, .of_eq ?_⟩
    rw [onSocketAccept]
    split_ifs <;> rfl
  | read fd messages ending ts =>
    obtain ⟨-, heq⟩ := Option.ite_none_right_eq_some.mp hstep
    cases heq
    obtain ⟨howned, hpasses⟩ := owned_onSocketRead hs ts fd messages
    cases ending with
    | wouldBlock => exact ⟨howned, hpasses⟩
    | error =>
      exact ⟨narrows_shutDown.owned howned (entered_asyncCancel_shutDown howned.entered),
        hpasses.trans (.of_eq rfl)⟩
    | peerClose =>
      obtain ⟨hclosed, hnotice⟩ := owned_onSocketPeerClose howned fd fd
      exact ⟨hclosed, hpasses.trans hnotice⟩
  | error fd =>
    cases hstep
    rw [onErrorEvent]
    split_ifs
    · exact ⟨narrows_shutDown.owned hs (entered_asyncCancel_shutDown hs.entered), .of_eq rfl⟩
    · exact ⟨hs, .of_eq rfl⟩
  | heartBeatCheck closeSocks ts =>
    obtain ⟨-, heq⟩ := Option.ite_none_right_eq_some.mp hstep
    cases heq
    exact owned_closeTimedOut hs closeSocks _

theorem owned_initial (needHeartBeat : Bool) : (initial needHeartBeat).Owned where
  connId fd hfd := absurd hfd (AList.notMem_empty fd)
  entered _ h := (h.elim Bool.false_ne_true Bool.false_ne_true).elim

end AcceptClientMsgService

end Lsf.Conn
