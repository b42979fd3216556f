import Lsf.Foundations.Refinement
import Lsf.Svr.ProxyRouting

/-!
# Registering at the proxy server

A server that registers takes its slot over: the socket that is in the slot is closed if it is
connected, and then the new one is stored. When a connection registers a second time, the socket
that is closed is its own.

## Main definitions

* `ProxyEvent`, `ProxyEvent.step` — registrations, and what the event loop does between them
* `Routes` — what should hold after a registration

## Main results

* `ensures_handleRegisterRequest`
* `registrations_route_iff`
-/

namespace Lsf.Proxy

open AcceptServerMsgTransferService (slot)

variable {s s' : AcceptServerMsgTransferService} {sockfd : ℕ} {serverType : ENServerType}
  {serverId : UInt32}

/-- The slot of a server type and id exists. -/
def InRange (s : AcceptServerMsgTransferService) (serverType : ENServerType) (serverId : UInt32) :
    Prop :=
  ∃ sockList, s.sockMap[serverType.number]? = some sockList ∧ serverId.toNat < sockList.length

namespace AcceptServerMsgTransferService

/-- The socket in a slot is closed if it is connected. -/
def closeSlot (s : AcceptServerMsgTransferService) (serverType : ENServerType)
    (serverId : UInt32) : AcceptServerMsgTransferService :=
  match s.slot serverType serverId.toNat with
  | none => s
  | some old =>
    if s.isConnect old then
      { s with
        registered := Function.update s.registered old false
        isConnect := Function.update s.isConnect old false }
    else s

/-- A socket is stored in a slot. -/
def setSlot (s : AcceptServerMsgTransferService) (serverType : ENServerType) (serverId : UInt32)
    (sockfd : ℕ) : AcceptServerMsgTransferService :=
  { s with
    sockMap := s.sockMap.modify serverType.number (·.set serverId.toNat (some sockfd)) }

@[simp] theorem sockMap_closeSlot : (s.closeSlot serverType serverId).sockMap = s.sockMap := by
  rw [closeSlot]
  split
  · rfl
  · split_ifs <;> rfl

@[simp] theorem isConnect_setSlot :
    (s.setSlot serverType serverId sockfd).isConnect = s.isConnect := rfl

theorem slot_setSlot (h : InRange s serverType serverId) :
    (s.setSlot serverType serverId sockfd).slot serverType serverId.toNat = some sockfd := by
  obtain ⟨sockList, hlist, hid⟩ := h
  rw [slot, setSlot, List.getElem?_modify_eq, hlist]
  simp [hid]

/-- A socket stays connected when another one in its slot, or none, is closed. -/
theorem isConnect_closeSlot (h : s.isConnect sockfd = true) :
    (s.closeSlot serverType serverId).isConnect sockfd = true ↔
      s.slot serverType serverId.toNat ≠ some sockfd := by
  rw [closeSlot]
  cases hslot : s.slot serverType serverId.toNat with
  | none => simp [h]
  | some old =>
    obtain rfl | hne := eq_or_ne sockfd old
    · simp [h]
    · have hsame : (if s.isConnect old then
          { s with
            registered := Function.update s.registered old false
            isConnect := Function.update s.isConnect old false } else s).isConnect sockfd =
          s.isConnect sockfd := by
        split_ifs
        · exact Function.update_of_ne hne _ _
        · rfl
      simp [hsame, h, hne.symm]

end AcceptServerMsgTransferService

/-- **A registration** closes the socket in the slot and stores its own. -/
theorem ensures_handleRegisterRequest (h : InRange s serverType serverId)
    {Q : Unit → AcceptServerMsgTransferService → Prop} :
    Ensures (handleRegisterRequest sockfd serverType serverId) s Q ↔
      Q () ((s.closeSlot serverType serverId).setSlot serverType serverId sockfd) := by
  obtain ⟨sockList, hlist, hid⟩ := h
  obtain ⟨hlt, hget⟩ := List.getElem?_eq_some_iff.mp hlist
  have hslot := AcceptServerMsgTransferService.slot_eq hlist serverId.toNat
  rw [List.getElem?_eq_getElem hid, Option.join_some] at hslot
  rw [handleRegisterRequest, ensures_bind, ensures_get, if_neg (not_le.mpr hlt), ensures_bind,
    ensures_elementAt hlt, hget, if_neg (not_le.mpr hid), ensures_bind, ensures_elementAt hid,
    AcceptServerMsgTransferService.closeSlot, hslot]
  cases sockList[serverId.toNat] with
  | none => simp [AcceptServerMsgTransferService.setSlot]
  | some old =>
    by_cases hconn : s.isConnect old
    · simp [hconn, connectionClose, AcceptServerMsgTransferService.setSlot]
    · simp [hconn, AcceptServerMsgTransferService.setSlot]

/-- A registration for a slot that does not exist is ignored. -/
theorem ensures_handleRegisterRequest_of_unknown (h : ¬ InRange s serverType serverId) :
    Ensures (handleRegisterRequest sockfd serverType serverId) s fun _ s' => s' = s := by
  rw [handleRegisterRequest, ensures_bind, ensures_get]
  by_cases htype : serverType.number ≥ s.sockMap.length
  · rw [if_pos htype, ensures_pure]
  have hlt : serverType.number < s.sockMap.length := not_le.mp htype
  rw [if_neg htype, ensures_bind, ensures_elementAt hlt]
  have hid : serverId.toNat ≥ (s.sockMap[serverType.number]).length :=
    not_lt.mp fun hid => h ⟨_, List.getElem?_eq_getElem hlt, hid⟩
  rw [if_pos hid, ensures_pure]

/-! ### Runs -/

/-- A call of `HandleRegisterRequest`, or a change of the connections by the event loop. -/
inductive ProxyEvent
  | registerRequest (sockfd : ℕ) (serverType : ENServerType) (serverId : UInt32)
  | sockets (isConnect : ℕ → Bool)

/-- An event. -/
def ProxyEvent.step : ProxyEvent → Prog Unit
  | .registerRequest sockfd serverType serverId =>
    handleRegisterRequest sockfd serverType serverId
  | .sockets isConnect => modify fun s => { s with isConnect := isConnect }

/-- What should hold after a registration: the slot has the socket, which is connected, messages by
id are handed to it, and if it was in the slot before, nothing has changed. -/
structure Routes (s s' : AcceptServerMsgTransferService) (sockfd : ℕ) (serverType : ENServerType)
    (serverId : UInt32) : Prop where
  slot : s'.slot serverType serverId.toNat = some sockfd
  isConnect : s'.isConnect sockfd = true
  byId : ∀ calls message, Ensures (handleMessageTransfer calls
    (some { transferType := some .byId, dstServerType := some serverType,
            dstServerId := some serverId }) message) s' fun _ s'' =>
      s''.sent = s'.sent ++ [⟨serverType.number, serverId.toNat, sockfd, message⟩]
  again : s.slot serverType serverId.toNat = some sockfd → s' = s

/-- Every registration of a connected socket for a slot that exists is as it should be. -/
def ProxyEvent.Routes (event : ProxyEvent) (s : AcceptServerMsgTransferService) (_ : Unit)
    (s' : AcceptServerMsgTransferService) : Prop :=
  match event with
  | .registerRequest sockfd serverType serverId => s.isConnect sockfd = true →
      InRange s serverType serverId → Proxy.Routes s s' sockfd serverType serverId
  | .sockets _ => True

/-- No connected socket is registered for the slot that has it already. -/
def ProxyEvent.IsNew (event : ProxyEvent) (s : AcceptServerMsgTransferService) : Prop :=
  match event with
  | .registerRequest sockfd serverType serverId => s.isConnect sockfd = true →
      InRange s serverType serverId → s.slot serverType serverId.toNat ≠ some sockfd
  | .sockets _ => True

/-- A message by id goes to the connected socket in the slot. -/
theorem ensures_transfer_byId (hslot : s.slot serverType serverId.toNat = some sockfd)
    (hconn : s.isConnect sockfd = true) (calls : Random.Calls) (message : String) :
    Ensures (handleMessageTransfer calls
      (some { transferType := some .byId, dstServerType := some serverType,
              dstServerId := some serverId }) message) s fun _ s' =>
        s'.sent = s.sent ++ [⟨serverType.number, serverId.toNat, sockfd, message⟩] := by
  cases hlist : s.sockMap[serverType.number]? with
  | none => simp [slot, hlist] at hslot
  | some sockList =>
    rw [ensures_handleMessageTransfer hlist]
    show s.sent ++ s.transfers serverType serverId.toNat message = _
    rw [AcceptServerMsgTransferService.transfers, hslot]
    simp [hconn]

/-- **One registration routes exactly if the slot does not have the socket already.** -/
theorem ProxyEvent.ensures_step (event : ProxyEvent) (s : AcceptServerMsgTransferService) :
    Ensures event.step s fun r s' => event.Routes s r s' ↔ event.IsNew s := by
  cases event with
  | sockets isConnect =>
    rw [ProxyEvent.step, ensures_modify]
    exact Iff.rfl
  | registerRequest sockfd serverType serverId =>
    by_cases hrange : InRange s serverType serverId
    · rw [ProxyEvent.step, ensures_handleRegisterRequest hrange]
      refine imp_congr_right fun hconn => imp_congr_right fun _ => ?_
      rw [← AcceptServerMsgTransferService.isConnect_closeSlot hconn]
      constructor
      · exact fun h => h.isConnect
      · intro h
        have hrange' : InRange (s.closeSlot serverType serverId) serverType serverId := by
          rwa [InRange, AcceptServerMsgTransferService.sockMap_closeSlot]
        have hslot : ((s.closeSlot serverType serverId).setSlot serverType serverId sockfd).slot
            serverType serverId.toNat = some sockfd :=
          AcceptServerMsgTransferService.slot_setSlot hrange'
        exact ⟨hslot, h, ensures_transfer_byId hslot h, fun hsame => absurd hsame
          ((AcceptServerMsgTransferService.isConnect_closeSlot hconn).mp h)⟩
    · refine (ensures_handleRegisterRequest_of_unknown hrange).mono ?_
      rintro _ _ -
      exact iff_of_true (fun _ h => absurd h hrange) fun _ h => absurd h hrange

/-- **In every run, all registrations route exactly if no socket is registered for the slot that has
it already.** -/
theorem registrations_route_iff (s : AcceptServerMsgTransferService) (events : List ProxyEvent) :
    EachStep ProxyEvent.step ProxyEvent.Routes events s ↔
      Guarded ProxyEvent.step ProxyEvent.IsNew events s := by
  refine eachStep_iff_guarded (I := fun _ => True) (fun event s _ => ?_) trivial
  exact (event.ensures_step s).mono fun _ _ h => ⟨h, fun _ => trivial⟩

/-- A game server registers twice over one connection, which is closed by the second registration.
-/
theorem second_registration_closes_connection : ¬ ∀ (s : AcceptServerMsgTransferService)
    (events : List ProxyEvent), EachStep ProxyEvent.step ProxyEvent.Routes events s := by
  intro hall
  let s : AcceptServerMsgTransferService :=
    ⟨initSocketMapFromServerConfig [⟨.gameServer, 0⟩], fun _ => true, fun _ => true, []⟩
  have hrange : InRange s .gameServer 0 := ⟨[none], rfl, by decide⟩
  have hrange' : InRange ((s.closeSlot .gameServer 0).setSlot .gameServer 0 7) .gameServer 0 :=
    ⟨[some 7], rfl, by decide⟩
  have hruns := hall s [.registerRequest 7 .gameServer 0, .registerRequest 7 .gameServer 0]
  obtain ⟨-, hrun⟩ := (ensures_handleRegisterRequest hrange).mp hruns
  obtain ⟨hroutes, -⟩ := (ensures_handleRegisterRequest hrange').mp hrun
  exact absurd (hroutes rfl hrange').isConnect (by decide)

end Lsf.Proxy
