import Lsf.Foundations.Reachability
import Lsf.Foundations.Replica
import Lsf.Svr.ConnServer

/-!
# The game server follows the connection server

The heads of the messages in the channel are notices to the game server: a head may announce a
connection, or take one back. The connections that the game server stores follow the connections
that have passed on a message, as long as every change of these is announced. A login can change
them without saying so. It can close a connection without a notice, or give it another user.

## Main definitions

* `CS.announce` — what a delivered head does to the stored connections
* `AcceptClientMsgService.announced` — the connections that have passed on a message
* `System.Agree` — the game server stores these, with their users
* `SystemEvent.Announces` — the condition on logins

## Main results

* `agree_of_announced_logins`, `closed_connection_stays_stored`
-/

namespace Lsf.Conn

open Svr (Ending)

/-! ### What the game server stores -/

/-- The user of each stored connection. -/
def ClientConnManager.uidOf (m : ClientConnManager) (connId : ℕ) : Option ℕ :=
  (m.map.lookup connId).map fun conn => conn.connHead.getUid

/-- What the head of a message does to the users of the stored connections. -/
def CS.announce (message : CS) (uids : ℕ → Option ℕ) : ℕ → Option ℕ :=
  let head := message.connHead
  let uids := if head.getIsNewConn then Function.update uids head.getConnId (some head.getUid)
    else uids
  if head.getIsCloseConn then Function.update uids head.getConnId none else uids

section Announce

variable {message : CS} {uids : ℕ → Option ℕ}

theorem CS.announce_of_close (hnew : message.connHead.getIsNewConn = false)
    (hclose : message.connHead.getIsCloseConn = true) :
    message.announce uids = Function.update uids message.connHead.getConnId none := by
  rw [CS.announce, hnew, hclose]
  rfl

theorem CS.announce_of_new (hnew : message.connHead.getIsNewConn = true)
    (hclose : message.connHead.getIsCloseConn = false) :
    message.announce uids =
      Function.update uids message.connHead.getConnId (some message.connHead.getUid) := by
  rw [CS.announce, hnew, hclose]
  rfl

theorem CS.announce_of_old (hnew : message.connHead.getIsNewConn = false)
    (hclose : message.connHead.getIsCloseConn = false) : message.announce uids = uids := by
  rw [CS.announce, hnew, hclose]
  rfl

end Announce

namespace ClientConnManager

variable {m : ClientConnManager}

theorem uidOf_createClientConn (head : ConnHead) (hroom : m.full = false) :
    (m.createClientConn head).2.uidOf =
      Function.update m.uidOf head.getConnId (some head.getUid) := by
  funext connId
  rw [createClientConn, if_neg (by rw [hroom]; exact Bool.false_ne_true)]
  show ((m.map.insert _ _).lookup connId).map _ = _
  by_cases hid : connId = head.getConnId
  · subst hid
    rw [AList.lookup_insert, Function.update_self]
    rfl
  · rw [AList.lookup_insert_ne hid, Function.update_of_ne hid]
    rfl

theorem uidOf_releaseClientConn (connId : ℕ) :
    (m.releaseClientConn connId).uidOf = Function.update m.uidOf connId none := by
  funext other
  rw [releaseClientConn]
  cases hlookup : m.map.lookup connId with
  | none =>
    have hnone : m.uidOf connId = none := by rw [uidOf, hlookup]; rfl
    rw [← hnone, Function.update_eq_self]
  | some conn =>
    show ((m.map.erase connId).lookup other).map _ = _
    by_cases hid : other = connId
    · subst hid
      rw [AList.lookup_erase, Function.update_self]
      rfl
    · rw [AList.lookup_erase_ne hid, Function.update_of_ne hid]
      rfl

theorem uidOf_onConnectionMessage (message : CS) (hroom : m.full = false) :
    (m.onConnectionMessage message).uidOf = message.announce m.uidOf := by
  have hclose : ∀ m' : ClientConnManager,
      (if message.connHead.getIsCloseConn then m'.releaseClientConn message.connHead.getConnId
        else m').uidOf = if message.connHead.getIsCloseConn then
          Function.update m'.uidOf message.connHead.getConnId none else m'.uidOf := by
    intro m'
    split_ifs
    · exact uidOf_releaseClientConn _
    · rfl
  have hcreate := uidOf_createClientConn message.connHead hroom
  rw [onConnectionMessage, CS.announce]
  cases message.connHead.getIsNewConn with
  | false => exact hclose m
  | true =>
    rw [if_pos rfl, if_pos rfl, ← hcreate]
    cases hpair : m.createClientConn message.connHead with
    | mk conn m' =>
      cases conn with
      | none =>
        rw [createClientConn, if_neg (by rw [hroom]; exact Bool.false_ne_true)] at hpair
        cases hpair
      | some _ => exact hclose m'

end ClientConnManager

/-! ### Logins -/

namespace AcceptClientMsgService

/-- A login on the connection does not change what has been announced. If it names a user, the
connection has passed on nothing or has this user already. If it names none, the connection has
passed on nothing, and in an event that ends with a peer close connection 0 has not, either. -/
def LoginAnnounces (fd : ℕ) (ending : Ending) (request : LoginReq)
    (s : AcceptClientMsgService) : Prop :=
  (∀ uid ∈ request.uid, (s.sockInfo fd).forwarded = 0 ∨ (s.sockInfo fd).connHead.getUid = uid) ∧
    (request.uid = none → (s.sockInfo fd).forwarded = 0 ∧
      (ending = .peerClose → (s.sockInfo 0).forwarded = 0))

instance {fd : ℕ} {ending : Ending} {request : LoginReq} {s : AcceptClientMsgService} :
    Decidable (s.LoginAnnounces fd ending request) :=
  inferInstanceAs (Decidable (_ ∧ _))

/-- The message announces the connection, if it is a login. -/
def MessageAnnounces (fd : ℕ) (ending : Ending) (message : Option CS)
    (s : AcceptClientMsgService) : Prop :=
  s.isConnect fd = true → ∀ m ∈ message, ∀ request ∈ m.loginRequest,
    s.LoginAnnounces fd ending request

instance {fd : ℕ} {ending : Ending} {message : Option CS} {s : AcceptClientMsgService} :
    Decidable (s.MessageAnnounces fd ending message) :=
  inferInstanceAs (Decidable (_ → _))

/-- No login among the messages of a read event changes what has been announced. -/
def MessagesAnnounce (ts : Clock) (fd : ℕ) (ending : Ending) :
    List (Option CS) → AcceptClientMsgService → Prop
  | [], _ => True
  | message :: messages, s =>
    s.MessageAnnounces fd ending message ∧
      MessagesAnnounce ts fd ending messages (s.passMessage ts fd message)

instance decidableMessagesAnnounce {ts : Clock} {fd : ℕ} {ending : Ending} :
    ∀ messages (s : AcceptClientMsgService), Decidable (s.MessagesAnnounce ts fd ending messages)
  | [], _ => isTrue trivial
  | message :: messages, s =>
    have : Decidable (MessagesAnnounce ts fd ending messages (s.passMessage ts fd message)) :=
      decidableMessagesAnnounce messages _
    inferInstanceAs (Decidable (_ ∧ _))

end AcceptClientMsgService

/-- The condition on the logins of an event. -/
def ClientEvent.Announces : ClientEvent → AcceptClientMsgService → Prop
  | .read fd messages ending ts, s => s.MessagesAnnounce ts fd ending messages
  | _, _ => True

instance : ∀ (e : ClientEvent) (s : AcceptClientMsgService), Decidable (e.Announces s)
  | .read .., _ => inferInstanceAs (Decidable (AcceptClientMsgService.MessagesAnnounce ..))
  | .accept .., _ | .error _, _ | .heartBeatCheck .., _ => isTrue trivial

/-! ### What the connection server has announced -/

/-- The user of a connection that has passed on a message. -/
def SockInfo.announced (info : SockInfo) : Option ℕ :=
  if info.forwarded = 0 then none else some info.connHead.getUid

/-- What the entry of a descriptor satisfies. -/
structure SockInfo.Valid (fd : ℕ) (info : SockInfo) : Prop where
  connId : info.connHead.connId = some fd
  isNewConn : info.connHead.getIsNewConn = decide (info.forwarded = 0)
  isLogin : info.forwarded ≠ 0 → info.connHead.getIsLogin = true
  isCloseConn : info.connHead.isCloseConn = none

theorem SockInfo.Valid.getConnId {fd : ℕ} {info : SockInfo} (h : info.Valid fd) :
    info.connHead.getConnId = fd := by
  rw [ConnHead.getConnId, h.connId]
  rfl

open AcceptClientMsgService in
theorem SockInfo.Valid.passedOn {fd : ℕ} {info : SockInfo} (h : info.Valid fd)
    (hlogin : info.connHead.getIsLogin = true) : (passedOn info).Valid fd := by
  obtain ⟨hid, hnew, -, hclose⟩ := h
  rw [AcceptClientMsgService.passedOn]
  cases hold : info.connHead.getIsNewConn with
  | true => exact ⟨hid, rfl, fun _ => hlogin, hclose⟩
  | false => exact ⟨hid, hold, fun _ => hlogin, hclose⟩

namespace AcceptClientMsgService

theorem announced_passedOn {info : SockInfo} :
    (passedOn info).announced = some info.connHead.getUid := by
  rw [SockInfo.announced, passedOn]
  cases info.connHead.getIsNewConn <;> rfl

/-- The users of the connections that have passed on a message. -/
def announced (s : AcceptClientMsgService) : ℕ → Option ℕ := SockInfo.announced ∘ s.sockInfo

variable {s : AcceptClientMsgService} {fd : ℕ} {f : SockInfo → SockInfo}

theorem announced_withSockInfo :
    (s.withSockInfo fd f).announced =
      Function.update s.announced fd (f (s.sockInfo fd)).announced := by
  rw [announced, sockInfo_withSockInfo, Function.comp_update]
  rfl

theorem announced_onConnectionClose :
    (s.onConnectionClose fd).announced = Function.update s.announced fd none := by
  rw [announced, sockInfo_onConnectionClose, Function.comp_update]
  rfl

theorem announced_eq_some_iff {uid : ℕ} :
    s.announced fd = some uid ↔ ∃ info, s.sockMap.lookup fd = some info ∧ info.forwarded ≠ 0 ∧
      info.connHead.getUid = uid := by
  show ((s.sockMap.lookup fd).getD {}).announced = some uid ↔ _
  cases s.sockMap.lookup fd with
  | none => exact iff_of_false (fun h => by cases h) fun ⟨_, h, _⟩ => by cases h
  | some info =>
    show (if info.forwarded = 0 then none else some info.connHead.getUid) = some uid ↔ _
    rw [Option.ite_none_left_eq_some]
    constructor
    · rintro ⟨hne, huid⟩
      exact ⟨info, rfl, hne, Option.some.inj huid⟩
    · rintro ⟨_, hinfo, hne, huid⟩
      cases hinfo
      exact ⟨hne, congrArg some huid⟩

/-- Closing a connection takes no other announcement back. -/
theorem announced_connectionClose_eq_none {other : ℕ} (h : (s.sockInfo other).forwarded = 0) :
    (s.connectionClose fd).announced other = none := by
  have hclose : (s.connectionClose fd).announced = Function.update s.announced fd none :=
    announced_onConnectionClose
  rw [hclose]
  by_cases hne : other = fd
  · subst hne
    exact Function.update_self _ _ _
  · rw [Function.update_of_ne hne]
    exact if_pos h

theorem announced_eq_none (hfd : (s.sockInfo fd).forwarded = 0) : s.announced fd = none :=
  if_pos hfd

/-- The entries are valid, only entries have live sockets, and the channel brings the copy `uids` to
what has been announced. -/
structure Tracks (uids : ℕ → Option ℕ) (s : AcceptClientMsgService) : Prop where
  valid : ∀ fd ∈ s.sockMap, (s.sockInfo fd).Valid fd
  connected : ∀ fd, s.isConnect fd = true → fd ∈ s.sockMap
  registered : ∀ fd, s.readFunc fd = true → fd ∈ s.sockMap
  follows : Follows CS.announce s.announced s.channel uids

namespace Tracks

variable {uids : ℕ → Option ℕ}

/-- An entry is changed, and the channel says how. -/
theorem change (hs : s.Tracks uids) (hvalid : (f (s.sockInfo fd)).Valid fd)
    {channel : List CS} (hfollows : Follows CS.announce
      (Function.update s.announced fd (f (s.sockInfo fd)).announced) channel uids) :
    Tracks uids { s.withSockInfo fd f with channel } := by
  have hmem : ∀ other, other ∈ s.sockMap → other ∈ (s.withSockInfo fd f).sockMap := by
    intro other hother
    exact (AList.mem_insert _).mpr (Or.inr hother)
  refine ⟨?_, fun other h => hmem other (hs.connected other h),
    fun other h => hmem other (hs.registered other h), ?_⟩
  · intro other hother
    show SockInfo.Valid other ((s.withSockInfo fd f).sockInfo other)
    rw [sockInfo_withSockInfo]
    by_cases hne : other = fd
    · subst hne
      rwa [Function.update_self]
    · rw [Function.update_of_ne hne]
      exact hs.valid other (((AList.mem_insert _).mp hother).resolve_left hne)
  · show Follows CS.announce (s.withSockInfo fd f).announced channel uids
    rwa [announced_withSockInfo]

/-- A change of an entry that keeps what was announced of it. -/
theorem withSockInfo (hs : s.Tracks uids)
    (hvalid : (f (s.sockInfo fd)).Valid fd)
    (hsame : (f (s.sockInfo fd)).announced = (s.sockInfo fd).announced) :
    (s.withSockInfo fd f).Tracks uids := by
  refine hs.change hvalid (hs.follows.quiet ?_)
  rw [hsame]
  exact (Function.update_eq_self fd s.announced).symm

theorem touch (hs : s.Tracks uids) (hfd : fd ∈ s.sockMap) : (s.withSockInfo fd id).Tracks uids :=
  hs.withSockInfo (hs.valid fd hfd) rfl

theorem connectionSend (hs : s.Tracks uids) (message : CS) :
    (s.connectionSend fd message).Tracks uids := by
  rw [AcceptClientMsgService.connectionSend]
  split_ifs
  · exact ⟨hs.valid, hs.connected, hs.registered, hs.follows⟩
  · exact hs

theorem asyncCancel_shutDown (hs : s.Tracks uids) :
    ((s.asyncCancel fd).shutDown fd).Tracks uids := by
  have hmem : ∀ (g : ℕ → Bool) other, (∀ fd, g fd = true → fd ∈ s.sockMap) →
      Function.update g fd false other = true → other ∈ s.sockMap := by
    intro g other hg h
    by_cases hne : other = fd
    · subst hne
      rw [Function.update_self] at h
      cases h
    · rw [Function.update_of_ne hne] at h
      exact hg other h
  exact ⟨hs.valid, fun other => hmem _ other hs.connected, fun other => hmem _ other hs.registered,
    hs.follows⟩

/-- An entry is taken out whose socket is dead. -/
theorem erase {s' : AcceptClientMsgService} (hs : s.Tracks uids) (hconn : s.isConnect fd = false)
    (hread : s.readFunc fd = false) (hmap : s'.sockMap = s.sockMap.erase fd)
    (hconn' : s'.isConnect = s.isConnect) (hread' : s'.readFunc = s.readFunc)
    (hfollows : Follows CS.announce (Function.update s.announced fd none) s'.channel uids) :
    s'.Tracks uids := by
  have hinfo : s'.sockInfo = Function.update s.sockInfo fd {} := by
    rw [← sockInfo_onConnectionClose]
    funext other
    rw [sockInfo, hmap]
    rfl
  have hmem : ∀ (g : ℕ → Bool) other, (∀ fd, g fd = true → fd ∈ s.sockMap) → g fd = false →
      g other = true → other ∈ s'.sockMap := by
    intro g other hg hfd h
    rw [hmap]
    refine AList.mem_erase.mpr ⟨?_, hg other h⟩
    rintro rfl
    exact absurd (hfd.symm.trans h) Bool.false_ne_true
  refine ⟨?_, fun other h => ?_, fun other h => ?_, ?_⟩
  · intro other hother
    rw [hmap] at hother
    obtain ⟨hne, hold⟩ := AList.mem_erase.mp hother
    rw [hinfo, Function.update_of_ne hne]
    exact hs.valid other hold
  · exact hmem _ other hs.connected hconn (hconn' ▸ h)
  · exact hmem _ other hs.registered hread (hread' ▸ h)
  · rw [announced, hinfo, Function.comp_update]
    exact hfollows

/-- A connection that has passed on nothing is closed without a notice. -/
theorem connectionClose (hs : s.Tracks uids) (hfd : (s.sockInfo fd).forwarded = 0) :
    (s.connectionClose fd).Tracks uids := by
  refine (@asyncCancel_shutDown s fd _ hs).erase (Function.update_self _ _ _)
    (Function.update_self _ _ _) rfl rfl rfl (hs.follows.quiet ?_)
  have hnone : s.announced fd = none := announced_eq_none hfd
  show s.announced = Function.update s.announced fd none
  rw [← hnone, Function.update_eq_self]

/-- The peer close handler announces the end of a connection that has passed on a message. Where the
entry is missing it announces the end of connection 0. -/
theorem onSocketPeerClose (hs : s.Tracks uids) (hconn : s.isConnect fd = false)
    (hread : s.readFunc fd = false) (hfd : fd ∈ s.sockMap ∨ s.announced 0 = none) :
    (s.onSocketPeerClose fd).Tracks uids := by
  refine hs.erase hconn hread sockMap_onSocketPeerClose ?_ ?_ ?_
  · rw [AcceptClientMsgService.onSocketPeerClose, onConnectionPeerClose_eq]
    rfl
  · rw [AcceptClientMsgService.onSocketPeerClose, onConnectionPeerClose_eq]
    rfl
  rw [AcceptClientMsgService.onSocketPeerClose, onConnectionPeerClose_eq]
  show Follows _ _ (s.channel ++ closeNotice (s.sockInfo fd)) uids
  have hnone : ∀ other, s.announced other = none →
      s.announced = Function.update s.announced other none := by
    intro other hother
    rw [← hother, Function.update_eq_self]
  by_cases hmem : fd ∈ s.sockMap
  · have hnew := (hs.valid fd hmem).isNewConn
    rw [closeNotice]
    by_cases hzero : (s.sockInfo fd).forwarded = 0
    · rw [if_pos (hnew.trans (decide_eq_true hzero)), List.append_nil]
      exact hs.follows.quiet (hnone fd (announced_eq_none hzero))
    · have hold : (s.sockInfo fd).connHead.getIsNewConn = false :=
        hnew.trans (decide_eq_false hzero)
      rw [if_neg (by rw [hold]; exact Bool.false_ne_true)]
      refine hs.follows.send ((CS.announce_of_close hold rfl).trans ?_)
      exact congrArg (Function.update s.announced · none) (hs.valid fd hmem).getConnId
  · have hzero : s.announced fd = none := announced_eq_none (by rw [sockInfo_of_notMem hmem])
    rw [sockInfo_of_notMem hmem, ← hnone fd hzero]
    exact hs.follows.send (hnone 0 (hfd.resolve_left hmem)).symm

/-! ### Messages -/

/-- A message that is passed on announces its connection if it is the first one. -/
theorem handleOther (hs : s.Tracks uids) (hfd : fd ∈ s.sockMap) (message : CS) :
    (s.handleOther fd message).Tracks uids := by
  obtain ⟨-, hnew, -, hclose⟩ := hs.valid fd hfd
  have hclosing : (s.sockInfo fd).connHead.getIsCloseConn = false := by
    rw [ConnHead.getIsCloseConn, hclose]
    rfl
  rw [AcceptClientMsgService.handleOther]
  by_cases hin : (s.sockInfo fd).connHead.getIsLogin = true
  · rw [if_pos hin]
    refine hs.change ((hs.valid fd hfd).passedOn hin) (hs.follows.send ?_)
    rw [announced_passedOn]
    by_cases hzero : (s.sockInfo fd).forwarded = 0
    · rw [CS.announce_of_new (hnew.trans (decide_eq_true hzero)) hclosing]
      exact congrArg (Function.update s.announced · _) (hs.valid fd hfd).getConnId
    · rw [CS.announce_of_old (hnew.trans (decide_eq_false hzero)) hclosing]
      have hsome : s.announced fd = some (s.sockInfo fd).connHead.getUid := if_neg hzero
      rw [← hsome, Function.update_eq_self]
  · rw [if_neg hin]
    exact hs

theorem handleLogin (hs : s.Tracks uids) (hfd : fd ∈ s.sockMap) {request : LoginReq} {uid : ℕ}
    (huid : request.uid = some uid)
    (hkeeps : (s.sockInfo fd).forwarded = 0 ∨ (s.sockInfo fd).connHead.getUid = uid) :
    (s.handleLogin fd request).Tracks uids := by
  obtain ⟨hid, hnew, hlogin, hclose⟩ := hs.valid fd hfd
  rw [AcceptClientMsgService.handleLogin, huid]
  refine (hs.withSockInfo ⟨hid, hnew, fun _ => rfl, hclose⟩ ?_).connectionSend _
  rw [SockInfo.announced, SockInfo.announced]
  refine if_ctx_congr Iff.rfl (fun _ => rfl) fun hforwarded => ?_
  exact congrArg some (hkeeps.resolve_left hforwarded).symm

theorem handleLogin_fail (hs : s.Tracks uids) {request : LoginReq} (huid : request.uid = none)
    (hkeeps : (s.sockInfo fd).forwarded = 0) : (s.handleLogin fd request).Tracks uids := by
  rw [AcceptClientMsgService.handleLogin, huid]
  refine (hs.connectionSend _).connectionClose ?_
  rwa [sockInfo_connectionSend]

theorem handleHeartBeat (hs : s.Tracks uids) (hfd : fd ∈ s.sockMap) (ts : Clock) :
    (s.handleHeartBeat ts fd).Tracks uids := by
  rw [AcceptClientMsgService.handleHeartBeat]
  refine (hs.connectionSend _).withSockInfo ?_ rfl
  rw [sockInfo_connectionSend]
  obtain ⟨hid, hnew, hlogin, hclose⟩ := hs.valid fd hfd
  exact ⟨hid, hnew, hlogin, hclose⟩

theorem onConnectionMessage (hs : s.Tracks uids) (hfd : fd ∈ s.sockMap) {ending : Ending}
    {message : CS} (hkeeps : ∀ request ∈ message.loginRequest, s.LoginAnnounces fd ending request)
    (ts : Clock) :
    (s.onConnectionMessage ts fd (some message)).Tracks uids ∧
      (fd ∈ (s.onConnectionMessage ts fd (some message)).sockMap ∨
        (s.onConnectionMessage ts fd (some message)).isConnect fd = false ∧
          (ending = .peerClose →
            (s.onConnectionMessage ts fd (some message)).announced 0 = none)) := by
  have htouch := hs.touch hfd
  have hmem : fd ∈ (s.withSockInfo fd id).sockMap := mem_withSockInfo
  obtain ⟨hlogin, heq⟩ | ⟨-, heq | heq | heq⟩ := onConnectionMessage_cases ts fd message s
  · have hrequest := hkeeps _ hlogin
    rw [heq]
    cases huid : message.loginReq.uid with
    | none =>
      have hrequest := hrequest.2 huid
      refine ⟨htouch.handleLogin_fail huid (by rw [sockInfo_touch]; exact hrequest.1), Or.inr ?_⟩
      rw [AcceptClientMsgService.handleLogin, huid]
      refine ⟨Function.update_self _ _ _, fun hpeer => announced_connectionClose_eq_none ?_⟩
      rw [sockInfo_connectionSend, sockInfo_touch]
      exact hrequest.2 hpeer
    | some uid =>
      have hrequest := hrequest.1 uid huid
      refine ⟨htouch.handleLogin hmem huid (by rw [sockInfo_touch]; exact hrequest), Or.inl ?_⟩
      rw [AcceptClientMsgService.handleLogin, huid]
      show fd ∈ (AcceptClientMsgService.connectionSend fd _ _).sockMap
      rw [sockMap_connectionSend]
      exact mem_withSockInfo
  · rw [heq]
    exact ⟨htouch.handleHeartBeat hmem ts, Or.inl mem_withSockInfo⟩
  · rw [heq, handleTimeSync]
    exact ⟨htouch.connectionSend _, Or.inl (by rwa [sockMap_connectionSend])⟩
  · rw [heq]
    refine ⟨htouch.handleOther hmem message, Or.inl ?_⟩
    rw [AcceptClientMsgService.handleOther]
    split_ifs
    · exact mem_withSockInfo
    · exact hmem

/-- The messages of a read event. After them the connection is still there, or a login without a
user has closed it. -/
theorem onSocketRead (hs : s.Tracks uids) {ending : Ending} {messages : List (Option CS)}
    {ts : Clock} (hkeeps : s.MessagesAnnounce ts fd ending messages)
    (hfd : fd ∈ s.sockMap ∨
      s.isConnect fd = false ∧ (ending = .peerClose → s.announced 0 = none)) :
    (s.onSocketRead ts fd messages).Tracks uids ∧
      (fd ∈ (s.onSocketRead ts fd messages).sockMap ∨
        (ending = .peerClose → (s.onSocketRead ts fd messages).announced 0 = none)) := by
  induction messages generalizing s with
  | nil => exact ⟨hs, hfd.imp_right And.right⟩
  | cons message messages ih =>
    obtain ⟨hkeep, hkeeps⟩ := hkeeps
    rw [AcceptClientMsgService.onSocketRead]
    rw [MessageAnnounces] at hkeep
    rw [passMessage] at hkeeps ⊢
    by_cases hconn : s.isConnect fd = true
    · rw [if_pos hconn] at hkeeps ⊢
      cases message with
      | none => exact ih hs hkeeps hfd
      | some message =>
        have hmem := hfd.resolve_right fun h => absurd (h.1.symm.trans hconn) Bool.false_ne_true
        obtain ⟨hnext, hfd'⟩ := hs.onConnectionMessage hmem (hkeep hconn message rfl) ts
        exact ih hnext hkeeps hfd'
    · rw [if_neg hconn] at hkeeps ⊢
      exact ih hs hkeeps hfd

/-! ### Events -/

theorem onReadEvent (hs : s.Tracks uids) (hread : s.readFunc fd = true) {ending : Ending}
    {messages : List (Option CS)} {ts : Clock}
    (hkeeps : s.MessagesAnnounce ts fd ending messages) :
    (s.onReadEvent ts fd messages ending).Tracks uids := by
  obtain ⟨hnext, hfd⟩ := hs.onSocketRead hkeeps (Or.inl (hs.registered fd hread))
  cases ending with
  | wouldBlock => exact hnext
  | error => exact hnext.asyncCancel_shutDown
  | peerClose =>
    exact hnext.asyncCancel_shutDown.onSocketPeerClose (Function.update_self _ _ _)
      (Function.update_self _ _ _) (hfd.imp_right fun h => h rfl)

/-- The heart beat check closes each connection like a peer close does. -/
theorem closeTimedOut (hs : s.Tracks uids) {closeSocks : List ℕ} (hnodup : closeSocks.Nodup)
    (hmem : ∀ fd ∈ closeSocks, fd ∈ s.sockMap) : (s.closeTimedOut closeSocks).Tracks uids := by
  induction closeSocks generalizing s with
  | nil => exact hs
  | cons fd closeSocks ih =>
    obtain ⟨hfd, hnodup⟩ := List.nodup_cons.mp hnodup
    rw [AcceptClientMsgService.closeTimedOut, onConnectionPeerClose_connectionClose]
    refine ih ?_ hnodup fun other hother => ?_
    · exact hs.asyncCancel_shutDown.onSocketPeerClose (Function.update_self _ _ _)
        (Function.update_self _ _ _) (Or.inl (hmem fd List.mem_cons_self))
    · rw [sockMap_onSocketPeerClose]
      refine AList.mem_erase.mpr ⟨?_, hmem other (List.mem_cons_of_mem _ hother)⟩
      rintro rfl
      exact hfd hother

theorem onSocketAccept (hs : s.Tracks uids) (hfd : fd ∉ s.sockMap) (ts : Clock) (ip : String)
    (port : ℕ) (asyncRead : Bool) : (s.onSocketAccept ts fd ip port asyncRead).Tracks uids := by
  have hinfo := sockInfo_of_notMem hfd
  cases asyncRead with
  | true =>
    have hcreate : (s.onConnectionCreate ts fd ip port).Tracks uids := by
      refine hs.withSockInfo ?_ ?_
      · rw [hinfo]
        exact ⟨rfl, rfl, fun h => absurd rfl h, rfl⟩
      · rw [hinfo]
        rfl
    have hmem : ∀ (g : ℕ → Bool) other,
        (∀ fd', g fd' = true → fd' ∈ (s.onConnectionCreate ts fd ip port).sockMap) →
        Function.update g fd true other = true →
        other ∈ (s.onConnectionCreate ts fd ip port).sockMap := by
      intro g other hg h
      by_cases hne : other = fd
      · subst hne
        exact mem_withSockInfo
      · rw [Function.update_of_ne hne] at h
        exact hg other h
    exact ⟨hcreate.valid, fun other => hmem _ other hcreate.connected,
      fun other => hmem _ other hcreate.registered, hcreate.follows⟩
  | false =>
    have hdead : ∀ g : ℕ → Bool, (∀ fd', g fd' = true → fd' ∈ s.sockMap) → g fd = false :=
      fun g hg => Bool.eq_false_iff.mpr fun h => hfd (hg fd h)
    have hconn := hdead _ hs.connected
    have hread := hdead _ hs.registered
    refine hs.erase hconn hread rfl ?_ ?_ (hs.follows.quiet ?_)
    · show Function.update (Function.update s.isConnect fd true) fd false = s.isConnect
      rw [Function.update_idem, ← hconn, Function.update_eq_self]
    · show Function.update s.readFunc fd false = s.readFunc
      rw [← hread, Function.update_eq_self]
    · have hnone : s.announced fd = none := announced_eq_none (by rw [hinfo])
      rw [← hnone, Function.update_eq_self]

/-- Every event keeps the channel in step with the connections. -/
theorem step (hs : s.Tracks uids) {e : ClientEvent} {s' : AcceptClientMsgService}
    (hkeeps : e.Announces s) (hstep : AcceptClientMsgService.step e s = some s') :
    s'.Tracks uids := by
  cases e with
  | accept fd ip port asyncRead ts =>
    obtain ⟨hfd, heq⟩ := Option.ite_none_left_eq_some.mp hstep
    cases heq
    exact hs.onSocketAccept hfd ts ip port asyncRead
  | read fd messages ending ts =>
    obtain ⟨hread, heq⟩ := Option.ite_none_right_eq_some.mp hstep
    cases heq
    exact hs.onReadEvent hread hkeeps
  | error fd =>
    cases hstep
    rw [onErrorEvent]
    split_ifs
    · exact hs.asyncCancel_shutDown
    · exact hs
  | heartBeatCheck closeSocks ts =>
    obtain ⟨⟨-, hperm⟩, heq⟩ := Option.ite_none_right_eq_some.mp hstep
    cases heq
    have hsub : (s.timedOut ts).Sublist (s.sockMap.entries.map Sigma.fst) :=
      List.filter_sublist.map _
    have hnodup : (s.timedOut ts).Nodup := hsub.nodup s.sockMap.nodupKeys
    exact hs.closeTimedOut (hperm.nodup_iff.mpr hnodup) fun fd hfd =>
      AList.mem_keys.mp (hsub.subset (hperm.subset hfd))

end Tracks

theorem tracks_initial (needHeartBeat : Bool) : (initial needHeartBeat).Tracks fun _ => none where
  valid _ h := absurd h (AList.notMem_empty _)
  connected _ h := absurd h Bool.false_ne_true
  registered _ h := absurd h Bool.false_ne_true
  follows := rfl

end AcceptClientMsgService

/-! ### Both servers -/

namespace System

/-- The game server stores exactly the connections that are logged in and have passed on a message,
with the users that the connection server has for them. -/
def Agree (s : System) : Prop :=
  (∀ connId, connId ∈ s.manager.map ↔ ∃ info, s.service.sockMap.lookup connId = some info ∧
      info.connHead.getIsLogin = true ∧ info.forwarded ≠ 0) ∧
    ∀ connId conn info, s.manager.map.lookup connId = some conn →
      s.service.sockMap.lookup connId = some info → conn.connHead.getUid = info.connHead.getUid

end System

/-- There is room for one more connection when a message is delivered. -/
def SystemEvent.HasRoom : SystemEvent → System → Prop
  | .client _, _ => True
  | .deliver, s => s.manager.full = false

/-- The condition on the logins of an event. -/
def SystemEvent.Announces : SystemEvent → System → Prop
  | .client e, s => e.Announces s.service
  | .deliver, _ => True

instance : ∀ (e : SystemEvent) (s : System), Decidable (e.HasRoom s)
  | .client _, _ => isTrue trivial
  | .deliver, s => inferInstanceAs (Decidable (s.manager.full = false))

instance : ∀ (e : SystemEvent) (s : System), Decidable (e.Announces s)
  | .client e, s => inferInstanceAs (Decidable (e.Announces s.service))
  | .deliver, _ => isTrue trivial

namespace System

/-- **Where the channel is empty, the two servers agree.** -/
theorem Agree.of_tracks {s : System} (hs : s.service.Tracks s.manager.uidOf)
    (hempty : s.service.channel = []) : s.Agree := by
  have hfollows := hs.follows
  rw [hempty] at hfollows
  have huid : ∀ connId uid, s.manager.uidOf connId = some uid ↔
      ∃ info, s.service.sockMap.lookup connId = some info ∧ info.forwarded ≠ 0 ∧
        info.connHead.getUid = uid := by
    intro connId uid
    rw [hfollows.eq]
    exact AcceptClientMsgService.announced_eq_some_iff
  constructor
  · intro connId
    rw [← AList.lookup_isSome, Option.isSome_iff_exists]
    constructor
    · rintro ⟨conn, hconn⟩
      obtain ⟨info, hinfo, hne, -⟩ :=
        (huid connId conn.connHead.getUid).mp (Option.map_eq_some_iff.mpr ⟨conn, hconn, rfl⟩)
      have hvalid := hs.valid connId (AList.lookup_isSome.mp (by rw [hinfo]; rfl))
      rw [AcceptClientMsgService.sockInfo, hinfo] at hvalid
      exact ⟨info, hinfo, hvalid.isLogin hne, hne⟩
    · rintro ⟨info, hinfo, -, hne⟩
      obtain ⟨conn, hconn, -⟩ :=
        Option.map_eq_some_iff.mp ((huid connId _).mpr ⟨info, hinfo, hne, rfl⟩)
      exact ⟨conn, hconn⟩
  · intro connId conn info hconn hinfo
    obtain ⟨info', hinfo', -, hsame⟩ :=
      (huid connId conn.connHead.getUid).mp (Option.map_eq_some_iff.mpr ⟨conn, hconn, rfl⟩)
    cases hinfo.symm.trans hinfo'
    exact hsame.symm

theorem tracks_step {e : SystemEvent} {s s' : System} (hroom : e.HasRoom s)
    (hkeeps : e.Announces s) (hs : s.service.Tracks s.manager.uidOf)
    (hstep : step e s = some s') : s'.service.Tracks s'.manager.uidOf := by
  cases e with
  | client e =>
    obtain ⟨service, hservice, rfl⟩ := Option.map_eq_some_iff.mp hstep
    exact hs.step hkeeps hservice
  | deliver =>
    cases hchannel : s.service.channel with
    | nil =>
      rw [step, hchannel] at hstep
      cases hstep
    | cons message channel =>
      rw [step, hchannel] at hstep
      cases hstep
      have hfollows := hs.follows
      rw [hchannel] at hfollows
      exact ⟨hs.valid, hs.connected, hs.registered,
        hfollows.deliver (ClientConnManager.uidOf_onConnectionMessage message hroom).symm⟩

end System

/-- **If every login is announced, the servers agree whenever the channel is empty.** -/
theorem agree_of_announced_logins {needHeartBeat enableUidIndex : Bool} {maxSize : ℕ}
    {m : ClientConnManager} {s : System}
    (hinit : ClientConnManager.init maxSize enableUidIndex [] = some m)
    (hrun : Reachable System.step (fun e s => e.HasRoom s ∧ e.Announces s)
      (System.initial needHeartBeat m) s)
    (hempty : s.service.channel = []) : s.Agree := by
  refine System.Agree.of_tracks ?_ hempty
  refine hrun.invariant (I := fun s => s.service.Tracks s.manager.uidOf) ?_
    fun e s s' hguard hs hstep => System.tracks_step hguard.1 hguard.2 hs hstep
  obtain ⟨-, hm⟩ := Option.ite_none_left_eq_some.mp hinit
  cases hm
  rw [List.take_nil]
  exact AcceptClientMsgService.tracks_initial needHeartBeat

/-- A login for the user `uid`. -/
def loginMessage (uid : Option ℕ) : Option CS :=
  some { msgType := some .loginReq, loginReq := { uid } }

/-- A client that logs in twice as the same user, and leaves; the next one has its descriptor. -/
def descriptorTakenOver : List SystemEvent :=
  [.client (.accept 5 "10.0.0.1" 4000 true ⟨1, 0⟩),
    .client (.read 5 [loginMessage (some 7), some {}, loginMessage (some 7)] .wouldBlock ⟨1, 0⟩),
    .client (.read 5 [] .peerClose ⟨2, 0⟩), .client (.accept 5 "10.0.0.2" 4000 true ⟨2, 0⟩),
    .deliver, .client (.read 5 [loginMessage (some 9), some {}] .wouldBlock ⟨3, 0⟩), .deliver,
    .deliver]

theorem agree_of_descriptorTakenOver :
    ∃ s, runSteps System.step descriptorTakenOver (System.initial false ⟨∅, 3, true, []⟩) = some s ∧
      s.service.channel = [] ∧ s.Agree := by
  have hguard : GuardedSteps System.step (fun e s => e.HasRoom s ∧ e.Announces s)
      descriptorTakenOver (System.initial false ⟨∅, 3, true, []⟩) := by
    decide +kernel
  obtain ⟨s, hrun, hempty⟩ := (Option.any_eq_true (fun s : System => s.service.channel.isEmpty)
    (runSteps System.step descriptorTakenOver (System.initial false ⟨∅, 3, true, []⟩))).mp
      (by decide +kernel)
  have hnil := List.isEmpty_iff.mp hempty
  exact ⟨s, hrun, hnil, (@agree_of_announced_logins _ true 3) rfl
    (reachable_of_runSteps hguard hrun) hnil⟩

/-- A client that has passed on a message and then logs in without a user. -/
def refusedAfterwards : List SystemEvent :=
  [.client (.accept 5 "10.0.0.1" 4000 true ⟨1, 0⟩),
    .client (.read 5 [loginMessage (some 7), some {}] .wouldBlock ⟨1, 0⟩),
    .client (.read 5 [loginMessage none] .wouldBlock ⟨1, 0⟩), .deliver]

/-- The connection server closes a connection without a notice, and the game server keeps it. -/
theorem closed_connection_stays_stored :
    ¬ ∀ (needHeartBeat enableUidIndex : Bool) (maxSize : ℕ) (m : ClientConnManager) (s : System),
      ClientConnManager.init maxSize enableUidIndex [] = some m →
      Reachable System.step SystemEvent.HasRoom (System.initial needHeartBeat m) s →
      s.service.channel = [] → s.Agree := by
  intro hall
  obtain ⟨s, hrun, hend⟩ := (Option.any_eq_true (fun s : System =>
      s.service.channel.isEmpty && (s.manager.map.lookup 5).isSome &&
        (s.service.sockMap.lookup 5).isNone)
      (runSteps System.step refusedAfterwards (System.initial true ⟨∅, 3, true, []⟩))).mp
    (by decide +kernel)
  have hguard : GuardedSteps System.step SystemEvent.HasRoom refusedAfterwards
      (System.initial true ⟨∅, 3, true, []⟩) := by
    decide +kernel
  rw [Bool.and_eq_true, Bool.and_eq_true] at hend
  obtain ⟨⟨hempty, hstored⟩, hclosed⟩ := hend
  obtain ⟨hagree, -⟩ := hall true true 3 ⟨∅, 3, true, []⟩ s rfl (reachable_of_runSteps hguard hrun)
    (List.isEmpty_iff.mp hempty)
  obtain ⟨info, hinfo, -⟩ := (hagree 5).mp (AList.lookup_isSome.mp hstored)
  rw [hinfo] at hclosed
  cases hclosed

end Lsf.Conn
