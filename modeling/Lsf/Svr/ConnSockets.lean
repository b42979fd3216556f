import Lsf.Foundations.Reachability
import Lsf.Svr.ConnServer

/-!
# The sockets behind the entries

The connection server learns of the end of a connection from the event loop, and takes its entry
out. The event loop ends a connection in three places: where the stream has ended, where receiving
fails, and where the driver reports an error. Only the first of these calls the service.

## Main definitions

* `AcceptClientMsgService.Live` — every entry has a connected socket that is registered for reading
* `ClientEvent.Notifies` — the service is told of the end of a connection

## Main results

* `entries_live_iff_notified`, `entry_outlives_its_socket`
-/

namespace Lsf.Conn

open Svr (Ending)

/-- A login request without a user, which is refused. -/
def refusesLogin (message : Option CS) : Bool :=
  (message.bind CS.loginRequest).any fun request => request.uid.isNone

namespace AcceptClientMsgService

/-- Every entry is of a socket that is connected and registered for reading. -/
def Live (s : AcceptClientMsgService) : Prop :=
  ∀ fd ∈ s.sockMap, s.isConnect fd = true ∧ s.readFunc fd = true

/-- Sockets that are connected or registered have an entry. -/
def Entered (s : AcceptClientMsgService) : Prop :=
  ∀ fd, s.isConnect fd = true ∨ s.readFunc fd = true → fd ∈ s.sockMap

/-- The same sockets have entries, are connected and are registered. -/
structure SameSockets (s s' : AcceptClientMsgService) : Prop where
  mem : ∀ fd, fd ∈ s'.sockMap ↔ fd ∈ s.sockMap
  isConnect : s'.isConnect = s.isConnect
  readFunc : s'.readFunc = s.readFunc

/-- The socket `fd` is closed and its entry is taken out. -/
structure ClosedAt (fd : ℕ) (s s' : AcceptClientMsgService) : Prop where
  mem : ∀ other, other ∈ s'.sockMap ↔ other ≠ fd ∧ other ∈ s.sockMap
  isConnect : s'.isConnect = Function.update s.isConnect fd false
  readFunc : s'.readFunc = Function.update s.readFunc fd false

variable {s s' s'' : AcceptClientMsgService} {fd : ℕ}

namespace SameSockets

theorem refl (s : AcceptClientMsgService) : s.SameSockets s := ⟨fun _ => Iff.rfl, rfl, rfl⟩

theorem trans (h : s.SameSockets s') (h' : s'.SameSockets s'') : s.SameSockets s'' :=
  ⟨fun fd => (h'.mem fd).trans (h.mem fd), h'.isConnect.trans h.isConnect,
    h'.readFunc.trans h.readFunc⟩

theorem closedAt (h : s.SameSockets s') (h' : s'.ClosedAt fd s'') : s.ClosedAt fd s'' :=
  ⟨fun other => (h'.mem other).trans (and_congr_right fun _ => h.mem other),
    h.isConnect ▸ h'.isConnect, h.readFunc ▸ h'.readFunc⟩

theorem live (h : s.SameSockets s') (hs : s.Live) : s'.Live := fun other hother =>
  h.isConnect ▸ h.readFunc ▸ hs other ((h.mem other).mp hother)

theorem entered (h : s.SameSockets s') (hs : s.Entered) : s'.Entered := fun other hother =>
  (h.mem other).mpr (hs other (h.isConnect ▸ h.readFunc ▸ hother))

theorem withSockInfo (hfd : fd ∈ s.sockMap) (f : SockInfo → SockInfo) :
    s.SameSockets (s.withSockInfo fd f) := by
  refine ⟨fun other => ?_, rfl, rfl⟩
  refine (AList.mem_insert _).trans (or_iff_right_of_imp ?_)
  rintro rfl
  exact hfd

theorem connectionSend (message : CS) : s.SameSockets (s.connectionSend fd message) := by
  rw [AcceptClientMsgService.connectionSend]
  split_ifs
  · exact ⟨fun _ => Iff.rfl, rfl, rfl⟩
  · exact refl s

end SameSockets

namespace ClosedAt

theorem live (h : s.ClosedAt fd s') (hs : s.Live) : s'.Live := by
  intro other hother
  obtain ⟨hne, hold⟩ := (h.mem other).mp hother
  rw [h.isConnect, h.readFunc, Function.update_of_ne hne, Function.update_of_ne hne]
  exact hs other hold

theorem entered (h : s.ClosedAt fd s') (hs : s.Entered) : s'.Entered := by
  intro other hother
  rw [h.isConnect, h.readFunc] at hother
  have hne : other ≠ fd := by
    rintro rfl
    rw [Function.update_self, Function.update_self] at hother
    exact hother.elim Bool.false_ne_true Bool.false_ne_true
  rw [Function.update_of_ne hne, Function.update_of_ne hne] at hother
  exact (h.mem other).mpr ⟨hne, hs other hother⟩

theorem connectionClose : s.ClosedAt fd (s.connectionClose fd) :=
  ⟨fun _ => AList.mem_erase, rfl, rfl⟩

theorem onSocketPeerClose :
    s.ClosedAt fd (((s.asyncCancel fd).shutDown fd).onSocketPeerClose fd) := by
  refine ⟨fun other => ?_, ?_, ?_⟩
  · rw [sockMap_onSocketPeerClose]
    exact AList.mem_erase
  · rw [AcceptClientMsgService.onSocketPeerClose, onConnectionPeerClose_eq]
    rfl
  · rw [AcceptClientMsgService.onSocketPeerClose, onConnectionPeerClose_eq]
    rfl

end ClosedAt

/-! ### Messages -/

/-- A message closes the connection if it is a refused login, and keeps all sockets otherwise. -/
theorem sockets_onConnectionMessage (ts : Clock) (hfd : fd ∈ s.sockMap) (message : Option CS) :
    (refusesLogin message = true ∧ s.ClosedAt fd (s.onConnectionMessage ts fd message)) ∨
      (refusesLogin message = false ∧ s.SameSockets (s.onConnectionMessage ts fd message)) := by
  cases message with
  | none => exact Or.inr ⟨rfl, .refl s⟩
  | some message =>
    have htouch : s.SameSockets (s.withSockInfo fd id) := .withSockInfo hfd id
    have hmem : fd ∈ (s.withSockInfo fd id).sockMap := mem_withSockInfo
    rw [refusesLogin, Option.bind_some]
    obtain ⟨hlogin, heq⟩ | ⟨hlogin, heq⟩ := onConnectionMessage_cases ts fd message s
    · rw [hlogin, heq, handleLogin, Option.any_some]
      cases message.loginReq.uid with
      | none => exact Or.inl ⟨rfl, (htouch.trans (.connectionSend _)).closedAt .connectionClose⟩
      | some uid =>
        exact Or.inr ⟨rfl, htouch.trans ((SameSockets.withSockInfo hmem _).trans
          (.connectionSend _))⟩
    · refine Or.inr ⟨by rw [hlogin]; rfl, ?_⟩
      obtain heq | heq | heq := heq
      · have hsend : (s.withSockInfo fd id).SameSockets
            ((s.withSockInfo fd id).connectionSend fd { msgType := some .heartBeatRsp }) :=
          .connectionSend _
        rw [heq, handleHeartBeat]
        exact htouch.trans (hsend.trans (.withSockInfo ((hsend.mem fd).mpr hmem) _))
      · rw [heq]
        exact htouch.trans (.connectionSend _)
      · rw [heq, handleOther]
        split_ifs
        · have hpass := SameSockets.withSockInfo hmem passedOn
          exact htouch.trans ⟨hpass.mem, rfl, rfl⟩
        · exact htouch

/-- A socket that is not connected takes no more messages. -/
theorem onSocketRead_of_not_connected (ts : Clock) (hconn : s.isConnect fd = false)
    (messages : List (Option CS)) : s.onSocketRead ts fd messages = s := by
  induction messages with
  | nil => rfl
  | cons message messages ih =>
    rw [onSocketRead, passMessage, if_neg (by rw [hconn]; exact Bool.false_ne_true)]
    exact ih

/-- The messages of a read event close the connection if one of them is a refused login. -/
theorem sockets_onSocketRead (ts : Clock) (hfd : fd ∈ s.sockMap) (hconn : s.isConnect fd = true)
    (messages : List (Option CS)) :
    (messages.any refusesLogin = true ∧ s.ClosedAt fd (s.onSocketRead ts fd messages)) ∨
      (messages.any refusesLogin = false ∧ s.SameSockets (s.onSocketRead ts fd messages)) := by
  induction messages generalizing s with
  | nil => exact Or.inr ⟨rfl, .refl s⟩
  | cons message messages ih =>
    rw [onSocketRead, passMessage, if_pos hconn, List.any_cons]
    obtain ⟨hrefused, hclosed⟩ | ⟨hrefused, hsame⟩ := sockets_onConnectionMessage ts hfd message
    · rw [hrefused, Bool.true_or, onSocketRead_of_not_connected ts
        (by rw [hclosed.isConnect, Function.update_self])]
      exact Or.inl ⟨rfl, hclosed⟩
    · rw [hrefused, Bool.false_or]
      obtain ⟨hany, hclosed⟩ | ⟨hany, hrest⟩ :=
        ih ((hsame.mem fd).mpr hfd) (hsame.isConnect ▸ hconn)
      · exact Or.inl ⟨hany, hsame.closedAt hclosed⟩
      · exact Or.inr ⟨hany, hsame.trans hrest⟩

/-! ### Events -/

theorem live_closeTimedOut {closeSocks : List ℕ} (hs : s.Live) (hentered : s.Entered) :
    (s.closeTimedOut closeSocks).Live ∧ (s.closeTimedOut closeSocks).Entered := by
  induction closeSocks generalizing s with
  | nil => exact ⟨hs, hentered⟩
  | cons fd closeSocks ih =>
    have hclosed : s.ClosedAt fd ((s.onConnectionPeerClose fd).connectionClose fd) := by
      rw [onConnectionPeerClose_connectionClose]
      exact .onSocketPeerClose
    exact ih (hclosed.live hs) (hclosed.entered hentered)

theorem live_onSocketAccept (ts : Clock) (ip : String) (port : ℕ) (asyncRead : Bool)
    (hfd : fd ∉ s.sockMap) (hs : s.Live) (hentered : s.Entered) :
    (s.onSocketAccept ts fd ip port asyncRead).Live ∧
      (s.onSocketAccept ts fd ip port asyncRead).Entered := by
  cases asyncRead with
  | false =>
    have hclosed : s.ClosedAt fd (s.onSocketAccept ts fd ip port false) :=
      ⟨fun _ => AList.mem_erase, Function.update_idem _ _ _, rfl⟩
    exact ⟨hclosed.live hs, hclosed.entered hentered⟩
  | true =>
    constructor
    · intro other hother
      show Function.update s.isConnect fd true other = true ∧
        Function.update s.readFunc fd true other = true
      by_cases hne : other = fd
      · subst hne
        exact ⟨Function.update_self _ _ _, Function.update_self _ _ _⟩
      · rw [Function.update_of_ne hne, Function.update_of_ne hne]
        exact hs other (((AList.mem_insert _).mp hother).resolve_left hne)
    · intro other hother
      refine (AList.mem_insert _).mpr ?_
      by_cases hne : other = fd
      · exact Or.inl hne
      · change Function.update s.isConnect fd true other = true ∨
          Function.update s.readFunc fd true other = true at hother
        rw [Function.update_of_ne hne, Function.update_of_ne hne] at hother
        exact Or.inr (hentered other hother)

/-- A socket that the event loop shuts down without a call of the service. -/
theorem entered_asyncCancel_shutDown (hentered : s.Entered) :
    ((s.asyncCancel fd).shutDown fd).Entered := by
  have hold : ∀ (g : ℕ → Bool) other, Function.update g fd false other = true →
      g other = true := by
    intro g other h
    by_cases hne : other = fd
    · subst hne
      rw [Function.update_self] at h
      cases h
    · rwa [Function.update_of_ne hne] at h
  exact fun other hother => hentered other (hother.imp (hold _ other) (hold _ other))

theorem live_asyncCancel_shutDown (hs : s.Live) :
    ((s.asyncCancel fd).shutDown fd).Live ↔ fd ∉ s.sockMap := by
  constructor
  · intro hlive hfd
    have hdead : Function.update s.isConnect fd false fd = true := (hlive fd hfd).1
    rw [Function.update_self] at hdead
    cases hdead
  · intro hfd other hother
    have hne : other ≠ fd := by
      rintro rfl
      exact hfd hother
    show Function.update s.isConnect fd false other = true ∧
      Function.update s.readFunc fd false other = true
    rw [Function.update_of_ne hne, Function.update_of_ne hne]
    exact hs other hother

end AcceptClientMsgService

/-- The service is told when the event loop ends a connection: receiving does not fail, unless a
refused login has closed the connection before, and there is no error event for a socket that is
registered. -/
def ClientEvent.Notifies : ClientEvent → AcceptClientMsgService → Prop
  | .read fd messages .error _, s => s.readFunc fd = true → messages.any refusesLogin = true
  | .error fd, s => s.readFunc fd = false
  | _, _ => True

namespace AcceptClientMsgService

variable {s s' : AcceptClientMsgService} {fd : ℕ}

theorem live_onReadEvent {ts : Clock} {messages : List (Option CS)} {ending : Ending}
    (hentered : s.Entered) (hs : s.Live) (hread : s.readFunc fd = true) :
    (s.onReadEvent ts fd messages ending).Entered ∧ ((s.onReadEvent ts fd messages ending).Live ↔
      (ending = .error → messages.any refusesLogin = true)) := by
  have hfd := hentered fd (Or.inr hread)
  have hafter : (s.onSocketRead ts fd messages).Live ∧ (s.onSocketRead ts fd messages).Entered ∧
      (fd ∉ (s.onSocketRead ts fd messages).sockMap ↔ messages.any refusesLogin = true) := by
    obtain ⟨hany, hclosed⟩ | ⟨hany, hsame⟩ := sockets_onSocketRead ts hfd (hs fd hfd).1 messages
    · exact ⟨hclosed.live hs, hclosed.entered hentered,
        iff_of_true (fun h => ((hclosed.mem fd).mp h).1 rfl) hany⟩
    · exact ⟨hsame.live hs, hsame.entered hentered,
        iff_of_false (not_not.mpr ((hsame.mem fd).mpr hfd)) (Bool.eq_false_iff.mp hany)⟩
  obtain ⟨hlive, hent, hmem⟩ := hafter
  cases ending with
  | wouldBlock => exact ⟨hent, iff_of_true hlive nofun⟩
  | error =>
    refine ⟨entered_asyncCancel_shutDown hent, (live_asyncCancel_shutDown hlive).trans ?_⟩
    exact hmem.trans ⟨fun h _ => h, fun h => h rfl⟩
  | peerClose =>
    have hclosed := @ClosedAt.onSocketPeerClose (s.onSocketRead ts fd messages) fd
    exact ⟨hclosed.entered hent, iff_of_true (hclosed.live hlive) nofun⟩

/-- Every event keeps the entries live exactly if the service is told what happens. -/
theorem live_step {e : ClientEvent} (hentered : s.Entered) (hs : s.Live)
    (hstep : step e s = some s') : s'.Entered ∧ (s'.Live ↔ e.Notifies s) := by
  cases e with
  | accept fd ip port asyncRead ts =>
    obtain ⟨hfd, heq⟩ := Option.ite_none_left_eq_some.mp hstep
    cases heq
    obtain ⟨hlive, hent⟩ := live_onSocketAccept ts ip port asyncRead hfd hs hentered
    exact ⟨hent, iff_of_true hlive trivial⟩
  | read fd messages ending ts =>
    obtain ⟨hread, heq⟩ := Option.ite_none_right_eq_some.mp hstep
    cases heq
    obtain ⟨hent, hlive⟩ := live_onReadEvent hentered hs hread
    refine ⟨hent, hlive.trans ?_⟩
    cases ending with
    | wouldBlock => exact iff_of_true nofun trivial
    | error => exact ⟨fun h _ => h rfl, fun h _ => h hread⟩
    | peerClose => exact iff_of_true nofun trivial
  | error fd =>
    cases hstep
    rw [onErrorEvent]
    cases hread : s.readFunc fd with
    | false => exact ⟨hentered, iff_of_true hs hread⟩
    | true =>
      rw [if_pos rfl]
      refine ⟨entered_asyncCancel_shutDown hentered, (live_asyncCancel_shutDown hs).trans ?_⟩
      exact iff_of_false (not_not.mpr (hentered fd (Or.inr hread)))
        fun h => Bool.false_ne_true (h.symm.trans hread)
  | heartBeatCheck closeSocks ts =>
    obtain ⟨-, heq⟩ := Option.ite_none_right_eq_some.mp hstep
    cases heq
    obtain ⟨hlive, hent⟩ := live_closeTimedOut hs hentered
    exact ⟨hent, iff_of_true hlive trivial⟩

end AcceptClientMsgService

/-- **In every state of a run every entry has a connected socket that is registered for reading, if
and only if the service is told of the end of every connection.** -/
theorem entries_live_iff_notified (needHeartBeat : Bool) (events : List ClientEvent) :
    HoldsAlong AcceptClientMsgService.step AcceptClientMsgService.Live events
        (.initial needHeartBeat) ↔
      GuardedSteps AcceptClientMsgService.step ClientEvent.Notifies events
        (.initial needHeartBeat) := by
  refine holdsAlong_iff_guardedSteps (I := AcceptClientMsgService.Entered)
    (fun e s s' hentered hs hstep => AcceptClientMsgService.live_step hentered hs hstep) ?_
    (fun fd h => (h.elim Bool.false_ne_true Bool.false_ne_true).elim)
    fun fd hfd => absurd hfd (AList.notMem_empty fd)
  intro e s hnone
  cases e with
  | accept fd ip port asyncRead ts => trivial
  | read fd messages ending ts =>
    cases ending with
    | wouldBlock => trivial
    | error =>
      intro hread
      rw [AcceptClientMsgService.step, if_pos hread] at hnone
      cases hnone
    | peerClose => trivial
  | error fd => cases hnone
  | heartBeatCheck closeSocks ts => trivial

/-- Receiving on a connection fails, and its entry stays. -/
theorem entry_outlives_its_socket :
    ¬ ∀ (needHeartBeat : Bool) (events : List ClientEvent),
      HoldsAlong AcceptClientMsgService.step AcceptClientMsgService.Live events
        (.initial needHeartBeat) := by
  intro hall
  have hlive := hall true [.accept 5 "10.0.0.1" 4000 true ⟨1, 0⟩, .read 5 [] .error ⟨1, 0⟩]
  have hlast := (hlive.2 _ rfl).2 _ rfl
  exact absurd (hlast 5 (by decide +kernel)) (by decide +kernel)

end Lsf.Conn
