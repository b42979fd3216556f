import Lsf.Foundations.Correlation
import Lsf.Svr.ServerCluster

/-!
# Responses reach the sessions that asked

A response carries the id of a session, and a server gives it to the session that has the id when
the response arrives. That this is the session that asked depends on ids not being taken again too
early; on nothing else, whatever the messages go through on their way.

## Main definitions

* `Cluster.Carries` — the messages that can still lead to a response
* `Cluster.pending` — the sessions that the open requests came from
* `Event.Orderly` — the condition on the events
* `Cluster.Sound` — the invariant

## Main results

* `Cluster.Sound.step` — every orderly event keeps the invariant
* `responses_reach_their_sessions`
-/

namespace Lsf.ServerNet

open Proxy (ENServerType AcceptServerMsgTransferService ServerConfig)

/-! ### Open requests -/

/-- A message is on its way, or a session was created for it and has not answered. -/
inductive Cluster.Carries (c : Cluster) (x : Sent) : Prop
  | up (proxy : ℕ) (h : (proxy, x) ∈ c.up)
  | down (addr : ServerAddr) (h : (addr, x) ∈ c.down)
  | session (addr : ServerAddr) (sessionId : UInt32) (session : Session)
      (h : (c.nodes addr).getSession sessionId = some session) (hreq : session.ssRequest = some x)
      (hopen : session.isSendRsp = false)

/-- The sessions that the open requests came from. -/
def Cluster.pending (c : Cluster) : Set ((ServerAddr × UInt32) × ℕ) :=
  {q | ∃ x o, c.Carries x ∧ x.origin = some o ∧ o.asker = q}

/-- The id that the next session of a server gets is not the id of an open request. -/
def Cluster.SparesNext (addr : ServerAddr) (c : Cluster) : Prop :=
  ∀ sessionId, (c.nodes addr).nextId.map Prod.fst = some sessionId →
    Spares (addr, sessionId) c.pending

/-- A server has a handler for a message. -/
def Sent.IsRequestAt (handlers : ENServerType → HandlerManager) (addr : ServerAddr) (x : Sent) :
    Prop :=
  x.message.proxyHead.getDstServerType = addr.serverType ∧
    ∃ msgType, x.message.msgType = some msgType ∧
      (handlers addr.serverType).isRequest msgType = true

/-- Requests go to servers that have a handler for them, what is sent without the id of a session
expects no response, and no session, also none that is created for a request, gets the id of an open
request. -/
def Event.Orderly (handlers : ENServerType → HandlerManager) : Event → Cluster → Prop
  | .deliver i, c => ∀ e, c.down[i]? = some e → e.2.IsRequestAt handlers e.1 → c.SparesNext e.1
  | .createSession addr, c => c.SparesNext addr
  | .request _ _ _ _ serverType msgType _, _ => (handlers serverType).isRequest msgType = true
  | .notify _ _ _ serverType msgType _, _ => handlers serverType msgType = some none
  | _, _ => True

/-- No server has a handler for the type of a response. -/
def ResponsesUnhandled (handlers : ENServerType → HandlerManager) : Prop :=
  ∀ serverType msgType rspType, handlers serverType msgType = some (some rspType) →
    ∀ serverType', handlers serverType' rspType = none

theorem responsesUnhandled_serverHandlers : ResponsesUnhandled serverHandlers := by
  intro serverType msgType rspType h serverType'
  rcases serverType <;> rcases msgType <;> cases h <;> rcases serverType' <;> rfl

/-! ### What messages look like -/

/-- A message is a request of a session: its head names the session and its server. -/
structure Origin.Asks (handlers : ENServerType → HandlerManager) (o : Origin) : Prop where
  handled : ∃ msgType, o.request.msgType = some msgType ∧
    (handlers o.request.proxyHead.getDstServerType).isRequest msgType = true
  srcServerType : o.request.proxyHead.getSrcServerType = o.addr.serverType
  srcServerId : o.request.proxyHead.getSrcServerId = o.addr.serverId
  sessionId : o.request.proxyHead.getSessionId = o.sessionId

/-- A message is the response to a request: it comes from the type of server that the request was
sent to, it is what the handler there responds with, and it goes to the session that asked. -/
structure Origin.Answers (handlers : ENServerType → HandlerManager) (o : Origin) (m : SS) :
    Prop where
  transferType : m.proxyHead.getTransferType = .byId
  dstServerType : m.proxyHead.getDstServerType = o.addr.serverType
  dstServerId : m.proxyHead.getDstServerId = o.addr.serverId
  sessionId : m.proxyHead.getSessionId = o.sessionId
  srcServerType : m.proxyHead.getSrcServerType = o.request.proxyHead.getDstServerType
  msgType : ∃ msgType rspType, o.request.msgType = some msgType ∧
    handlers o.request.proxyHead.getDstServerType msgType = some (some rspType) ∧
    m.msgType = some rspType

/-- A message and what it is. -/
inductive Sent.Fine (handlers : ENServerType → HandlerManager) : Sent → Prop
  | notice {m : SS} {msgType : ENSSType} (hmsg : m.msgType = some msgType)
      (hnone : handlers m.proxyHead.getDstServerType msgType = some none) : Fine handlers ⟨m, none⟩
  | request {o : Origin} (hasks : o.Asks handlers) : Fine handlers ⟨o.request, some o⟩
  | response {o : Origin} {m : SS} (hanswers : o.Answers handlers m) : Fine handlers ⟨m, some o⟩

/-- A response was given to the session that asked. -/
def Handed.Right (handlers : ENServerType → HandlerManager) (asked : List Origin) (h : Handed) :
    Prop :=
  ∃ o ∈ asked, h.response.origin = some o ∧ o.asker = ((h.addr, h.sessionId), h.age) ∧
    o.Answers handlers h.response.message

/-! ### The invariant -/

/-- Every message is fine and has its request behind it, the sessions that asked are still there or
their ids are free, and responses were given to those who asked. -/
structure Cluster.Sound (handlers : ENServerType → HandlerManager) (c : Cluster) : Prop where
  fine : ∀ x, c.Carries x → x.Fine handlers
  asked : ∀ x o, c.Carries x → x.origin = some o → o ∈ c.asked
  current : Current c.age c.pending
  age : ∀ addr sessionId session, (c.nodes addr).getSession sessionId = some session →
    session.age = c.age (addr, sessionId)
  request : ∀ addr sessionId session x, (c.nodes addr).getSession sessionId = some session →
    session.ssRequest = some x → x.IsRequestAt handlers addr
  handed : ∀ h ∈ c.handed, h.Right handlers c.asked

section Sound

variable {handlers : ENServerType → HandlerManager} {c c' : Cluster} {addr : ServerAddr}
  {x : Sent} {o : Origin}

/-- What `createSession` does: it may do nothing, or there is a new session. -/
theorem createSession_spec {ssRequest : Option Sent}
    (h : c.createSession addr ssRequest = some c') :
    c' = c ∨ ∃ sessionId, (c.nodes addr).nextId.map Prod.fst = some sessionId ∧
      (∀ a k, (c'.nodes a).getSession k = if (a, k) = (addr, sessionId) then
        some { ssRequest, age := c.age (addr, sessionId) + 1 } else (c.nodes a).getSession k) ∧
      c'.age = Function.update c.age (addr, sessionId) (c.age (addr, sessionId) + 1) := by
  rw [Cluster.createSession] at h
  obtain ⟨⟨created, node⟩, hcreate, rfl⟩ := Option.map_eq_some_iff.mp h
  obtain ⟨rfl, -⟩ | ⟨sessionId, rfl, hnext, -, hget⟩ := Node.createSession_cases hcreate
  · exact .inl rfl
  · refine .inr ⟨sessionId, hnext, fun a k => ?_, rfl⟩
    change (Function.update c.nodes addr node a).getSession k = _
    obtain rfl | ha := eq_or_ne a addr
    · simp only [Function.update_self, hget, Prod.mk.injEq, true_and]
    · rw [Function.update_of_ne ha, if_neg fun heq => ha (Prod.mk.inj heq).1]

/-- `createSession` does not look at the messages on their way. -/
theorem createSession_frame {ssRequest : Option Sent} {down : List (ServerAddr × Sent)}
    {served : List (ServerAddr × Sent)}
    (h : ({ c with down, served } : Cluster).createSession addr ssRequest = some c') :
    c.createSession addr ssRequest = some { c' with down := c.down, served := c.served } := by
  rw [Cluster.createSession] at h ⊢
  obtain ⟨⟨created, node⟩, hcreate, rfl⟩ := Option.map_eq_some_iff.mp h
  refine Option.map_eq_some_iff.mpr ⟨⟨created, node⟩, hcreate, ?_⟩
  rcases created <;> rfl

/-- Where there are fewer messages and fewer sessions, less is carried. -/
theorem Cluster.Carries.mono (hx : c'.Carries x) (hup : c'.up ⊆ c.up) (hdown : c'.down ⊆ c.down)
    (hsession : ∀ addr sessionId session, (c'.nodes addr).getSession sessionId = some session →
      (c.nodes addr).getSession sessionId = some session) : c.Carries x := by
  obtain ⟨p, h⟩ | ⟨a, h⟩ | ⟨a, k, session, h, hreq, hopen⟩ := hx
  · exact .up p (hup h)
  · exact .down a (hdown h)
  · exact .session a k session (hsession a k session h) hreq hopen

theorem Cluster.mem_pending (hx : c.Carries x) (ho : x.origin = some o) : o.asker ∈ c.pending :=
  ⟨x, o, hx, ho, rfl⟩

theorem Cluster.pending_subset (h : ∀ x, c'.Carries x → c.Carries x) : c'.pending ⊆ c.pending := by
  rintro q ⟨x, o, hx, ho, rfl⟩
  exact Cluster.mem_pending (h x hx) ho

namespace Cluster.Sound

/-- Nothing is sent, and the sessions that are left were there before. -/
theorem mono (hi : c.Sound handlers) (hcarries : ∀ x, c'.Carries x → c.Carries x)
    (hasked : c'.asked = c.asked) (hage : c'.age = c.age)
    (hsession : ∀ addr sessionId session, (c'.nodes addr).getSession sessionId = some session →
      ∃ old, (c.nodes addr).getSession sessionId = some old ∧ old.age = session.age ∧
        old.ssRequest = session.ssRequest)
    (hhanded : ∀ h ∈ c'.handed, h.Right handlers c.asked) : c'.Sound handlers where
  fine x hx := hi.fine x (hcarries x hx)
  asked x o hx ho := hasked ▸ hi.asked x o (hcarries x hx) ho
  current := hage ▸ hi.current.mono (Cluster.pending_subset hcarries)
  age addr sessionId session hget := by
    obtain ⟨old, hold, heq, -⟩ := hsession addr sessionId session hget
    rw [hage, ← heq]
    exact hi.age addr sessionId old hold
  request addr sessionId session x hget hreq := by
    obtain ⟨old, hold, -, heq⟩ := hsession addr sessionId session hget
    exact hi.request addr sessionId old x hold (heq ▸ hreq)
  handed h hh := hasked ▸ hhanded h hh

/-- A message is sent that is fine and whose request is open, or by a session that asks now. -/
theorem send (hi : c.Sound handlers) {proxy : ℕ} {asked : List Origin} (hsub : c.asked ⊆ asked)
    (hfine : x.Fine handlers)
    (horigin : ∀ o, x.origin = some o → o ∈ asked ∧ o.age = c.age (o.addr, o.sessionId)) :
    ({ c with up := c.up ++ [(proxy, x)], asked } : Cluster).Sound handlers := by
  have hcarries : ∀ y, ({ c with up := c.up ++ [(proxy, x)], asked } : Cluster).Carries y →
      c.Carries y ∨ y = x := by
    intro y hy
    obtain ⟨p, h⟩ | ⟨addr, h⟩ | ⟨addr, sessionId, session, h, hreq, hopen⟩ := hy
    · obtain h | h := List.mem_append.mp h
      · exact .inl (.up p h)
      · exact .inr (Prod.mk.inj (List.mem_singleton.mp h)).2
    · exact .inl (.down addr h)
    · exact .inl (.session addr sessionId session h hreq hopen)
  refine ⟨fun y hy => ?_, fun y o hy ho => ?_, ?_, hi.age, hi.request, fun h hh => ?_⟩
  · obtain hy | rfl := hcarries y hy
    · exact hi.fine y hy
    · exact hfine
  · obtain hy | rfl := hcarries y hy
    · exact hsub (hi.asked y o hy ho)
    · exact (horigin o ho).1
  · rintro q ⟨y, o, hy, ho, rfl⟩
    obtain hy | rfl := hcarries y hy
    · exact hi.current _ (Cluster.mem_pending hy ho)
    · exact (horigin o ho).2
  · obtain ⟨o, ho, hright⟩ := hi.handed h hh
    exact ⟨o, hsub ho, hright⟩

/-- A session is created under an id that no open request has. -/
theorem createSession (hi : c.Sound handlers) {ssRequest : Option Sent}
    (hspares : c.SparesNext addr)
    (hreq : ∀ x, ssRequest = some x → c.Carries x ∧ x.IsRequestAt handlers addr)
    (h : c.createSession addr ssRequest = some c') : c'.Sound handlers := by
  obtain rfl | ⟨sessionId, hnext, hget, hage⟩ := createSession_spec h
  · exact hi
  have hframe := createSession_eq h
  have hcarries : ∀ y, c'.Carries y → c.Carries y := by
    intro y hy
    obtain ⟨p, h⟩ | ⟨a, h⟩ | ⟨a, k, session, h, hy, hopen⟩ := hy
    · rw [hframe] at h
      exact .up p h
    · rw [hframe] at h
      exact .down a h
    · rw [hget] at h
      split_ifs at h with heq
      · cases h
        exact (hreq y hy).1
      · exact .session a k session h hy hopen
  have hasked : c'.asked = c.asked := by rw [hframe]
  refine ⟨fun y hy => hi.fine y (hcarries y hy), fun y o hy ho => ?_, ?_, fun a k session h => ?_,
    fun a k session y h hy => ?_, fun h hh => ?_⟩
  · rw [hasked]
    exact hi.asked y o (hcarries y hy) ho
  · rw [hage]
    exact (hi.current.take_iff.mpr (hspares sessionId hnext)).mono
      (Cluster.pending_subset hcarries)
  · rw [hget] at h
    rw [hage]
    split_ifs at h with heq
    · cases h
      rw [heq, Function.update_self]
    · rw [Function.update_of_ne heq]
      exact hi.age a k session h
  · rw [hget] at h
    split_ifs at h with heq
    · cases h
      obtain ⟨rfl, rfl⟩ := Prod.mk.inj heq
      exact (hreq y hy).2
    · exact hi.request a k session y h hy
  · rw [hasked]
    rw [hframe] at hh
    exact hi.handed h hh

/-- A message for which a server has no handler is a response, and it finds the session that asked.
-/
theorem handed_right (hi : c.Sound handlers)
    (hrouted : x.message.proxyHead.getTransferType = .byId →
      addr.serverId = x.message.proxyHead.getDstServerId)
    (hx : c.Carries x) (htype : x.message.proxyHead.getDstServerType = addr.serverType)
    {msgType : ENSSType} (hmsg : x.message.msgType = some msgType)
    (hrequest : ¬(handlers addr.serverType).isRequest msgType = true) {session : Session}
    (hget : (c.nodes addr).getSession x.message.proxyHead.getSessionId = some session) :
    (⟨addr, x.message.proxyHead.getSessionId, session.age, x⟩ : Handed).Right handlers
      c.asked := by
  have hfine := hi.fine x hx
  have hcurrent := hi.current
  have hasked := hi.asked x
  obtain @⟨m, msgType', hmsg', hnone⟩ | ⟨hasks⟩ | @⟨o, m, hanswers⟩ := hfine
  · -- a notice has a handler
    obtain rfl : msgType = msgType' := Option.some.inj (hmsg.symm.trans hmsg')
    rw [← htype] at hrequest
    exact absurd (by rw [HandlerManager.isRequest, hnone]; rfl) hrequest
  · -- and so has a request
    obtain ⟨msgType', hmsg', hhandled⟩ := hasks.handled
    obtain rfl : msgType = msgType' := Option.some.inj (hmsg.symm.trans hmsg')
    rw [← htype] at hrequest
    exact absurd hhandled hrequest
  · obtain ⟨t, id⟩ := addr
    obtain ⟨⟨t', id'⟩, sessionId, age, request⟩ := o
    obtain rfl : t' = t := hanswers.dstServerType.symm.trans htype
    obtain rfl : id' = id := hanswers.dstServerId.symm.trans (hrouted hanswers.transferType).symm
    obtain rfl : m.proxyHead.getSessionId = sessionId := hanswers.sessionId
    refine ⟨_, hasked _ hx rfl, rfl, Prod.ext rfl ?_, hanswers⟩
    exact (hcurrent.holder (Cluster.mem_pending hx rfl)).trans (hi.age _ _ _ hget).symm

/-- `OnConnectionMessage` keeps the invariant, for a message that is still counted as on its way. -/
theorem onConnectionMessage (hi : c.Sound handlers) {down : List (ServerAddr × Sent)}
    (hdown : down ⊆ c.down) (hspares : x.IsRequestAt handlers addr → c.SparesNext addr)
    (hx : c.Carries x)
    (hrouted : x.message.proxyHead.getTransferType = .byId →
      addr.serverId = x.message.proxyHead.getDstServerId)
    (h : ({ c with down } : Cluster).onConnectionMessage handlers addr x = some c') :
    c'.Sound handlers := by
  have hless : ∀ {c₁ : Cluster} (served : List (ServerAddr × Sent)), c₁.Sound handlers →
      down ⊆ c₁.down → ({ c₁ with down, served } : Cluster).Sound handlers := by
    intro c₁ served hi₁ hdown₁
    exact hi₁.mono (fun y hy => hy.mono (List.Subset.refl _) hdown₁ fun _ _ _ h => h) rfl rfl
      (fun _ _ s h => ⟨s, h, rfl, rfl⟩) hi₁.handed
  rw [Cluster.onConnectionMessage] at h
  cases hmsg : x.message.msgType with
  | none =>
    rw [hmsg] at h
    cases h
    exact hless _ hi hdown
  | some msgType =>
    simp only [hmsg] at h
    split_ifs at h with htype hrequest
    · cases h
      exact hless _ hi hdown
    · -- the session is created while the message still counts, and then it does not
      have htype := not_not.mp htype
      have hsame := createSession_eq h
      have hat : x.IsRequestAt handlers addr := ⟨htype, msgType, hmsg, hrequest⟩
      have hcreated := hi.createSession (hspares hat) (fun y hy => Option.some.inj hy ▸ ⟨hx, hat⟩)
        (createSession_frame h)
      have hfewer := hless c'.served hcreated hdown
      rw [hsame] at hfewer ⊢
      exact hfewer
    · have hfewer := hless c.served hi hdown
      cases hget : (c.nodes addr).getSession x.message.proxyHead.getSessionId with
      | none =>
        rw [hget] at h
        cases h
        exact hfewer
      | some session =>
        rw [hget] at h
        cases h
        refine hfewer.mono
          (fun y hy => hy.mono (List.Subset.refl _) (List.Subset.refl _) fun _ _ _ h => h) rfl rfl
          (fun _ _ s h => ⟨s, h, rfl, rfl⟩) fun h hh => ?_
        obtain hh | hh := List.mem_append.mp hh
        · exact hi.handed h hh
        · rw [List.mem_singleton.mp hh]
          exact hi.handed_right hrouted hx (not_not.mp htype) hmsg hrequest hget

/-- The response that the session for a request sends. -/
theorem answers_transferResponse (hresponses : ResponsesUnhandled handlers)
    (hfine : x.Fine handlers) (hrequest : x.IsRequestAt handlers addr) {rspType : ENSSType}
    (hrsp : x.message.msgType.bind (handlers addr.serverType).ssRspType = some rspType)
    (content : String) :
    Sent.Fine handlers
      ⟨transferResponse addr x.message { msgType := some rspType, content }, x.origin⟩ := by
  obtain ⟨hdst, msgType, hmsg, hhandled⟩ := hrequest
  rw [hmsg, Option.bind_some, HandlerManager.ssRspType] at hrsp
  obtain @⟨m, msgType', hmsg', hnone⟩ | ⟨hasks⟩ | @⟨o, m, hanswers⟩ := hfine
  · obtain rfl : msgType = msgType' := Option.some.inj (hmsg.symm.trans hmsg')
    rw [← hdst, hnone] at hrsp
    cases hrsp
  · refine .response ⟨rfl, hasks.srcServerType, hasks.srcServerId, hasks.sessionId, hdst.symm,
      msgType, rspType, hmsg, ?_, rfl⟩
    rw [hdst]
    exact Option.join_eq_some_iff.mp hrsp
  · obtain ⟨asked, rspType', -, hhandler, hmsg'⟩ := hanswers.msgType
    obtain rfl : msgType = rspType' := Option.some.inj (hmsg.symm.trans hmsg')
    rw [HandlerManager.isRequest, hresponses _ _ _ hhandler] at hhandled
    cases hhandled

/-- `SendResponse` keeps the invariant. -/
theorem sendResponse (hi : c.Sound handlers) (hresponses : ResponsesUnhandled handlers)
    {proxy : ℕ} {sessionId : UInt32} {content : String}
    (h : c.sendResponse handlers proxy addr sessionId content = some c') : c'.Sound handlers := by
  obtain ⟨session, hget, rfl⟩ := Option.map_eq_some_iff.mp h
  split_ifs with hsent
  · exact hi
  cases hreq : session.ssRequest with
  | none => exact hi
  | some x =>
    have hx : c.Carries x :=
      .session addr sessionId session hget hreq (Bool.eq_false_iff.mpr hsent)
    dsimp only
    cases hrsp : x.message.msgType.bind (handlers addr.serverType).ssRspType with
    | none => exact hi
    | some rspType =>
      have hfine := answers_transferResponse hresponses (hi.fine x hx)
        (hi.request addr sessionId session x hget hreq) hrsp content
      refine Cluster.Sound.send (c := { c with
        nodes := Function.update c.nodes addr ((c.nodes addr).modify sessionId
          fun session => { session with isSendRsp := true }) }) ?_ (List.Subset.refl _) hfine
        fun o ho => ⟨hi.asked x o hx ho, hi.current _ (Cluster.mem_pending hx ho)⟩
      have hsession : ∀ a k s, (Function.update c.nodes addr ((c.nodes addr).modify sessionId
          fun session => { session with isSendRsp := true }) a).getSession k = some s →
          ∃ old, (c.nodes a).getSession k = some old ∧ old.age = s.age ∧
            old.ssRequest = s.ssRequest ∧ (s.isSendRsp = false → old.isSendRsp = false) := by
        intro a k s hs
        obtain rfl | ha := eq_or_ne a addr
        · rw [Function.update_self, Node.getSession_modify] at hs
          split_ifs at hs with hk
          · obtain ⟨old, hold, rfl⟩ := Option.map_eq_some_iff.mp hs
            exact ⟨old, hk ▸ hold, rfl, rfl, fun h => absurd h (by simp)⟩
          · exact ⟨s, hs, rfl, rfl, id⟩
        · rw [Function.update_of_ne ha] at hs
          exact ⟨s, hs, rfl, rfl, id⟩
      refine hi.mono (fun y hy => ?_) rfl rfl (fun a k s hs => ?_) hi.handed
      obtain ⟨p, h⟩ | ⟨a, h⟩ | ⟨a, k, s, h, hy, hopen⟩ := hy
      · exact .up p h
      · exact .down a h
      · obtain ⟨old, hold, -, heq, hbefore⟩ := hsession a k s h
        exact .session a k old hold (heq.trans hy) (hbefore hopen)
      · obtain ⟨old, hold, hage, heq, -⟩ := hsession a k s hs
        exact ⟨old, hold, hage, heq⟩

/-- **Every orderly event keeps the invariant.** -/
theorem step (hi : c.Sound handlers) (hresponses : ResponsesUnhandled handlers)
    {counts : ℕ → ENServerType → ℕ} (hrouted : c.Routed counts) {e : Event}
    (horderly : e.Orderly handlers c) (hstep : ServerNet.step handlers e c = some c') :
    c'.Sound handlers := by
  have hsame : ∀ addr sessionId session, (c.nodes addr).getSession sessionId = some session →
      ∃ old, (c.nodes addr).getSession sessionId = some old ∧ old.age = session.age ∧
        old.ssRequest = session.ssRequest := fun _ _ s h => ⟨s, h, rfl, rfl⟩
  have hproxy : ∀ proxies peer, ({ c with proxies, peer } : Cluster).Sound handlers := by
    intro proxies peer
    exact hi.mono (fun y hy => hy.mono (List.Subset.refl _) (List.Subset.refl _) fun _ _ _ h => h)
      rfl rfl hsame hi.handed
  cases e with
  | accept proxy sockfd addr =>
    rw [ServerNet.step] at hstep
    split_ifs at hstep
    cases hstep
    exact hproxy _ _
  | register proxy sockfd =>
    obtain ⟨⟨⟨⟩, s⟩, -, rfl⟩ := Option.map_eq_some_iff.mp hstep
    exact hproxy _ _
  | close proxy sockfd =>
    cases hstep
    exact hproxy _ _
  | transfer i calls =>
    obtain ⟨⟨proxy, x⟩, hget, hstep⟩ := Option.bind_eq_some_iff.mp hstep
    obtain ⟨-, hstep⟩ := Option.ite_none_left_eq_some.mp hstep
    obtain ⟨⟨⟨⟩, s⟩, -, rfl⟩ := Option.map_eq_some_iff.mp hstep
    refine hi.mono (fun y hy => ?_) rfl rfl hsame hi.handed
    obtain ⟨p, h⟩ | ⟨a, h⟩ | ⟨a, k, s, h, hy, hopen⟩ := hy
    · exact .up p (List.mem_of_mem_eraseIdx h)
    · obtain h | h := List.mem_append.mp h
      · exact .down a h
      · obtain ⟨t, -, heq⟩ := List.mem_map.mp h
        obtain rfl : x = y := (Prod.mk.inj heq).2
        exact .up proxy (List.mem_of_getElem? hget)
    · exact .session a k s h hy hopen
  | loseUp i =>
    cases hstep
    exact hi.mono (fun y hy => hy.mono (List.eraseIdx_sublist _ _).subset (List.Subset.refl _)
      fun _ _ _ h => h) rfl rfl hsame hi.handed
  | deliver i =>
    obtain ⟨⟨addr, x⟩, hget, hstep⟩ := Option.bind_eq_some_iff.mp hstep
    have hmem := List.mem_of_getElem? hget
    exact hi.onConnectionMessage (List.eraseIdx_sublist _ _).subset (horderly _ hget)
      (.down addr hmem) (hrouted.down _ hmem).byId hstep
  | loseDown i =>
    cases hstep
    exact hi.mono (fun y hy => hy.mono (List.Subset.refl _) (List.eraseIdx_sublist _ _).subset
      fun _ _ _ h => h) rfl rfl hsame hi.handed
  | createSession addr =>
    exact hi.createSession horderly (fun y hy => absurd hy (by simp)) hstep
  | request proxy addr sessionId mode serverType msgType content =>
    obtain ⟨session, hget, rfl⟩ := Option.map_eq_some_iff.mp hstep
    refine hi.send (List.subset_append_left _ _)
      (.request (o := ⟨addr, sessionId, session.age, _⟩) ?_) fun o ho => ?_
    · rcases mode <;> exact ⟨⟨msgType, rfl, horderly⟩, rfl, rfl, rfl⟩
    · obtain rfl := Option.some.inj ho
      exact ⟨List.mem_append_right _ (List.mem_singleton.mpr rfl), hi.age _ _ _ hget⟩
  | notify proxy addr mode serverType msgType content =>
    cases hstep
    refine hi.send (List.Subset.refl _) ?_ fun o ho => absurd ho (by simp)
    rcases mode <;> exact .notice rfl horderly
  | sendResponse proxy addr sessionId content => exact hi.sendResponse hresponses hstep
  | releaseSession addr sessionId =>
    cases hstep
    have hsession : ∀ a k s, (Function.update c.nodes addr
        ((c.nodes addr).releaseSession sessionId) a).getSession k = some s →
        (c.nodes a).getSession k = some s := by
      intro a k s hs
      obtain rfl | ha := eq_or_ne a addr
      · rw [Function.update_self, Node.getSession_releaseSession] at hs
        split_ifs at hs
        exact hs
      · rwa [Function.update_of_ne ha] at hs
    exact hi.mono (fun y hy => hy.mono (List.Subset.refl _) (List.Subset.refl _) hsession) rfl rfl
      (fun a k s h => ⟨s, hsession a k s h, rfl, rfl⟩) hi.handed

theorem initial (configs : ℕ → List ServerConfig) (maxSize : ServerAddr → ℕ)
    (peer : ℕ → ℕ → ServerAddr) : (Cluster.initial configs maxSize peer).Sound handlers := by
  have hnone : ∀ x, ¬(Cluster.initial configs maxSize peer).Carries x := by
    rintro x (⟨p, h⟩ | ⟨a, h⟩ | ⟨a, k, s, h, -, -⟩) <;> cases h
  refine ⟨fun x hx => absurd hx (hnone x), fun x o hx => absurd hx (hnone x), ?_, ?_, ?_, ?_⟩
  · rintro q ⟨x, o, hx, -⟩
    exact absurd hx (hnone x)
  · intro addr sessionId session h
    cases h
  · intro addr sessionId session x h
    cases h
  · intro h hh
    cases hh

end Cluster.Sound

/-- **A response is given to the session that asked**, to this very session and no later one with
its id, in every run in which no session gets the id of an open request. -/
theorem responses_reach_their_sessions {configs : ℕ → List ServerConfig}
    {maxSize : ServerAddr → ℕ} {peer : ℕ → ℕ → ServerAddr} {events : List Event}
    (hresponses : ResponsesUnhandled handlers)
    (horderly : GuardedSteps (step handlers) (Event.Orderly handlers) events
      (.initial configs maxSize peer))
    (hrun : runSteps (step handlers) events (.initial configs maxSize peer) = some c) :
    ∀ h ∈ c.handed, h.Right handlers c.asked := by
  have hsound : c.Routed (slotCounts configs) ∧ c.Sound handlers :=
    (reachable_of_runSteps horderly hrun).invariant
      (I := fun c => c.Routed (slotCounts configs) ∧ c.Sound handlers)
      ⟨.initial _ _ _, .initial _ _ _⟩
      fun _ _ _ hg hi hstep => ⟨hi.1.step hstep, hi.2.step hresponses hi.1 hg hstep⟩
  exact hsound.2.handed

/-- The id that the next session of a server gets is one under which no request was ever sent. -/
def Cluster.unaskedNext (addr : ServerAddr) (c : Cluster) : Bool :=
  c.asked.all fun o =>
    o.addr ≠ addr || (c.nodes addr).nextId.map Prod.fst ≠ some o.sessionId

/-- A condition on the events that can be computed. -/
def Event.isUnasked (handlers : ENServerType → HandlerManager) : Event → Cluster → Bool
  | .deliver i, c => c.down[i]?.all fun e => c.unaskedNext e.1
  | .createSession addr, c => c.unaskedNext addr
  | .request _ _ _ _ serverType msgType _, _ => (handlers serverType).isRequest msgType
  | .notify _ _ _ serverType msgType _, _ => handlers serverType msgType = some none
  | _, _ => true

theorem Cluster.Sound.sparesNext (hi : c.Sound handlers) (h : c.unaskedNext addr = true) :
    c.SparesNext addr := by
  rintro sessionId hnext q ⟨x, o, hx, ho, rfl⟩ heq
  have hall := List.all_eq_true.mp h o (hi.asked x o hx ho)
  obtain ⟨rfl, rfl⟩ := Prod.mk.inj heq
  simp [hnext] at hall

/-- Ids under which no request was ever sent can be taken. -/
theorem Cluster.Sound.orderly (hi : c.Sound handlers) {e : Event}
    (h : e.isUnasked handlers c = true) : e.Orderly handlers c := by
  cases e with
  | deliver i =>
    intro e he _
    rw [Event.isUnasked, he] at h
    exact hi.sparesNext h
  | createSession addr => exact hi.sparesNext h
  | request _ _ _ _ serverType msgType _ => exact h
  | notify _ _ _ serverType msgType _ =>
    exact of_decide_eq_true (p := handlers serverType msgType = some none) h
  | _ => trivial

theorem guardedSteps_orderly {configs : ℕ → List ServerConfig} {maxSize : ServerAddr → ℕ}
    {peer : ℕ → ℕ → ServerAddr} {events : List Event} (hresponses : ResponsesUnhandled handlers)
    (h : GuardedSteps (step handlers) (fun e c => e.isUnasked handlers c = true) events
      (.initial configs maxSize peer)) :
    GuardedSteps (step handlers) (Event.Orderly handlers) events
      (.initial configs maxSize peer) :=
  h.of_invariant (I := fun c : Cluster => c.Routed (slotCounts configs) ∧ c.Sound handlers)
    (fun _ _ _ hg hi hstep =>
      ⟨hi.1.step hstep, hi.2.step hresponses hi.1 (hi.2.orderly hg) hstep⟩)
    (fun _ _ hg hi => hi.2.orderly hg) ⟨.initial _ _ _, .initial _ _ _⟩

/-- A game server asks the data server and gets the response. -/
def askAndAnswer : List Event :=
  [.accept 0 3 dataServer₁, .register 0 3, .accept 0 4 gameServer₁, .register 0 4,
    .createSession gameServer₁,
    .request 0 gameServer₁ 1 (.byHash 7) .dataServer .queryDataReq "",
    .transfer 0 ⟨0, 0, 0⟩, .deliver 0, .sendResponse 0 dataServer₁ 1 "",
    .transfer 0 ⟨0, 0, 0⟩, .deliver 0]

theorem responses_reach_their_sessions_askAndAnswer :
    ∃ c, runSteps (step serverHandlers) askAndAnswer smallCluster = some c ∧
      c.handed.length = 1 ∧ ∀ h ∈ c.handed, h.Right serverHandlers c.asked := by
  have horderly := guardedSteps_orderly responsesUnhandled_serverHandlers
    (show GuardedSteps (step serverHandlers) (fun e c => e.isUnasked serverHandlers c = true)
      askAndAnswer smallCluster by decide)
  have hhanded : (runSteps (step serverHandlers) askAndAnswer smallCluster).map
    (fun c => c.handed.length) = some 1 := rfl
  obtain ⟨c, hrun, hlen⟩ := Option.map_eq_some_iff.mp hhanded
  exact ⟨c, hrun, hlen,
    responses_reach_their_sessions responsesUnhandled_serverHandlers horderly hrun⟩

end Sound

end Lsf.ServerNet
