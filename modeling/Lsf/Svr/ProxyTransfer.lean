import Lsf.Foundations.Ensures
import Mathlib.Algebra.Group.Nat.Defs
import Mathlib.Data.Nat.Notation
import Mathlib.Logic.Function.Basic
import Mathlib.Order.Lattice
import Mathlib.Order.Nat

/-!
# The proxy server

The proxy server passes messages on between the other servers. `_sock_map` holds, for every server
type, a list with one slot for every server id of the configuration; a server registers the socket
of its connection in its slot, and a message says in its proxy head by which rule the proxy chooses
the slots that it is sent to.

A program ends in none where the source divides by zero, reads a vector outside its size, or does
not come to an end. A socket is known by its descriptor, which stays open while a slot holds the
socket.

## Main definitions

* `Random.getRand` — the offset at which the random modes start
* `initSocketMapFromServerConfig`, `handleRegisterRequest`, `handleMessageTransfer`,
  `transferMessageByTypeAndId` — the source's functions

## Main results

* `ensures_transferMessageByTypeAndId` — what one transfer does
* `ensures_forLoop`, `forLoop_endless` — the rules for the loops with a 32-bit counter
-/

namespace Lsf.Proxy

/-! ### Records -/

/-- `ENServerType`. -/
inductive ENServerType
  | configCenter
  | proxyServer
  | connServer
  | dataServer
  | gameServer
  | httpServer
  | testServer
  deriving DecidableEq, Repr

/-- The number of an enumerator, by which `_sock_map` is indexed. -/
def ENServerType.number : ENServerType → ℕ
  | .configCenter => 1
  | .proxyServer => 2
  | .connServer => 3
  | .dataServer => 4
  | .gameServer => 5
  | .httpServer => 6
  | .testServer => 7

/-- `ENProxyTransferType`. -/
inductive ENProxyTransferType
  | byId
  | byHash
  | byBroadcast
  | byRandom
  | byRandomExceptId
  deriving DecidableEq, Repr

/-- `msg::ProxyHead`, without what only the log and the receivers read. -/
structure ProxyHead where
  transferType : Option ENProxyTransferType := none
  dstServerType : Option ENServerType := none
  dstServerId : Option UInt32 := none
  dstHashId : Option UInt64 := none
  dstExceptId : Option UInt32 := none

namespace ProxyHead

/-- `transfer_type()`. -/
def getTransferType (head : ProxyHead) : ENProxyTransferType := head.transferType.getD .byId

/-- `dst_server_type()`. -/
def getDstServerType (head : ProxyHead) : ENServerType := head.dstServerType.getD .configCenter

/-- `dst_server_id()`. -/
def getDstServerId (head : ProxyHead) : UInt32 := head.dstServerId.getD 0

/-- `dst_hash_id()`. -/
def getDstHashId (head : ProxyHead) : UInt64 := head.dstHashId.getD 0

/-- `dst_except_id()`. -/
def getDstExceptId (head : ProxyHead) : UInt32 := head.dstExceptId.getD 0

end ProxyHead

/-- The server types of the configuration with the ids of their servers. -/
structure ServerConfig where
  serverType : ENServerType
  serverId : UInt32

/-- A message that was handed to the socket in a slot. -/
structure Transfer where
  serverType : ℕ
  serverId : ℕ
  sockfd : ℕ
  message : String
  deriving DecidableEq, Repr

/-- `AcceptServerMsgTransferService`, with what the event loop knows of the sockets. -/
structure AcceptServerMsgTransferService where
  sockMap : List (List (Option ℕ))
  /-- `_is_connect` of the socket that holds a descriptor. -/
  isConnect : ℕ → Bool
  /-- Whether there is a registration with completion functions for a descriptor. -/
  registered : ℕ → Bool
  /-- What was handed to the sockets, in this order. -/
  sent : List Transfer

/-- A program of the service. -/
abbrev Prog (α : Type) := StateT AcceptServerMsgTransferService Option α

/-! ### What can go wrong -/

/-- `a % b`. -/
def remainder (a b : ℕ) : Prog ℕ := fun s => if b = 0 then none else some (a % b, s)

/-- `vec[i]`. -/
def elementAt {β : Type} (vec : List β) (i : ℕ) : Prog β := fun s => vec[i]?.map fun x => (x, s)

/-- A loop that does not come to an end. -/
def stuck {β : Type} : Prog β := fun _ => none

/-- `for (uint32_t i = …; i < size; ++i)`, where a `body` that answers true breaks. The answer says
whether it did. -/
def forLoop (size : ℕ) (body : UInt32 → Prog Bool) : ℕ → UInt32 → Prog Bool
  | 0, _ => stuck
  | rounds + 1, i =>
    if i.toNat < size then do
      if (← body i) then return true
      else forLoop size body rounds (i + 1)
    else return false

/-! ### Random -/

namespace Random

/-- What the calls of `rand()` in one `GetRand` return. The seed and when it is set anew only
determine these. -/
structure Calls where
  first : Int32
  second : Int32
  third : Int32

/-- `rand() & 0xfff`. -/
def low (call : Int32) : Int32 := call &&& 0xfff

/-- The random bits for a range of `off` numbers. -/
def random (calls : Calls) (off : UInt32) : UInt64 :=
  if off < 0xfff then calls.first.toInt64.toUInt64
  else if off < 0xfffff then (low calls.first ||| (low calls.second <<< 24)).toInt64.toUInt64
  else (low calls.first ||| (low calls.second <<< 24)).toInt64.toUInt64 |||
    ((low calls.third).toInt64.toUInt64 <<< 48)

/-- `GetRand(start, end)`. -/
def getRand (calls : Calls) (start last : UInt32) : Prog UInt32 :=
  if last ≤ start then return start
  else do
    let off := last - start + 1
    let offset ← remainder (random calls off).toNat off.toNat
    return UInt32.ofNat (start.toNat + offset)

end Random

/-! ### The service -/

/-- The rounds of `while (n >= vec.size()) vec.push_back(val)`. -/
def growTo {β : Type} (n : ℕ) (val : β) (vec : List β) : List β :=
  vec ++ List.replicate (n + 1 - vec.length) val

/-- `InitSocketMapFromServerConfig`, for the servers that the configuration service returned. -/
def initSocketMapFromServerConfig (configs : List ServerConfig) : List (List (Option ℕ)) :=
  configs.foldl (fun sockMap conf =>
    (growTo conf.serverType.number [] sockMap).modify conf.serverType.number
      (growTo conf.serverId.toNat none)) []

/-- `ConnectionSend`: the socket is connected, and what `Send` answers is not looked at. -/
def connectionSend (transfer : Transfer) : Prog Unit :=
  modify fun s => { s with sent := s.sent ++ [transfer] }

/-- The transfer to the server of a type with an id. -/
def transferMessageByTypeAndId (serverType : ENServerType) (serverId : UInt32) (message : String) :
    Prog Bool := do
  let s ← get
  if serverType.number ≥ s.sockMap.length then return false
  else
    let sockList ← elementAt s.sockMap serverType.number
    if serverId.toNat ≥ sockList.length then return false
    else
      match ← elementAt sockList serverId.toNat with
      | none => return false
      | some sockfd =>
        if !s.isConnect sockfd then return false
        else
          connectionSend ⟨serverType.number, serverId.toNat, sockfd, message⟩
          return true

/-- The body of the loop of a broadcast. -/
def sendIndex (serverType : ENServerType) (sockList : List (Option ℕ)) (message : String)
    (i : UInt32) : Prog Bool := do
  if (← elementAt sockList i.toNat).isSome then
    let _ ← transferMessageByTypeAndId serverType i message
  return false

/-- The body of the loops of the random modes, for the slots that `skip` does not leave out. -/
def tryIndex (serverType : ENServerType) (sockList : List (Option ℕ)) (message : String)
    (skip : ℕ → Bool) (rand i : UInt32) : Prog Bool := do
  let index ← remainder (i + rand).toNat sockList.length
  if (← elementAt sockList index).isSome && !skip index then
    let _ ← transferMessageByTypeAndId serverType (UInt32.ofNat index) message
    return true
  else return false

/-- `HandleMessageTransfer`, for the proxy head of the request if it has one. -/
def handleMessageTransfer (calls : Random.Calls) (proxyHead : Option ProxyHead)
    (message : String) : Prog Unit := do
  match proxyHead with
  | none => return ()
  | some head =>
    let serverType := head.getDstServerType
    let s ← get
    if serverType.number ≥ s.sockMap.length then return ()
    else
      let sockList ← elementAt s.sockMap serverType.number
      match head.getTransferType with
      | .byId => do
        let _ ← transferMessageByTypeAndId serverType head.getDstServerId message
      -- calc server id by hash, and send
      | .byHash =>
        if sockList.isEmpty then return ()
        else
          let serverId ← remainder head.getDstHashId.toNat sockList.length
          let _ ← transferMessageByTypeAndId serverType (UInt32.ofNat serverId) message
      -- travers all socket in same type, and send
      | .byBroadcast => do
        let _ ← forLoop sockList.length (sendIndex serverType sockList message)
          (sockList.length + 1) 0
      -- random get a usable socket, and send
      | .byRandom => do
        let rand ← Random.getRand calls 0 (UInt32.ofNat sockList.length - 1)
        let _ ← forLoop sockList.length
          (tryIndex serverType sockList message (fun _ => false) rand) (sockList.length + 1) 0
      | .byRandomExceptId => do
        let exceptId := head.getDstExceptId
        let rand ← Random.getRand calls 0 (UInt32.ofNat sockList.length - 1)
        let bsend ← forLoop sockList.length
          (tryIndex serverType sockList message (fun index => index = exceptId.toNat) rand)
          (sockList.length + 1) 0
        if bsend then return ()
        else
          if (← elementAt sockList exceptId.toNat).isSome then
            let _ ← transferMessageByTypeAndId serverType exceptId message

/-- `ConnectionClose`. The service does nothing in `OnConnectionClose`. -/
def connectionClose (sockfd : ℕ) : Prog Unit :=
  modify fun s => { s with
    registered := Function.update s.registered sockfd false
    isConnect := Function.update s.isConnect sockfd false }

/-- `HandleRegisterRequest`. -/
def handleRegisterRequest (sockfd : ℕ) (serverType : ENServerType) (serverId : UInt32) :
    Prog Unit := do
  let s ← get
  if serverType.number ≥ s.sockMap.length then return ()
  else
    let sockList ← elementAt s.sockMap serverType.number
    if serverId.toNat ≥ sockList.length then return ()
    else
      -- if connection already exist, disconn first
      match ← elementAt sockList serverId.toNat with
      | none => pure ()
      | some mapSockfd => if s.isConnect mapSockfd then connectionClose mapSockfd else pure ()
      modify fun s => { s with
        sockMap := s.sockMap.modify serverType.number (·.set serverId.toNat (some sockfd)) }

/-! ### Execution -/

namespace AcceptServerMsgTransferService

variable (s : AcceptServerMsgTransferService)

/-- The socket in a slot. -/
def slot (serverType : ENServerType) (serverId : ℕ) : Option ℕ :=
  (s.sockMap[serverType.number]?.bind fun sockList => sockList[serverId]?).join

/-- What is handed over when a message is sent to a slot: nothing unless its socket is connected. -/
def transfers (serverType : ENServerType) (serverId : ℕ) (message : String) : List Transfer :=
  match s.slot serverType serverId with
  | none => []
  | some sockfd =>
    if s.isConnect sockfd then [⟨serverType.number, serverId, sockfd, message⟩] else []

/-- The state after these messages were handed over. -/
def handOver (transfers : List Transfer) : AcceptServerMsgTransferService :=
  { s with sent := s.sent ++ transfers }

@[simp] theorem handOver_nil : s.handOver [] = s := by
  rw [handOver, List.append_nil]

@[simp] theorem handOver_handOver (ts us : List Transfer) :
    (s.handOver ts).handOver us = s.handOver (ts ++ us) := by
  rw [handOver, handOver, handOver, List.append_assoc]

@[simp] theorem sockMap_handOver (ts : List Transfer) : (s.handOver ts).sockMap = s.sockMap := rfl

@[simp] theorem transfers_handOver (ts : List Transfer) (serverType : ENServerType) (serverId : ℕ)
    (message : String) : (s.handOver ts).transfers serverType serverId message =
      s.transfers serverType serverId message := rfl

variable {s}

theorem slot_eq {serverType : ENServerType} {sockList : List (Option ℕ)}
    (h : s.sockMap[serverType.number]? = some sockList) (serverId : ℕ) :
    s.slot serverType serverId = sockList[serverId]?.join := by
  rw [slot, h, Option.bind_some]

end AcceptServerMsgTransferService

section Execution

variable {s : AcceptServerMsgTransferService}

theorem ensures_elementAt {β : Type} {vec : List β} {i : ℕ} (hi : i < vec.length)
    {Q : β → AcceptServerMsgTransferService → Prop} :
    Ensures (elementAt vec i) s Q ↔ Q vec[i] s := by
  have hrun : (elementAt vec i).run s = some (vec[i], s) := by
    show vec[i]?.map _ = _
    rw [List.getElem?_eq_getElem hi, Option.map_some]
  exact Ensures.iff_of_run hrun

theorem not_ensures_elementAt {β : Type} {vec : List β} {i : ℕ} (hi : ¬ i < vec.length)
    {Q : β → AcceptServerMsgTransferService → Prop} : ¬ Ensures (elementAt vec i) s Q := by
  rintro ⟨x, s', hrun, -⟩
  have hnone : (elementAt vec i).run s = none := by
    show vec[i]?.map _ = _
    rw [List.getElem?_eq_none (not_lt.mp hi), Option.map_none]
  rw [hnone] at hrun
  cases hrun

theorem ensures_remainder {a b : ℕ} {Q : ℕ → AcceptServerMsgTransferService → Prop} :
    Ensures (remainder a b) s Q ↔ b ≠ 0 ∧ Q (a % b) s := by
  by_cases hb : b = 0
  · refine iff_of_false ?_ fun h => h.1 hb
    rintro ⟨r, s', hrun, -⟩
    rw [show (remainder a b).run s = none from if_pos hb] at hrun
    cases hrun
  · rw [Ensures.iff_of_run (show (remainder a b).run s = some (a % b, s) from if_neg hb)]
    exact (and_iff_right hb).symm

/-- **A message is handed to the socket in a slot exactly if there is one and it is connected.** -/
theorem ensures_transferMessageByTypeAndId {serverType : ENServerType} {serverId : UInt32}
    {message : String} {Q : Bool → AcceptServerMsgTransferService → Prop} :
    Ensures (transferMessageByTypeAndId serverType serverId message) s Q ↔
      Q (!(s.transfers serverType serverId.toNat message).isEmpty)
        (s.handOver (s.transfers serverType serverId.toNat message)) := by
  rw [transferMessageByTypeAndId, ensures_bind, ensures_get]
  by_cases htype : serverType.number ≥ s.sockMap.length
  · have hslot : s.slot serverType serverId.toNat = none := by
      rw [AcceptServerMsgTransferService.slot, List.getElem?_eq_none htype]
      rfl
    rw [if_pos htype, ensures_pure, AcceptServerMsgTransferService.transfers, hslot]
    simp
  have hlist := List.getElem?_eq_getElem (not_le.mp htype)
  have hslot := AcceptServerMsgTransferService.slot_eq hlist serverId.toNat
  rw [if_neg htype, ensures_bind, ensures_elementAt (not_le.mp htype)]
  generalize s.sockMap[serverType.number] = sockList at hslot
  by_cases hid : serverId.toNat ≥ sockList.length
  · rw [List.getElem?_eq_none hid] at hslot
    rw [if_pos hid, ensures_pure, AcceptServerMsgTransferService.transfers, hslot]
    simp
  have hlt : serverId.toNat < sockList.length := not_le.mp hid
  rw [List.getElem?_eq_getElem hlt] at hslot
  rw [if_neg hid, ensures_bind, ensures_elementAt hlt,
    AcceptServerMsgTransferService.transfers, hslot]
  cases sockList[serverId.toNat] with
  | none => simp
  | some sockfd =>
    by_cases hconn : s.isConnect sockfd
    · simp [hconn, connectionSend, AcceptServerMsgTransferService.handOver]
    · simp [hconn]

section Loop

variable {size rounds : ℕ} {body : UInt32 → Prog Bool}
  {P : ℕ → AcceptServerMsgTransferService → Prop} {Q : AcceptServerMsgTransferService → Prop}

theorem ensures_forLoop_from
    (hbody : ∀ k s, k < size → k < 2 ^ 32 → P k s →
      Ensures (body (UInt32.ofNat k)) s fun b s' => if b then Q s' else P (k + 1) s')
    (hend : 2 ^ 32 ≤ size → ∀ s, ¬ P (2 ^ 32) s) {k : ℕ} (hk : k ≤ size) (hk' : k ≤ 2 ^ 32)
    (hp : P k s) (hrounds : size < rounds + k) :
    Ensures (forLoop size body rounds (UInt32.ofNat k)) s fun b s' =>
      if b then Q s' else size < 2 ^ 32 ∧ P size s' := by
  induction rounds generalizing k s with
  | zero => omega
  | succ rounds ih =>
    have hlt : k < 2 ^ 32 := by
      refine lt_of_le_of_ne hk' fun heq => ?_
      subst heq
      exact hend hk s hp
    have hnat : (UInt32.ofNat k).toNat = k := by
      rw [UInt32.toNat_ofNat', Nat.mod_eq_of_lt hlt]
    rw [forLoop, hnat]
    by_cases hsize : k < size
    · rw [if_pos hsize]
      refine (hbody k s hsize hlt hp).bind fun b s' hb => ?_
      cases b with
      | true =>
        rw [if_pos rfl, ensures_pure]
        exact hb
      | false =>
        have hsucc : UInt32.ofNat k + 1 = UInt32.ofNat (k + 1) := (UInt32.ofNat_add k 1).symm
        rw [if_neg Bool.false_ne_true, hsucc]
        exact ih hsize hlt hb (by omega)
    · obtain rfl : k = size := by omega
      rw [if_neg hsize, ensures_pure]
      exact ⟨hlt, hp⟩

/-- **The rule for a loop with a 32-bit counter**: `P k` holds before the round `k`, and `Q` after a
round that breaks. There is no round that follows the last number of the counter. -/
theorem ensures_forLoop
    (hbody : ∀ k s, k < size → k < 2 ^ 32 → P k s →
      Ensures (body (UInt32.ofNat k)) s fun b s' => if b then Q s' else P (k + 1) s')
    (hend : 2 ^ 32 ≤ size → ∀ s, ¬ P (2 ^ 32) s) (hp : P 0 s) (hrounds : size < rounds) :
    Ensures (forLoop size body rounds 0) s fun b s' =>
      if b then Q s' else size < 2 ^ 32 ∧ P size s' :=
  ensures_forLoop_from hbody hend (Nat.zero_le _) (Nat.zero_le _) hp hrounds

end Loop

/-- A loop whose counter is always below the bound ends only by a break. -/
theorem forLoop_endless {size : ℕ} {body : UInt32 → Prog Bool}
    {P : AcceptServerMsgTransferService → Prop} (hsize : 2 ^ 32 ≤ size)
    (hbody : ∀ i s, P s → Ensures (body i) s fun b s' => b = false ∧ P s') (hp : P s)
    (rounds : ℕ) (i : UInt32) {Q : Bool → AcceptServerMsgTransferService → Prop} :
    ¬ Ensures (forLoop size body rounds i) s Q := by
  induction rounds generalizing s i with
  | zero =>
    rintro ⟨b, s', hrun, -⟩
    cases hrun
  | succ rounds ih =>
    have hlt : i.toNat < size := lt_of_lt_of_le i.toNat_lt hsize
    obtain ⟨b, s', hrun, rfl, hp'⟩ := hbody i s hp
    rw [forLoop, if_pos hlt, ensures_bind, Ensures.iff_of_run hrun]
    exact ih hp' (i + 1)

end Execution

end Lsf.Proxy
