import Mathlib.Data.List.Count
import Mathlib.Logic.Function.Basic
import Mathlib.Order.Nat
import Lsf.Foundations.Reachability

/-!
# The order of messages between servers

A server has a connection to every proxy and sends its messages to them in turn. A message that
follows another one within a short time takes the same connection, so that it cannot overtake it:
what goes through one proxy and reaches a server over one connection stays in order.

A proxy passes a message on to any number of connections. A connection that breaks loses some of the
messages that were on their way, those that were sent last; the others may still arrive.

The messages that a server sends are numbered. They make up bursts, where a burst ends with a pause,
and when the server gets or loses a connection.

## Main definitions

* `BasicConnectService`, `connectionSendBySequence` — the connections of a server
* `Net`, `Event`, `step` — the servers and all connections
* `Net.Inv` — how the messages on their way are ordered

## Main results

* `Inv.step` — every event keeps the invariant
* `bursts_arrive_in_order`
-/

namespace Lsf.Bursts

variable {μ : Type}

/-! ### The connections of a server -/

/-- The sockets are numbers of connections. -/
structure BasicConnectService where
  lastRandomSendIndex : UInt64 := 0
  lastSendTime : UInt64 := 0
  connScok : List (Option ℕ)

/-- Messages within this time take the same connection. -/
def DEF_KEEP_SAME_INDEX_INTERVAL : UInt64 := 100

namespace BasicConnectService

/-- The first connection from the index on. -/
def pick (v : BasicConnectService) (isConnect : ℕ → Bool) : Option ℕ :=
  (List.range v.connScok.length).findSome? fun i =>
    let index := (v.lastRandomSendIndex + UInt64.ofNat i).toNat % v.connScok.length
    (v.connScok[index]?.join).filter isConnect

/-- There was a pause since the last message. -/
def pause (v : BasicConnectService) (now : UInt64) : Bool :=
  decide (v.lastSendTime + DEF_KEEP_SAME_INDEX_INTERVAL < now)

/-- `ConnectionSendBySequence`, with the connection that it sends on. -/
def connectionSendBySequence (v : BasicConnectService) (now : UInt64) (isConnect : ℕ → Bool) :
    Option ℕ × BasicConnectService :=
  let v := if v.pause now then { v with lastRandomSendIndex := v.lastRandomSendIndex + 1 } else v
  (v.pick isConnect, { v with lastSendTime := now })

/-- The sent message takes the connection that would be picked afterwards. -/
theorem connectionSendBySequence_fst (v : BasicConnectService) (now : UInt64)
    (isConnect : ℕ → Bool) : (v.connectionSendBySequence now isConnect).1 =
      (v.connectionSendBySequence now isConnect).2.pick isConnect := rfl

theorem connectionSendBySequence_connScok (v : BasicConnectService) (now : UInt64)
    (isConnect : ℕ → Bool) :
    (v.connectionSendBySequence now isConnect).2.connScok = v.connScok := by
  rw [connectionSendBySequence]
  split_ifs <;> rfl

/-- Without a pause it is the connection that would have been picked before. -/
theorem pick_of_not_pause {v : BasicConnectService} {now : UInt64} (isConnect : ℕ → Bool)
    (h : v.pause now = false) :
    (v.connectionSendBySequence now isConnect).2.pick isConnect = v.pick isConnect := by
  rw [connectionSendBySequence, if_neg (Bool.eq_false_iff.mp h)]
  rfl

theorem mem_of_pick {v : BasicConnectService} {isConnect : ℕ → Bool} {l : ℕ}
    (h : v.pick isConnect = some l) : some l ∈ v.connScok := by
  obtain ⟨i, -, hfilter⟩ := List.exists_of_findSome?_eq_some h
  obtain ⟨hjoin, -⟩ := Option.filter_eq_some_iff.mp hfilter
  exact List.mem_of_getElem? (Option.join_eq_some_iff.mp hjoin)

/-- What is picked depends on the connections in the slots. -/
theorem pick_congr {v : BasicConnectService} {isConnect isConnect' : ℕ → Bool}
    (h : ∀ l, some l ∈ v.connScok → isConnect l = isConnect' l) :
    v.pick isConnect = v.pick isConnect' := by
  refine congrArg (List.findSome? · (List.range v.connScok.length)) (funext fun i => ?_)
  simp only
  cases hjoin : (v.connScok[(v.lastRandomSendIndex + UInt64.ofNat i).toNat %
      v.connScok.length]?).join with
  | none => rfl
  | some l =>
    have hmem := List.mem_of_getElem? (Option.join_eq_some_iff.mp hjoin)
    rw [Option.filter_some, Option.filter_some, h l hmem]

end BasicConnectService

/-! ### Messages on their way -/

/-- A message, with how many its sender had sent before. -/
structure Message (μ : Type) where
  sender : ℕ
  seq : ℕ
  burst : ℕ
  /-- The connection on which it was sent. -/
  link : ℕ
  content : μ

/-- A connection of a server to a proxy. -/
structure Link (μ : Type) where
  server : ℕ
  isConnect : Bool := true
  /-- The messages on their way to the proxy. -/
  up : List (Message μ) := []
  /-- The messages on their way to the server. -/
  down : List (Message μ) := []
  received : List (Message μ) := []

/-- A server that sends through the proxies. -/
structure Server where
  service : BasicConnectService
  /-- How many messages it has sent. -/
  sends : ℕ := 0
  burst : ℕ := 0

/-- The servers and their connections to the proxies. -/
structure Net (μ : Type) where
  servers : ℕ → Server
  links : ℕ → Link μ
  made : ℕ := 0

namespace Net

/-- A server is changed. -/
def setServer (s : Net μ) (i : ℕ) (server : Server) : Net μ :=
  { s with servers := Function.update s.servers i server }

/-- A connection is changed. -/
def setLink (s : Net μ) (l : ℕ) (link : Link μ) : Net μ :=
  { s with links := Function.update s.links l link }

@[simp] theorem setServer_servers (s : Net μ) (i j : ℕ) (server : Server) :
    (s.setServer i server).servers j = if j = i then server else s.servers j :=
  Function.update_apply ..

@[simp] theorem setLink_links (s : Net μ) (l l' : ℕ) (link : Link μ) :
    (s.setLink l link).links l' = if l' = l then link else s.links l' :=
  Function.update_apply ..

/-- Servers with some number of connections, none of which is there yet. -/
def init (sizes : ℕ → ℕ) : Net μ where
  servers i := { service := { connScok := List.replicate (sizes i) none } }
  links _ := { server := 0 }

/-- The connection is open. -/
def isConnect (s : Net μ) (l : ℕ) : Bool := (s.links l).isConnect

/-- The connections of a server change, which ends its burst. -/
def endBurst (s : Net μ) (i : ℕ) : Net μ :=
  s.setServer i { s.servers i with burst := (s.servers i).burst + 1 }

/-- A server sends a message; it may not get into the stream. -/
def send (s : Net μ) (i : ℕ) (now : UInt64) (content : μ) (sent : Bool) : Net μ :=
  let server := s.servers i
  let (link, service) := server.service.connectionSendBySequence now s.isConnect
  let burst := if server.service.pause now then server.burst + 1 else server.burst
  let s := s.setServer i { service, sends := server.sends + 1, burst }
  match link, sent with
  | some l, true => s.setLink l { s.links l with
      up := (s.links l).up ++ [⟨i, server.sends, burst, l, content⟩] }
  | _, _ => s

/-- A server gets a connection, and puts it into one of its slots, if that still waits for it. -/
def connect (s : Net μ) (i : ℕ) (slot : Option ℕ) : Net μ :=
  let server := s.servers i
  let connScok := (slot.map fun k => server.service.connScok.set k (some s.made)).getD
    server.service.connScok
  { (s.setLink s.made { server := i }).setServer i
      { server with service.connScok := connScok, burst := server.burst + 1 } with
    made := s.made + 1 }

/-- A proxy passes a message on. -/
def forward (s : Net μ) (l : ℕ) (message : Message μ) (up : List (Message μ)) (ds : List ℕ) :
    Net μ :=
  { s with
    links := fun d =>
      { s.links d with
        up := if d = l then up else (s.links d).up
        down := (s.links d).down ++ List.replicate (ds.count d) message } }

end Net

/-- What the servers and the proxies do. -/
inductive Event (μ : Type)
  | send (i : ℕ) (now : UInt64) (content : μ) (sent : Bool)
  | connect (i : ℕ) (slot : Option ℕ)
  /-- A server finds that a connection is lost, or closes it. -/
  | close (l : ℕ)
  /-- A proxy gets a message over one connection and sends it on others. -/
  | forward (l : ℕ) (ds : List ℕ)
  | deliver (l : ℕ)
  /-- All but some messages on their way over a connection are lost. -/
  | lose (l up down : ℕ)

/-- One event. -/
def step : Event μ → Net μ → Option (Net μ)
  | .send i now content sent, s => some (s.send i now content sent)
  | .connect i slot, s => some (s.connect i slot)
  | .close l, s =>
    some ((s.setLink l { s.links l with isConnect := false }).endBurst (s.links l).server)
  | .forward l ds, s =>
    match (s.links l).up with
    | [] => none
    | message :: up => some (s.forward l message up ds)
  | .deliver l, s =>
    match (s.links l).down with
    | [] => none
    | message :: down => some (s.setLink l { s.links l with
        down
        received := (s.links l).received ++ [message] })
  | .lose l up down, s =>
    some (s.setLink l { s.links l with
      up := (s.links l).up.take up
      down := (s.links l).down.take down })

/-! ### The invariant -/

namespace Net

/-- The message is on its way or was received. -/
def Holds (s : Net μ) (m : Message μ) : Prop :=
  ∃ l, m ∈ (s.links l).up ∨ m ∈ (s.links l).received ++ (s.links l).down

/-- What a message says of itself is so. -/
structure MessageFine (s : Net μ) (m : Message μ) : Prop where
  link : m.link < s.made
  server : (s.links m.link).server = m.sender
  seq : m.seq < (s.servers m.sender).sends
  burst : m.burst ≤ (s.servers m.sender).burst
  /-- The burst that goes on takes the connection that would be picked now. -/
  current : m.burst = (s.servers m.sender).burst →
    (s.servers m.sender).service.pick s.isConnect = some m.link

/-- The messages of a connection, in both directions, are in order. -/
structure LinkFine (s : Net μ) (l : ℕ) : Prop where
  link : ∀ m ∈ (s.links l).up, m.link = l
  up : (s.links l).up.Pairwise fun a b => a.seq ≤ b.seq
  down : ((s.links l).received ++ (s.links l).down).Pairwise fun a b =>
    a.link = b.link → a.seq ≤ b.seq
  /-- What was passed on is before what was not. -/
  behind : ∀ d, ∀ a ∈ (s.links d).received ++ (s.links d).down, a.link = l →
    ∀ b ∈ (s.links l).up, a.seq ≤ b.seq

/-- What holds in every state. -/
structure Inv (s : Net μ) : Prop where
  slot : ∀ i l, some l ∈ (s.servers i).service.connScok → l < s.made ∧ (s.links l).server = i
  message : ∀ m, s.Holds m → s.MessageFine m
  links : ∀ l, s.LinkFine l
  /-- A burst takes one connection. -/
  single : ∀ a b, s.Holds a → s.Holds b → a.sender = b.sender → a.burst = b.burst →
    a.link = b.link

/-- What is on its way or received is a part of what was, in its order. -/
structure Narrows (s s' : Net μ) : Prop where
  up : ∀ l, ((s'.links l).up).Sublist (s.links l).up
  down : ∀ l, ((s'.links l).received ++ (s'.links l).down).Sublist
    ((s.links l).received ++ (s.links l).down)

/-- A server is as before, or has begun a new burst. -/
structure Follows (s s' : Net μ) (i : ℕ) : Prop where
  sends : (s.servers i).sends ≤ (s'.servers i).sends
  burst : (s.servers i).burst < (s'.servers i).burst ∨
    (s'.servers i).burst = (s.servers i).burst ∧
      (s'.servers i).service.pick s'.isConnect = (s.servers i).service.pick s.isConnect

/-- The slots have connections of their servers. -/
def SlotsFine (s : Net μ) : Prop :=
  ∀ i l, some l ∈ (s.servers i).service.connScok → l < s.made ∧ (s.links l).server = i

variable {s s' : Net μ}

theorem Narrows.holds (h : s.Narrows s') {m : Message μ} (hm : s'.Holds m) : s.Holds m :=
  hm.imp fun l => Or.imp (fun hup => (h.up l).subset hup) fun hdown => (h.down l).subset hdown

theorem LinkFine.narrow (hs : ∀ l, s.LinkFine l) (h : s.Narrows s') (l : ℕ) : s'.LinkFine l where
  link m hm := (hs l).link m ((h.up l).subset hm)
  up := (hs l).up.sublist (h.up l)
  down := (hs l).down.sublist (h.down l)
  behind d a ha hlink b hb := (hs l).behind d a ((h.down d).subset ha) hlink b ((h.up l).subset hb)

namespace Inv

/-- No message is new. -/
theorem mono (hs : s.Inv) (hholds : ∀ m, s'.Holds m → s.Holds m) (hslot : s'.SlotsFine)
    (hmade : s.made ≤ s'.made) (hserver : ∀ l < s.made, (s'.links l).server = (s.links l).server)
    (hfollows : ∀ i, s.Follows s' i) (hlinks : ∀ l, s'.LinkFine l) : s'.Inv where
  slot := hslot
  links := hlinks
  single a b ha hb := hs.single a b (hholds a ha) (hholds b hb)
  message m hm := by
    have hold := hs.message m (hholds m hm)
    obtain ⟨hsends, hburst⟩ := hfollows m.sender
    refine ⟨hold.link.trans_le hmade, (hserver _ hold.link).trans hold.server,
      hold.seq.trans_le hsends, ?_, fun hcurrent => ?_⟩
    · rcases hburst with hlt | ⟨heq, -⟩
      · exact hold.burst.trans hlt.le
      · exact hold.burst.trans_eq heq.symm
    · rcases hburst with hlt | ⟨heq, hpick⟩
      · exact absurd hold.burst (Nat.not_le.mpr (hcurrent ▸ hlt))
      · exact hpick.trans (hold.current (hcurrent.trans heq))

theorem narrow (hs : s.Inv) (h : s.Narrows s') (hslot : s'.SlotsFine) (hmade : s.made ≤ s'.made)
    (hserver : ∀ l < s.made, (s'.links l).server = (s.links l).server)
    (hfollows : ∀ i, s.Follows s' i) : s'.Inv :=
  hs.mono (fun _ => h.holds) hslot hmade hserver hfollows (LinkFine.narrow hs.links h)

/-- A change of one connection by which its server does not find it closed. -/
theorem setLink {l : ℕ} {link : Link μ} (hs : s.Inv) (hserver : link.server = (s.links l).server)
    (hconnect : link.isConnect = (s.links l).isConnect)
    (hup : link.up.Sublist (s.links l).up)
    (hdown : (link.received ++ link.down).Sublist ((s.links l).received ++ (s.links l).down)) :
    (s.setLink l link).Inv := by
  have hsame : ∀ l', ((s.setLink l link).links l').server = (s.links l').server ∧
      ((s.setLink l link).links l').isConnect = (s.links l').isConnect := by
    intro l'
    rw [setLink_links]
    split_ifs with hl
    · exact hl ▸ ⟨hserver, hconnect⟩
    · exact ⟨rfl, rfl⟩
  refine hs.narrow ⟨fun l' => ?_, fun l' => ?_⟩ ?_ le_rfl (fun l' _ => (hsame l').1) fun i => ?_
  · rw [setLink_links]
    split_ifs with hl
    · exact hl ▸ hup
    · exact List.Sublist.refl _
  · rw [setLink_links]
    split_ifs with hl
    · exact hl ▸ hdown
    · exact List.Sublist.refl _
  · intro i l' hslot
    obtain ⟨hmade, hi⟩ := hs.slot i l' hslot
    exact ⟨hmade, (hsame l').1.trans hi⟩
  · have hisConnect : (s.setLink l link).isConnect = s.isConnect := funext fun l' => (hsame l').2
    exact ⟨le_rfl, .inr ⟨rfl, by rw [hisConnect]; rfl⟩⟩

/-- A server sends a message, which does not get into the stream. -/
theorem sendNothing (hs : s.Inv) (i : ℕ) (now : UInt64) : (s.setServer i {
    service := ((s.servers i).service.connectionSendBySequence now s.isConnect).2
    sends := (s.servers i).sends + 1
    burst := if (s.servers i).service.pause now then (s.servers i).burst + 1
      else (s.servers i).burst }).Inv := by
  refine hs.narrow ⟨fun l => List.Sublist.refl _, fun l => List.Sublist.refl _⟩ ?_ le_rfl
    (fun _ _ => rfl) fun j => ?_
  · intro j l hslot
    rw [setServer_servers] at hslot
    by_cases hj : j = i
    · rw [if_pos hj, BasicConnectService.connectionSendBySequence_connScok, ← hj] at hslot
      exact hs.slot j l hslot
    · rw [if_neg hj] at hslot
      exact hs.slot j l hslot
  · have hisConnect : ∀ server, (s.setServer i server).isConnect = s.isConnect := fun _ => rfl
    by_cases hj : j = i
    · subst hj
      constructor <;> rw [setServer_servers, if_pos rfl]
      · exact Nat.le_succ _
      · rw [hisConnect]
        cases hpause : (s.servers j).service.pause now with
        | true => exact .inl (Nat.lt_succ_self _)
        | false => exact .inr ⟨rfl, BasicConnectService.pick_of_not_pause _ hpause⟩
    · constructor <;> rw [setServer_servers, if_neg hj]
      · exact .inr ⟨rfl, by rw [hisConnect]⟩

/-- A message gets into the stream of a connection. -/
theorem push (hs : s.Inv) {i l n : ℕ} {m : Message μ}
    (hpick : (s.servers i).service.pick s.isConnect = some l) (hn : (s.servers i).sends = n + 1)
    (hsender : m.sender = i) (hseq : m.seq = n) (hburst : m.burst = (s.servers i).burst)
    (hlink : m.link = l) :
    (s.setLink l { s.links l with up := (s.links l).up ++ [m] }).Inv := by
  subst hlink hsender
  obtain ⟨hmade, hserver⟩ := hs.slot m.sender m.link (BasicConnectService.mem_of_pick hpick)
  generalize hs' : s.setLink m.link { s.links m.link with up := (s.links m.link).up ++ [m] } = s'
  have hservers : s'.servers = s.servers := hs' ▸ rfl
  have hmade' : s'.made = s.made := hs' ▸ rfl
  have hlinks : ∀ l, (s'.links l).server = (s.links l).server ∧
      (s'.links l).isConnect = (s.links l).isConnect ∧
      (s'.links l).received ++ (s'.links l).down = (s.links l).received ++ (s.links l).down ∧
      (s'.links l).up = if l = m.link then (s.links l).up ++ [m] else (s.links l).up := by
    intro l
    rw [← hs', setLink_links]
    split_ifs with hl
    · exact hl ▸ ⟨rfl, rfl, rfl, rfl⟩
    · exact ⟨rfl, rfl, rfl, rfl⟩
  have hisConnect : s'.isConnect = s.isConnect := funext fun l => (hlinks l).2.1
  have hholds : ∀ a, s'.Holds a → s.Holds a ∨ a = m := by
    rintro a ⟨l, ha⟩
    rw [(hlinks l).2.2.1, (hlinks l).2.2.2] at ha
    rcases ha with ha | ha
    · split_ifs at ha
      · exact (List.mem_append.mp ha).imp (fun ha => ⟨l, .inl ha⟩) List.mem_singleton.mp
      · exact .inl ⟨l, .inl ha⟩
    · exact .inl ⟨l, .inr ha⟩
  -- the messages that took the connection were sent before by the same server
  have hbefore : ∀ a, s.Holds a → a.link = m.link → a.seq ≤ m.seq := by
    intro a ha hlink
    have hold := hs.message a ha
    have hsender : a.sender = m.sender := hold.server.symm.trans (hlink ▸ hserver)
    have hlt := hold.seq
    rw [hsender, hn] at hlt
    exact hseq ▸ Nat.le_of_lt_succ hlt
  have hsame : ∀ a, s.Holds a → a.sender = m.sender → a.burst = m.burst → a.link = m.link := by
    intro a ha hsender hb
    have hcurrent := (hs.message a ha).current (by rw [hsender, hb, hburst])
    rw [hsender, hpick] at hcurrent
    exact (Option.some.inj hcurrent).symm
  refine ⟨fun j l hslot => ?_, fun a ha => ?_, fun l => ?_, fun a b ha hb hsender hab => ?_⟩
  · rw [hservers] at hslot
    rw [hmade', (hlinks l).1]
    exact hs.slot j l hslot
  · rcases hholds a ha with ha | rfl
    · obtain ⟨hlink, hserver, hseq, hburst, hcurrent⟩ := hs.message a ha
      exact ⟨hmade'.symm ▸ hlink, (hlinks _).1.trans hserver, hservers ▸ hseq, hservers ▸ hburst,
        by rw [hservers, hisConnect]; exact hcurrent⟩
    · refine ⟨hmade'.symm ▸ hmade, (hlinks _).1.trans hserver, ?_, ?_, fun _ => ?_⟩
      · rw [hservers, hn, hseq]
        exact Nat.lt_succ_self n
      · rw [hservers]
        exact hburst.le
      · rw [hservers, hisConnect]
        exact hpick
  · have hold := hs.links l
    have hup := (hlinks l).2.2.2
    have hin : ∀ b ∈ (s'.links l).up, b ∈ (s.links l).up ∨ l = m.link ∧ b = m := by
      intro b hb
      rw [hup] at hb
      split_ifs at hb with hl
      · exact (List.mem_append.mp hb).imp id fun hb => ⟨hl, List.mem_singleton.mp hb⟩
      · exact .inl hb
    refine ⟨fun b hb => ?_, ?_, ?_, fun d a ha hlink b hb => ?_⟩
    · rcases hin b hb with hb | ⟨rfl, rfl⟩
      · exact hold.link b hb
      · rfl
    · rw [hup]
      split_ifs with hl
      · refine List.pairwise_append.mpr ⟨hold.up, List.pairwise_singleton .., fun a ha b hb => ?_⟩
        rw [List.mem_singleton.mp hb]
        exact hbefore a ⟨l, .inl ha⟩ ((hold.link a ha).trans hl)
      · exact hold.up
    · rw [(hlinks l).2.2.1]
      exact hold.down
    · rw [(hlinks d).2.2.1] at ha
      rcases hin b hb with hb | ⟨rfl, rfl⟩
      · exact hold.behind d a ha hlink b hb
      · exact hbefore a ⟨d, .inr ha⟩ hlink
  · rcases hholds a ha with ha | rfl <;> rcases hholds b hb with hb | rfl
    · exact hs.single a b ha hb hsender hab
    · exact hsame a ha hsender hab
    · exact (hsame b hb hsender.symm hab.symm).symm
    · rfl

theorem send (hs : s.Inv) (i : ℕ) (now : UInt64) (content : μ) (sent : Bool) :
    (s.send i now content sent).Inv := by
  have hnothing := hs.sendNothing i now
  rw [Net.send]
  simp only
  split
  · rename_i l hlink
    refine hnothing.push (i := i) (n := (s.servers i).sends) ?_ ?_ rfl rfl ?_ rfl <;>
      rw [setServer_servers, if_pos rfl]
    exact (BasicConnectService.connectionSendBySequence_fst ..).symm.trans hlink
  · exact hnothing

theorem connect (hs : s.Inv) (i : ℕ) (slot : Option ℕ) : (s.connect i slot).Inv := by
  have hlinks : ∀ l, (s.connect i slot).links l =
      if l = s.made then { server := i } else s.links l := fun l => setLink_links s s.made l _
  have hservers : ∀ j, (s.connect i slot).servers j = if j = i then _ else s.servers j :=
    fun j => setServer_servers (s.setLink s.made { server := i }) i j _
  refine hs.narrow ⟨fun l => ?_, fun l => ?_⟩ ?_ (Nat.le_succ _) (fun l hl => ?_) fun j => ?_
  · rw [hlinks]
    split_ifs
    · exact List.nil_sublist _
    · exact List.Sublist.refl _
  · rw [hlinks]
    split_ifs
    · exact List.nil_sublist _
    · exact List.Sublist.refl _
  · intro j l hslot
    have hcases : some l ∈ (s.servers j).service.connScok ∨ l = s.made ∧ j = i := by
      rw [hservers] at hslot
      by_cases hj : j = i
      · rw [if_pos hj] at hslot
        subst hj
        cases slot with
        | none => exact .inl hslot
        | some k =>
          exact (List.mem_or_eq_of_mem_set hslot).imp id fun h => ⟨Option.some.inj h, rfl⟩
      · rw [if_neg hj] at hslot
        exact .inl hslot
    rw [hlinks]
    rcases hcases with hold | ⟨rfl, rfl⟩
    · obtain ⟨hmade, hserver⟩ := hs.slot j l hold
      rw [if_neg hmade.ne]
      exact ⟨hmade.trans (Nat.lt_succ_self _), hserver⟩
    · rw [if_pos rfl]
      exact ⟨Nat.lt_succ_self _, rfl⟩
  · rw [hlinks, if_neg hl.ne]
  · by_cases hj : j = i
    · subst hj
      constructor <;> rw [hservers, if_pos rfl]
      exact .inl (Nat.lt_succ_self _)
    · have hsame : (s.servers j).service.pick (s.connect i slot).isConnect =
          (s.servers j).service.pick s.isConnect := by
        refine BasicConnectService.pick_congr fun l hl => ?_
        rw [Net.isConnect, hlinks, if_neg (hs.slot j l hl).1.ne]
        rfl
      constructor <;> rw [hservers, if_neg hj]
      exact .inr ⟨rfl, hsame⟩

theorem close (hs : s.Inv) (l : ℕ) :
    ((s.setLink l { s.links l with isConnect := false }).endBurst (s.links l).server).Inv := by
  generalize hs' : s.setLink l { s.links l with isConnect := false } = s'
  have hlinks : ∀ l', (s'.links l').server = (s.links l').server ∧
      (s'.links l').up = (s.links l').up ∧ (s'.links l').received ++ (s'.links l').down =
        (s.links l').received ++ (s.links l').down ∧
      (s'.links l').isConnect = if l' = l then false else (s.links l').isConnect := by
    intro l'
    rw [← hs', setLink_links]
    split_ifs with hl
    · exact hl ▸ ⟨rfl, rfl, rfl, rfl⟩
    · exact ⟨rfl, rfl, rfl, rfl⟩
  have hservers : s'.servers = s.servers := hs' ▸ rfl
  have hnarrows : s.Narrows (s'.endBurst (s.links l).server) :=
    ⟨fun l' => (hlinks l').2.1 ▸ List.Sublist.refl _,
      fun l' => (hlinks l').2.2.1 ▸ List.Sublist.refl _⟩
  have hserver : ∀ l', ((s'.endBurst (s.links l).server).links l').server =
      (s.links l').server := fun l' => (hlinks l').1
  have hends : ∀ j, (s'.endBurst (s.links l).server).servers j = if j = (s.links l).server then
      { s.servers j with burst := (s.servers j).burst + 1 } else s.servers j := by
    intro j
    rw [endBurst, setServer_servers, hservers]
    split_ifs with hj
    · rw [hj]
    · rfl
  refine hs.narrow hnarrows (fun j l' hslot => ?_) (hs' ▸ le_rfl) (fun l' _ => hserver l')
    fun j => ?_
  · have hold : some l' ∈ (s.servers j).service.connScok := by
      rw [hends] at hslot
      split_ifs at hslot <;> exact hslot
    obtain ⟨hmade, hj⟩ := hs.slot j l' hold
    exact ⟨hs' ▸ hmade, (hserver l').trans hj⟩
  · by_cases hj : j = (s.links l).server
    · constructor <;> rw [hends, if_pos hj]
      exact .inl (Nat.lt_succ_self _)
    · have hsame : (s.servers j).service.pick (s'.endBurst (s.links l).server).isConnect =
          (s.servers j).service.pick s.isConnect := by
        refine BasicConnectService.pick_congr fun l' hl' => ?_
        refine (hlinks l').2.2.2.trans (if_neg ?_)
        rintro rfl
        exact hj (hs.slot j l' hl').2.symm
      constructor <;> rw [hends, if_neg hj]
      exact .inr ⟨rfl, hsame⟩

theorem forward (hs : s.Inv) {l : ℕ} {m : Message μ} {up : List (Message μ)}
    (hup : (s.links l).up = m :: up) (ds : List ℕ) : (s.forward l m up ds).Inv := by
  generalize hs' : s.forward l m up ds = s'
  have hsub : ∀ l', ((s'.links l').up).Sublist (s.links l').up := by
    intro l'
    rw [← hs']
    show (if l' = l then up else (s.links l').up).Sublist _
    split_ifs with hl
    · rw [hl, hup]
      exact List.sublist_cons_self m up
    · exact List.Sublist.refl _
  have hdown : ∀ d, (s'.links d).received ++ (s'.links d).down =
      ((s.links d).received ++ (s.links d).down) ++ List.replicate (ds.count d) m := by
    intro d
    rw [← hs', List.append_assoc]
    rfl
  have hm : m ∈ (s.links l).up := hup ▸ List.mem_cons_self
  have harrived : ∀ d, ∀ a ∈ (s'.links d).received ++ (s'.links d).down,
      a ∈ (s.links d).received ++ (s.links d).down ∨ a = m := by
    intro d a ha
    rw [hdown] at ha
    exact (List.mem_append.mp ha).imp id List.eq_of_mem_replicate
  have hbehind : ∀ b ∈ (s'.links l).up, m.seq ≤ b.seq := by
    have hpairwise := (hs.links l).up
    rw [hup, List.pairwise_cons] at hpairwise
    intro b hb
    rw [← hs'] at hb
    exact hpairwise.1 b ((if_pos rfl : (if l = l then up else _) = up) ▸ hb)
  refine hs.mono ?_ (fun j l' hslot => ?_) (hs' ▸ le_rfl) (fun l' _ => hs' ▸ rfl)
    (fun j => hs' ▸ ⟨le_rfl, .inr ⟨rfl, rfl⟩⟩) fun l' => ⟨fun b hb => ?_, ?_, ?_, ?_⟩
  · rintro a ⟨l', ha | ha⟩
    · exact ⟨l', .inl ((hsub l').subset ha)⟩
    · rcases harrived l' a ha with ha | rfl
      · exact ⟨l', .inr ha⟩
      · exact ⟨l, .inl hm⟩
  · subst hs'
    exact hs.slot j l' hslot
  · exact (hs.links l').link b ((hsub l').subset hb)
  · exact (hs.links l').up.sublist (hsub l')
  · rw [hdown]
    refine List.pairwise_append.mpr ⟨(hs.links l').down, ?_, fun a ha b hb hlink => ?_⟩
    · exact List.pairwise_replicate.mpr (.inr fun _ => le_rfl)
    · rw [List.eq_of_mem_replicate hb] at hlink ⊢
      exact (hs.links l).behind l' a ha (hlink.trans ((hs.links l).link m hm)) m hm
  · intro d a ha hlink b hb
    rcases harrived d a ha with ha | rfl
    · exact (hs.links l').behind d a ha hlink b ((hsub l').subset hb)
    · obtain rfl : l = l' := ((hs.links l).link a hm).symm.trans hlink
      exact hbehind b hb

/-- **Every event keeps the invariant.** -/
theorem step {event : Event μ} (hs : s.Inv) (hstep : step event s = some s') : s'.Inv := by
  cases event with
  | send i now content sent =>
    cases hstep
    exact hs.send i now content sent
  | connect i slot =>
    cases hstep
    exact hs.connect i slot
  | close l =>
    cases hstep
    exact hs.close l
  | forward l ds =>
    rw [Bursts.step] at hstep
    split at hstep
    · cases hstep
    · cases hstep
      exact hs.forward ‹_› ds
  | deliver l =>
    rw [Bursts.step] at hstep
    split at hstep
    · cases hstep
    · rename_i m down hdown
      cases hstep
      refine hs.setLink rfl rfl (List.Sublist.refl _) ?_
      simp [hdown]
  | lose l up down =>
    cases hstep
    exact hs.setLink rfl rfl (List.take_sublist ..)
      ((List.Sublist.refl _).append (List.take_sublist ..))

theorem init (sizes : ℕ → ℕ) : (Net.init sizes : Net μ).Inv := by
  have hnone : ∀ m, ¬ (Net.init sizes : Net μ).Holds m := by
    rintro m ⟨l, h | h⟩ <;> cases h
  refine ⟨fun i l hslot => ?_, fun m hm => (hnone m hm).elim, fun l => ?_,
    fun a _ ha => (hnone a ha).elim⟩
  · cases List.eq_of_mem_replicate hslot
  · exact {
      link := fun _ hm => nomatch hm
      up := .nil
      down := .nil
      behind := fun _ _ ha => nomatch ha }

end Inv

end Net

/-- **The messages of a burst arrive in order.** In any order of sends, new, closed and broken
connections, forwards and deliveries, a burst takes one connection of its sender, and what a server
receives of it over one of its own connections is in the order in which it was sent. -/
theorem bursts_arrive_in_order {sizes : ℕ → ℕ} {events : List (Event μ)} {s : Net μ}
    (hrun : runSteps step events (Net.init sizes) = some s) :
    (∀ a b, s.Holds a → s.Holds b → a.sender = b.sender → a.burst = b.burst → a.link = b.link) ∧
      ∀ l, (s.links l).received.Pairwise fun a b =>
        a.sender = b.sender → a.burst = b.burst → a.seq ≤ b.seq := by
  have hs : s.Inv := (reachable_of_runSteps (guardedSteps_true events _) hrun).invariant
    (Net.Inv.init sizes) fun _ _ _ _ hs hstep => hs.step hstep
  refine ⟨hs.single, fun l => ?_⟩
  have hordered := (List.pairwise_append.mp (hs.links l).down).1
  refine hordered.imp_of_mem fun ha hb hle hsender hburst => hle ?_
  exact hs.single _ _ ⟨l, .inr (List.mem_append_left _ ha)⟩ ⟨l, .inr (List.mem_append_left _ hb)⟩
    hsender hburst

/-- Server 0 sends three messages, the last of them after a pause, and server 1 receives the last
one first over its one connection. -/
def sampleEvents : List (Event String) :=
  [.connect 0 (some 0), .connect 0 (some 1), .connect 1 (some 0), .send 0 1000 "a" true,
    .send 0 1100 "b" true, .send 0 1201 "c" true, .forward 0 [2], .deliver 2, .forward 1 [2],
    .forward 1 [2], .deliver 2, .deliver 2]

theorem bursts_arrive_in_order_overtaking :
    ∃ s : Net String, runSteps step sampleEvents (Net.init fun _ => 2) = some s ∧
      (s.links 2).received.map (·.content) = ["c", "a", "b"] ∧
      (s.links 2).received.Pairwise fun a b =>
        a.sender = b.sender → a.burst = b.burst → a.seq ≤ b.seq := by
  have hfinal : (runSteps step sampleEvents (Net.init fun _ => 2)).map
      (fun s => (s.links 2).received.map (·.content)) = some ["c", "a", "b"] := by decide +kernel
  obtain ⟨s, hrun, hfinal⟩ := Option.map_eq_some_iff.mp hfinal
  exact ⟨s, hrun, hfinal, (bursts_arrive_in_order hrun).2 2⟩

end Lsf.Bursts
