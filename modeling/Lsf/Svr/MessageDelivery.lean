import Lsf.Foundations.Reachability
import Lsf.Svr.Chunking

/-!
# From the sender of a message to its receiver

`Send` hands the bytes of a message to the system bit by bit, until they are all there, or its time
is up, or something fails. What was handed over by then stays in the stream. The receiver gets the
bytes of the stream in order, in any chunks and with events of other connections between them.

A message that was not sent as a whole is in the stream in part. The messages that are sent after it
on the same connection are then lost, and the receiver is given other ones.

## Main definitions

* `socketSend`, `connectionSend` — the source's functions
* `Connection`, `Event`, `step` — a connection with its two ends

## Main results

* `Sound.step` — every event keeps the invariant
* `messages_arrive`
* `torn_message_spoils_the_next` — what happens after a message that was sent in part
-/

namespace Lsf.Delivery

open Svr

/-! ### Sending -/

/-- What one call of `send` gives. -/
inductive SendResult
  | sent (n : ℕ)
  | interrupted
  | error

/-- One round of the loop of `Send`: the time, whether the socket becomes writable while it waits,
and what `send` gives then. -/
structure SendRound where
  now : UInt64
  writable : Bool
  result : SendResult

/-- The loop of `Send` for the bytes that are left: those that the system took, and whether it took
them all. `send` does not take more than it was given. -/
def sendLoop (stTime milliExpire : UInt64) :
    List SendRound → List UInt8 → Option (List UInt8 × Bool)
  | _, [] => some ([], true)
  | [], _ :: _ => none
  | round :: rounds, byte :: bytes =>
    -- wait timeout
    if milliExpire ≤ round.now - stTime then some ([], false)
    -- wait write event
    else if round.writable = false then some ([], false)
    else match round.result with
      | .interrupted => sendLoop stTime milliExpire rounds (byte :: bytes)
      | .error => some ([], false)
      | .sent n =>
        if n ≤ (byte :: bytes).length then
          (sendLoop stTime milliExpire rounds ((byte :: bytes).drop n)).map fun (taken, all) =>
            ((byte :: bytes).take n ++ taken, all)
        else none

/-- `Send`, with the socket's `IsConnect`. -/
def socketSend (isConnect : Bool) (stTime milliExpire : UInt64) (rounds : List SendRound)
    (content : List UInt8) : Option (List UInt8 × Bool) :=
  if isConnect then sendLoop stTime milliExpire rounds content else some ([], false)

/-- `DEF_SEND_TIMEOUT`. -/
def DEF_SEND_TIMEOUT : UInt64 := 3000

/-- `ConnectionSend`, with the bytes that are sent. -/
def connectionSend (isConnect : Bool) (stTime : UInt64) (rounds : List SendRound)
    (message : List UInt8) : Option (List UInt8 × Bool) :=
  -- check socket is connected
  if isConnect = false then some ([], false)
  -- sync send
  else socketSend isConnect stTime DEF_SEND_TIMEOUT rounds (putSingleMessageIntoStream message)

/-- The system takes the bytes in order, and all of them where the result says so. -/
theorem sendLoop_spec {stTime milliExpire : UInt64} {rounds : List SendRound}
    {bytes taken : List UInt8} {all : Bool}
    (h : sendLoop stTime milliExpire rounds bytes = some (taken, all)) :
    taken <+: bytes ∧ (all = true ↔ taken = bytes) := by
  induction rounds generalizing bytes taken with
  | nil =>
    cases bytes with
    | nil =>
      cases h
      exact ⟨List.prefix_rfl, by simp⟩
    | cons byte bytes => cases h
  | cons round rounds ih =>
    cases bytes with
    | nil =>
      cases h
      exact ⟨List.prefix_rfl, by simp⟩
    | cons byte bytes =>
      have hnothing : ([] : List UInt8) <+: byte :: bytes ∧ (false = true ↔ [] = byte :: bytes) :=
        ⟨List.nil_prefix, by simp⟩
      rw [sendLoop] at h
      split_ifs at h
      · cases h
        exact hnothing
      · cases h
        exact hnothing
      · cases hresult : round.result with
        | interrupted =>
          rw [hresult] at h
          exact ih h
        | error =>
          rw [hresult] at h
          cases h
          exact hnothing
        | sent n =>
          simp only [hresult] at h
          split_ifs at h with hn
          obtain ⟨⟨taken', all'⟩, hrest, heq⟩ := Option.map_eq_some_iff.mp h
          cases heq
          obtain ⟨hfront, hall⟩ := ih hrest
          generalize byte :: bytes = bytes at hfront hall ⊢
          have hsplit := List.take_append_drop n bytes
          refine ⟨?_, hall.trans ⟨?_, fun heq => ?_⟩⟩
          · conv_rhs => rw [← hsplit]
            exact (List.prefix_append_right_inj _).mpr hfront
          · rintro rfl
            exact hsplit
          · exact List.append_cancel_left (heq.trans hsplit.symm)

theorem put_ne_nil (message : List UInt8) : putSingleMessageIntoStream message ≠ [] :=
  List.cons_ne_nil _ _

theorem connectionSend_spec {isConnect : Bool} {stTime : UInt64} {rounds : List SendRound}
    {message taken : List UInt8} {all : Bool}
    (h : connectionSend isConnect stTime rounds message = some (taken, all)) :
    taken <+: putSingleMessageIntoStream message ∧
      (all = true ↔ taken = putSingleMessageIntoStream message) := by
  have hnothing : ([] : List UInt8) <+: putSingleMessageIntoStream message ∧
      (false = true ↔ [] = putSingleMessageIntoStream message) :=
    ⟨List.nil_prefix, iff_of_false Bool.false_ne_true (put_ne_nil message).symm⟩
  rw [connectionSend, socketSend] at h
  split_ifs at h
  · cases h
    exact hnothing
  · exact sendLoop_spec h
  · cases h
    exact hnothing

/-! ### A connection -/

/-- A connection with the process at its receiving end, which knows it by a descriptor. -/
structure Connection where
  /-- The sender's socket is connected. -/
  isConnect : Bool := true
  /-- The bytes that the sender's system took. -/
  stream : List UInt8 := []
  /-- How many of them the receiver got. -/
  arrived : ℕ := 0
  /-- The messages for which `ConnectionSend` returned true. -/
  accepted : List (List UInt8) := []
  /-- Those of them before the first message that was sent in part. -/
  untorn : List (List UInt8) := []
  /-- A message was sent in part. -/
  torn : Bool := false
  /-- Something was sent after it. -/
  resumed : Bool := false
  receiver : Service UInt8

/-- What the sender and the receiver of a connection do. -/
inductive Event
  | send (message : List UInt8) (stTime : UInt64) (rounds : List SendRound)
  /-- The sender's socket is closed. -/
  | shutDown
  | read (event : ReadEvent UInt8)

/-- The connection after a message of which the system took some bytes. -/
def Connection.sent (c : Connection) (message taken : List UInt8) (all : Bool) : Connection :=
  { c with
    stream := c.stream ++ taken
    accepted := if all then c.accepted ++ [message] else c.accepted
    untorn := if all && !c.torn then c.untorn ++ [message] else c.untorn
    torn := c.torn || (!all && !taken.isEmpty)
    resumed := c.resumed || (c.torn && !taken.isEmpty) }

/-- One event. What the receiver reads from the connection are the next bytes of the stream, as long
as it has a read completion for it. -/
def step (fd : ℕ) : Event → Connection → Option Connection
  | .send message stTime rounds, c =>
    (connectionSend c.isConnect stTime rounds message).map fun (taken, all) =>
      c.sent message taken all
  | .shutDown, c => some { c with isConnect := false }
  | .read event, c =>
    if event.fd = fd then
      if c.receiver.isConnect fd ∧ received event.recvs <+: c.stream.drop c.arrived then
        ((event.perform id).run c.receiver).map fun (_, receiver) =>
          { c with receiver, arrived := c.arrived + (received event.recvs).length }
      else none
    else ((event.perform id).run c.receiver).map fun (_, receiver) => { c with receiver }

/-- Messages have a length that the header can say, and the handlers of the receiver do not close
the connection. -/
def Orderly (fd : ℕ) : Event → Connection → Prop
  | .send message .., _ => message ≠ [] ∧ message.length < 2 ^ 32 - 6
  | .shutDown, _ => True
  | .read event, _ => event.fd = fd → ∀ i, event.closes i = false

/-! ### What is parsed -/

/-- The bytes of messages. -/
def bytesOf (messages : List (List UInt8)) : List UInt8 :=
  (messages.map putSingleMessageIntoStream).flatten

theorem bytesOf_append (messages messages' : List (List UInt8)) :
    bytesOf (messages ++ messages') = bytesOf messages ++ bytesOf messages' := by
  rw [bytesOf, List.map_append, List.flatten_append, bytesOf, bytesOf]

theorem bytesOf_singleton (message : List UInt8) :
    bytesOf [message] = putSingleMessageIntoStream message := List.append_nil _

theorem parse_bytesOf_append {messages : List (List UInt8)}
    (h : ∀ m ∈ messages, m ≠ [] ∧ m.length < 2 ^ 32 - 6) (x : List UInt8) :
    (frames id).parse (bytesOf messages ++ x) =
      (messages ++ ((frames id).parse x).1, ((frames id).parse x).2) := by
  rw [Splitter.parse_append, bytesOf, parse_put h, List.nil_append]

/-- No message is got from a part of one. -/
theorem parse_of_part {message taken : List UInt8} (hne : message ≠ [])
    (hlen : message.length < 2 ^ 32 - 6) (hpart : taken <+: putSingleMessageIntoStream message)
    (hnot : taken ≠ putSingleMessageIntoStream message) :
    (frames id).parse taken = ([], taken) := by
  refine Splitter.parse_of_none ?_
  by_contra hsome
  obtain ⟨⟨content, r⟩, hsplit⟩ := Option.ne_none_iff_exists'.mp hsome
  obtain ⟨x, hx⟩ := hpart
  have hgrown := (frames id).stable x hsplit
  have hwhole : (frames id).split (putSingleMessageIntoStream message ++ []) = some (message, []) :=
    splitFrame_put hne hlen []
  rw [hx, ← List.append_nil (putSingleMessageIntoStream message), hwhole] at hgrown
  simp only [Option.some.injEq, Prod.mk.injEq, List.nil_eq, List.append_eq_nil_iff] at hgrown
  rw [hgrown.2.2, List.append_nil] at hx
  exact hnot hx

/-! ### The invariant -/

/-- What was accepted is in the stream as a whole up to the first message that was sent in part, and
what the receiver has is what `frames` parses of the bytes that arrived. -/
structure Sound (fd : ℕ) (c : Connection) : Prop where
  fits : ∀ m ∈ c.untorn, m ≠ [] ∧ m.length < 2 ^ 32 - 6
  untorn : c.untorn <+: c.accepted
  bytes : bytesOf c.untorn <+: c.stream
  whole : c.torn = false → c.untorn = c.accepted ∧ c.stream = bytesOf c.untorn
  resumed : c.resumed = false →
    c.untorn = c.accepted ∧ ((frames id).parse c.stream).1 = c.accepted
  arrived : c.arrived ≤ c.stream.length
  delivered : c.receiver.delivered fd = ((frames id).parse (c.stream.take c.arrived)).1
  kept : c.receiver.isConnect fd = true →
    c.receiver.kept fd = ((frames id).parse (c.stream.take c.arrived)).2

variable {fd : ℕ} {c c' : Connection}

theorem Sound.start {s : Service UInt8} (hdelivered : s.delivered fd = [])
    (hkept : s.kept fd = []) : Sound fd { receiver := s } := by
  have hnil : (frames id).parse [] = (([], []) : List (List UInt8) × List UInt8) :=
    Splitter.parse_of_none rfl
  exact
    { fits := fun m hm => nomatch hm
      untorn := List.prefix_rfl
      bytes := List.prefix_rfl
      whole := fun _ => ⟨rfl, rfl⟩
      resumed := fun _ => ⟨rfl, congrArg Prod.fst hnil⟩
      arrived := Nat.le_refl _
      delivered := hdelivered.trans (congrArg Prod.fst hnil).symm
      kept := fun _ => hkept.trans (congrArg Prod.snd hnil).symm }

/-- What arrived stays what it was when more is sent. -/
theorem take_arrived_append (h : c.arrived ≤ c.stream.length) (taken : List UInt8) :
    (c.stream ++ taken).take c.arrived = c.stream.take c.arrived :=
  List.take_append_of_le_length h

theorem Sound.sent (h : Sound fd c) {message taken : List UInt8} {all : Bool} (hne : message ≠ [])
    (hlen : message.length < 2 ^ 32 - 6) (hpart : taken <+: putSingleMessageIntoStream message)
    (hall : all = true ↔ taken = putSingleMessageIntoStream message) :
    Sound fd (c.sent message taken all) := by
  have harrived : c.arrived ≤ (c.stream ++ taken).length :=
    Nat.le_trans h.arrived (by rw [List.length_append]; omega)
  have hsame := take_arrived_append h.arrived taken
  have hdelivered : c.receiver.delivered fd =
      ((frames id).parse ((c.stream ++ taken).take c.arrived)).1 := hsame ▸ h.delivered
  have hkept : c.receiver.isConnect fd = true → c.receiver.kept fd =
      ((frames id).parse ((c.stream ++ taken).take c.arrived)).2 := hsame ▸ h.kept
  cases htorn : c.torn with
  | true =>
    -- The messages before the first one that was sent in part stay those.
    have huntorn : (c.sent message taken all).untorn = c.untorn := by
      simp [Connection.sent, htorn]
    have haccepted : c.accepted <+: if all then c.accepted ++ [message] else c.accepted := by
      split_ifs
      · exact List.prefix_append _ _
      · exact List.prefix_rfl
    refine ⟨huntorn ▸ h.fits, huntorn ▸ h.untorn.trans haccepted,
      huntorn ▸ h.bytes.trans (List.prefix_append _ _), fun hfalse => ?_, fun hfalse => ?_,
      harrived, hdelivered, hkept⟩
    · simp [Connection.sent, htorn] at hfalse
    · -- Nothing was sent, then.
      simp only [Connection.sent, htorn, Bool.true_and, Bool.or_eq_false_iff,
        Bool.not_eq_false', List.isEmpty_iff] at hfalse
      obtain ⟨hresumed, rfl⟩ := hfalse
      have hnot : all = false := by
        rw [← Bool.not_eq_true, hall]
        exact (put_ne_nil message).symm
      rw [huntorn]
      simpa [Connection.sent, hnot] using h.resumed hresumed
  | false =>
    obtain ⟨haccepted, hstream⟩ := h.whole htorn
    have hparse := parse_bytesOf_append h.fits taken
    rw [← hstream] at hparse
    cases all with
    | true =>
      obtain rfl := hall.mp rfl
      have huntorn : (c.sent message (putSingleMessageIntoStream message) true).untorn =
          c.untorn ++ [message] := by simp [Connection.sent, htorn]
      have hstream' : c.stream ++ putSingleMessageIntoStream message =
          bytesOf (c.untorn ++ [message]) := by
        rw [bytesOf_append, bytesOf_singleton, hstream]
      have hfits : ∀ m ∈ c.untorn ++ [message], m ≠ [] ∧ m.length < 2 ^ 32 - 6 :=
        List.forall_mem_append.mpr ⟨h.fits, List.forall_mem_singleton.mpr ⟨hne, hlen⟩⟩
      have hsame' : c.untorn ++ [message] = c.accepted ++ [message] := by rw [haccepted]
      refine ⟨huntorn ▸ hfits, huntorn ▸ hsame' ▸ List.prefix_rfl,
        huntorn ▸ hstream' ▸ List.prefix_rfl, fun _ => huntorn ▸ ⟨hsame', hstream'⟩,
        fun _ => huntorn ▸ ⟨hsame', ?_⟩, harrived, hdelivered, hkept⟩
      show ((frames id).parse (c.stream ++ putSingleMessageIntoStream message)).1 =
        c.accepted ++ [message]
      rw [hstream', bytesOf, parse_put hfits, hsame']
    | false =>
      have hnot : taken ≠ putSingleMessageIntoStream message := fun heq => nomatch hall.mpr heq
      rw [parse_of_part hne hlen hpart hnot, List.append_nil] at hparse
      have huntorn : (c.sent message taken false).untorn = c.untorn := by simp [Connection.sent]
      refine ⟨huntorn ▸ h.fits, huntorn ▸ h.untorn,
        huntorn ▸ h.bytes.trans (List.prefix_append _ _), fun hfalse => ?_,
        fun _ => huntorn ▸ ⟨haccepted, ?_⟩, harrived, hdelivered, hkept⟩
      · simp only [Connection.sent, htorn, Bool.not_false, Bool.true_and, Bool.false_or,
          Bool.not_eq_false', List.isEmpty_iff] at hfalse
        subst hfalse
        rw [huntorn]
        exact ⟨haccepted, (List.append_nil _).trans hstream⟩
      · show ((frames id).parse (c.stream ++ taken)).1 = c.accepted
        rw [hparse, haccepted]

/-- What a read event does to a descriptor, however it ends. -/
theorem afterRead_of_open {s : Service UInt8} {closes : ℕ → Bool} {buffer : List UInt8}
    {ending : Ending} (hconn : s.isConnect fd = true) (hc : ∀ i, closes i = false) :
    (s.afterRead id closes fd buffer ending).delivered fd =
      s.delivered fd ++ ((frames id).parse buffer).1 ∧
    ((s.afterRead id closes fd buffer ending).isConnect fd = true →
      (s.afterRead id closes fd buffer ending).kept fd = ((frames id).parse buffer).2) := by
  obtain ⟨hkept, hdelivered, -⟩ := @Service.afterRead_of_quiet _ s fd closes id buffer hconn hc
  by_cases hending : ending = .wouldBlock
  · subst hending
    exact ⟨hdelivered, fun _ => hkept⟩
  · have hclosed : s.afterRead id closes fd buffer ending =
        (s.afterRead id closes fd buffer .wouldBlock).closed fd := by
      rw [Service.afterRead, if_neg hending, Service.afterRead, if_pos rfl]
    rw [hclosed]
    exact ⟨hdelivered, fun hopen => by rw [Service.closed_isConnect_self] at hopen; cases hopen⟩

theorem Sound.read (h : Sound fd c) {recvs : List (Recv UInt8)} {closes : ℕ → Bool}
    {ending : Ending} (hconn : c.receiver.isConnect fd = true) (hc : ∀ i, closes i = false)
    (hnext : received recvs <+: c.stream.drop c.arrived) :
    Sound fd { c with
      receiver := c.receiver.afterRead id closes fd (c.receiver.bufferOf fd recvs) ending
      arrived := c.arrived + (received recvs).length } := by
  have hle := hnext.length_le
  rw [List.length_drop] at hle
  have harrived := h.arrived
  have htake : c.stream.take (c.arrived + (received recvs).length) =
      c.stream.take c.arrived ++ received recvs := by
    rw [List.take_add, ← List.prefix_iff_eq_take.mp hnext]
  have hbuffer : c.receiver.bufferOf fd recvs =
      ((frames id).parse (c.stream.take c.arrived)).2 ++ received recvs := by
    rw [← h.kept hconn]
    rfl
  obtain ⟨hdelivered, hkept⟩ := @afterRead_of_open fd c.receiver closes
    (c.receiver.bufferOf fd recvs) ending hconn hc
  refine ⟨h.fits, h.untorn, h.bytes, h.whole, h.resumed, ?_, ?_, ?_⟩
  · show c.arrived + _ ≤ c.stream.length
    omega
  · show Service.delivered _ fd = ((frames id).parse (c.stream.take _)).1
    rw [hdelivered, htake, Splitter.parse_append, hbuffer, h.delivered]
  · intro hopen
    show Service.kept _ fd = ((frames id).parse (c.stream.take _)).2
    rw [hkept hopen, htake, Splitter.parse_append, hbuffer]

theorem Sound.sameFor (h : Sound fd c) {receiver : Service UInt8}
    (hsame : Service.SameFor fd c.receiver receiver) : Sound fd { c with receiver } :=
  ⟨h.fits, h.untorn, h.bytes, h.whole, h.resumed, h.arrived, hsame.delivered.trans h.delivered,
    fun hconn => hsame.kept.trans (h.kept (hsame.isConnect ▸ hconn))⟩

/-- **Every event keeps the invariant.** -/
theorem Sound.step {event : Event} (hg : Orderly fd event c) (h : Sound fd c)
    (hstep : step fd event c = some c') : Sound fd c' := by
  cases event with
  | send message stTime rounds =>
    obtain ⟨⟨taken, all⟩, hsend, rfl⟩ := Option.map_eq_some_iff.mp hstep
    obtain ⟨hpart, hall⟩ := connectionSend_spec hsend
    exact h.sent hg.1 hg.2 hpart hall
  | shutDown =>
    cases hstep
    exact ⟨h.fits, h.untorn, h.bytes, h.whole, h.resumed, h.arrived, h.delivered, h.kept⟩
  | read event =>
    rw [Delivery.step] at hstep
    split_ifs at hstep with hfd hnext
    · subst hfd
      obtain ⟨⟨result, receiver⟩, hrun, rfl⟩ := Option.map_eq_some_iff.mp hstep
      obtain rfl := (@ensures_perform _ c.receiver id event).elim hrun
      exact h.read hnext.1 (hg rfl) hnext.2
    · obtain ⟨⟨result, receiver⟩, hrun, rfl⟩ := Option.map_eq_some_iff.mp hstep
      obtain rfl := (@ensures_perform _ c.receiver id event).elim hrun
      exact h.sameFor (Service.sameFor_afterRead (Ne.symm hfd))

/-! ### Runs -/

/-- **What is sent arrives**, in every run of a connection whose stream the receiver reads in any
chunks and with any events of other connections between them, however the system takes the bytes
of the messages. Up to the first message that was sent in part, the messages for which
`ConnectionSend` returned true are given to the handler once each and in order, as soon as all their
bytes are there, and nothing else is given to it before them. If nothing was sent after that
message, nothing else is given to it at all. -/
theorem messages_arrive {s : Service UInt8} {events : List Event} {fd : ℕ} {c : Connection}
    (hdelivered : s.delivered fd = []) (hkept : s.kept fd = [])
    (hguard : GuardedSteps (step fd) (Orderly fd) events { receiver := s })
    (hrun : runSteps (step fd) events { receiver := s } = some c) :
    c.untorn <+: c.accepted ∧
    (∀ k, (bytesOf (c.untorn.take k)).length ≤ c.arrived →
      c.untorn.take k <+: c.receiver.delivered fd) ∧
    (c.receiver.delivered fd <+: c.untorn ∨ c.untorn <+: c.receiver.delivered fd) ∧
    (c.resumed = false → c.untorn = c.accepted ∧ c.receiver.delivered fd <+: c.accepted ∧
      (c.arrived = c.stream.length → c.receiver.delivered fd = c.accepted)) := by
  have h : Sound fd c := (reachable_of_runSteps hguard hrun).invariant
    (.start hdelivered hkept) fun _ _ _ hg hi hstep => hi.step hg hstep
  have hfront : c.receiver.delivered fd <+: ((frames id).parse c.stream).1 := by
    rw [h.delivered]
    conv_rhs => rw [← List.take_append_drop c.arrived c.stream]
    exact Splitter.parse_prefix_append _ _
  refine ⟨h.untorn, fun k hk => ?_, ?_, fun hresumed => ?_⟩
  · have hbytes : bytesOf (c.untorn.take k) <+: c.stream := by
      refine List.IsPrefix.trans ?_ h.bytes
      conv_rhs => rw [← List.take_append_drop k c.untorn, bytesOf_append]
      exact List.prefix_append _ _
    obtain ⟨x, hx⟩ := List.prefix_take_iff.mpr ⟨hbytes, hk⟩
    rw [h.delivered, ← hx, parse_bytesOf_append fun m hm => h.fits m (List.mem_of_mem_take hm)]
    exact List.prefix_append _ _
  · obtain ⟨x, hx⟩ := h.bytes
    rw [← hx, parse_bytesOf_append h.fits] at hfront
    exact List.prefix_or_prefix_of_prefix hfront (List.prefix_append _ _)
  · obtain ⟨haccepted, hparse⟩ := h.resumed hresumed
    rw [hparse] at hfront
    refine ⟨haccepted, hfront, fun harrived => ?_⟩
    rw [h.delivered, harrived, List.take_length, hparse]

/-- Two messages, the first of which the system takes in two pieces with an interruption between
them, and the receiver gets in two chunks that do not end where the pieces do. Then the peer is
gone. -/
def sampleEvents : List Event :=
  [.send [1, 2] 100 [⟨100, true, .sent 3⟩, ⟨150, true, .interrupted⟩, ⟨200, true, .sent 5⟩],
    .read ⟨5, [.data [0xf8]], .wouldBlock, fun _ => false⟩,
    .send [3] 300 [⟨300, true, .sent 7⟩],
    .read ⟨6, [.data [0xf8]], .peerClose, fun _ => true⟩,
    .shutDown,
    .read ⟨5, [.data [0x8f, 0, 0, 0, 8, 1, 2, 0xf8], .interrupted, .data [0x8f, 0, 0, 0, 7, 3]],
      .peerClose, fun _ => false⟩]

/-- A receiver whose connections are open. -/
def sampleReceiver : Service UInt8 := { Service.initial with isConnect := fun _ => true }

theorem messages_arrive_sample : ∃ c,
    runSteps (step 5) sampleEvents { receiver := sampleReceiver } = some c ∧
      c.receiver.delivered 5 = [[1, 2], [3]] := by
  have hmap : (runSteps (step 5) sampleEvents { receiver := sampleReceiver }).map
      (fun c => (c.accepted, c.arrived, c.stream.length, c.resumed)) =
        some ([[1, 2], [3]], 15, 15, false) := by decide +kernel
  obtain ⟨c, hrun, hc⟩ := Option.map_eq_some_iff.mp hmap
  simp only [Prod.mk.injEq] at hc
  obtain ⟨haccepted, harrived, hlength, hresumed⟩ := hc
  have hguard : GuardedSteps (step 5) (Orderly 5) sampleEvents { receiver := sampleReceiver } := by
    simp [sampleEvents, GuardedSteps, Orderly]
  have harrive := messages_arrive rfl rfl hguard hrun
  exact ⟨c, hrun, (harrive.2.2.2 hresumed).2.2 (harrived.trans hlength.symm) |>.trans haccepted⟩

/-- The time is up when all bytes but the last one of a message are sent. Another message is sent
after it, and the system takes all of its bytes. -/
def tornEvents : List Event :=
  [.send [1, 2, 3] 100 [⟨100, true, .sent 8⟩, ⟨3100, true, .sent 1⟩],
    .send [4] 3200 [⟨3200, true, .sent 7⟩],
    .read ⟨5, [.data [0xf8, 0x8f, 0, 0, 0, 9, 1, 2, 0xf8, 0x8f, 0, 0, 0, 7, 4]], .wouldBlock,
      fun _ => false⟩]

/-- **A message that was sent in part spoils the next one.** All bytes have arrived. The handler is
given a message that nobody sent, and not the one for which `ConnectionSend` returned true. -/
theorem torn_message_spoils_the_next :
    (runSteps (step 5) tornEvents { receiver := sampleReceiver }).map
      (fun c => (c.accepted, decide (c.arrived = c.stream.length), c.receiver.delivered 5)) =
        some ([[4]], true, [[1, 2, 0xf8]]) := by
  decide +kernel

end Lsf.Delivery
