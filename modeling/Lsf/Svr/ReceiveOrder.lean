import Lsf.Foundations.Reachability
import Lsf.Svr.BlockRecv
import Lsf.Svr.Chunking
import Mathlib.Data.List.Infix

/-!
# Both ways to receive

A connection can be received from by `BlockRecv` and by read events, in any order. Both leave what
they do not use in `ReadDataBuffer`. A read event puts it in front of what it receives; `BlockRecv`
does not look at it, and returns what arrived later before it.

Here every byte carries its place in the stream next to its value, so that equal messages at
different places are told apart.

## Main definitions

* `Receiver`, `ReceiveEvent`, `Receiver.step` — a connection, and what has come out of it
* `Receiver.InOrder` — the contents are the messages of the stream in order
* `ReceiveEvent.Orderly` — the condition on a call of `BlockRecv`

## Main results

* `inOrder_iff_orderly`, `blockRecv_returns_newer_bytes`
-/

namespace Lsf.Svr

/-- A byte and its place in the stream. -/
abbrev Placed := UInt8 × ℕ

/-! ### Places -/

/-- What one call of `recv` gives, from the place `n` on. -/
def Recv.place (n : ℕ) : Recv UInt8 → Recv Placed
  | .data bytes => .data (bytes.zipIdx n)
  | .interrupted => .interrupted

/-- What calls of `recv` give, from a place on. -/
def placeRecvs : ℕ → List (Recv UInt8) → List (Recv Placed)
  | _, [] => []
  | n, recv :: recvs => recv.place n :: placeRecvs (n + recv.bytes.length) recvs

/-- What calls of `BlockRecv` get, from a place on. -/
def placeCalls : ℕ → List (RecvCall UInt8) → List (RecvCall Placed)
  | _, [] => []
  | n, call :: calls => ⟨call.ready, placeRecvs n call.recvs, call.ending⟩ ::
      placeCalls (n + (received call.recvs).length) calls

/-- What a read event gets, from a place on. -/
def ReadEvent.place (n : ℕ) (e : ReadEvent UInt8) : ReadEvent Placed :=
  ⟨e.fd, placeRecvs n e.recvs, e.ending, e.closes⟩

theorem received_placeRecvs {n : ℕ} {recvs : List (Recv UInt8)} :
    received (placeRecvs n recvs) = (received recvs).zipIdx n := by
  induction recvs generalizing n with
  | nil => rfl
  | cons recv recvs ih =>
    have hfirst : (recv.place n).bytes = recv.bytes.zipIdx n := by
      cases recv <;> rfl
    show (recv.place n).bytes ++ received (placeRecvs _ recvs) =
      (recv.bytes ++ received recvs).zipIdx n
    rw [hfirst, ih, List.zipIdx_append]

theorem bytesOf_placeCalls {n : ℕ} {calls : List (RecvCall UInt8)} :
    bytesOf (placeCalls n calls) = (bytesOf calls).zipIdx n := by
  induction calls generalizing n with
  | nil => rfl
  | cons call calls ih =>
    show received (placeRecvs n call.recvs) ++ bytesOf (placeCalls _ calls) =
      (received call.recvs ++ bytesOf calls).zipIdx n
    rw [received_placeRecvs, ih, List.zipIdx_append]

theorem seesEnd_placeCalls {n : ℕ} {calls : List (RecvCall UInt8)} :
    SeesEnd (placeCalls n calls) ↔ SeesEnd calls := by
  induction calls generalizing n with
  | nil => simp [SeesEnd, placeCalls]
  | cons call calls ih =>
    simp only [SeesEnd, placeCalls, List.mem_cons, exists_eq_or_imp] at ih ⊢
    rw [ih]

/-! ### A connection -/

/-- The process, and what has happened on one of its connections. -/
structure Receiver where
  service : Service Placed
  /-- The bytes that were received on the connection so far. -/
  stream : List UInt8
  /-- The contents that `BlockRecv` has returned and `OnConnectionMessage` was given, in order of
  time. -/
  taken : List (List Placed)
  /-- The service has closed the connection, in a handler or after an error. -/
  quit : Bool

/-- What happens to a service that reads. -/
inductive ReceiveEvent
  /-- `AsyncRead` is called. -/
  | asyncRead (fd : ℕ)
  /-- A read event for a descriptor with a read completion. -/
  | read (e : ReadEvent UInt8)
  /-- `BlockRecv` is called and returns a content. -/
  | block (fd : ℕ) (calls : List (RecvCall UInt8))

namespace Receiver

/-- The connection `fd` of a process starts. -/
def opened (service : Service Placed) (fd : ℕ) : Receiver where
  service :=
    { service with
      dataMap := Function.update service.dataMap fd none
      isConnect := Function.update service.isConnect fd true }
  stream := []
  taken := []
  quit := false

/-- The peer has closed the connection, so that nothing more arrives. -/
def ended (r : Receiver) (fd : ℕ) : Bool := !r.service.isConnect fd && !r.quit

/-- After a read event of the connection that led to `service`. -/
def afterRead (r : Receiver) (e : ReadEvent UInt8) (service : Service Placed) : Receiver :=
  let contents := (service.delivered e.fd).drop (r.service.delivered e.fd).length
  { service
    stream := r.stream ++ received e.recvs
    taken := r.taken ++ contents
    quit := r.quit || r.service.isConnect e.fd &&
      (e.ending == .error || (List.range contents.length).any e.closes) }

/-- After a call of `BlockRecv` for the connection that led to `service`. -/
def afterBlock (r : Receiver) (calls : List (RecvCall UInt8)) (content : List Placed)
    (service : Service Placed) : Receiver where
  service
  stream := r.stream ++ bytesOf calls
  taken := r.taken ++ [content]
  quit := r.quit

/-- The steps of the process, with the connection `fd`. -/
def step (parses : List UInt8 → Bool) (fd : ℕ) : ReceiveEvent → Receiver → Option Receiver
  | .asyncRead other, r =>
    some { r with service :=
      { r.service with readFunc := Function.update r.service.readFunc other true } }
  | .read e, r =>
    if r.service.readFunc e.fd = false ∨ e.fd = fd ∧ r.ended fd ∧ received e.recvs ≠ [] then none
    else
      (((e.place r.stream.length).perform Prod.fst).run r.service).map fun (_, service) =>
        if e.fd = fd then r.afterRead e service else { r with service }
  | .block other calls, r =>
    match (blockRecv Prod.fst parses other (placeCalls r.stream.length calls)).run r.service with
    | some (some content, service) =>
      some (if other = fd then r.afterBlock calls content service else { r with service })
    | _ => none

/-- The messages of the stream so far, and what comes after them. -/
def sent (r : Receiver) : List (List Placed) × List Placed :=
  (frames Prod.fst).parse r.stream.zipIdx

/-- The messages that wait in `ReadDataBuffer`, and what comes after them. -/
def waiting (r : Receiver) (fd : ℕ) : List (List Placed) × List Placed :=
  (frames Prod.fst).parse (r.service.kept fd)

/-- The contents are the messages of the stream in order. While the connection is open, what has not
come out waits in `ReadDataBuffer`; if the peer closes it, all have come out. -/
def InOrder (r : Receiver) (fd : ℕ) : Prop :=
  if r.quit then r.taken <+: r.sent.1
  else if r.service.isConnect fd then (r.taken ++ (r.waiting fd).1, (r.waiting fd).2) = r.sent
  else r.taken = r.sent.1

end Receiver

/-- A call of `BlockRecv` finds nothing saved for the connection, and if it sees the end of the
stream it receives one message only. -/
def ReceiveEvent.Orderly (fd : ℕ) : ReceiveEvent → Receiver → Prop
  | .block other calls, r => other = fd →
      r.service.kept fd = [] ∧ (SeesEnd calls → ((frames id).parse (bytesOf calls)).1.length ≤ 1)
  | _, _ => True

/-! ### Handlers that may close -/

/-- The messages of an event that an open connection gives to its handler, of which the first one is
the `i`-th of the event. -/
def heard {γ : Type} (closes : ℕ → Bool) : ℕ → List γ → List γ
  | _, [] => []
  | i, m :: ms => m :: if closes i then [] else heard closes (i + 1) ms

theorem heard_prefix_messages {γ : Type} {closes : ℕ → Bool} {i : ℕ} {ms : List γ} :
    heard closes i ms <+: ms := by
  induction ms generalizing i with
  | nil => exact List.nil_prefix
  | cons m ms ih =>
    rw [heard]
    split_ifs
    · exact ⟨ms, rfl⟩
    · exact List.cons_prefix_cons.mpr ⟨rfl, ih⟩

/-- No message that is given to the handler makes it close the connection. -/
theorem not_closes_cons {closes : ℕ → Bool} {i n : ℕ} :
    (∀ j < n + 1, closes (i + j) = false) ↔
      closes i = false ∧ ∀ j < n, closes (i + 1 + j) = false := by
  rw [Nat.forall_lt_succ_left]
  simp only [Nat.add_zero, Nat.add_assoc, Nat.add_comm 1]

/-- All messages are given to the handler if it closes the connection for none that it is given. -/
theorem heard_eq_self {γ : Type} {closes : ℕ → Bool} {i : ℕ} {ms : List γ}
    (hc : ∀ j < (heard closes i ms).length, closes (i + j) = false) : heard closes i ms = ms := by
  induction ms generalizing i with
  | nil => rfl
  | cons m ms ih =>
    rw [heard, List.length_cons, not_closes_cons] at hc
    obtain ⟨hfirst, hc⟩ := hc
    rw [hfirst, if_neg Bool.false_ne_true] at hc
    rw [heard, hfirst, if_neg Bool.false_ne_true, ih hc]

namespace Service

variable {β : Type} {s : Service β} {fd i : ℕ} {closes : ℕ → Bool} {messages : List (List β)}
  {val : β → UInt8} {buffer : List β} {ending : Ending}

theorem passedAll_of_not_isConnect (hconn : s.isConnect fd = false) :
    passedAll fd closes i messages s = s := by
  induction messages generalizing i with
  | nil => rfl
  | cons message messages ih =>
    rw [passedAll, passed, if_neg (by simp [hconn])]
    exact ih

/-- What the messages of an open connection do: the handler is given those up to the one that closes
it, if one does. -/
theorem passedAll_of_isConnect (hconn : s.isConnect fd = true) :
    (passedAll fd closes i messages s).delivered fd = s.delivered fd ++ heard closes i messages ∧
    ((passedAll fd closes i messages s).isConnect fd = true ↔
      ∀ j < (heard closes i messages).length, closes (i + j) = false) := by
  induction messages generalizing s i with
  | nil =>
    exact ⟨(List.append_nil _).symm, iff_of_true hconn fun j hj => absurd hj (Nat.not_lt_zero _)⟩
  | cons message messages ih =>
    have hgiven : ({ s with messages := s.messages ++ [(fd, message)] } : Service β).delivered fd =
        s.delivered fd ++ [message] := by
      rw [delivered, List.filter_append, List.filter_cons_of_pos (by simp), List.filter_nil,
        List.map_append]
      rfl
    rw [passedAll, passed, if_pos hconn, heard]
    cases hc : closes i with
    | true =>
      rw [if_pos rfl, if_pos rfl, passedAll_of_not_isConnect closed_isConnect_self]
      refine ⟨hgiven, iff_of_false (by simp) fun h => ?_⟩
      rw [List.length_cons, not_closes_cons, hc] at h
      cases h.1
    | false =>
      rw [if_neg Bool.false_ne_true, if_neg Bool.false_ne_true]
      obtain ⟨hdel, hiff⟩ := @ih { s with messages := s.messages ++ [(fd, message)] } (i + 1) hconn
      refine ⟨by rw [hdel, hgiven, List.append_assoc]; rfl, hiff.trans ?_⟩
      rw [List.length_cons, not_closes_cons, and_iff_right hc]

/-- What a read event of an open connection does, whatever its handlers do. -/
theorem afterRead_of_isConnect (hconn : s.isConnect fd = true) :
    (s.afterRead val closes fd buffer ending).delivered fd =
      s.delivered fd ++ heard closes 0 ((frames val).parse buffer).1 ∧
    ((s.afterRead val closes fd buffer ending).isConnect fd = true ↔ ending = .wouldBlock ∧
      ∀ j < (heard closes 0 ((frames val).parse buffer).1).length, closes j = false) := by
  obtain ⟨hdel, hiff⟩ := @passedAll_of_isConnect _ (s.withData fd none) fd 0 closes
    ((frames val).parse buffer).1 hconn
  simp only [Nat.zero_add] at hiff
  rw [afterRead]
  by_cases he : ending = .wouldBlock
  · rw [if_pos he, saved_delivered, saved_isConnect, hiff, and_iff_right he]
    exact ⟨hdel, Iff.rfl⟩
  · rw [if_neg he]
    refine ⟨?_, iff_of_false (by simp) fun h => he h.1⟩
    show (saved _ fd _).delivered fd = _
    rw [saved_delivered]
    exact hdel

/-- A read event of a connection that is not open gives nothing to its handler. -/
theorem afterRead_of_not_isConnect (hconn : s.isConnect fd = false) :
    (s.afterRead val closes fd buffer ending).delivered fd = s.delivered fd ∧
    (s.afterRead val closes fd buffer ending).isConnect fd = false := by
  have hpass := @passedAll_of_not_isConnect _ (s.withData fd none) fd 0 closes
    ((frames val).parse buffer).1 hconn
  rw [afterRead, hpass]
  by_cases he : ending = .wouldBlock
  · rw [if_pos he, saved_delivered, saved_isConnect]
    exact ⟨rfl, hconn⟩
  · rw [if_neg he]
    refine ⟨?_, closed_isConnect_self⟩
    show (saved _ fd _).delivered fd = _
    rw [saved_delivered]
    rfl

/-- What a read event keeps is the end of its buffer. -/
theorem kept_afterRead_subset : (s.afterRead val closes fd buffer ending).kept fd ⊆ buffer := by
  by_cases he : ending = .wouldBlock
  · rw [he, kept_afterRead]
    exact (parse_rest_suffix buffer).subset
  · rw [afterRead, if_neg he, kept, closed_dataMap_self, Option.getD_none]
    exact List.nil_subset _

/-- A blocking receive leaves what another descriptor sees as it is. -/
theorem sameFor_shut {other : ℕ} (hne : fd ≠ other) {p : Prop} [Decidable p] :
    SameFor fd s (s.shut other p) where
  kept := by rw [kept, shut_dataMap, kept]
  isConnect := shut_isConnect_of_ne hne
  readFunc := by rw [shut_readFunc]
  delivered := by rw [delivered, shut_messages, delivered]

end Service

/-! ### The invariant -/

/-- A connection that the service has closed is not open, and what is kept was received before. -/
structure Receiver.Inv (r : Receiver) (fd : ℕ) : Prop where
  quit : r.quit = true → r.service.isConnect fd = false
  kept : ∀ p ∈ r.service.kept fd, p.2 < r.stream.length

namespace Receiver

variable {parses : List UInt8 → Bool} {fd other : ℕ} {r r' : Receiver} {service : Service Placed}
  {e : ReadEvent UInt8} {calls : List (RecvCall UInt8)} {content : List Placed}

@[simp] theorem afterBlock_service : (r.afterBlock calls content service).service = service := rfl

@[simp] theorem afterBlock_taken :
    (r.afterBlock calls content service).taken = r.taken ++ [content] := rfl

@[simp] theorem afterBlock_quit : (r.afterBlock calls content service).quit = r.quit := rfl

theorem inOrder_iff_of_quit (hquit : r.quit = true) : r.InOrder fd ↔ r.taken <+: r.sent.1 := by
  rw [InOrder, if_pos hquit]

theorem inOrder_iff_of_open (hquit : r.quit = false) (hconn : r.service.isConnect fd = true) :
    r.InOrder fd ↔ (r.taken ++ (r.waiting fd).1, (r.waiting fd).2) = r.sent := by
  rw [InOrder, hquit, if_neg Bool.false_ne_true, if_pos hconn]

theorem inOrder_iff_of_ended (hquit : r.quit = false) (hconn : r.service.isConnect fd = false) :
    r.InOrder fd ↔ r.taken = r.sent.1 := by
  rw [InOrder, hquit, hconn, if_neg Bool.false_ne_true, if_neg Bool.false_ne_true]

theorem kept_opened : (opened service fd).service.kept fd = [] := by
  simp [Service.kept, opened]

theorem inv_opened : (opened service fd).Inv fd where
  quit h := by cases h
  kept p hp := absurd (kept_opened ▸ hp) List.not_mem_nil

theorem inOrder_opened : (opened service fd).InOrder fd := by
  rw [inOrder_iff_of_open rfl (Function.update_self _ _ _), waiting, kept_opened]
  rfl

theorem Inv.quit_eq_false (hi : r.Inv fd) (hconn : r.service.isConnect fd = true) :
    r.quit = false := by
  by_contra hq
  rw [hi.quit (by simpa using hq)] at hconn
  cases hconn

/-- What the connection sees of the process is the same. -/
theorem Inv.of_sameFor (hi : r.Inv fd) (hsame : Service.SameFor fd r.service service) :
    Inv { r with service } fd where
  quit h := hsame.isConnect.trans (hi.quit h)
  kept p hp := hi.kept p (hsame.kept ▸ hp)

theorem inOrder_of_sameFor (hsame : Service.SameFor fd r.service service) :
    InOrder { r with service } fd ↔ r.InOrder fd := by
  simp only [InOrder, waiting, sent, hsame.isConnect, hsame.kept]

/-- The messages of the stream after more of it has arrived. -/
theorem sent_append {bytes : List UInt8} (hstream : r'.stream = r.stream ++ bytes) :
    r'.sent = (frames Prod.fst).parse (r.stream.zipIdx ++ bytes.zipIdx r.stream.length) := by
  rw [sent, hstream, List.zipIdx_append, Nat.zero_add]

/-- Bytes that arrive are placed behind those that have arrived. -/
theorem kept_lt_of_received {k : List Placed} {bytes : List UInt8} (hi : r.Inv fd)
    (hk : k ⊆ r.service.kept fd ++ bytes.zipIdx r.stream.length) :
    ∀ p ∈ k, p.2 < (r.stream ++ bytes).length := by
  intro p hp
  rw [List.length_append]
  obtain hp | hp := List.mem_append.mp (hk hp)
  · exact Nat.lt_add_right _ (hi.kept p hp)
  · exact List.snd_lt_add_of_mem_zipIdx hp

/-! ### Read events -/

/-- The service after a read event. -/
theorem service_of_perform {buffer : Option (List Placed)}
    (hrun : ((e.place r.stream.length).perform Prod.fst).run r.service = some (buffer, service)) :
    service = r.service.afterRead Prod.fst e.closes e.fd
      (r.service.kept e.fd ++ (received e.recvs).zipIdx r.stream.length) e.ending := by
  obtain rfl := (ensures_perform (e := e.place r.stream.length)).elim hrun
  show Service.afterRead _ _ _ _ (_ ++ received (placeRecvs _ e.recvs)) _ = _
  rw [received_placeRecvs]
  rfl

@[simp] theorem afterRead_service : (r.afterRead e service).service = service := rfl

@[simp] theorem afterRead_stream : (r.afterRead e service).stream = r.stream ++ received e.recvs :=
  rfl

/-- What a read event of an open connection adds to what was taken, when the service closes the
connection in it, and what waits after it. `parsed` are the messages of its buffer and the rest. -/
theorem read_of_isConnect {parsed : List (List Placed) × List Placed} (hquit : r.quit = false)
    (hconn : r.service.isConnect e.fd = true)
    (hparsed : (frames Prod.fst).parse (r.service.kept e.fd ++
      (received e.recvs).zipIdx r.stream.length) = parsed)
    (hservice : service = r.service.afterRead Prod.fst e.closes e.fd
      (r.service.kept e.fd ++ (received e.recvs).zipIdx r.stream.length) e.ending) :
    (r.afterRead e service).taken = r.taken ++ heard e.closes 0 parsed.1 ∧
    ((r.afterRead e service).quit = false ↔
      e.ending ≠ .error ∧ ∀ j < (heard e.closes 0 parsed.1).length, e.closes j = false) ∧
    (service.isConnect e.fd = true ↔
      e.ending = .wouldBlock ∧ ∀ j < (heard e.closes 0 parsed.1).length, e.closes j = false) ∧
    (e.ending = .wouldBlock → (r.afterRead e service).waiting e.fd = ([], parsed.2)) := by
  obtain ⟨hdel, hopen⟩ := @Service.afterRead_of_isConnect _ r.service e.fd e.closes Prod.fst
    (r.service.kept e.fd ++ (received e.recvs).zipIdx r.stream.length) e.ending hconn
  rw [← hservice, hparsed] at hdel hopen
  refine ⟨?_, ?_, hopen, fun he => ?_⟩
  · show r.taken ++ (service.delivered e.fd).drop _ = _
    rw [hdel, List.drop_left]
  · simp [afterRead, hquit, hconn, hdel]
  · rw [waiting, afterRead_service, hservice, he, Service.kept_afterRead, hparsed]
    exact Splitter.parse_of_none (hparsed ▸ Splitter.split_rest _)

/-- A read event gives the messages of an open connection to its handler in order. -/
theorem inOrder_read_of_isConnect (hi : r.Inv e.fd) (ho : r.InOrder e.fd)
    (hconn : r.service.isConnect e.fd = true)
    (hservice : service = r.service.afterRead Prod.fst e.closes e.fd
      (r.service.kept e.fd ++ (received e.recvs).zipIdx r.stream.length) e.ending) :
    (r.afterRead e service).InOrder e.fd ∧
      ((r.afterRead e service).quit = true → service.isConnect e.fd = false) := by
  have hquit : r.quit = false := hi.quit_eq_false hconn
  rw [inOrder_iff_of_open hquit hconn, waiting, sent] at ho
  have hsent : (r.afterRead e service).sent = _ := (sent_append rfl).trans
    (Splitter.append_parse_eq_parse ho ((received e.recvs).zipIdx r.stream.length)).symm
  obtain ⟨htaken, hquits, hopen, hwaiting⟩ := read_of_isConnect hquit hconn rfl hservice
  generalize (frames Prod.fst).parse
    (r.service.kept e.fd ++ (received e.recvs).zipIdx r.stream.length) = parsed at *
  cases hq : (r.afterRead e service).quit with
  | true =>
    rw [inOrder_iff_of_quit hq, hsent, htaken]
    refine ⟨(List.prefix_append_right_inj _).mpr heard_prefix_messages, fun _ => ?_⟩
    by_contra hc
    obtain ⟨he, hcloses⟩ := hopen.mp (by simpa using hc)
    rw [hquits.mpr ⟨by rw [he]; decide, hcloses⟩] at hq
    cases hq
  | false =>
    obtain ⟨-, hcloses⟩ := hquits.mp hq
    have hall : heard e.closes 0 parsed.1 = parsed.1 := heard_eq_self (by simpa using hcloses)
    refine ⟨?_, fun h => by cases h⟩
    by_cases he : e.ending = .wouldBlock
    · rw [inOrder_iff_of_open hq (hopen.mpr ⟨he, hcloses⟩), hsent, htaken, hall, hwaiting he,
        List.append_nil]
    · have hclosed : service.isConnect e.fd = false := by
        by_contra hc
        exact he (hopen.mp (by simpa using hc)).1
      rw [inOrder_iff_of_ended hq hclosed, hsent, htaken, hall]

/-- A read event gives nothing of a connection that is not open to its handler. -/
theorem inOrder_read_of_not_isConnect (ho : r.InOrder e.fd)
    (hconn : r.service.isConnect e.fd = false)
    (hended : r.ended e.fd = true → received e.recvs = [])
    (hservice : service = r.service.afterRead Prod.fst e.closes e.fd
      (r.service.kept e.fd ++ (received e.recvs).zipIdx r.stream.length) e.ending) :
    (r.afterRead e service).InOrder e.fd ∧
      ((r.afterRead e service).quit = true → service.isConnect e.fd = false) := by
  obtain ⟨hdel, hclosed⟩ := @Service.afterRead_of_not_isConnect _ r.service e.fd e.closes Prod.fst
    (r.service.kept e.fd ++ (received e.recvs).zipIdx r.stream.length) e.ending hconn
  rw [← hservice] at hdel hclosed
  refine ⟨?_, fun _ => hclosed⟩
  have htaken : (r.afterRead e service).taken = r.taken := by
    show r.taken ++ (service.delivered e.fd).drop _ = _
    rw [hdel, List.drop_length, List.append_nil]
  have hquits : (r.afterRead e service).quit = r.quit := by
    simp [afterRead, hconn]
  cases hq : r.quit with
  | true =>
    rw [inOrder_iff_of_quit hq] at ho
    rw [inOrder_iff_of_quit (hquits.trans hq), htaken, sent_append rfl]
    exact ho.trans (Splitter.parse_prefix_append _ _)
  | false =>
    rw [inOrder_iff_of_ended hq hconn] at ho
    have hsent : (r.afterRead e service).sent = r.sent := by
      rw [sent, afterRead_stream, hended (by simp [ended, hconn, hq]), List.append_nil, sent]
    rw [inOrder_iff_of_ended (hquits.trans hq) hclosed, htaken, hsent, ho]

/-- **A read event of the connection keeps the order.** -/
theorem step_read (hi : r.Inv e.fd) (ho : r.InOrder e.fd)
    (hended : r.ended e.fd = true → received e.recvs = [])
    (hservice : service = r.service.afterRead Prod.fst e.closes e.fd
      (r.service.kept e.fd ++ (received e.recvs).zipIdx r.stream.length) e.ending) :
    (r.afterRead e service).Inv e.fd ∧ (r.afterRead e service).InOrder e.fd := by
  have hkept : service.kept e.fd ⊆
      r.service.kept e.fd ++ (received e.recvs).zipIdx r.stream.length := by
    rw [hservice]
    exact Service.kept_afterRead_subset
  have hread : (r.afterRead e service).InOrder e.fd ∧
      ((r.afterRead e service).quit = true → service.isConnect e.fd = false) := by
    cases hconn : r.service.isConnect e.fd with
    | true => exact inOrder_read_of_isConnect hi ho hconn hservice
    | false => exact inOrder_read_of_not_isConnect ho hconn hended hservice
  exact ⟨⟨hread.2, kept_lt_of_received hi hkept⟩, hread.1⟩

/-! ### Blocking receives -/

/-- The first message of what arrived last is not the first message of what was saved and that. -/
theorem split_behind_saved {k rest rest' : List Placed} {bytes : List UInt8} {n : ℕ}
    (hk : ∀ p ∈ k, p.2 < n) (hne : k ≠ [])
    (hsplit : (frames Prod.fst).split (bytes.zipIdx n) = some (content, rest)) :
    (frames Prod.fst).split (k ++ bytes.zipIdx n) ≠ some (content, rest') := by
  intro hsplit'
  obtain ⟨hlen, hfirst⟩ := getElem?_zero_of_split hsplit
  obtain ⟨-, hfirst'⟩ := getElem?_zero_of_split hsplit'
  rw [List.length_zipIdx] at hlen
  -- the byte behind the header, by its place
  have hsame : (k ++ bytes.zipIdx n)[sizeofHeader]? =
      some (bytes[sizeofHeader], n + sizeofHeader) := by
    rw [← hfirst', hfirst, List.getElem?_zipIdx, List.getElem?_eq_getElem hlen]
    rfl
  obtain hin | hout := Nat.lt_or_ge sizeofHeader k.length
  · rw [List.getElem?_append_left hin] at hsame
    have hplace := hk _ (List.mem_of_getElem? hsame)
    exact absurd hplace (by simp)
  · rw [List.getElem?_append_right hout, List.getElem?_zipIdx, Option.map_eq_some_iff] at hsame
    obtain ⟨b, -, hb⟩ := hsame
    have hplace : n + (sizeofHeader - k.length) = n + sizeofHeader := congrArg Prod.snd hb
    have hpos := List.length_pos_iff.mpr hne
    omega

/-- A call of `BlockRecv` that finds something saved gets out of order, whether it sees the end of
the stream or not. -/
theorem not_parse_behind_saved {k rest : List Placed} {bytes : List UInt8} {n : ℕ}
    {taken tail : List (List Placed)} (hk : ∀ p ∈ k, p.2 < n) (hne : k ≠ [])
    (hsplit : (frames Prod.fst).split (bytes.zipIdx n) = some (content, rest)) :
    taken ++ [content] ++ tail ≠ taken ++ ((frames Prod.fst).parse (k ++ bytes.zipIdx n)).1 := by
  intro h
  rw [List.append_assoc, List.append_cancel_left_eq] at h
  obtain ⟨rest', hsplit'⟩ := Splitter.split_of_parse_eq_cons h.symm
  exact split_behind_saved hk hne hsplit hsplit'

/-- The messages of a chunk are as many wherever it is placed. -/
theorem length_parse_zipIdx {bytes : List UInt8} {n : ℕ} :
    ((frames Prod.fst).parse (bytes.zipIdx n)).1.length = ((frames id).parse bytes).1.length := by
  have hmap := parse_map_frames Prod.fst id (bytes.zipIdx n)
  rw [List.zipIdx_map_fst] at hmap
  rw [hmap, List.length_map]
  rfl

/-- What a call of `BlockRecv` that returns has done to the service. -/
theorem service_of_blockRecv
    (hrun : (blockRecv Prod.fst parses fd (placeCalls r.stream.length calls)).run r.service =
      some (some content, service)) :
    r.service.isConnect fd = true ∧ (service.isConnect fd = true ↔ ¬ SeesEnd calls) ∧ ∃ rest,
      (frames Prod.fst).split ((bytesOf calls).zipIdx r.stream.length) = some (content, rest) ∧
        service.kept fd = r.service.kept fd ++ rest := by
  obtain ⟨hconn, rest, hsplit, hservice⟩ := blockRecv_returns hrun
  refine ⟨hconn, ?_, rest, bytesOf_placeCalls ▸ hsplit, ?_⟩
  · rw [hservice, Service.saved_isConnect, Service.shut_isConnect_self, seesEnd_placeCalls,
      and_iff_right hconn]
  · rw [hservice, Service.kept_saved, Service.kept, Service.shut_dataMap, Service.kept]

theorem inv_afterBlock (hi : r.Inv fd)
    (hrun : (blockRecv Prod.fst parses fd (placeCalls r.stream.length calls)).run r.service =
      some (some content, service)) : (r.afterBlock calls content service).Inv fd := by
  obtain ⟨hconn, -, rest, hsplit, hkept⟩ := service_of_blockRecv hrun
  refine ⟨fun hq => ?_, kept_lt_of_received hi ?_⟩
  · rw [afterBlock_quit, hi.quit_eq_false hconn] at hq
    cases hq
  · rw [afterBlock_service, hkept]
    exact List.append_subset.mpr ⟨List.subset_append_left _ _,
      List.Subset.trans (rest_suffix_of_split hsplit).subset (List.subset_append_right _ _)⟩

/-- **A call of `BlockRecv` for the connection keeps the order exactly if it is orderly.** -/
theorem inOrder_afterBlock_iff (hi : r.Inv fd) (ho : r.InOrder fd)
    (hrun : (blockRecv Prod.fst parses fd (placeCalls r.stream.length calls)).run r.service =
      some (some content, service)) :
    (r.afterBlock calls content service).InOrder fd ↔
      ReceiveEvent.Orderly fd (.block fd calls) r := by
  obtain ⟨hconn, hopen, rest, hsplit, hkept⟩ := service_of_blockRecv hrun
  have hquit : (r.afterBlock calls content service).quit = false := hi.quit_eq_false hconn
  rw [inOrder_iff_of_open (hi.quit_eq_false hconn) hconn, waiting, sent] at ho
  have hsent : (r.afterBlock calls content service).sent = _ := (sent_append rfl).trans
    (Splitter.append_parse_eq_parse ho ((bytesOf calls).zipIdx r.stream.length)).symm
  rw [ReceiveEvent.Orderly, imp_iff_right rfl]
  by_cases hend : SeesEnd calls
  · have hclosed : service.isConnect fd = false := by
      rw [← Bool.not_eq_true, hopen]
      exact not_not_intro hend
    rw [inOrder_iff_of_ended hquit hclosed, hsent, afterBlock_taken, imp_iff_right hend,
      ← @length_parse_zipIdx _ r.stream.length]
    by_cases hk : r.service.kept fd = []
    · rw [hk, List.nil_append, Splitter.parse_of_some hsplit]
      simp
    · refine iff_of_false (fun h => ?_) fun h => hk h.1
      rw [← List.append_nil (_ ++ [content])] at h
      exact not_parse_behind_saved hi.kept hk hsplit h
  · rw [inOrder_iff_of_open hquit (hopen.mpr hend), hsent, afterBlock_taken, waiting,
      afterBlock_service, hkept, and_iff_left fun h => absurd h hend]
    by_cases hk : r.service.kept fd = []
    · refine iff_of_true ?_ hk
      rw [hk, List.nil_append, List.nil_append, Splitter.parse_of_some hsplit, List.append_assoc]
      rfl
    · refine iff_of_false (fun h => ?_) hk
      exact not_parse_behind_saved hi.kept hk hsplit (congrArg Prod.fst h)

/-! ### Steps -/

/-- **A step keeps the order exactly if it is orderly.** -/
theorem step_spec {event : ReceiveEvent} (hi : r.Inv fd) (ho : r.InOrder fd)
    (hstep : step parses fd event r = some r') :
    r'.Inv fd ∧ (r'.InOrder fd ↔ event.Orderly fd r) := by
  cases event with
  | asyncRead other =>
    cases hstep
    exact ⟨⟨hi.quit, hi.kept⟩, iff_of_true ho trivial⟩
  | read e =>
    simp only [step] at hstep
    split_ifs at hstep with hguard hfd
    · obtain ⟨⟨buffer, service⟩, hrun, rfl⟩ := Option.map_eq_some_iff.mp hstep
      subst hfd
      have hended : r.ended e.fd = true → received e.recvs = [] := by
        rw [not_or] at hguard
        simpa using hguard.2
      obtain ⟨hi', ho'⟩ := step_read hi ho hended (service_of_perform hrun)
      exact ⟨hi', iff_of_true ho' trivial⟩
    · obtain ⟨⟨buffer, service⟩, hrun, rfl⟩ := Option.map_eq_some_iff.mp hstep
      have hsame : Service.SameFor fd r.service service := by
        rw [service_of_perform hrun]
        exact Service.sameFor_afterRead (Ne.symm hfd)
      exact ⟨hi.of_sameFor hsame, iff_of_true ((inOrder_of_sameFor hsame).mpr ho) trivial⟩
  | block other calls =>
    simp only [step] at hstep
    split at hstep
    · rename_i content service hrun
      cases hstep
      by_cases hfd : other = fd
      · subst hfd
        rw [if_pos rfl]
        exact ⟨inv_afterBlock hi hrun, inOrder_afterBlock_iff hi ho hrun⟩
      · rw [if_neg hfd]
        obtain ⟨-, rest, -, hservice⟩ := blockRecv_returns hrun
        have hsame : Service.SameFor fd r.service service := by
          rw [hservice]
          exact (Service.sameFor_shut (Ne.symm hfd)).trans (Service.sameFor_saved (Ne.symm hfd))
        exact ⟨hi.of_sameFor hsame, iff_of_true ((inOrder_of_sameFor hsame).mpr ho)
          fun h => absurd h hfd⟩
    · cases hstep

/-- The contents as bytes. -/
def contents (r : Receiver) : List (List UInt8) := r.taken.map (List.map Prod.fst)

/-- The contents that came out in order are the first messages of the byte stream. -/
theorem InOrder.contents_prefix_frames (ho : r.InOrder fd) :
    r.contents <+: ((frames id).parse r.stream).1 := by
  have htaken : r.taken <+: r.sent.1 := by
    cases hquit : r.quit with
    | true => exact (inOrder_iff_of_quit hquit).mp ho
    | false =>
      cases hconn : r.service.isConnect fd with
      | true => exact ⟨_, congrArg Prod.fst ((inOrder_iff_of_open hquit hconn).mp ho)⟩
      | false => exact ((inOrder_iff_of_ended hquit hconn).mp ho) ▸ List.prefix_rfl
  have hmap := parse_map_frames Prod.fst id r.stream.zipIdx
  rw [List.zipIdx_map_fst] at hmap
  rw [hmap]
  exact htaken.map _

end Receiver

/-- **The contents are the messages of the stream in order exactly if every blocking receive is
orderly**: in every run of blocking receives and read events of a connection, whatever chunks the
stream arrives in and whatever happens on other descriptors, the order holds in all states on the
way if and only if no call of `BlockRecv` finds bytes saved for the connection or sees the end of
the stream behind more than one message. -/
theorem inOrder_iff_orderly {parses : List UInt8 → Bool} {fd : ℕ} {service : Service Placed}
    {events : List ReceiveEvent} {r : Receiver}
    (hrun : runSteps (Receiver.step parses fd) events (.opened service fd) = some r) :
    HoldsAlong (Receiver.step parses fd) (Receiver.InOrder · fd) events (.opened service fd) ↔
      GuardedSteps (Receiver.step parses fd) (ReceiveEvent.Orderly fd) events
        (.opened service fd) :=
  holdsAlong_iff_guardedSteps_of_run (I := (Receiver.Inv · fd))
    (fun _ _ _ hi ho hstep => Receiver.step_spec hi ho hstep) hrun Receiver.inv_opened
    Receiver.inOrder_opened

/-- A blocking receive leaves a message behind, which a read event gives to the handler with one
that arrives later. -/
def messageLeftBehind : List ReceiveEvent :=
  [.block 5 [⟨true, [.data [0xf8, 0x8f, 0, 0, 0, 7, 1, 0xf8, 0x8f, 0, 0, 0, 7, 2]], .wouldBlock⟩],
    .asyncRead 5,
    .read ⟨5, [.data [0xf8, 0x8f, 0, 0, 0, 7, 3]], .wouldBlock, fun _ => false⟩]

theorem inOrder_of_messageLeftBehind :
    ∃ r, runSteps (Receiver.step (fun _ => true) 5) messageLeftBehind (.opened .initial 5) =
      some r ∧ r.contents = [[1], [2], [3]] ∧ r.InOrder 5 := by
  have hguard : GuardedSteps (Receiver.step (fun _ => true) 5) (ReceiveEvent.Orderly 5)
      messageLeftBehind (.opened .initial 5) :=
    ⟨fun _ => ⟨Receiver.kept_opened, fun h => by simp [SeesEnd] at h⟩, fun _ _ =>
      ⟨trivial, fun _ _ => ⟨trivial, fun _ _ => trivial⟩⟩⟩
  obtain ⟨r, hrun, hcontents⟩ := (Option.any_eq_true _ _).mp (by decide +kernel :
    ((runSteps (Receiver.step (fun _ => true) 5) messageLeftBehind (.opened .initial 5)).any
      fun r => r.contents == [[1], [2], [3]]) = true)
  exact ⟨r, hrun, eq_of_beq hcontents, ((inOrder_iff_orderly hrun).mpr hguard).last hrun⟩

/-- A second blocking receive does not look for the message that the first one has left behind, and
returns the third message of the stream before the second. -/
theorem blockRecv_returns_newer_bytes :
    ¬ ∀ (events : List ReceiveEvent) (r : Receiver),
      runSteps (Receiver.step (fun _ => true) 5) events (.opened .initial 5) = some r →
        r.InOrder 5 := by
  intro hall
  obtain ⟨r, hrun, h⟩ := (Option.any_eq_true _ _).mp (by decide +kernel :
    ((runSteps (Receiver.step (fun _ => true) 5)
      [.block 5 [⟨true, [.data [0xf8, 0x8f, 0, 0, 0, 7, 1, 0xf8, 0x8f, 0, 0, 0, 7, 2]],
          .wouldBlock⟩],
        .block 5 [⟨true, [.data [0xf8, 0x8f, 0, 0, 0, 7, 3]], .wouldBlock⟩]]
      (.opened .initial 5)).any fun r => r.contents == [[1], [3]] &&
        r.stream == ([[1], [2], [3]].map putSingleMessageIntoStream).flatten) = true)
  obtain ⟨hcontents, hstream⟩ := Bool.and_eq_true_iff.mp h
  have hprefix := (hall _ r hrun).contents_prefix_frames
  rw [eq_of_beq hcontents, eq_of_beq hstream, parse_put (by decide)] at hprefix
  revert hprefix
  decide

end Lsf.Svr
