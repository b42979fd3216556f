import Lsf.Foundations.Reachability
import Lsf.Svr.Chunking

/-!
# Descriptors that are used again

A descriptor number belongs to one connection after the other, and `ReadDataBuffer` knows the
number only. Here every byte carries the connection that it was received on, next to its value, and
a process keeps the buffers that it has handed to read handlers.

The messages of a read event are passed on before what is left over is saved. A handler that closes
its connection on the way clears the number too early, and what is saved after it is found by the
next connection with the number.

## Main definitions

* `Host`, `HostEvent`, `Host.step` — connections come, receive, are closed and free their numbers
* `HostEvent.Spares` — no read event saves bytes for a connection that its handler has closed

## Main results

* `handed_own_bytes_without_save_after_close`, `handed_bytes_of_a_closed_connection`
-/

namespace Lsf.Svr

/-- A byte and the connection that it was received on. -/
abbrev Received := UInt8 × ℕ

/-- What is received on the connection `c`. -/
def Recv.from (c : ℕ) : Recv UInt8 → Recv Received
  | .data bytes => .data (bytes.map fun b => (b, c))
  | .interrupted => .interrupted

/-- A process with the connections that hold its descriptors. -/
structure Host where
  service : Service Received
  /-- The connection whose socket has the descriptor open. -/
  conn : ℕ → Option ℕ
  nextConn : ℕ
  /-- The buffers handed to the read handler so far, and the connection each was handed to. -/
  handed : List (ℕ × List Received)

/-- What happens to the connections of a service. -/
inductive HostEvent
  /-- A connection is accepted with a descriptor that is free, and `AsyncRead` is called. -/
  | accept (fd : ℕ)
  /-- `OnReadEvent` for a descriptor with a read completion. -/
  | read (fd : ℕ) (recvs : List (Recv UInt8)) (ending : Ending) (closes : ℕ → Bool)
  /-- `ConnectionClose` outside a read event. -/
  | close (fd : ℕ)
  /-- The socket is destroyed, after its completion was cancelled. -/
  | release (fd : ℕ)

namespace Host

/-- No connection was made. -/
def initial : Host := ⟨.initial, fun _ => none, 0, []⟩

/-- The new connection gets a socket with the descriptor `fd`. -/
def accepted (h : Host) (fd : ℕ) : Host where
  service :=
    { h.service with
      isConnect := Function.update h.service.isConnect fd true
      readFunc := Function.update h.service.readFunc fd true }
  conn := Function.update h.conn fd (some h.nextConn)
  nextConn := h.nextConn + 1
  handed := h.handed

/-- What a read event does for the connection `c`. -/
def read (h : Host) (fd c : ℕ) (recvs : List (Recv UInt8)) (ending : Ending)
    (closes : ℕ → Bool) : Option Host :=
  ((onReadEvent Prod.fst closes fd (recvs.map (Recv.from c)) ending).run h.service).map
    fun (buffer, service) =>
      { h with service, handed := h.handed ++ buffer.toList.map (c, ·) }

/-- An event, none where it is not possible. -/
def step : HostEvent → Host → Option Host
  | .accept fd, h => if h.conn fd = none then some (h.accepted fd) else none
  | .read fd recvs ending closes, h =>
    if h.service.readFunc fd then
      (h.conn fd).bind fun c => h.read fd c recvs ending closes
    else none
  | .close fd, h =>
    if (h.conn fd).isSome then
      ((connectionClose fd).run h.service).map fun (_, service) => { h with service }
    else none
  | .release fd, h =>
    if h.service.readFunc fd then none
    else some { h with conn := Function.update h.conn fd none }

/-- Every buffer consists of bytes of the connection that it was handed to. -/
def Unmixed (h : Host) : Prop := ∀ p ∈ h.handed, ∀ b ∈ p.2, b.2 = p.1

instance (h : Host) : Decidable h.Unmixed :=
  inferInstanceAs (Decidable (∀ p ∈ h.handed, ∀ b ∈ p.2, b.2 = p.1))

/-- The messages of the buffer of a read event, and what is left over. -/
def parsed (h : Host) (fd c : ℕ) (recvs : List (Recv UInt8)) :
    List (List Received) × List Received :=
  (frames Prod.fst).parse (h.service.bufferOf fd (recvs.map (Recv.from c)))

end Host

/-- A read event that finds no end of the stream either leaves nothing over, or none of the handlers
of its messages closes the connection. -/
def HostEvent.Spares : HostEvent → Host → Prop
  | .read fd recvs .wouldBlock closes, h => ∀ c, h.conn fd = some c →
      (h.parsed fd c recvs).2 = [] ∨ ∀ i < (h.parsed fd c recvs).1.length, closes i = false
  | _, _ => True

/-! ### The invariant -/

theorem mem_received_from {c : ℕ} {recvs : List (Recv UInt8)} {b : Received}
    (hb : b ∈ received (recvs.map (Recv.from c))) : b.2 = c := by
  simp only [received, List.map_map, List.mem_flatten, List.mem_map, Function.comp_apply] at hb
  obtain ⟨_, ⟨recv, -, rfl⟩, hb⟩ := hb
  cases recv with
  | data bytes =>
    obtain ⟨_, -, rfl⟩ := List.mem_map.mp hb
    rfl
  | interrupted => exact absurd hb List.not_mem_nil

namespace Service

variable {β : Type} {s : Service β} {fd : ℕ} {closes : ℕ → Bool}

theorem readFunc_passedAll {i : ℕ} {messages : List (List β)}
    (hc : ∀ j < messages.length, closes (i + j) = false) :
    (passedAll fd closes i messages s).readFunc = s.readFunc := by
  induction messages generalizing s i with
  | nil => rfl
  | cons message messages ih =>
    have hpassed : (s.passed fd (closes i) message).readFunc = s.readFunc := by
      have hfirst : closes i = false := hc 0 (Nat.succ_pos _)
      rw [passed, hfirst, if_neg Bool.false_ne_true]
      split_ifs <;> rfl
    rw [passedAll, ih fun j hj => ?_, hpassed]
    rw [Nat.add_assoc, Nat.add_comm 1]
    exact hc (j + 1) (Nat.succ_lt_succ hj)

/-- A descriptor keeps its completion if no handler closes the connection. -/
theorem readFunc_afterRead {val : β → UInt8} {buffer : List β}
    (hc : ∀ i < ((frames val).parse buffer).1.length, closes i = false) :
    (s.afterRead val closes fd buffer .wouldBlock).readFunc = s.readFunc := by
  have hsaved : ∀ (s : Service β) rest, (s.saved fd rest).readFunc = s.readFunc := by
    intro s rest
    rw [saved]
    split_ifs <;> rfl
  rw [afterRead, if_pos rfl, hsaved, readFunc_passedAll fun j hj => by rw [Nat.zero_add, hc j hj]]
  rfl

end Service

/-- What is kept for a descriptor was received on the connection that has it open, and that
connection is still being read. -/
structure Host.Inv (h : Host) : Prop where
  unmixed : h.Unmixed
  kept : ∀ fd, h.service.kept fd ≠ [] → h.service.readFunc fd = true ∧
    ∃ c, h.conn fd = some c ∧ ∀ b ∈ h.service.kept fd, b.2 = c

namespace Host.Inv

variable {h h' : Host} {fd c : ℕ} {recvs : List (Recv UInt8)} {ending : Ending}
  {closes : ℕ → Bool}

theorem initial : Host.initial.Inv :=
  ⟨fun _ hp => absurd hp List.not_mem_nil, fun _ hk => absurd rfl hk⟩

/-- Nothing is kept for a descriptor that is free. -/
theorem kept_eq_nil (hi : h.Inv) (hfree : h.conn fd = none) : h.service.kept fd = [] := by
  by_contra hk
  obtain ⟨-, c, hc, -⟩ := hi.kept fd hk
  rw [hfree] at hc
  cases hc

theorem accepted (hi : h.Inv) (hfree : h.conn fd = none) : (h.accepted fd).Inv := by
  refine ⟨hi.unmixed, fun other hk => ?_⟩
  have hne : other ≠ fd := by
    rintro rfl
    exact hk (hi.kept_eq_nil hfree)
  obtain ⟨hread, c, hc, hb⟩ := hi.kept other hk
  exact ⟨(Function.update_of_ne hne _ _).trans hread, c,
    (Function.update_of_ne hne _ _).trans hc, hb⟩

/-- All of the buffer of a read event was received on the connection. -/
theorem bufferOf (hi : h.Inv) (hc : h.conn fd = some c) :
    ∀ b ∈ h.service.bufferOf fd (recvs.map (Recv.from c)), b.2 = c := by
  intro b hb
  obtain hb | hb := List.mem_append.mp hb
  · obtain ⟨-, c', hc', hall⟩ := hi.kept fd (List.ne_nil_of_mem hb)
    rw [hc] at hc'
    cases hc'
    exact hall b hb
  · exact mem_received_from hb

theorem read (hi : h.Inv) (hread : h.service.readFunc fd = true) (hc : h.conn fd = some c)
    (hspares : HostEvent.Spares (.read fd recvs ending closes) h)
    (hstep : h.read fd c recvs ending closes = some h') : h'.Inv := by
  obtain ⟨⟨buffer, service⟩, hrun, rfl⟩ := Option.map_eq_some_iff.mp hstep
  obtain ⟨hbuffer, hservice⟩ := (ensures_onReadEvent (Q := fun buffer service =>
    buffer = _ ∧ service = _)).mpr ⟨rfl, rfl⟩ |>.elim hrun
  have htags := @bufferOf _ _ _ recvs hi hc
  refine ⟨?_, fun other hk => ?_⟩
  · intro p hp
    obtain hp | hp := List.mem_append.mp hp
    · exact hi.unmixed p hp
    · obtain ⟨bytes, hbytes, rfl⟩ := List.mem_map.mp hp
      rw [hbuffer] at hbytes
      split_ifs at hbytes with hne
      · obtain rfl := List.mem_singleton.mp hbytes
        exact htags
      · exact absurd hbytes List.not_mem_nil
  · rw [show Host.service _ = service from rfl, hservice] at hk ⊢
    by_cases hfd : other = fd
    · subst hfd
      have hblock : ending = .wouldBlock := by
        by_contra hne
        refine hk ?_
        rw [Service.afterRead, if_neg hne, Service.kept, Service.closed_dataMap_self,
          Option.getD_none]
      subst hblock
      rw [Service.kept_afterRead] at hk ⊢
      obtain hrest | hquiet := hspares c hc
      · exact absurd hrest hk
      · refine ⟨?_, c, hc, fun b hb => htags b ((parse_rest_suffix _).subset hb)⟩
        rw [Service.readFunc_afterRead hquiet]
        exact hread
    · have hsame : Service.SameFor other h.service (h.service.afterRead Prod.fst closes fd
          (h.service.bufferOf fd (recvs.map (Recv.from c))) ending) :=
        Service.sameFor_afterRead hfd
      rw [hsame.kept] at hk ⊢
      rw [hsame.readFunc]
      exact hi.kept other hk

theorem close (hi : h.Inv) (hstep : Host.step (.close fd) h = some h') : h'.Inv := by
  simp only [Host.step] at hstep
  split_ifs at hstep
  obtain ⟨⟨_, service⟩, hrun, rfl⟩ := Option.map_eq_some_iff.mp hstep
  have hservice : service = h.service.closed fd :=
    (ensures_cancel_shutDown (Q := fun _ service => service = _)).mpr rfl |>.elim hrun
  refine ⟨hi.unmixed, fun other hk => ?_⟩
  rw [show Host.service _ = service from rfl, hservice] at hk ⊢
  by_cases hfd : other = fd
  · subst hfd
    refine absurd ?_ hk
    rw [Service.kept, Service.closed_dataMap_self, Option.getD_none]
  · have hsame : Service.SameFor other h.service _ := Service.sameFor_closed hfd
    rw [hsame.kept] at hk ⊢
    rw [hsame.readFunc]
    exact hi.kept other hk

theorem release (hi : h.Inv) (hread : h.service.readFunc fd = false) :
    Host.Inv { h with conn := Function.update h.conn fd none } := by
  refine ⟨hi.unmixed, fun other hk => ?_⟩
  obtain ⟨hother, c, hc, hb⟩ := hi.kept other hk
  have hne : other ≠ fd := by
    rintro rfl
    rw [hread] at hother
    cases hother
  exact ⟨hother, c, (Function.update_of_ne hne _ _).trans hc, hb⟩

/-- Every event that spares the buffer keeps the invariant. -/
theorem step {e : HostEvent} (hi : h.Inv) (hspares : e.Spares h)
    (hstep : Host.step e h = some h') : h'.Inv := by
  cases e with
  | accept fd =>
    simp only [Host.step] at hstep
    split_ifs at hstep with hfree
    cases hstep
    exact hi.accepted hfree
  | read fd recvs ending closes =>
    simp only [Host.step] at hstep
    split_ifs at hstep with hread
    obtain ⟨c, hc, hstep⟩ := Option.bind_eq_some_iff.mp hstep
    exact hi.read hread hc hspares hstep
  | close fd => exact hi.close hstep
  | release fd =>
    simp only [Host.step] at hstep
    split_ifs at hstep with hread
    cases hstep
    exact hi.release (Bool.not_eq_true _ ▸ hread)

end Host.Inv

/-- **Every buffer that is handed to a read handler was received on its own connection**, in every
run in which no read event leaves bytes over after one of its handlers has closed the connection. -/
theorem handed_own_bytes_without_save_after_close {h : Host}
    (hreach : Reachable Host.step HostEvent.Spares Host.initial h) : h.Unmixed :=
  (hreach.invariant Host.Inv.initial fun _ _ _ hspares (hi : Host.Inv _) hstep =>
    hi.step hspares hstep).unmixed

/-- A descriptor that two connections use, the first of which is closed by its peer after its
handler has closed it. -/
def descriptorUsedTwice : List HostEvent :=
  [.accept 5, .read 5 [.data [0xf8, 0x8f, 0, 0, 0, 7, 1, 2]] .peerClose fun _ => true, .release 5,
    .accept 5, .read 5 [.data [3]] .wouldBlock fun _ => false]

theorem handed_own_bytes_of_descriptorUsedTwice :
    ∃ h, runSteps Host.step descriptorUsedTwice Host.initial = some h ∧ h.Unmixed := by
  have hguard : GuardedSteps Host.step HostEvent.Spares descriptorUsedTwice Host.initial :=
    ⟨trivial, fun _ _ => ⟨trivial, fun _ _ => ⟨trivial, fun _ _ => ⟨trivial, fun _ _ =>
      ⟨fun _ _ => .inr fun _ _ => rfl, fun _ _ => trivial⟩⟩⟩⟩⟩
  obtain ⟨h, hrun⟩ := Option.isSome_iff_exists.mp (by decide +kernel :
    (runSteps Host.step descriptorUsedTwice Host.initial).isSome = true)
  exact ⟨h, hrun, handed_own_bytes_without_save_after_close (reachable_of_runSteps hguard hrun)⟩

/-- A login that is refused closes the connection while more bytes wait behind it; the next
connection with the descriptor receives them. -/
theorem handed_bytes_of_a_closed_connection :
    ¬ ∀ h, Reachable Host.step (fun _ _ => True) Host.initial h → h.Unmixed := by
  intro hall
  have hmixed : ∃ h, runSteps Host.step [.accept 5,
      .read 5 [.data [0xf8, 0x8f, 0, 0, 0, 7, 1, 2]] .wouldBlock fun _ => true, .release 5,
      .accept 5, .read 5 [.data [3]] .wouldBlock fun _ => false] Host.initial = some h ∧
        (!decide h.Unmixed) = true :=
    (Option.any_eq_true _ _).mp (by decide +kernel)
  obtain ⟨h, hrun, hmixed⟩ := hmixed
  have hun := hall h (reachable_of_runSteps (guardedSteps_true _ _) hrun)
  simp [hun] at hmixed

end Lsf.Svr
