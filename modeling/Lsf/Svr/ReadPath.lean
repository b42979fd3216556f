import Lsf.Foundations.Ensures
import Lsf.Svr.Frame
import Mathlib.Logic.Function.Basic

/-!
# From a read event to the messages

`OnReadEvent` puts the bytes that an earlier event left unused in front of what it receives, hands
the buffer to `OnSocketRead`, and that passes on the complete messages and saves the rest. What is
left unused is kept in `ReadDataBuffer` under the number of the descriptor.

What the handler of a message does is taken from the outside: for each message of an event, whether
it closes the connection. The calls of the handler are recorded.

## Main definitions

* `Service` — `ReadDataBuffer` and the flags of the sockets
* `onReadEvent`, `onSocketRead`, `connectionClose`, `asyncCancel`

## Main results

* `ensures_onSocketRead`, `ensures_onReadEvent` — in terms of `frames`
-/

namespace Lsf.Svr

variable {β : Type}

/-- The part of the process that a read event can touch. -/
structure Service (β : Type) where
  /-- `ReadDataBuffer::_data_map`. -/
  dataMap : ℕ → Option (List β)
  /-- `_is_connect` of the socket that holds a descriptor. -/
  isConnect : ℕ → Bool
  /-- Whether there is a read completion for a descriptor. -/
  readFunc : ℕ → Bool
  /-- The calls of `OnConnectionMessage` so far. -/
  messages : List (ℕ × List β)

/-- No descriptor is open and nothing is saved. -/
def Service.initial : Service β := ⟨fun _ => none, fun _ => false, fun _ => false, []⟩

/-- A program of the service. -/
abbrev Prog (β γ : Type) := StateT (Service β) Option γ

/-! ### ReadDataBuffer -/

/-- The saved bytes of a descriptor are replaced. -/
def setData (fd : ℕ) (data : Option (List β)) : Prog β Unit :=
  modify fun s => { s with dataMap := Function.update s.dataMap fd data }

/-- `AppendUnusedData`. -/
def appendUnusedData (fd : ℕ) (data : List β) : Prog β Unit := do
  setData fd (some (((← get).dataMap fd).getD [] ++ data))

/-- `ClearUnusedData`. -/
def clearUnusedData (fd : ℕ) : Prog β Unit := setData fd none

/-- `CheckUnusedData`: `data` with what was saved in front of it. -/
def checkUnusedData (fd : ℕ) (data : List β) : Prog β (List β) := do
  match (← get).dataMap fd with
  | none => return data
  | some saved => do
    clearUnusedData fd
    return saved ++ data

/-! ### Closing -/

/-- `AsyncCancel`. -/
def asyncCancel (fd : ℕ) : Prog β Unit := do
  modify fun s => { s with readFunc := Function.update s.readFunc fd false }
  clearUnusedData fd

/-- `ShutDown`. -/
def shutDown (fd : ℕ) : Prog β Unit :=
  modify fun s => { s with isConnect := Function.update s.isConnect fd false }

/-- `ConnectionClose`. -/
def connectionClose (fd : ℕ) : Prog β Unit := do
  asyncCancel fd
  shutDown fd

/-! ### OnSocketRead -/

/-- `OnConnectionMessage`, which may close the connection. -/
def onConnectionMessage (closes : Bool) (fd : ℕ) (message : List β) : Prog β Unit := do
  modify fun s => { s with messages := s.messages ++ [(fd, message)] }
  if closes then connectionClose fd

/-- The message goes to the handler while the socket is connected. -/
def passMessage (closes : Bool) (fd : ℕ) (message : List β) : Prog β Unit := do
  if (← get).isConnect fd then onConnectionMessage closes fd message

/-- The loop of `OnSocketRead` from `pos` on: the position where it stops. The handler of the
`i`-th message closes the connection if `closes i`. -/
def socketReadLoop (val : β → UInt8) (closes : ℕ → Bool) (fd : ℕ) (buffer : List β) :
    ℕ → ℕ → ℕ → Prog β ℕ
  | 0, _, _ => fun _ => none
  | rounds + 1, i, pos =>
    match getSingleMessageFromStream val buffer pos with
    | none => pure pos
    | some (message, pos) => do
      passMessage (closes i) fd message
      socketReadLoop val closes fd buffer rounds (i + 1) pos

/-- `OnSocketRead`. -/
def onSocketRead (val : β → UInt8) (closes : ℕ → Bool) (fd : ℕ) (buffer : List β) :
    Prog β Unit := do
  let pos ← socketReadLoop val closes fd buffer (buffer.length + 1) 0 0
  -- if buffer has unused data, just save it
  if pos < buffer.length then appendUnusedData fd (buffer.drop pos)

/-! ### OnReadEvent -/

/-- What one call of `recv` gives while the loop goes on: some data, or an interruption. -/
inductive Recv (β : Type)
  | data (bytes : List β)
  | interrupted

/-- The bytes that a call of `recv` gives. -/
def Recv.bytes : Recv β → List β
  | .data bytes => bytes
  | .interrupted => []

/-- How the loop of `recv` ends. -/
inductive Ending
  | wouldBlock
  | error
  | peerClose
  deriving DecidableEq

/-- The bytes that the loop of `recv` appends to the buffer. -/
def received (recvs : List (Recv β)) : List β := (recvs.map Recv.bytes).flatten

/-- `if (!buffer.empty() && ...) read_func(...)`, for the read handler `OnSocketRead`. -/
def handleRead (val : β → UInt8) (closes : ℕ → Bool) (fd : ℕ) (buffer : List β) :
    Prog β Unit := do
  if buffer ≠ [] then onSocketRead val closes fd buffer

/-- `if (shutdown_socket) ...`. -/
def handleShutdown (fd : ℕ) (ending : Ending) : Prog β Unit := do
  if ending ≠ .wouldBlock then do
    asyncCancel fd
    shutDown fd

/-- `OnReadEvent`: the buffer that it hands to the read handler, if it hands one. The peer close
handler, which comes last, does not touch this state. -/
def onReadEvent (val : β → UInt8) (closes : ℕ → Bool) (fd : ℕ) (recvs : List (Recv β))
    (ending : Ending) : Prog β (Option (List β)) := do
  -- first check and append unused data
  let unused ← checkUnusedData fd []
  let buffer := unused ++ received recvs
  handleRead val closes fd buffer
  -- handle shutdown connection
  handleShutdown fd ending
  return if buffer ≠ [] then some buffer else none

/-! ### What they do -/

namespace Service

variable (s : Service β) (fd : ℕ)

/-- The service with other saved bytes. -/
def withData (data : Option (List β)) : Service β :=
  { s with dataMap := Function.update s.dataMap fd data }

/-- The state after `AsyncCancel` and `ShutDown`. -/
def closed : Service β :=
  { s with
    dataMap := Function.update s.dataMap fd none
    isConnect := Function.update s.isConnect fd false
    readFunc := Function.update s.readFunc fd false }

/-- The state after one message was passed on. -/
def passed (closes : Bool) (message : List β) : Service β :=
  if s.isConnect fd then
    if closes then
      ({ s with messages := s.messages ++ [(fd, message)] } : Service β).closed fd
    else { s with messages := s.messages ++ [(fd, message)] }
  else s

/-- The state after the messages of a buffer were passed on, of which the first one is the `i`-th of
its event. -/
def passedAll (closes : ℕ → Bool) : ℕ → List (List β) → Service β → Service β
  | _, [], s => s
  | i, message :: messages, s => passedAll closes (i + 1) messages (s.passed fd (closes i) message)

/-- The state after the rest of a buffer was saved. -/
def saved (rest : List β) : Service β :=
  if rest = [] then s else s.withData fd (some ((s.dataMap fd).getD [] ++ rest))

variable {s fd} {other : ℕ} {data : Option (List β)}

@[simp] theorem withData_dataMap_self : (s.withData fd data).dataMap fd = data :=
  Function.update_self _ _ _

theorem withData_dataMap_of_ne (hne : other ≠ fd) :
    (s.withData fd data).dataMap other = s.dataMap other :=
  Function.update_of_ne hne _ _

@[simp] theorem closed_dataMap_self : (s.closed fd).dataMap fd = none := Function.update_self _ _ _

@[simp] theorem closed_isConnect_self : (s.closed fd).isConnect fd = false :=
  Function.update_self _ _ _

theorem closed_dataMap_of_ne (hne : other ≠ fd) : (s.closed fd).dataMap other = s.dataMap other :=
  Function.update_of_ne hne _ _

theorem closed_isConnect_of_ne (hne : other ≠ fd) :
    (s.closed fd).isConnect other = s.isConnect other :=
  Function.update_of_ne hne _ _

end Service

section Execution

variable {s : Service β} {fd : ℕ} {val : β → UInt8} {closes : ℕ → Bool} {buffer : List β}

theorem ensures_setData {data : Option (List β)} {Q : Unit → Service β → Prop} :
    Ensures (setData fd data) s Q ↔ Q () (s.withData fd data) := ensures_modify

theorem ensures_checkUnusedData {Q : List β → Service β → Prop} :
    Ensures (checkUnusedData fd []) s Q ↔ Q ((s.dataMap fd).getD []) (s.withData fd none) := by
  rw [checkUnusedData, ensures_bind, ensures_get]
  cases h : s.dataMap fd with
  | none =>
    have hsame : s.withData fd none = s := by
      rw [Service.withData, ← h, Function.update_eq_self]
    rw [hsame]
    exact ensures_pure
  | some saved =>
    rw [ensures_bind, clearUnusedData, ensures_setData, ensures_pure, List.append_nil]
    rfl

theorem ensures_cancel_shutDown {Q : Unit → Service β → Prop} :
    Ensures (do
      asyncCancel fd
      shutDown fd) s Q ↔ Q () (s.closed fd) := by
  rw [asyncCancel, ensures_bind, ensures_bind, ensures_modify, clearUnusedData, ensures_setData,
    shutDown, ensures_modify]
  rfl

theorem ensures_passMessage {b : Bool} {message : List β} {Q : Unit → Service β → Prop} :
    Ensures (passMessage b fd message) s Q ↔ Q () (s.passed fd b message) := by
  rw [passMessage, ensures_bind, ensures_get, Service.passed]
  cases s.isConnect fd with
  | false =>
    rw [if_neg (by simp), if_neg (by simp)]
    exact ensures_pure
  | true =>
    rw [if_pos rfl, if_pos rfl, onConnectionMessage, ensures_bind, ensures_modify]
    cases b with
    | false => exact ensures_pure
    | true => exact ensures_cancel_shutDown

/-- **The loop of `OnSocketRead` passes on what `frames` parses**, and stops where that stops. -/
theorem ensures_socketReadLoop {rounds i pos : ℕ} (hpos : pos ≤ buffer.length)
    (hrounds : buffer.length - pos < rounds) :
    Ensures (socketReadLoop val closes fd buffer rounds i pos) s fun pos' s' =>
      pos' ≤ buffer.length ∧ buffer.drop pos' = ((frames val).parse (buffer.drop pos)).2 ∧
        s' = Service.passedAll fd closes i ((frames val).parse (buffer.drop pos)).1 s := by
  induction rounds generalizing s i pos with
  | zero => exact absurd hrounds (Nat.not_lt_zero _)
  | succ rounds ih =>
    rw [socketReadLoop, getSingleMessageFromStream_drop hpos]
    cases hget : getSingleMessageFromStream val (buffer.drop pos) 0 with
    | none =>
      have hsplit : (frames val).split (buffer.drop pos) = none :=
        Option.map_eq_none_iff.mpr hget
      show Ensures (pure pos) s _
      rw [ensures_pure, Splitter.parse_of_none hsplit]
      exact ⟨hpos, rfl, rfl⟩
    | some cp =>
      obtain ⟨message, len⟩ := cp
      have hsplit : (frames val).split (buffer.drop pos) =
          some (message, buffer.drop (pos + len)) :=
        splitFrame_eq_some.mpr ⟨len, hget, List.drop_drop.symm⟩
      obtain ⟨-, -, hle, -, hlt, -⟩ := getSingleMessageFromStream_zero_eq_some.mp hget
      rw [List.length_drop] at hle
      show Ensures (passMessage (closes i) fd message >>= _) s _
      rw [ensures_bind, ensures_passMessage, Splitter.parse_of_some hsplit]
      exact ih (by omega) (by omega)

theorem ensures_onSocketRead {Q : Unit → Service β → Prop} :
    Ensures (onSocketRead val closes fd buffer) s Q ↔
      Q () ((Service.passedAll fd closes 0 ((frames val).parse buffer).1 s).saved fd
        ((frames val).parse buffer).2) := by
  obtain ⟨pos, s', hrun, hpos, hrest, rfl⟩ := @ensures_socketReadLoop _ s fd val closes buffer
    (buffer.length + 1) 0 0 (Nat.zero_le _) (by omega)
  rw [onSocketRead, ensures_bind, Ensures.iff_of_run hrun, Service.saved]
  rw [List.drop_zero] at hrest ⊢
  by_cases hlt : pos < buffer.length
  · have hne : ((frames val).parse buffer).2 ≠ [] := by
      rw [← hrest]
      exact fun h => absurd (List.drop_eq_nil_iff.mp h) (by omega)
    rw [if_pos hlt, if_neg hne, appendUnusedData, ensures_bind, ensures_get, ensures_setData, hrest]
  · have heq : ((frames val).parse buffer).2 = [] := by
      rw [← hrest]
      exact List.drop_eq_nil_iff.mpr (by omega)
    rw [if_neg hlt, if_pos heq]
    exact ensures_pure

end Execution

/-- The buffer of a read event: what was saved, and what is received. -/
def Service.bufferOf (s : Service β) (fd : ℕ) (recvs : List (Recv β)) : List β :=
  (s.dataMap fd).getD [] ++ received recvs

/-- The state after a read event that parsed `buffer`. -/
def Service.afterRead (s : Service β) (val : β → UInt8) (closes : ℕ → Bool) (fd : ℕ)
    (buffer : List β) (ending : Ending) : Service β :=
  let s := (passedAll fd closes 0 ((frames val).parse buffer).1 (s.withData fd none)).saved fd
    ((frames val).parse buffer).2
  if ending = .wouldBlock then s else s.closed fd

/-- **A read event in terms of `frames`.** -/
theorem ensures_onReadEvent {s : Service β} {fd : ℕ} {val : β → UInt8} {closes : ℕ → Bool}
    {recvs : List (Recv β)} {ending : Ending} {Q : Option (List β) → Service β → Prop} :
    Ensures (onReadEvent val closes fd recvs ending) s Q ↔
      Q (if s.bufferOf fd recvs ≠ [] then some (s.bufferOf fd recvs) else none)
        (s.afterRead val closes fd (s.bufferOf fd recvs) ending) := by
  rw [onReadEvent, ensures_bind, ensures_checkUnusedData, Service.afterRead]
  show Ensures (do
    handleRead val closes fd (s.bufferOf fd recvs)
    handleShutdown fd ending
    return if s.bufferOf fd recvs ≠ [] then some (s.bufferOf fd recvs) else none) _ _ ↔ _
  generalize s.bufferOf fd recvs = buffer
  have hread : ∀ {Q : Unit → Service β → Prop},
      Ensures (handleRead val closes fd buffer) (s.withData fd none) Q ↔
        Q () ((Service.passedAll fd closes 0 ((frames val).parse buffer).1
          (s.withData fd none)).saved fd ((frames val).parse buffer).2) := by
    intro Q
    rw [handleRead]
    by_cases hb : buffer = []
    · subst hb
      rw [if_neg (by simp), Splitter.parse_of_none rfl]
      exact ensures_pure
    · rw [if_pos hb, ensures_onSocketRead]
  rw [ensures_bind, hread, ensures_bind, handleShutdown]
  by_cases he : ending = .wouldBlock
  · rw [if_neg (by simp [he]), if_pos he, ensures_pure, ensures_pure]
  · rw [if_pos he, if_neg he, ensures_cancel_shutDown, ensures_pure]

end Lsf.Svr
