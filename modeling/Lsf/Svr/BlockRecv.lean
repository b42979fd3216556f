import Lsf.Svr.ReadPath

/-!
# The blocking receive

`BlockRecv` collects what `Socket::Recv` gives until the buffer starts with a complete message. It
returns the content of that message and saves what comes after it in `ReadDataBuffer`, where the
read events look; itself it does not look there.

## Main definitions

* `RecvCall`, `socketRecv` — a call of `Socket::Recv`
* `blockRecv`

## Main results

* `blockRecv_returns` — what a call has done when it returns a content
-/

namespace Lsf.Svr

variable {β : Type}

/-- What the world does in one call of `Socket::Recv`. -/
structure RecvCall (β : Type) where
  /-- Whether the socket becomes readable in time, for `_WaitActionTimeout`. -/
  ready : Bool
  recvs : List (Recv β)
  ending : Ending

/-- `Socket::Recv`: the data, or none where it returns false. -/
def socketRecv (fd : ℕ) (call : RecvCall β) : Prog β (Option (List β)) := do
  if (← get).isConnect fd = false then return none
  else if call.ready = false then return none
  else do
    if call.ending = .peerClose then shutDown fd
    return if received call.recvs ≠ [] then some (received call.recvs) else none

/-- The loop of `BlockRecv`: the buffer with its first message and the `pos` after that, or none
where `Recv` returns false. There is one of `calls` for every call of `Recv` that it makes. -/
def blockRecvLoop (val : β → UInt8) (fd : ℕ) :
    List β → List (RecvCall β) → Prog β (Option (List β × List β × ℕ))
  | _, [] => failure
  | buffer, call :: calls => do
    match ← socketRecv fd call with
    | none => return none
    | some tmp =>
      match getSingleMessageFromStream val (buffer ++ tmp) 0 with
      | none => blockRecvLoop val fd (buffer ++ tmp) calls
      | some (content, pos) =>
        if calls.isEmpty then return some (buffer ++ tmp, content, pos) else failure

/-- `BlockRecv`: the content of the message that it returns, or none where it returns false.
`parses` says of which contents `ParseProtoMsgFromString` makes a message. -/
def blockRecv (val : β → UInt8) (parses : List UInt8 → Bool) (fd : ℕ)
    (calls : List (RecvCall β)) : Prog β (Option (List β)) := do
  match ← blockRecvLoop val fd [] calls with
  | none => return none
  | some (buffer, content, pos) => do
    -- if buffer has unused data, just save it
    if pos < buffer.length then appendUnusedData fd (buffer.drop pos)
    return if parses (content.map val) then some content else none

/-! ### What it does -/

/-- The bytes that the calls of `Recv` give. -/
def bytesOf (calls : List (RecvCall β)) : List β := (calls.map fun c => received c.recvs).flatten

/-- One of the calls sees the end of the stream. -/
def SeesEnd (calls : List (RecvCall β)) : Prop := ∃ call ∈ calls, call.ending = .peerClose

instance (calls : List (RecvCall β)) : Decidable (SeesEnd calls) :=
  inferInstanceAs (Decidable (∃ call ∈ calls, call.ending = .peerClose))

namespace Service

variable (s : Service β) (fd : ℕ)

/-- The state after `ShutDown`, if the end of the stream was seen. -/
def shut (seesEnd : Prop) [Decidable seesEnd] : Service β :=
  if seesEnd then { s with isConnect := Function.update s.isConnect fd false } else s

variable {s fd} {p : Prop} [Decidable p]

@[simp] theorem shut_dataMap : (s.shut fd p).dataMap = s.dataMap := by
  rw [shut]
  split_ifs <;> rfl

@[simp] theorem shut_readFunc : (s.shut fd p).readFunc = s.readFunc := by
  rw [shut]
  split_ifs <;> rfl

@[simp] theorem shut_messages : (s.shut fd p).messages = s.messages := by
  rw [shut]
  split_ifs <;> rfl

theorem shut_of_not (hp : ¬ p) : s.shut fd p = s := if_neg hp

theorem shut_congr {q : Prop} [Decidable q] (h : p ↔ q) : s.shut fd p = s.shut fd q := by
  rw [shut, shut, if_congr h rfl rfl]

theorem shut_isConnect_self : (s.shut fd p).isConnect fd = true ↔ s.isConnect fd = true ∧ ¬ p := by
  rw [shut]
  split_ifs with hp <;> simp [hp]

theorem shut_isConnect_of_ne {other : ℕ} (hne : other ≠ fd) :
    (s.shut fd p).isConnect other = s.isConnect other := by
  rw [shut]
  split_ifs
  · exact Function.update_of_ne hne _ _
  · rfl

end Service

section Execution

variable {s s' : Service β} {fd : ℕ} {val : β → UInt8} {call : RecvCall β}
  {calls : List (RecvCall β)} {buffer b content tmp : List β} {pos : ℕ}

theorem ensures_socketRecv {Q : Option (List β) → Service β → Prop} :
    Ensures (socketRecv fd call) s Q ↔
      if s.isConnect fd = true ∧ call.ready = true then
        Q (if received call.recvs ≠ [] then some (received call.recvs) else none)
          (s.shut fd (call.ending = .peerClose))
      else Q none s := by
  rw [socketRecv, ensures_bind, ensures_get]
  cases s.isConnect fd <;> cases call.ready
  all_goals simp only [Bool.true_eq_false, Bool.false_eq_true, if_true, if_false, and_true,
    and_false, ensures_pure]
  rw [Service.shut]
  by_cases hend : call.ending = .peerClose
  · rw [if_pos hend, if_pos hend, ensures_bind, shutDown, ensures_modify, ensures_pure]
  · rw [if_neg hend, if_neg hend, ensures_pure]

/-- What a call of `Socket::Recv` has done when it returns data. -/
theorem socketRecv_returns (h : (socketRecv fd call).run s = some (some tmp, s')) :
    s.isConnect fd = true ∧ tmp = received call.recvs ∧
      s' = s.shut fd (call.ending = .peerClose) := by
  refine (ensures_socketRecv (Q := fun r s' => r = some tmp → s.isConnect fd = true ∧
    tmp = received call.recvs ∧ s' = s.shut fd (call.ending = .peerClose))).mpr ?_ |>.elim h rfl
  split_ifs with hconn hdata
  · intro hr
    exact ⟨hconn.1, (Option.some.inj hr).symm, rfl⟩
  · intro hr
    cases hr
  · intro hr
    cases hr

/-- **The loop of `BlockRecv` has collected what all calls of `Recv` gave** when it ends with a
message, and the socket was connected until the last of them. -/
theorem blockRecvLoop_returns
    (h : (blockRecvLoop val fd buffer calls).run s = some (some (b, content, pos), s')) :
    s.isConnect fd = true ∧ b = buffer ++ bytesOf calls ∧
      getSingleMessageFromStream val b 0 = some (content, pos) ∧
        s' = s.shut fd (SeesEnd calls) := by
  induction calls generalizing s buffer with
  | nil => cases h
  | cons call calls ih =>
    have hbytes : bytesOf (call :: calls) = received call.recvs ++ bytesOf calls := rfl
    have hends : SeesEnd (call :: calls) ↔ call.ending = .peerClose ∨ SeesEnd calls := by
      simp [SeesEnd]
    rw [blockRecvLoop, StateT.run_bind] at h
    obtain ⟨⟨r, s₁⟩, hrecv, h⟩ := Option.bind_eq_some_iff.mp h
    cases r with
    | none => cases h
    | some tmp =>
      obtain ⟨hconn, rfl, rfl⟩ := socketRecv_returns hrecv
      rw [hbytes, ← List.append_assoc]
      cases hget : getSingleMessageFromStream val (buffer ++ received call.recvs) 0 with
      | none =>
        simp only [hget] at h
        obtain ⟨hconn', rfl, hsome, rfl⟩ := ih h
        have hno : call.ending ≠ .peerClose := (Service.shut_isConnect_self.mp hconn').2
        refine ⟨hconn, rfl, hsome, ?_⟩
        rw [Service.shut_of_not hno]
        exact Service.shut_congr (by rw [hends, or_iff_right hno])
      | some cp =>
        simp only [hget] at h
        cases calls with
        | nil =>
          cases h
          refine ⟨hconn, (List.append_nil _).symm, hget, ?_⟩
          exact Service.shut_congr (by rw [hends, or_iff_left (by simp [SeesEnd])])
        | cons call' calls => cases h

end Execution

/-- **What `BlockRecv` has done when it returns a content.** It is that of the first message of what
was received in the call; the rest goes behind what is saved already. -/
theorem blockRecv_returns {s s' : Service β} {fd : ℕ} {val : β → UInt8}
    {parses : List UInt8 → Bool} {calls : List (RecvCall β)} {content : List β}
    (h : (blockRecv val parses fd calls).run s = some (some content, s')) :
    s.isConnect fd = true ∧ ∃ rest, (frames val).split (bytesOf calls) = some (content, rest) ∧
      s' = (s.shut fd (SeesEnd calls)).saved fd rest := by
  rw [blockRecv, StateT.run_bind] at h
  obtain ⟨⟨r, s₁⟩, hloop, h⟩ := Option.bind_eq_some_iff.mp h
  obtain _ | ⟨b, c, pos⟩ := r
  · cases h
  obtain ⟨hconn, rfl, hget, rfl⟩ := blockRecvLoop_returns hloop
  rw [List.nil_append] at hget
  have hend : Ensures (do
      if pos < (bytesOf calls).length then appendUnusedData fd ((bytesOf calls).drop pos)
      return if parses (c.map val) then some c else none) (s.shut fd (SeesEnd calls)) fun r s' =>
        r = some content →
          c = content ∧ s' = (s.shut fd (SeesEnd calls)).saved fd ((bytesOf calls).drop pos) := by
    rw [Service.saved]
    by_cases hlt : pos < (bytesOf calls).length
    · have hne : (bytesOf calls).drop pos ≠ [] := fun hnil =>
        absurd (List.drop_eq_nil_iff.mp hnil) (Nat.not_le_of_lt hlt)
      rw [if_pos hlt, if_neg hne, ensures_bind, appendUnusedData, ensures_bind, ensures_get,
        ensures_setData, ensures_pure]
      split_ifs <;> simp
    · have hnil : (bytesOf calls).drop pos = [] := List.drop_eq_nil_iff.mpr (Nat.le_of_not_lt hlt)
      rw [if_neg hlt, if_pos hnil, ensures_pure]
      split_ifs <;> simp
  obtain ⟨rfl, rfl⟩ := hend.elim h rfl
  exact ⟨hconn, _, splitFrame_eq_some.mpr ⟨pos, hget, rfl⟩, rfl⟩

end Lsf.Svr
