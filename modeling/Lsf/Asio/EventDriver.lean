import Lsf.Foundations.Reachability
import Mathlib.Data.List.Nodup
import Mathlib.Data.Nat.Notation
import Mathlib.Logic.Function.Basic

/-!
# Event drivers

An event driver keeps the descriptors that are registered, asks the kernel which of them are ready,
and hands these out one at a time. The two drivers differ in where the answer of the kernel stays:
`EpollEventDriver` keeps a copy of the batch, `PollEventDriver` keeps it in the array of the
registrations itself.

What the kernel answers is taken from the outside: whether it accepts a descriptor, and which events
it reports, of those that it was asked for.

## Main definitions

* `EpollEventDriver`, `PollEventDriver` — the two drivers
* `BasicEventDriver` — their interface
* `Drains` — the calls of `GetReadyEvent` until it returns false
-/

namespace Lsf.Asio

/-- A set of `FLAG_READ`, `FLAG_WRITE`, `FLAG_ERR` and `FLAG_ET`. -/
structure Flags where
  read : Bool := false
  write : Bool := false
  err : Bool := false
  et : Bool := false
  deriving DecidableEq

/-- A mask of events, `POLLIN` or `EPOLLIN` and so on. -/
structure Events where
  pollin : Bool := false
  pollout : Bool := false
  pollerr : Bool := false
  pollhup : Bool := false
  pollnval : Bool := false
  et : Bool := false
  deriving DecidableEq

namespace Events

/-- The mask is not zero. -/
def any (e : Events) : Bool :=
  e.pollin || e.pollout || e.pollerr || e.pollhup || e.pollnval || e.et

/-- Every event of the one mask is in the other. -/
def le (e want : Events) : Bool :=
  (!e.pollin || want.pollin) && (!e.pollout || want.pollout) && (!e.pollerr || want.pollerr) &&
    (!e.pollhup || want.pollhup) && (!e.pollnval || want.pollnval) && (!e.et || want.et)

end Events

/-! ### Epoll -/

/-- `epoll_event`. -/
structure EpollEvent where
  fd : ℕ
  events : Events
  deriving DecidableEq

/-- What `RegisterEvent` asks the kernel for. -/
def Events.asking (flag : Flags) : Events where
  pollerr := true
  pollhup := true
  et := flag.et
  pollin := flag.read
  pollout := flag.write

/-- The flags that `GetReadyEvent` sets. -/
def EpollEvent.flag (ev : EpollEvent) : Flags where
  read := ev.events.pollin
  write := ev.events.pollout
  err := ev.events.pollerr || ev.events.pollhup

/-- `evs` are the first `_max_evs` entries of `_evs`. -/
structure EpollEventDriver where
  /-- The interest list of the kernel behind `_epfd`. -/
  interest : ℕ → Option Events
  evs : List EpollEvent
  curPos : ℕ

namespace EpollEventDriver

/-- The number of events of one `epoll_wait`. -/
def MAX_EV_NUM : ℕ := 128

/-- A driver that was just made. -/
def create : EpollEventDriver := ⟨fun _ => none, [], 0⟩

/-- `RegisterEvent`, where the kernel may refuse the descriptor. -/
def registerEvent (fd : ℕ) (flag : Flags) (accepted : Bool) (d : EpollEventDriver) :
    Bool × EpollEventDriver :=
  if !flag.read && !flag.write then (false, d)
  -- `EPOLL_CTL_MOD` or `EPOLL_CTL_ADD`
  else if accepted then
    (true, { d with interest := Function.update d.interest fd (some (Events.asking flag)) })
  else (false, d)

/-- `CancelEvent`, by `EPOLL_CTL_DEL`. -/
def cancelEvent (fd : ℕ) (d : EpollEventDriver) : EpollEventDriver :=
  { d with interest := Function.update d.interest fd none }

/-- What `epoll_wait` may report: every descriptor at most once, and what it was asked for. -/
def Reports (d : EpollEventDriver) (evs : List EpollEvent) : Prop :=
  (evs.map EpollEvent.fd).Nodup ∧ evs.length ≤ MAX_EV_NUM ∧
    ∀ ev ∈ evs, (d.interest ev.fd).any ev.events.le = true

instance (d : EpollEventDriver) (evs : List EpollEvent) : Decidable (d.Reports evs) :=
  inferInstanceAs (Decidable (_ ∧ _ ∧ _))

/-- `WaitEvent`, where `epoll_wait` fails or reports events. -/
def waitEvent (answer : Option (List EpollEvent)) (d : EpollEventDriver) :
    Option (Bool × EpollEventDriver) :=
  match answer with
  | none => some (false, { d with curPos := 0, evs := [] })
  | some evs => if d.Reports evs then some (true, { d with curPos := 0, evs }) else none

/-- `GetReadyEvent`, the next event of the last `WaitEvent`. -/
def getReadyEvent (d : EpollEventDriver) : Option (ℕ × Flags) × EpollEventDriver :=
  match d.evs[d.curPos]? with
  | none => (none, d)
  | some ev => (some (ev.fd, ev.flag), { d with curPos := d.curPos + 1 })

end EpollEventDriver

/-! ### Poll -/

/-- `pollfd`. -/
structure PollFd where
  fd : ℕ
  events : Events
  revents : Events
  deriving DecidableEq

/-- The entry that `RegisterEvent` writes, with nothing reported. -/
def PollFd.asking (fd : ℕ) (flag : Flags) : PollFd where
  fd := fd
  events :=
    { pollerr := true, pollhup := true, pollnval := true
      pollin := flag.read, pollout := flag.write }
  revents := {}

/-- The flags that `GetReadyEvent` sets. -/
def PollFd.flag (x : PollFd) : Flags where
  read := x.revents.pollin
  write := x.revents.pollout
  err := x.revents.pollerr || x.revents.pollhup || x.revents.pollnval

/-- `fds` are the first `_fds_size` entries of `_fds`. -/
structure PollEventDriver where
  fds : List PollFd
  curPos : ℕ

namespace PollEventDriver

/-- The size of the table of descriptors. -/
def MAX_FD_NUM : ℕ := 1024

/-- A driver that was just made. -/
def create : PollEventDriver := ⟨[], 0⟩

/-- The position at which the search for a descriptor stops. -/
def findFd (fd : ℕ) (d : PollEventDriver) : ℕ := d.fds.findIdx fun x => x.fd = fd

/-- `RegisterEvent`, which does not ask the kernel. -/
def registerEvent (fd : ℕ) (flag : Flags) (_accepted : Bool) (d : PollEventDriver) :
    Bool × PollEventDriver :=
  if !flag.read && !flag.write then (false, d)
  else if d.fds.length ≥ MAX_FD_NUM then (false, d)
  else if d.findFd fd = d.fds.length then
    (true, { d with fds := d.fds ++ [PollFd.asking fd flag] })
  else (true, { d with fds := d.fds.set (d.findFd fd) (PollFd.asking fd flag) })

/-- `CancelEvent` moves the entries behind the cancelled one. -/
def cancelEvent (fd : ℕ) (d : PollEventDriver) : PollEventDriver :=
  if d.findFd fd = d.fds.length then d else { d with fds := d.fds.eraseIdx (d.findFd fd) }

/-- What `poll` may report: what it was asked for. -/
def Reports (d : PollEventDriver) (revents : ℕ → Events) : Prop :=
  ∀ x ∈ d.fds, (revents x.fd).le x.events = true

instance (d : PollEventDriver) (revents : ℕ → Events) : Decidable (d.Reports revents) :=
  inferInstanceAs (Decidable (∀ x ∈ d.fds, _))

/-- `WaitEvent`, where `poll` fails and leaves the array, or reports events. -/
def waitEvent (answer : Option (ℕ → Events)) (d : PollEventDriver) :
    Option (Bool × PollEventDriver) :=
  match answer with
  | none => some (false, { d with curPos := 0 })
  | some revents =>
    if d.Reports revents then
      some (true, ⟨d.fds.map fun x => { x with revents := revents x.fd }, 0⟩)
    else none

/-- The position at which the search for a ready entry stops. -/
def findReady (d : PollEventDriver) : ℕ :=
  d.curPos + (d.fds.drop d.curPos).findIdx fun x => x.revents.any

/-- `GetReadyEvent`, the next ready entry from the cursor on. -/
def getReadyEvent (d : PollEventDriver) : Option (ℕ × Flags) × PollEventDriver :=
  if d.curPos ≥ d.fds.length then (none, d)
  else
    match d.fds[d.findReady]? with
    | none => (none, { d with curPos := d.findReady })
    | some x => (some (x.fd, x.flag), { d with curPos := d.findReady + 1 })

end PollEventDriver

/-! ### The interface -/

/-- `BasicEventDriver` for a driver with states `σ` and answers `κ` of the kernel. -/
structure BasicEventDriver (σ κ : Type) where
  registerEvent : ℕ → Flags → Bool → σ → Bool × σ
  cancelEvent : ℕ → σ → σ
  waitEvent : κ → σ → Option (Bool × σ)
  getReadyEvent : σ → Option (ℕ × Flags) × σ
  /-- The descriptors that a `WaitEvent` that ends in the state has reported. -/
  reported : σ → List ℕ

/-- The driver on `epoll`. -/
def epollDriver : BasicEventDriver EpollEventDriver (Option (List EpollEvent)) where
  registerEvent := EpollEventDriver.registerEvent
  cancelEvent := EpollEventDriver.cancelEvent
  waitEvent := EpollEventDriver.waitEvent
  getReadyEvent := EpollEventDriver.getReadyEvent
  reported d := d.evs.map EpollEvent.fd

/-- The driver on `poll`. -/
def pollDriver : BasicEventDriver PollEventDriver (Option (ℕ → Events)) where
  registerEvent := PollEventDriver.registerEvent
  cancelEvent := PollEventDriver.cancelEvent
  waitEvent := PollEventDriver.waitEvent
  getReadyEvent := PollEventDriver.getReadyEvent
  reported d := (d.fds.filter fun x => x.revents.any).map PollFd.fd

/-- `while (GetReadyEvent(&fd, &flag))`: the descriptors that it returns. -/
inductive Drains {σ κ : Type} (D : BasicEventDriver σ κ) : σ → List ℕ → σ → Prop
  | done {s s'} : D.getReadyEvent s = (none, s') → Drains D s [] s'
  | next {s s' s'' fd flag fds} : D.getReadyEvent s = (some (fd, flag), s') →
      Drains D s' fds s'' → Drains D s (fd :: fds) s''

theorem Drains.unique {σ κ : Type} {D : BasicEventDriver σ κ} {s s₁ s₂ : σ} {fds₁ fds₂ : List ℕ}
    (h₁ : Drains D s fds₁ s₁) (h₂ : Drains D s fds₂ s₂) : fds₁ = fds₂ := by
  induction h₁ generalizing fds₂ with
  | done hget =>
    cases h₂ with
    | done => rfl
    | next hget' => cases hget.symm.trans hget'
  | next hget _ ih =>
    cases h₂ with
    | done hget' => cases hget.symm.trans hget'
    | next hget' hrest =>
      cases hget.symm.trans hget'
      rw [ih hrest]

/-! ### What is left to return -/

/-- `pending` computes what `GetReadyEvent` is still to return. -/
structure Returns {σ κ : Type} (D : BasicEventDriver σ κ) (pending : σ → List ℕ) : Prop where
  nil : ∀ {s}, pending s = [] → ∃ s', D.getReadyEvent s = (none, s') ∧ pending s' = []
  cons : ∀ {s fd fds}, pending s = fd :: fds →
    ∃ flag s', D.getReadyEvent s = (some (fd, flag), s') ∧ pending s' = fds

namespace Returns

variable {σ κ : Type} {D : BasicEventDriver σ κ} {pending : σ → List ℕ}

theorem drains (h : Returns D pending) (s : σ) : ∃ s', Drains D s (pending s) s' := by
  generalize hfds : pending s = fds
  induction fds generalizing s with
  | nil =>
    obtain ⟨s', hget, -⟩ := h.nil hfds
    exact ⟨s', .done hget⟩
  | cons fd fds ih =>
    obtain ⟨flag, s', hget, hpending⟩ := h.cons hfds
    obtain ⟨s'', hdrains⟩ := ih s' hpending
    exact ⟨s'', .next hget hdrains⟩

/-- A statement about the descriptors that are returned from a state on. -/
theorem exists_drains_iff (h : Returns D pending) {s : σ} {P : List ℕ → Prop} :
    (∃ fds s', Drains D s fds s' ∧ P fds) ↔ P (pending s) := by
  obtain ⟨s', hdrains⟩ := h.drains s
  constructor
  · rintro ⟨fds', s'', hdrains', hp⟩
    rwa [hdrains.unique hdrains']
  · exact fun hp => ⟨_, s', hdrains, hp⟩

end Returns

namespace EpollEventDriver

/-- The descriptors of the batch that were not returned yet. -/
def pending (d : EpollEventDriver) : List ℕ := (d.evs.drop d.curPos).map EpollEvent.fd

theorem returns_pending : Returns epollDriver pending where
  nil {d} h := by
    have hdrop : d.evs.drop d.curPos = [] := List.map_eq_nil_iff.mp h
    have hnone : d.evs[d.curPos]? = none := List.getElem?_eq_none (List.drop_eq_nil_iff.mp hdrop)
    refine ⟨d, ?_, h⟩
    show d.getReadyEvent = (none, d)
    rw [getReadyEvent, hnone]
  cons {d fd fds} h := by
    obtain ⟨ev, evs, hdrop, rfl, rfl⟩ := List.map_eq_cons_iff.mp h
    have hget : d.evs[d.curPos]? = some ev := by
      rw [← List.head?_drop, hdrop, List.head?_cons]
    refine ⟨ev.flag, { d with curPos := d.curPos + 1 }, ?_, ?_⟩
    · show d.getReadyEvent = _
      rw [getReadyEvent, hget]
    · show (d.evs.drop (d.curPos + 1)).map EpollEvent.fd = _
      rw [← List.tail_drop, hdrop, List.tail_cons]

end EpollEventDriver

namespace PollEventDriver

/-- The descriptors of the ready entries from the cursor on. -/
def pending (d : PollEventDriver) : List ℕ :=
  ((d.fds.drop d.curPos).filter fun x => x.revents.any).map PollFd.fd

variable {d : PollEventDriver} {fd : ℕ}

/-- The search for a ready entry stops at the first one. -/
theorem filter_eq_of_findIdx {α : Type} (p : α → Bool) (l : List α) : l.filter p =
    match l[l.findIdx p]? with
    | none => []
    | some x => x :: (l.drop (l.findIdx p + 1)).filter p := by
  induction l with
  | nil => rfl
  | cons x l ih =>
    rw [List.findIdx_cons]
    cases hx : p x with
    | true =>
      rw [List.filter_cons_of_pos hx]
      rfl
    | false =>
      rw [List.filter_cons_of_neg (by simp [hx]), ih]
      rfl

/-- The descriptors that the search finds. -/
theorem pending_eq : d.pending = match d.fds[d.findReady]? with
    | none => []
    | some x => x.fd :: ({ d with curPos := d.findReady + 1 } : PollEventDriver).pending := by
  have hfind : d.curPos + (d.fds.drop d.curPos).findIdx (fun x => x.revents.any) = d.findReady :=
    rfl
  rw [pending, filter_eq_of_findIdx, List.getElem?_drop, List.drop_drop, ← Nat.add_assoc, hfind]
  cases d.fds[d.findReady]? <;> rfl

theorem returns_pending : Returns pollDriver pending where
  nil {d} h := by
    show ∃ d', d.getReadyEvent = (none, d') ∧ d'.pending = []
    rw [getReadyEvent]
    by_cases hge : d.curPos ≥ d.fds.length
    · rw [if_pos hge]
      exact ⟨d, rfl, h⟩
    · rw [if_neg hge]
      cases hx : d.fds[d.findReady]? with
      | none =>
        refine ⟨{ d with curPos := d.findReady }, rfl, ?_⟩
        rw [pending, List.drop_eq_nil_iff.mpr (List.getElem?_eq_none_iff.mp hx)]
        rfl
      | some x =>
        rw [pending_eq, hx] at h
        cases h
  cons {d fd fds} h := by
    have hlt : ¬ d.curPos ≥ d.fds.length := by
      intro hge
      rw [pending, List.drop_eq_nil_iff.mpr hge] at h
      cases h
    show ∃ flag d', d.getReadyEvent = (some (fd, flag), d') ∧ d'.pending = fds
    rw [getReadyEvent, if_neg hlt]
    cases hx : d.fds[d.findReady]? with
    | none =>
      rw [pending_eq, hx] at h
      cases h
    | some x =>
      rw [pending_eq, hx] at h
      obtain ⟨rfl, hfds⟩ := List.cons.inj h
      exact ⟨x.flag, _, rfl, hfds⟩

/-- Returning an event moves the cursor only. -/
theorem getReadyEvent_fds : d.getReadyEvent.2.fds = d.fds := by
  rw [getReadyEvent]
  split_ifs
  · rfl
  · cases d.fds[d.findReady]? <;> rfl

/-! ### The array of the poll driver -/

/-- The search for a descriptor stops at the end, or parts the array at its entry. -/
theorem findFd_cases (d : PollEventDriver) (fd : ℕ) :
    (d.findFd fd = d.fds.length ∧ fd ∉ d.fds.map PollFd.fd) ∨
      ∃ pre x post, d.fds = pre ++ x :: post ∧ d.findFd fd = pre.length ∧ x.fd = fd := by
  by_cases hend : d.findFd fd = d.fds.length
  · refine .inl ⟨hend, fun hmem => ?_⟩
    obtain ⟨x, hx, hfd⟩ := List.mem_map.mp hmem
    exact of_decide_eq_false (List.findIdx_eq_length.mp hend x hx) hfd
  · have hlt : d.findFd fd < d.fds.length := Nat.lt_of_le_of_ne List.findIdx_le_length hend
    have hx := List.findIdx_getElem (w := hlt)
    refine .inr ⟨d.fds.take (d.findFd fd), d.fds[d.findFd fd], d.fds.drop (d.findFd fd + 1), ?_,
      (List.length_take_of_le (Nat.le_of_lt hlt)).symm, of_decide_eq_true hx⟩
    rw [← List.drop_eq_getElem_cons hlt, List.take_append_drop]

/-- What a call of `RegisterEvent` that returns true does to the array. -/
theorem registerEvent_cases {flag : Flags} {accepted : Bool}
    (hok : (d.registerEvent fd flag accepted).1 = true) :
    (fd ∉ d.fds.map PollFd.fd ∧ (d.registerEvent fd flag accepted).2 =
        { d with fds := d.fds ++ [PollFd.asking fd flag] }) ∨
      ∃ pre x post, d.fds = pre ++ x :: post ∧ x.fd = fd ∧
        (d.registerEvent fd flag accepted).2 =
          { d with fds := pre ++ PollFd.asking fd flag :: post } := by
  rw [registerEvent] at hok ⊢
  split_ifs at hok ⊢ with _ _ hpos
  · refine .inl ⟨?_, rfl⟩
    obtain ⟨-, hnot⟩ | ⟨pre, x, post, hfds, hfind, -⟩ := d.findFd_cases fd
    · exact hnot
    · rw [hfind, hfds] at hpos
      simp at hpos
  · obtain ⟨hend, -⟩ | ⟨pre, x, post, hfds, hfind, hx⟩ := d.findFd_cases fd
    · exact absurd hend hpos
    · refine .inr ⟨pre, x, post, hfds, hx, ?_⟩
      rw [hfind, hfds, List.set_append_right _ _ (Nat.le_refl _), Nat.sub_self]
      rfl

theorem registerEvent_of_false {flag : Flags} {accepted : Bool}
    (hok : (d.registerEvent fd flag accepted).1 = false) :
    (d.registerEvent fd flag accepted).2 = d := by
  rw [registerEvent] at hok ⊢
  split_ifs at hok ⊢ <;> rfl

/-- What `CancelEvent` does to the array. -/
theorem cancelEvent_cases (d : PollEventDriver) (fd : ℕ) :
    (fd ∉ d.fds.map PollFd.fd ∧ d.findFd fd = d.fds.length ∧ d.cancelEvent fd = d) ∨
      ∃ pre x post, d.fds = pre ++ x :: post ∧ d.findFd fd = pre.length ∧ x.fd = fd ∧
        d.cancelEvent fd = { d with fds := pre ++ post } := by
  rw [cancelEvent]
  obtain ⟨hend, hnot⟩ | ⟨pre, x, post, hfds, hfind, hx⟩ := d.findFd_cases fd
  · exact .inl ⟨hnot, hend, if_pos hend⟩
  · refine .inr ⟨pre, x, post, hfds, hfind, hx, ?_⟩
    have hne : d.findFd fd ≠ d.fds.length := by
      rw [hfind, hfds]
      simp
    have herase : d.fds.eraseIdx (d.findFd fd) = pre ++ post := by
      rw [hfds, hfind, List.eraseIdx_append_of_length_le (Nat.le_refl _), Nat.sub_self]
      rfl
    rw [if_neg hne, herase]

/-- The entries have different descriptors. -/
def Distinct (d : PollEventDriver) : Prop := (d.fds.map PollFd.fd).Nodup

namespace Distinct

/-- No entry but its own has a descriptor. -/
theorem of_split (h : d.Distinct) {pre post : List PollFd} {x : PollFd}
    (hfds : d.fds = pre ++ x :: post) : (x.fd :: (pre ++ post).map PollFd.fd).Nodup ∧
      ∀ y ∈ pre ++ post, y ∈ d.fds ∧ y.fd ≠ x.fd := by
  have hnodup : (d.fds.map PollFd.fd).Nodup := h
  rw [hfds, List.map_append, List.map_cons, List.perm_middle.nodup_iff, ← List.map_append] at hnodup
  refine ⟨hnodup, fun y hy => ⟨?_, fun heq => ?_⟩⟩
  · rw [hfds]
    exact List.perm_middle.mem_iff.mpr (List.mem_cons_of_mem x hy)
  · exact (List.nodup_cons.mp hnodup).1 (heq ▸ List.mem_map_of_mem hy)

theorem registerEvent (h : d.Distinct) (fd : ℕ) (flag : Flags) (accepted : Bool) :
    (d.registerEvent fd flag accepted).2.Distinct := by
  cases hok : (d.registerEvent fd flag accepted).1 with
  | false => rwa [registerEvent_of_false hok]
  | true =>
    obtain ⟨hnot, hd⟩ | ⟨pre, x, post, hfds, rfl, hd⟩ := registerEvent_cases hok
    · rw [hd, Distinct, List.map_append, List.nodup_append_comm]
      exact List.nodup_cons.mpr ⟨hnot, h⟩
    · rw [hd, Distinct, List.map_append, List.map_cons, List.perm_middle.nodup_iff,
        ← List.map_append]
      exact (h.of_split hfds).1

theorem cancelEvent (h : d.Distinct) (fd : ℕ) : (d.cancelEvent fd).Distinct := by
  obtain ⟨-, -, hd⟩ | ⟨pre, x, post, hfds, -, rfl, hd⟩ := d.cancelEvent_cases fd
  · rwa [hd]
  · rw [hd]
    exact (List.nodup_cons.mp (h.of_split hfds).1).2

theorem waitEvent (h : d.Distinct) {answer : Option (ℕ → Events)} {r : Bool × PollEventDriver}
    (hwait : d.waitEvent answer = some r) : r.2.Distinct := by
  cases answer with
  | none =>
    obtain rfl := Option.some.inj hwait
    exact h
  | some revents =>
    obtain ⟨-, hr⟩ := Option.ite_none_right_eq_some.mp hwait
    obtain rfl := Option.some.inj hr
    show ((d.fds.map _).map PollFd.fd).Nodup
    rw [List.map_map]
    exact h

theorem getReadyEvent (h : d.Distinct) : d.getReadyEvent.2.Distinct := by
  rwa [Distinct, getReadyEvent_fds]

end Distinct

end PollEventDriver

end Lsf.Asio
