import Lsf.Asio.EventDriver

/-!
# What an event driver asks the kernel for

For every descriptor a driver holds one set of flags, the ones of the last `RegisterEvent` for it:
a registration does not add to them, it replaces them. That is all that the service above the
drivers depends on, and it is the same for both.

## Main definitions

* `Interests` — a driver with the flags it holds for each descriptor

## Main results

* `epollInterests`, `pollInterests`
-/

namespace Lsf.Asio

/-- The flags that a driver holds for each descriptor in a state that keeps its invariant. -/
structure Interests {σ κ : Type} (D : BasicEventDriver σ κ) where
  start : σ
  Inv : σ → Prop
  interest : σ → ℕ → Flags
  inv_start : Inv start
  register : ∀ {s fd flag accepted}, Inv s → (D.registerEvent fd flag accepted s).1 = true →
    Inv (D.registerEvent fd flag accepted s).2 ∧
      interest (D.registerEvent fd flag accepted s).2 =
        Function.update (interest s) fd { read := flag.read, write := flag.write }
  refuse : ∀ {s fd flag accepted}, (D.registerEvent fd flag accepted s).1 = false →
    (D.registerEvent fd flag accepted s).2 = s
  cancel : ∀ {s fd}, Inv s → Inv (D.cancelEvent fd s) ∧
    interest (D.cancelEvent fd s) = Function.update (interest s) fd {}
  wait : ∀ {s answer r}, Inv s → D.waitEvent answer s = some r →
    Inv r.2 ∧ interest r.2 = interest s
  ready : ∀ {s}, Inv s → Inv (D.getReadyEvent s).2 ∧ interest (D.getReadyEvent s).2 = interest s

theorem Interests.inv_registerEvent {σ κ : Type} {D : BasicEventDriver σ κ} (I : Interests D)
    {s : σ} {fd : ℕ} {flag : Flags} {accepted : Bool} (h : I.Inv s) :
    I.Inv (D.registerEvent fd flag accepted s).2 := by
  cases hok : (D.registerEvent fd flag accepted s).1 with
  | false => rwa [I.refuse hok]
  | true => exact (I.register h hok).1

/-- The flags for which an event mask asks. -/
def Events.interest (e : Events) : Flags where
  read := e.pollin
  write := e.pollout

/-! ### Epoll -/

namespace EpollEventDriver

/-- What is asked for a descriptor. -/
def flags (d : EpollEventDriver) : ℕ → Flags := (·.elim {} Events.interest) ∘ d.interest

theorem flags_update {d : EpollEventDriver} {fd : ℕ} {o : Option Events} :
    ({ d with interest := Function.update d.interest fd o } : EpollEventDriver).flags =
      Function.update d.flags fd (o.elim {} Events.interest) :=
  Function.comp_update _ _ _ _

end EpollEventDriver

/-- The epoll driver keeps what is asked for. -/
def epollInterests : Interests epollDriver where
  start := EpollEventDriver.create
  Inv _ := True
  interest := EpollEventDriver.flags
  inv_start := trivial
  register {d fd flag accepted} _ hok := by
    refine ⟨trivial, ?_⟩
    have hok : (d.registerEvent fd flag accepted).1 = true := hok
    show (d.registerEvent fd flag accepted).2.flags = _
    rw [EpollEventDriver.registerEvent] at hok ⊢
    split_ifs at hok ⊢
    exact EpollEventDriver.flags_update
  refuse {d fd flag accepted} hok := by
    have hok : (d.registerEvent fd flag accepted).1 = false := hok
    show (d.registerEvent fd flag accepted).2 = d
    rw [EpollEventDriver.registerEvent] at hok ⊢
    split_ifs at hok ⊢ <;> rfl
  cancel _ := ⟨trivial, EpollEventDriver.flags_update⟩
  wait {d answer r} _ hwait := by
    refine ⟨trivial, ?_⟩
    cases answer with
    | none =>
      obtain rfl := Option.some.inj hwait
      rfl
    | some evs =>
      obtain ⟨-, hr⟩ := Option.ite_none_right_eq_some.mp hwait
      obtain rfl := Option.some.inj hr
      rfl
  ready {d} _ := by
    refine ⟨trivial, ?_⟩
    show d.getReadyEvent.2.flags = d.flags
    rw [EpollEventDriver.getReadyEvent]
    cases d.evs[d.curPos]? <;> rfl

/-! ### Poll -/

namespace PollEventDriver

/-- The flags of the first entry of a descriptor. -/
def flagsIn (l : List PollFd) (fd : ℕ) : Flags :=
  match l.find? fun x => x.fd = fd with
  | none => {}
  | some x => x.events.interest

variable {d : PollEventDriver} {fd : ℕ} {l pre post : List PollFd} {x y : PollFd}

theorem flagsIn_of_notMem (h : fd ∉ l.map PollFd.fd) : flagsIn l fd = {} := by
  have hnone : l.find? (fun x => x.fd = fd) = none :=
    List.find?_eq_none.mpr fun x hx heq => h (of_decide_eq_true heq ▸ List.mem_map_of_mem hx)
  rw [flagsIn, hnone]

theorem flagsIn_cons_of_ne (h : x.fd ≠ fd) : flagsIn (x :: l) fd = flagsIn l fd := by
  rw [flagsIn, List.find?_cons_of_neg (by simpa using h), flagsIn]

theorem flagsIn_cons_self : flagsIn (x :: l) x.fd = x.events.interest := by
  rw [flagsIn, List.find?_cons_of_pos (by simp)]

theorem flagsIn_append (h : fd ∉ l.map PollFd.fd) : flagsIn (l ++ post) fd = flagsIn post fd := by
  have hnone : l.find? (fun x => x.fd = fd) = none :=
    List.find?_eq_none.mpr fun x hx heq => h (of_decide_eq_true heq ▸ List.mem_map_of_mem hx)
  rw [flagsIn, List.find?_append, hnone, Option.none_or, flagsIn]

/-- Only the entry of the descriptor counts. -/
theorem flagsIn_congr {g : ℕ} {m m' : List PollFd} (h : flagsIn m g = flagsIn m' g) :
    flagsIn (pre ++ m) g = flagsIn (pre ++ m') g := by
  induction pre with
  | nil => exact h
  | cons x pre ih =>
    by_cases hx : x.fd = g
    · subst hx
      rw [List.cons_append, List.cons_append, flagsIn_cons_self, flagsIn_cons_self]
    · rw [List.cons_append, List.cons_append, flagsIn_cons_of_ne hx, flagsIn_cons_of_ne hx, ih]

theorem flagsIn_map {revents : ℕ → Events} :
    flagsIn (l.map fun x => { x with revents := revents x.fd }) = flagsIn l := by
  funext g
  induction l with
  | nil => rfl
  | cons x l ih =>
    by_cases hx : x.fd = g
    · subst hx
      rw [flagsIn_cons_self]
      exact flagsIn_cons_self
    · rw [List.map_cons, flagsIn_cons_of_ne hx, ← ih]
      exact flagsIn_cons_of_ne hx

theorem flagsIn_registerEvent (hd : d.Distinct) {flag : Flags} {accepted : Bool}
    (hok : (d.registerEvent fd flag accepted).1 = true) :
    flagsIn (d.registerEvent fd flag accepted).2.fds =
      Function.update (flagsIn d.fds) fd { read := flag.read, write := flag.write } := by
  have hself : ∀ post, flagsIn (PollFd.asking fd flag :: post) fd =
      { read := flag.read, write := flag.write } := fun post =>
    @flagsIn_cons_self post (PollFd.asking fd flag)
  funext g
  obtain ⟨hnot, hr⟩ | ⟨pre, x, post, hfds, rfl, hr⟩ := registerEvent_cases hok
  · rw [hr]
    by_cases hg : g = fd
    · rw [hg, Function.update_self, flagsIn_append hnot, hself]
    · have hne : (PollFd.asking fd flag).fd ≠ g := Ne.symm hg
      have hskip := @flagsIn_congr d.fds g _ [] (flagsIn_cons_of_ne hne)
      rw [List.append_nil] at hskip
      rw [Function.update_of_ne hg, hskip]
  · have hnot := (List.nodup_cons.mp (hd.of_split hfds).1).1
    rw [List.map_append, List.mem_append, not_or] at hnot
    rw [hr, hfds]
    by_cases hg : g = x.fd
    · rw [hg, Function.update_self, flagsIn_append hnot.1, hself]
    · have hne : (PollFd.asking x.fd flag).fd ≠ g := Ne.symm hg
      rw [Function.update_of_ne hg]
      refine flagsIn_congr ?_
      rw [flagsIn_cons_of_ne hne, flagsIn_cons_of_ne (Ne.symm hg)]

theorem flagsIn_cancelEvent (hd : d.Distinct) :
    flagsIn (d.cancelEvent fd).fds = Function.update (flagsIn d.fds) fd {} := by
  funext g
  obtain ⟨hnot, -, hr⟩ | ⟨pre, x, post, hfds, -, rfl, hr⟩ := d.cancelEvent_cases fd
  · rw [hr]
    by_cases hg : g = fd
    · rw [hg, Function.update_self, flagsIn_of_notMem hnot]
    · rw [Function.update_of_ne hg]
  · rw [hr, hfds]
    by_cases hg : g = x.fd
    · rw [hg, Function.update_self, flagsIn_of_notMem (List.nodup_cons.mp (hd.of_split hfds).1).1]
    · rw [Function.update_of_ne hg]
      exact flagsIn_congr (flagsIn_cons_of_ne (Ne.symm hg)).symm

end PollEventDriver

/-- The poll driver does, in a table where each descriptor is once. -/
def pollInterests : Interests pollDriver where
  start := PollEventDriver.create
  Inv := PollEventDriver.Distinct
  interest d := PollEventDriver.flagsIn d.fds
  inv_start := List.nodup_nil
  register {_ fd flag accepted} hd hok :=
    ⟨hd.registerEvent fd flag accepted,
      @PollEventDriver.flagsIn_registerEvent _ _ hd flag accepted hok⟩
  refuse {_ _ _ accepted} hok := @PollEventDriver.registerEvent_of_false _ _ _ accepted hok
  cancel {_ fd} hd := ⟨hd.cancelEvent fd, PollEventDriver.flagsIn_cancelEvent hd⟩
  wait {d answer r} hd hwait := by
    refine ⟨hd.waitEvent hwait, ?_⟩
    cases answer with
    | none =>
      obtain rfl := Option.some.inj hwait
      rfl
    | some revents =>
      obtain ⟨-, hr⟩ := Option.ite_none_right_eq_some.mp hwait
      obtain rfl := Option.some.inj hr
      exact PollEventDriver.flagsIn_map
  ready {d} hd := by
    refine ⟨hd.getReadyEvent, ?_⟩
    show PollEventDriver.flagsIn d.getReadyEvent.2.fds = _
    rw [PollEventDriver.getReadyEvent_fds]

end Lsf.Asio
