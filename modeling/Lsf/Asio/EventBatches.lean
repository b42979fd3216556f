import Lsf.Asio.EventDriver

/-!
# Batches of ready events

Between two calls of `WaitEvent` the events of one batch are returned one at a time, and what the
handlers of the first ones do comes before the rest: descriptors are cancelled and registered.

The epoll driver returns its copy of the batch whatever happens, also for a descriptor that was
cancelled. The poll driver edits the array that it is reading, so that a cancelled entry is gone;
but the entries behind it move, and the one at the cursor is skipped when an entry before the cursor
is cancelled.

## Main definitions

* `Batch` — a driver, and what has happened since the last `WaitEvent`
* `NeverStale`, `ReturnsOnce` — what a batch should be
* `CancelsReturned`, `KeepsPlace` — when it is that

## Main results

* `neverStale_iff_cancels_returned`
* `returnsOnce_iff_keeps_place`
-/

namespace Lsf.Asio

/-! ### Runs of a driver -/

/-- A driver, and what has happened since the last `WaitEvent`. -/
structure Batch (σ : Type) where
  driver : σ
  /-- What `WaitEvent` reported ready. -/
  reported : List ℕ
  cancelled : List ℕ
  registered : List ℕ
  returned : List ℕ
  /-- What has ever been returned when it was cancelled already. -/
  stale : List ℕ

/-- A call of a driver, with what the system answers. -/
inductive DriverCall (κ : Type)
  | registerEvent (fd : ℕ) (flag : Flags) (accepted : Bool)
  | cancelEvent (fd : ℕ)
  | waitEvent (answer : κ)
  | getReadyEvent

namespace Batch

variable {σ κ : Type}

/-- No call was made. -/
def start (s : σ) : Batch σ := ⟨s, [], [], [], [], []⟩

/-- `RegisterEvent` returned this. -/
def registerEvent (r : Bool × σ) (fd : ℕ) (b : Batch σ) : Batch σ :=
  { b with driver := r.2, registered := if r.1 then fd :: b.registered else b.registered }

/-- `GetReadyEvent` returned this. -/
def getReadyEvent (r : Option (ℕ × Flags) × σ) (b : Batch σ) : Batch σ :=
  match r.1 with
  | none => { b with driver := r.2 }
  | some (fd, _) =>
    { b with
      driver := r.2
      returned := b.returned ++ [fd]
      stale := if fd ∈ b.cancelled then fd :: b.stale else b.stale }

/-- A call, none where it is not defined. -/
def step (D : BasicEventDriver σ κ) : DriverCall κ → Batch σ → Option (Batch σ)
  | .registerEvent fd flag accepted, b =>
    some (b.registerEvent (D.registerEvent fd flag accepted b.driver) fd)
  | .cancelEvent fd, b =>
    some { b with driver := D.cancelEvent fd b.driver, cancelled := fd :: b.cancelled }
  | .waitEvent answer, b =>
    (D.waitEvent answer b.driver).map fun r => ⟨r.2, D.reported r.2, [], [], [], b.stale⟩
  | .getReadyEvent, b => some (b.getReadyEvent (D.getReadyEvent b.driver))

/-- `GetReadyEvent` has never returned what was cancelled since the last `WaitEvent`, and does not
do it either when it is called until it returns false. -/
def NeverStale (D : BasicEventDriver σ κ) (b : Batch σ) : Prop :=
  b.stale = [] ∧ ∃ fds s', Drains D b.driver fds s' ∧ ∀ fd ∈ fds, fd ∉ b.cancelled

/-- When `GetReadyEvent` is called until it returns false, everything has been returned exactly once
that was reported and neither cancelled nor registered again. -/
def ReturnsOnce (D : BasicEventDriver σ κ) (b : Batch σ) : Prop :=
  ∃ fds s', Drains D b.driver fds s' ∧ ∀ fd ∈ b.reported, fd ∉ b.cancelled → fd ∉ b.registered →
    (b.returned ++ fds).count fd = 1

/-! ### Returning an event -/

section Returns

variable {D : BasicEventDriver σ κ} {pending : σ → List ℕ} {b : Batch σ}

theorem neverStale_iff (h : Returns D pending) : b.NeverStale D ↔
    b.stale = [] ∧ ∀ fd ∈ pending b.driver, fd ∉ b.cancelled :=
  and_congr_right fun _ => h.exists_drains_iff

theorem returnsOnce_iff (h : Returns D pending) : b.ReturnsOnce D ↔
    ∀ fd ∈ b.reported, fd ∉ b.cancelled → fd ∉ b.registered →
      (b.returned ++ pending b.driver).count fd = 1 :=
  h.exists_drains_iff

theorem NeverStale.getReadyEvent (h : Returns D pending) (hb : b.NeverStale D) :
    (b.getReadyEvent (D.getReadyEvent b.driver)).NeverStale D := by
  rw [neverStale_iff h] at hb ⊢
  obtain ⟨hstale, hpending⟩ := hb
  cases hp : pending b.driver with
  | nil =>
    obtain ⟨s', hget, hnil⟩ := h.nil hp
    rw [hget]
    refine ⟨hstale, fun fd hfd => ?_⟩
    have hfd : fd ∈ pending s' := hfd
    rw [hnil] at hfd
    exact absurd hfd List.not_mem_nil
  | cons fd fds =>
    obtain ⟨flag, s', hget, hrest⟩ := h.cons hp
    rw [hp] at hpending
    have hfd : fd ∉ b.cancelled := hpending fd List.mem_cons_self
    rw [hget]
    refine ⟨(if_neg hfd).trans hstale, fun g hg => ?_⟩
    have hg : g ∈ pending s' := hg
    rw [hrest] at hg
    exact hpending g (List.mem_cons_of_mem fd hg)

/-- What the call returns was the first of what it was to return. -/
theorem returned_append_pending (h : Returns D pending) :
    (b.getReadyEvent (D.getReadyEvent b.driver)).returned ++
      pending (b.getReadyEvent (D.getReadyEvent b.driver)).driver =
        b.returned ++ pending b.driver := by
  cases hp : pending b.driver with
  | nil =>
    obtain ⟨s', hget, hnil⟩ := h.nil hp
    rw [hget]
    show b.returned ++ pending s' = _
    rw [hnil]
  | cons fd fds =>
    obtain ⟨flag, s', hget, hrest⟩ := h.cons hp
    rw [hget]
    show b.returned ++ [fd] ++ pending s' = _
    rw [hrest, List.append_assoc, List.singleton_append]

/-- The call does not change what has happened otherwise. -/
theorem getReadyEvent_frame (r : Option (ℕ × Flags) × σ) :
    (b.getReadyEvent r).driver = r.2 ∧ (b.getReadyEvent r).reported = b.reported ∧
      (b.getReadyEvent r).cancelled = b.cancelled ∧
        (b.getReadyEvent r).registered = b.registered := by
  obtain ⟨_ | _, _⟩ := r <;> exact ⟨rfl, rfl, rfl, rfl⟩

/-- What the call returns is counted on the other side. -/
theorem returnsOnce_getReadyEvent_iff (h : Returns D pending) :
    (b.getReadyEvent (D.getReadyEvent b.driver)).ReturnsOnce D ↔ b.ReturnsOnce D := by
  have hframe := b.getReadyEvent_frame (D.getReadyEvent b.driver)
  rw [returnsOnce_iff h, returnsOnce_iff h, returned_append_pending h, hframe.2.1, hframe.2.2.1,
    hframe.2.2.2]

end Returns

end Batch

/-! ### The copy of the epoll driver -/

section Epoll

/-- The calls of the epoll driver. -/
abbrev EpollCall := DriverCall (Option (List EpollEvent))

variable {b b' : Batch EpollEventDriver} {call : EpollCall}

theorem EpollEventDriver.registerEvent_evs {d : EpollEventDriver} {fd : ℕ} {flag : Flags}
    {accepted : Bool} : (d.registerEvent fd flag accepted).2.evs = d.evs ∧
      (d.registerEvent fd flag accepted).2.curPos = d.curPos := by
  rw [EpollEventDriver.registerEvent]
  split_ifs <;> exact ⟨rfl, rfl⟩

theorem EpollEventDriver.registerEvent_pending {d : EpollEventDriver} {fd : ℕ} {flag : Flags}
    {accepted : Bool} : (d.registerEvent fd flag accepted).2.pending = d.pending := by
  rw [EpollEventDriver.pending, registerEvent_evs.1, registerEvent_evs.2, pending]

/-- What is cancelled was returned before, or is not in the batch. -/
def CancelsReturned : EpollCall → Batch EpollEventDriver → Prop
  | .cancelEvent fd, b => fd ∉ b.driver.pending
  | _, _ => True

theorem neverStale_epoll_step (h : b.NeverStale epollDriver)
    (hstep : b.step epollDriver call = some b') :
    b'.NeverStale epollDriver ↔ CancelsReturned call b := by
  obtain ⟨hstale, hpending⟩ := (b.neverStale_iff EpollEventDriver.returns_pending).mp h
  cases call with
  | registerEvent fd flag accepted =>
    obtain rfl := Option.some.inj hstep
    refine iff_of_true ((Batch.neverStale_iff EpollEventDriver.returns_pending).mpr
      ⟨hstale, ?_⟩) trivial
    show ∀ fd ∈ (b.driver.registerEvent _ _ _).2.pending, _
    rw [EpollEventDriver.registerEvent_pending]
    exact hpending
  | cancelEvent fd =>
    obtain rfl := Option.some.inj hstep
    rw [Batch.neverStale_iff EpollEventDriver.returns_pending]
    show b.stale = [] ∧ (∀ g ∈ b.driver.pending, g ∉ fd :: b.cancelled) ↔ fd ∉ b.driver.pending
    rw [and_iff_right hstale]
    constructor
    · exact fun hall hmem => hall fd hmem List.mem_cons_self
    · intro hnot g hg hmem
      obtain rfl | hmem := List.mem_cons.mp hmem
      · exact hnot hg
      · exact hpending g hg hmem
  | waitEvent answer =>
    obtain ⟨r, -, rfl⟩ := Option.map_eq_some_iff.mp hstep
    exact iff_of_true ((Batch.neverStale_iff EpollEventDriver.returns_pending).mpr
      ⟨hstale, fun fd _ => List.not_mem_nil⟩) trivial
  | getReadyEvent =>
    obtain rfl := Option.some.inj hstep
    exact iff_of_true (h.getReadyEvent EpollEventDriver.returns_pending) trivial

/-- The batch is what was reported, in order, and the cursor parts what was returned from it. -/
structure EpollInv (b : Batch EpollEventDriver) : Prop where
  nodup : b.reported.Nodup
  whole : b.returned ++ b.driver.pending = b.reported

theorem EpollInv.returnsOnce (h : EpollInv b) : b.ReturnsOnce epollDriver := by
  rw [Batch.returnsOnce_iff EpollEventDriver.returns_pending, h.whole]
  exact fun fd hfd _ _ => List.count_eq_one_of_mem h.nodup hfd

theorem EpollInv.step (h : EpollInv b) (hstep : b.step epollDriver call = some b') :
    EpollInv b' := by
  cases call with
  | registerEvent fd flag accepted =>
    obtain rfl := Option.some.inj hstep
    refine ⟨h.nodup, ?_⟩
    show b.returned ++ (b.driver.registerEvent _ _ _).2.pending = b.reported
    rw [EpollEventDriver.registerEvent_pending]
    exact h.whole
  | cancelEvent fd =>
    obtain rfl := Option.some.inj hstep
    exact ⟨h.nodup, h.whole⟩
  | waitEvent answer =>
    obtain ⟨r, hwait, rfl⟩ := Option.map_eq_some_iff.mp hstep
    cases answer with
    | none =>
      obtain rfl := Option.some.inj hwait
      exact ⟨List.nodup_nil, rfl⟩
    | some evs =>
      obtain ⟨hreports, hr⟩ := Option.ite_none_right_eq_some.mp hwait
      obtain rfl := Option.some.inj hr
      exact ⟨hreports.1, rfl⟩
  | getReadyEvent =>
    obtain rfl := Option.some.inj hstep
    have hframe := b.getReadyEvent_frame (epollDriver.getReadyEvent b.driver)
    refine ⟨?_, ?_⟩
    · rw [hframe.2.1]
      exact h.nodup
    · rw [Batch.returned_append_pending EpollEventDriver.returns_pending, hframe.2.1, h.whole]

end Epoll

/-! ### The array of the poll driver -/

section Poll

/-- The calls of the poll driver. -/
abbrev PollCall := DriverCall (Option (ℕ → Events))

namespace PollEventDriver

variable {d : PollEventDriver} {fd : ℕ}

/-- The descriptors of the ready entries of a part of the array. -/
def readyFds (l : List PollFd) : List ℕ := (l.filter fun x => x.revents.any).map PollFd.fd

theorem readyFds_append (l m : List PollFd) : readyFds (l ++ m) = readyFds l ++ readyFds m := by
  rw [readyFds, List.filter_append, List.map_append]
  rfl

theorem readyFds_cons (x : PollFd) (l : List PollFd) :
    readyFds (x :: l) = if x.revents.any then x.fd :: readyFds l else readyFds l := by
  rw [readyFds, List.filter_cons]
  split_ifs <;> rfl

theorem mem_readyFds {l : List PollFd} {g : ℕ} :
    g ∈ readyFds l ↔ ∃ x ∈ l, x.revents.any = true ∧ x.fd = g := by
  simp only [readyFds, List.mem_map, List.mem_filter, and_assoc]

end PollEventDriver

/-- The entries have different descriptors, and the ready ones were reported and not touched since,
so that nothing was returned that had been cancelled. -/
structure PollInv (b : Batch PollEventDriver) : Prop where
  distinct : b.driver.Distinct
  ready : ∀ x ∈ b.driver.fds, x.revents.any = true →
    x.fd ∈ b.reported ∧ x.fd ∉ b.cancelled ∧ x.fd ∉ b.registered
  fresh : b.stale = []

namespace PollInv

variable {b b' : Batch PollEventDriver} {call : PollCall}

theorem neverStale (h : PollInv b) : b.NeverStale pollDriver := by
  rw [Batch.neverStale_iff PollEventDriver.returns_pending]
  refine ⟨h.fresh, fun g hg => ?_⟩
  obtain ⟨x, hx, hready, rfl⟩ := PollEventDriver.mem_readyFds.mp hg
  exact (h.ready x (List.mem_of_mem_drop hx) hready).2.1

/-- The array may change so that the entries of one descriptor are no longer ready. -/
theorem touch (h : PollInv b) (fd : ℕ) {d : PollEventDriver} {cancelled registered : List ℕ}
    (hdistinct : d.Distinct)
    (hold : ∀ y ∈ d.fds, y.revents.any = true → y ∈ b.driver.fds ∧ y.fd ≠ fd)
    (hc : ∀ g ∈ cancelled, g = fd ∨ g ∈ b.cancelled)
    (hr : ∀ g ∈ registered, g = fd ∨ g ∈ b.registered) :
    PollInv { b with driver := d, cancelled, registered } := by
  refine ⟨hdistinct, fun y hy hready => ?_, h.fresh⟩
  obtain ⟨hmem, hne⟩ := hold y hy hready
  obtain ⟨hrep, hnc, hnr⟩ := h.ready y hmem hready
  exact ⟨hrep, fun hy => (hc _ hy).elim hne hnc, fun hy => (hr _ hy).elim hne hnr⟩

theorem step (h : PollInv b) (hstep : b.step pollDriver call = some b') : PollInv b' := by
  cases call with
  | registerEvent fd flag accepted =>
    obtain rfl := Option.some.inj hstep
    show PollInv (b.registerEvent (b.driver.registerEvent fd flag accepted) fd)
    have hdistinct := h.distinct.registerEvent fd flag accepted
    cases hok : (b.driver.registerEvent fd flag accepted).1 with
    | false =>
      rw [Batch.registerEvent, hok, PollEventDriver.registerEvent_of_false hok]
      exact ⟨h.distinct, h.ready, h.fresh⟩
    | true =>
      rw [Batch.registerEvent, hok]
      refine h.touch fd hdistinct (fun y hy hready => ?_) (fun g => .inr) fun g => List.mem_cons.mp
      obtain ⟨hnot, hd⟩ | ⟨pre, x, post, hfds, rfl, hd⟩ := PollEventDriver.registerEvent_cases hok
      · rw [hd] at hy
        obtain hy | hy := List.mem_append.mp hy
        · exact ⟨hy, fun heq => hnot (heq ▸ List.mem_map_of_mem hy)⟩
        · rw [List.mem_singleton.mp hy] at hready
          cases hready
      · rw [hd] at hy
        obtain rfl | hy := List.mem_cons.mp (List.perm_middle.mem_iff.mp hy)
        · cases hready
        · exact (h.distinct.of_split hfds).2 y hy
  | cancelEvent fd =>
    obtain rfl := Option.some.inj hstep
    refine h.touch fd (h.distinct.cancelEvent fd) (fun y hy _ => ?_) (fun g => List.mem_cons.mp)
      fun g => .inr
    have hy : y ∈ (b.driver.cancelEvent fd).fds := hy
    obtain ⟨hnot, -, hd⟩ | ⟨pre, x, post, hfds, -, rfl, hd⟩ := b.driver.cancelEvent_cases fd
    · rw [hd] at hy
      exact ⟨hy, fun heq => hnot (heq ▸ List.mem_map_of_mem hy)⟩
    · rw [hd] at hy
      exact (h.distinct.of_split hfds).2 y hy
  | waitEvent answer =>
    obtain ⟨r, hwait, rfl⟩ := Option.map_eq_some_iff.mp hstep
    refine ⟨h.distinct.waitEvent hwait, fun x hx hr => ?_, h.fresh⟩
    exact ⟨PollEventDriver.mem_readyFds.mpr ⟨x, hx, hr, rfl⟩, List.not_mem_nil, List.not_mem_nil⟩
  | getReadyEvent =>
    obtain rfl := Option.some.inj hstep
    have hframe := b.getReadyEvent_frame (pollDriver.getReadyEvent b.driver)
    have hnever := h.neverStale.getReadyEvent PollEventDriver.returns_pending
    have hfds : (pollDriver.getReadyEvent b.driver).2.fds = b.driver.fds :=
      PollEventDriver.getReadyEvent_fds
    refine ⟨?_, ?_, hnever.1⟩
    · rw [hframe.1]
      exact h.distinct.getReadyEvent
    · rw [hframe.1, hframe.2.1, hframe.2.2.1, hframe.2.2.2, hfds]
      exact h.ready

end PollInv

/-- When an entry before the cursor is cancelled, the entry at the cursor is not ready. -/
def KeepsPlace : PollCall → Batch PollEventDriver → Prop
  | .cancelEvent fd, b => b.driver.findFd fd < b.driver.curPos →
      (b.driver.fds[b.driver.curPos]?).all (fun x => !x.revents.any) = true
  | _, _ => True

section Place

open PollEventDriver

variable {b b' : Batch PollEventDriver} {call : PollCall} {fd g : ℕ}

theorem count_readyFds_cons_of_ne {x : PollFd} {l : List PollFd} (hne : x.fd ≠ g) :
    (readyFds (x :: l)).count g = (readyFds l).count g := by
  rw [readyFds_cons]
  split_ifs
  · exact List.count_cons_of_ne hne
  · rfl

/-- The array may change so that only one descriptor, which was cancelled or registered, is returned
more or less often. -/
theorem ReturnsOnce.touch (h : b.ReturnsOnce pollDriver) {d : PollEventDriver}
    {cancelled registered : List ℕ}
    (hcount : ∀ g, g ≠ fd → (pending d).count g = (pending b.driver).count g)
    (hfd : fd ∈ cancelled ∨ fd ∈ registered) (hc : b.cancelled ⊆ cancelled)
    (hr : b.registered ⊆ registered) :
    ({ b with driver := d, cancelled, registered } : Batch PollEventDriver).ReturnsOnce
      pollDriver := by
  rw [Batch.returnsOnce_iff returns_pending] at h ⊢
  intro g hg hnc hnr
  have hne : g ≠ fd := by
    rintro rfl
    exact hfd.elim hnc hnr
  have hone := h g hg (fun hmem => hnc (hc hmem)) fun hmem => hnr (hr hmem)
  rw [List.count_append] at hone ⊢
  rw [← hone, hcount g hne]

theorem returnsOnce_registerEvent (flag : Flags) (accepted : Bool)
    (h : b.ReturnsOnce pollDriver) :
    (b.registerEvent (b.driver.registerEvent fd flag accepted) fd).ReturnsOnce pollDriver := by
  cases hok : (b.driver.registerEvent fd flag accepted).1 with
  | false =>
    rw [Batch.registerEvent, hok, registerEvent_of_false hok]
    exact h
  | true =>
    rw [Batch.registerEvent, hok]
    refine ReturnsOnce.touch h (fun g hne => ?_) (.inr List.mem_cons_self)
      (List.Subset.refl _) (List.subset_cons_self fd _)
    have hasking : (PollFd.asking fd flag).fd ≠ g := hne.symm
    obtain ⟨-, hd⟩ | ⟨pre, x, post, hfds, rfl, hd⟩ := registerEvent_cases hok
    · rw [hd]
      show (readyFds ((b.driver.fds ++ [PollFd.asking fd flag]).drop b.driver.curPos)).count g =
        (readyFds (b.driver.fds.drop b.driver.curPos)).count g
      rw [List.drop_append, readyFds_append, List.count_append]
      cases b.driver.curPos - b.driver.fds.length with
      | zero => rfl
      | succ k =>
        rw [List.drop_succ_cons, List.drop_nil]
        rfl
    · rw [hd]
      show (readyFds ((pre ++ PollFd.asking x.fd flag :: post).drop b.driver.curPos)).count g =
        (readyFds (b.driver.fds.drop b.driver.curPos)).count g
      rw [hfds, List.drop_append, List.drop_append, readyFds_append, readyFds_append,
        List.count_append, List.count_append]
      cases b.driver.curPos - pre.length with
      | zero =>
        rw [List.drop_zero, List.drop_zero, count_readyFds_cons_of_ne hasking,
          count_readyFds_cons_of_ne hne.symm]
      | succ k => rfl

/-- A ready entry that is left out is not returned. -/
theorem not_returnsOnce_of_skipped (hinv : PollInv b) (h : b.ReturnsOnce pollDriver) {y : PollFd}
    {d : PollEventDriver} {l : List ℕ} (hmem : y ∈ b.driver.fds) (hy : y.revents.any = true)
    (hne : y.fd ≠ fd) (hpending : pending b.driver = y.fd :: l) (hpending' : pending d = l) :
    ¬({ b with driver := d, cancelled := fd :: b.cancelled } :
      Batch PollEventDriver).ReturnsOnce pollDriver := by
  intro hafter
  obtain ⟨hrep, hnc, hnr⟩ := hinv.ready y hmem hy
  have hone := (Batch.returnsOnce_iff returns_pending).mp h y.fd hrep hnc hnr
  have htwo : (b.returned ++ pending d).count y.fd = 1 :=
    (Batch.returnsOnce_iff returns_pending).mp hafter y.fd hrep
      (List.not_mem_cons_of_ne_of_not_mem hne hnc) hnr
  rw [List.count_append, hpending, List.count_cons_self] at hone
  rw [List.count_append, hpending'] at htwo
  omega

/-- What a cancellation does to what is still to be returned. -/
theorem returnsOnce_cancelEvent (hinv : PollInv b) (h : b.ReturnsOnce pollDriver) :
    ({ b with driver := b.driver.cancelEvent fd, cancelled := fd :: b.cancelled } :
      Batch PollEventDriver).ReturnsOnce pollDriver ↔ KeepsPlace (.cancelEvent fd) b := by
  have htouch : ∀ d : PollEventDriver,
      (∀ g, g ≠ fd → (pending d).count g = (pending b.driver).count g) →
      ({ b with driver := d, cancelled := fd :: b.cancelled } :
        Batch PollEventDriver).ReturnsOnce pollDriver := fun d hcount =>
    ReturnsOnce.touch h hcount (.inl List.mem_cons_self) (List.subset_cons_self fd _)
      (List.Subset.refl _)
  obtain ⟨-, hend, hd⟩ | ⟨pre, x, post, hfds, hfind, rfl, hd⟩ := b.driver.cancelEvent_cases fd
  · rw [hd]
    refine iff_of_true (htouch _ fun g _ => rfl) fun hlt => ?_
    rw [hend] at hlt
    rw [List.getElem?_eq_none (Nat.le_of_lt hlt)]
    rfl
  · rw [hd, KeepsPlace, hfind]
    by_cases hlt : pre.length < b.driver.curPos
    · obtain ⟨k, hk⟩ := Nat.exists_eq_add_of_lt hlt
      have hold : b.driver.fds.drop b.driver.curPos = post.drop k := by
        rw [hfds, hk, Nat.add_assoc, List.drop_length_add_append, List.drop_succ_cons]
      have hnew : (pre ++ post).drop b.driver.curPos = (post.drop k).tail := by
        rw [hk, Nat.add_assoc, List.drop_length_add_append, List.tail_drop]
      have hat : b.driver.fds[b.driver.curPos]? = (post.drop k).head? := by
        rw [← hold, List.head?_drop]
      rw [hat]
      cases hpost : post.drop k with
      | nil =>
        rw [hpost] at hold hnew
        refine iff_of_true (htouch _ fun g _ => ?_) fun _ => rfl
        rw [pending, pending, hold, hnew]
        rfl
      | cons y l =>
        rw [hpost] at hold hnew
        have hpending : pending b.driver = readyFds (y :: l) := congrArg readyFds hold
        have hpending' : pending { b.driver with fds := pre ++ post } = readyFds l :=
          congrArg readyFds hnew
        rw [readyFds_cons] at hpending
        cases hy : y.revents.any with
        | false =>
          rw [if_neg (by simp [hy])] at hpending
          refine iff_of_true (htouch _ fun g _ => ?_) fun _ => ?_
          · rw [hpending, hpending']
          · show (!y.revents.any) = true
            rw [hy]
            rfl
        | true =>
          rw [if_pos hy] at hpending
          refine iff_of_false ?_ fun hkeeps => ?_
          · have hmem : y ∈ post := List.mem_of_mem_drop (hpost ▸ List.mem_cons_self)
            obtain ⟨hmem, hne⟩ := (hinv.distinct.of_split hfds).2 y (List.mem_append_right _ hmem)
            exact not_returnsOnce_of_skipped hinv h hmem hy hne hpending hpending'
          · have hkeeps : (!y.revents.any) = true := hkeeps hlt
            rw [hy] at hkeeps
            cases hkeeps
    · refine iff_of_true (htouch _ fun g hne => ?_) fun hlt' => absurd hlt' hlt
      show (readyFds ((pre ++ post).drop b.driver.curPos)).count g =
        (readyFds (b.driver.fds.drop b.driver.curPos)).count g
      rw [hfds, List.drop_append_of_le_length (Nat.le_of_not_lt hlt),
        List.drop_append_of_le_length (Nat.le_of_not_lt hlt), readyFds_append, readyFds_append,
        List.count_append, List.count_append, count_readyFds_cons_of_ne hne.symm]

theorem returnsOnce_poll_step (hinv : PollInv b) (h : b.ReturnsOnce pollDriver)
    (hstep : b.step pollDriver call = some b') :
    b'.ReturnsOnce pollDriver ↔ KeepsPlace call b := by
  cases call with
  | registerEvent fd flag accepted =>
    obtain rfl := Option.some.inj hstep
    exact iff_of_true (returnsOnce_registerEvent flag accepted h) trivial
  | cancelEvent fd =>
    obtain rfl := Option.some.inj hstep
    exact returnsOnce_cancelEvent hinv h
  | waitEvent answer =>
    have hinv' := hinv.step hstep
    obtain ⟨r, hwait, rfl⟩ := Option.map_eq_some_iff.mp hstep
    refine iff_of_true ((Batch.returnsOnce_iff returns_pending).mpr fun g hg _ _ => ?_) trivial
    have hzero : r.2.curPos = 0 := by
      cases answer with
      | none =>
        obtain rfl := Option.some.inj hwait
        rfl
      | some revents =>
        obtain ⟨-, hr⟩ := Option.ite_none_right_eq_some.mp hwait
        obtain rfl := Option.some.inj hr
        rfl
    have hpending : pending r.2 = pollDriver.reported r.2 := by
      rw [pending, hzero]
      rfl
    show (pending r.2).count g = 1
    rw [hpending]
    refine List.count_eq_one_of_mem ?_ hg
    exact (List.filter_sublist.map PollFd.fd).nodup hinv'.distinct
  | getReadyEvent =>
    obtain rfl := Option.some.inj hstep
    exact iff_of_true ((Batch.returnsOnce_getReadyEvent_iff returns_pending).mpr h) trivial

end Place

end Poll

/-! ### Both drivers -/

theorem pollInv_start : PollInv (.start PollEventDriver.create) :=
  ⟨List.nodup_nil, fun _ hx => absurd hx List.not_mem_nil, rfl⟩

theorem cancelsReturned_of_step_eq_none {call : EpollCall} {b : Batch EpollEventDriver}
    (h : b.step epollDriver call = none) : CancelsReturned call b := by
  cases call with
  | cancelEvent fd => cases h
  | _ => trivial

theorem keepsPlace_of_step_eq_none {call : PollCall} {b : Batch PollEventDriver}
    (h : b.step pollDriver call = none) : KeepsPlace call b := by
  cases call with
  | cancelEvent fd => cases h
  | _ => trivial

/-- **The poll driver never returns what was cancelled, and the epoll driver exactly as long as what
is cancelled is no event of the batch that is still to be returned.** -/
theorem neverStale_iff_cancels_returned (pollCalls : List PollCall) (calls : List EpollCall) :
    HoldsAlong (Batch.step pollDriver) (Batch.NeverStale pollDriver) pollCalls
        (.start PollEventDriver.create) ∧
      (HoldsAlong (Batch.step epollDriver) (Batch.NeverStale epollDriver) calls
          (.start EpollEventDriver.create) ↔
        GuardedSteps (Batch.step epollDriver) CancelsReturned calls
          (.start EpollEventDriver.create)) := by
  constructor
  · exact holdsAlong_of_invariant (fun _ => PollInv.neverStale)
      (fun _ _ _ h hstep => h.step hstep) pollInv_start
  · refine @holdsAlong_iff_guardedSteps _ _ _ _ _ _ (fun _ => True) (fun call b b' _ h hstep => ?_)
      (fun _ _ => cancelsReturned_of_step_eq_none) calls trivial ?_
    · exact ⟨trivial, neverStale_epoll_step h hstep⟩
    · exact (Batch.neverStale_iff EpollEventDriver.returns_pending).mpr
        ⟨rfl, fun _ hfd => absurd hfd List.not_mem_nil⟩

/-- The epoll driver returns the second descriptor of a batch after it was cancelled and registered
again. -/
theorem epoll_returns_cancelled : ¬ ∀ calls : List EpollCall,
    HoldsAlong (Batch.step epollDriver) (Batch.NeverStale epollDriver) calls
      (.start EpollEventDriver.create) := by
  intro hall
  have hlast := (hall [.registerEvent 5 { read := true } true,
    .registerEvent 6 { read := true } true,
    .waitEvent (some [⟨5, { pollin := true }⟩, ⟨6, { pollin := true }⟩]), .getReadyEvent,
    .cancelEvent 6, .registerEvent 6 { write := true } true, .getReadyEvent]).last rfl
  have hfresh := hlast.1
  revert hfresh
  decide

/-- **The epoll driver returns every event exactly once, and the poll driver exactly as long as no
entry before the cursor is cancelled while the entry at the cursor is ready.** -/
theorem returnsOnce_iff_keeps_place (epollCalls : List EpollCall) (calls : List PollCall) :
    HoldsAlong (Batch.step epollDriver) (Batch.ReturnsOnce epollDriver) epollCalls
        (.start EpollEventDriver.create) ∧
      (HoldsAlong (Batch.step pollDriver) (Batch.ReturnsOnce pollDriver) calls
          (.start PollEventDriver.create) ↔
        GuardedSteps (Batch.step pollDriver) KeepsPlace calls (.start PollEventDriver.create)) := by
  constructor
  · exact holdsAlong_of_invariant (fun _ => EpollInv.returnsOnce)
      (fun _ _ _ h hstep => h.step hstep) ⟨List.nodup_nil, rfl⟩
  · refine holdsAlong_iff_guardedSteps (fun call b b' hinv h hstep => ?_)
      (fun _ _ => keepsPlace_of_step_eq_none) pollInv_start ?_
    · exact ⟨hinv.step hstep, returnsOnce_poll_step hinv h hstep⟩
    · exact (Batch.returnsOnce_iff PollEventDriver.returns_pending).mpr fun _ hg =>
        absurd hg List.not_mem_nil

/-- The poll driver skips the third of three ready descriptors when the first one is cancelled after
the second one was returned. -/
theorem poll_skips_ready : ¬ ∀ calls : List PollCall,
    HoldsAlong (Batch.step pollDriver) (Batch.ReturnsOnce pollDriver) calls
      (.start PollEventDriver.create) := by
  intro hall
  have hlast := (hall [.registerEvent 5 { read := true } true,
    .registerEvent 6 { read := true } true, .registerEvent 7 { read := true } true,
    .waitEvent (some fun _ => { pollin := true }), .getReadyEvent, .getReadyEvent, .cancelEvent 5,
    .getReadyEvent]).last rfl
  have hreturned := (Batch.returnsOnce_iff PollEventDriver.returns_pending).mp hlast 7
  revert hreturned
  decide

end Lsf.Asio
