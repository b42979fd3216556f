import Lsf.Asio.DriverInterest
import Lsf.Foundations.KeyedArray
import Lsf.Foundations.Refinement

/-!
# The array of the poll driver

`PollEventDriver` keeps its registrations in an array of 1024 entries, of which the first
`_fds_size` count. An entry is found by going through them, and is taken out by moving the later
ones with `memmove`. An access outside the array gives none.

What the array stands for is a finite map from descriptors to flags with room for 1024 of them,
`spec`. `RegisterEvent` asks whether there is room before it looks for the descriptor. So it refuses
new flags for a descriptor that is there while the array is full, and that is the one difference.

## Main definitions

* `PollTable` — the array, with `registerEvent` and `cancelEvent`
* `spec` — the finite map
* `Holds`, `Op.Clear` — the array stands for a map, and a call that is answered as the map says

## Main results

* `refines_spec` — one call
* `Lists.registerEvent`, `Lists.cancelEvent` — the entries as a list
-/

namespace Lsf.Asio

/-- `pollfd`. -/
structure PollSlot where
  fd : ℤ
  events : Events
  revents : Events

/-- The entry that `RegisterEvent` writes. -/
def PollSlot.asking (fd : ℤ) (flag : Flags) : PollSlot where
  fd := fd
  events :=
    { pollerr := true, pollhup := true, pollnval := true
      pollin := flag.read, pollout := flag.write }
  revents := {}

/-- The table of the poll driver, and how many of its slots are used. -/
structure PollTable where
  fds : ℕ → PollSlot
  fdsSize : ℕ

namespace PollTable

/-- The size of the table. -/
def MAX_FD_NUM : ℕ := 1024

/-- A driver that was just made. -/
def create : PollTable := ⟨fun _ => ⟨0, {}, {}⟩, 0⟩

/-- A slot of the table, none outside it. -/
def slot (t : PollTable) (pos : ℕ) : Option PollSlot :=
  if pos < MAX_FD_NUM then some (t.fds pos) else none

/-- The loop that both functions begin with, with the number of entries that it has not seen. -/
def findLoop (fd : ℤ) (t : PollTable) : ℕ → ℕ → Option ℕ
  | 0, pos => some pos
  | todo + 1, pos =>
    (t.slot pos).bind fun x => if x.fd = fd then some pos else findLoop fd t todo (pos + 1)

/-- The position of a descriptor, or the number of entries. -/
def findFd (fd : ℤ) (t : PollTable) : Option ℕ := findLoop fd t t.fdsSize 0

/-- `RegisterEvent`, none where it writes outside the table. -/
def registerEvent (fd : ℤ) (flag : Flags) (t : PollTable) : Option (Bool × PollTable) :=
  if !flag.read && !flag.write then some (false, t)
  else if t.fdsSize ≥ MAX_FD_NUM then some (false, t)
  else
    (t.findFd fd).bind fun pos =>
      (t.slot pos).map fun _ =>
        (true,
          { fds := Function.update t.fds pos (.asking fd flag)
            fdsSize := if pos = t.fdsSize then t.fdsSize + 1 else t.fdsSize })

/-- `memmove` of entries within the array. -/
def memmove (dst src count : ℕ) (t : PollTable) : Option PollTable :=
  if dst + count ≤ MAX_FD_NUM ∧ src + count ≤ MAX_FD_NUM then
    some { t with fds := fun i =>
      if dst ≤ i ∧ i < dst + count then t.fds (src + (i - dst)) else t.fds i }
  else none

/-- `CancelEvent`, which moves the slots behind the one of the descriptor. -/
def cancelEvent (fd : ℤ) (t : PollTable) : Option PollTable :=
  (t.findFd fd).bind fun pos =>
    if pos = t.fdsSize then some t
    else
      (if pos ≠ t.fdsSize - 1 then t.memmove pos (pos + 1) (t.fdsSize - 1 - pos) else some t).map
        fun t => { t with fdsSize := t.fdsSize - 1 }

/-- `GetRegisterEventSize`. -/
def getRegisterEventSize (t : PollTable) : ℕ := t.fdsSize

/-! ### The calls -/

variable {t t' : PollTable} {fd : ℤ} {flag : Flags} {pos : ℕ}

theorem slot_of_lt (h : pos < MAX_FD_NUM) : t.slot pos = some (t.fds pos) := if_pos h

theorem findLoop_cases (fd : ℤ) (t : PollTable) (todo : ℕ) :
    ∀ pos, pos + todo ≤ MAX_FD_NUM → ∃ p, findLoop fd t todo pos = some p ∧ p ≤ pos + todo ∧
      (∀ i, pos ≤ i → i < p → (t.fds i).fd ≠ fd) ∧ (p < pos + todo → (t.fds p).fd = fd) := by
  induction todo with
  | zero =>
    intro pos hle
    refine ⟨pos, rfl, Nat.le_refl _, fun i hi hlt => ?_, fun hlt => ?_⟩ <;> omega
  | succ todo ih =>
    intro pos hle
    rw [findLoop, slot_of_lt (by omega), Option.bind_some]
    by_cases hfd : (t.fds pos).fd = fd
    · rw [if_pos hfd]
      exact ⟨pos, rfl, by omega, fun i hi hlt => by omega, fun _ => hfd⟩
    · obtain ⟨p, hp, hple, hbefore, hat⟩ := ih (pos + 1) (by omega)
      rw [if_neg hfd]
      refine ⟨p, hp, by omega, fun i hi hlt => ?_, fun hlt => hat (by omega)⟩
      by_cases heq : i = pos
      · rwa [heq]
      · exact hbefore i (by omega) hlt

/-- **The search** stops behind the entries, none of which has the descriptor, or at one that has
it. -/
theorem findFd_cases (fd : ℤ) (hsize : t.fdsSize ≤ MAX_FD_NUM) :
    (t.findFd fd = some t.fdsSize ∧ ∀ i < t.fdsSize, (t.fds i).fd ≠ fd) ∨
      ∃ pos < t.fdsSize, t.findFd fd = some pos ∧ (t.fds pos).fd = fd ∧
        ∀ i < pos, (t.fds i).fd ≠ fd := by
  obtain ⟨p, hp, hle, hbefore, hat⟩ := findLoop_cases fd t t.fdsSize 0 (by omega)
  rcases Nat.lt_or_ge p t.fdsSize with hlt | hge
  · exact .inr ⟨p, hlt, hp, hat (by omega), fun i hi => hbefore i (Nat.zero_le i) hi⟩
  · obtain rfl : p = t.fdsSize := by omega
    exact .inl ⟨hp, fun i hi => hbefore i (Nat.zero_le i) hi⟩

/-- An entry is taken out by moving the later ones. -/
theorem cancelEvent_of_findFd (hsize : t.fdsSize ≤ MAX_FD_NUM) (hpos : pos < t.fdsSize)
    (hfind : t.findFd fd = some pos) :
    ∃ t', t.cancelEvent fd = some t' ∧ t'.fdsSize = t.fdsSize - 1 ∧
      ∀ i < t.fdsSize - 1, t'.fds i = t.fds (KeyedArray.skip pos i) := by
  rw [cancelEvent, hfind, Option.bind_some, if_neg (Nat.ne_of_lt hpos)]
  by_cases hlast : pos = t.fdsSize - 1
  · rw [if_neg (not_not.mpr hlast), Option.map_some]
    refine ⟨_, rfl, rfl, fun i hi => ?_⟩
    rw [KeyedArray.skip, if_pos (by omega)]
  · rw [if_pos hlast, memmove, if_pos (by omega), Option.map_some]
    refine ⟨_, rfl, rfl, fun i hi => ?_⟩
    rw [KeyedArray.skip]
    by_cases hlt : i < pos
    · rw [if_pos hlt]
      exact if_neg (by omega)
    · rw [if_neg hlt]
      refine (if_pos (by omega)).trans (congrArg t.fds ?_)
      omega

/-- A call with flags, while there is room. -/
theorem registerEvent_of_room (hflag : (flag.read || flag.write) = true)
    (hroom : t.fdsSize < MAX_FD_NUM) (hpos : pos ≤ t.fdsSize) (hfind : t.findFd fd = some pos) :
    t.registerEvent fd flag = some (true,
      { fds := Function.update t.fds pos (.asking fd flag)
        fdsSize := if pos = t.fdsSize then t.fdsSize + 1 else t.fdsSize }) := by
  have hnot : (!flag.read && !flag.write) = false := by
    rw [← Bool.not_or, hflag]
    rfl
  rw [registerEvent, hnot, if_neg Bool.false_ne_true, if_neg (Nat.not_le.mpr hroom), hfind,
    Option.bind_some, slot_of_lt (by omega), Option.map_some]

theorem registerEvent_of_full (hfull : MAX_FD_NUM ≤ t.fdsSize) :
    t.registerEvent fd flag = some (false, t) := by
  rw [registerEvent, if_pos hfull, ite_self]

theorem registerEvent_of_invalid (hflag : (flag.read || flag.write) = false) :
    t.registerEvent fd flag = some (false, t) := by
  have hnot : (!flag.read && !flag.write) = true := by
    rw [← Bool.not_or, hflag]
    rfl
  rw [registerEvent, hnot, if_pos rfl]

/-! ### The finite map -/

/-- The flags of the registered descriptors. -/
abbrev Interest := Finmap fun _ : ℤ => Flags

/-- A call of the driver. -/
inductive Op
  | register (fd : ℤ) (flag : Flags)
  | cancel (fd : ℤ)
  | size

/-- What a call returns. -/
inductive Answer
  | registered (ok : Bool)
  | cancelled
  | size (count : ℕ)
  deriving DecidableEq

/-- What is kept of the flags of a registration. -/
def kept (flag : Flags) : Flags where
  read := flag.read
  write := flag.write

/-- A call, none where it leaves the table. -/
def step : Op → StateT PollTable Option Answer
  | .register fd flag => fun t => (t.registerEvent fd flag).map fun r => (.registered r.1, r.2)
  | .cancel fd => fun t => (t.cancelEvent fd).map fun t' => (.cancelled, t')
  | .size => fun t => some (.size t.getRegisterEventSize, t)

/-- The map: a descriptor that is there gets new flags, and a new one is added if there is room. -/
def spec : Op → Interest → Answer × Interest
  | .register fd flag, m =>
    if (flag.read || flag.write) = true ∧ (fd ∈ m ∨ m.keys.card < MAX_FD_NUM) then
      (.registered true, m.insert fd (kept flag))
    else (.registered false, m)
  | .cancel fd, m => (.cancelled, m.erase fd)
  | .size, m => (.size m.keys.card, m)

/-- No new flags for a descriptor that is there, while there is no room. -/
def Op.Clear : Op → Interest → Prop
  | .register fd flag, m =>
    (flag.read || flag.write) = true → fd ∈ m → m.keys.card < MAX_FD_NUM
  | .cancel _, _ => True
  | .size, _ => True

/-- An entry as a descriptor with its flags. -/
def entry (t : PollTable) (i : ℕ) : ℤ × Flags := ((t.fds i).fd, (t.fds i).events.interest)

/-- The array stands for the map, with no descriptor twice. -/
structure Holds (t : PollTable) (m : Interest) : Prop where
  size_le : t.fdsSize ≤ MAX_FD_NUM
  represents : KeyedArray.Represents t.entry t.fdsSize m

variable {m : Interest}

theorem holds_create : create.Holds ∅ where
  size_le := Nat.zero_le _
  represents := .empty _

theorem entry_update (i n : ℕ) :
    entry ⟨Function.update t.fds pos (.asking fd flag), n⟩ i =
      if i = pos then (fd, kept flag) else t.entry i := by
  by_cases h : i = pos
  · subst h
    simp only [entry, Function.update_self, if_true]
    rfl
  · simp only [entry, Function.update_of_ne h, if_neg h]

/-- A registration while there is room is one in the map. -/
theorem Holds.register (fd : ℤ) (h : t.Holds m) (hflag : (flag.read || flag.write) = true)
    (hroom : t.fdsSize < MAX_FD_NUM) :
    ∃ t', t.registerEvent fd flag = some (true, t') ∧ t'.Holds (m.insert fd (kept flag)) := by
  rcases findFd_cases fd h.size_le with ⟨hfind, hnone⟩ | ⟨pos, hpos, hfind, hfd, -⟩
  · refine ⟨_, registerEvent_of_room hflag hroom (Nat.le_refl _) hfind, ?_⟩
    rw [if_pos rfl]
    have hnew : fd ∉ m := by
      rw [h.represents.mem_iff]
      rintro ⟨i, hi, heq⟩
      exact hnone i hi heq
    refine ⟨hroom, h.represents.append hnew (fun i hi => ?_) ?_⟩
    · rw [entry_update, if_neg (Nat.ne_of_lt hi)]
    · rw [entry_update, if_pos rfl]
  · refine ⟨_, registerEvent_of_room hflag hroom (Nat.le_of_lt hpos) hfind, ?_⟩
    rw [if_neg (Nat.ne_of_lt hpos)]
    refine ⟨h.size_le, h.represents.overwrite hpos hfd (fun i hi hne => ?_) ?_⟩
    · rw [entry_update, if_neg hne]
    · rw [entry_update, if_pos rfl]

theorem Holds.cancel (fd : ℤ) (h : t.Holds m) :
    ∃ t', t.cancelEvent fd = some t' ∧ t'.Holds (m.erase fd) := by
  rcases findFd_cases fd h.size_le with ⟨hfind, hnone⟩ | ⟨pos, hpos, hfind, hfd, -⟩
  · have hnot : fd ∉ m := by
      rw [h.represents.mem_iff]
      rintro ⟨i, hi, heq⟩
      exact hnone i hi heq
    have herase : m.erase fd = m := by
      refine Finmap.ext_lookup fun k => ?_
      by_cases hk : k = fd
      · rw [hk, Finmap.lookup_erase, Finmap.lookup_eq_none.mpr hnot]
      · rw [Finmap.lookup_erase_ne hk]
    refine ⟨t, ?_, by rwa [herase]⟩
    rw [cancelEvent, hfind, Option.bind_some, if_pos rfl]
  · obtain ⟨t', hcancel, hsize, hmove⟩ := cancelEvent_of_findFd h.size_le hpos hfind
    have hle := h.size_le
    refine ⟨t', hcancel, by omega, ?_⟩
    rw [hsize]
    refine h.represents.remove hpos hfd fun i hi => ?_
    rw [entry, hmove i hi, entry]

/-- **One call**: if it is clear, it does what the map does. -/
theorem refines_spec : Refines step spec Op.Clear Holds := by
  intro op t m hclear h
  cases op with
  | register fd flag =>
    have hcard : m.keys.card = t.fdsSize := h.represents.card
    rw [Op.Clear, hcard] at hclear
    rw [spec, hcard]
    cases hflag : (flag.read || flag.write) with
    | false =>
      rw [if_neg (fun hand => Bool.false_ne_true hand.1)]
      have hrun : (step (.register fd flag)).run t = some (.registered false, t) :=
        congrArg (Option.map _) (registerEvent_of_invalid hflag)
      exact .of_run hrun ⟨rfl, h⟩
    | true =>
      by_cases hroom : t.fdsSize < MAX_FD_NUM
      · obtain ⟨t', hrun, h'⟩ := h.register fd hflag hroom
        rw [if_pos ⟨rfl, .inr hroom⟩]
        exact .of_run (congrArg (Option.map _) hrun) ⟨rfl, h'⟩
      · have hnot : fd ∉ m := fun hmem => hroom (hclear hflag hmem)
        rw [if_neg (by simp [hnot, hroom])]
        have hrun : (step (.register fd flag)).run t = some (.registered false, t) :=
          congrArg (Option.map _) (registerEvent_of_full (Nat.not_lt.mp hroom))
        exact .of_run hrun ⟨rfl, h⟩
  | cancel fd =>
    obtain ⟨t', hrun, h'⟩ := h.cancel fd
    exact .of_run (congrArg (Option.map _) hrun) ⟨rfl, h'⟩
  | size =>
    refine .of_run rfl ⟨?_, h⟩
    rw [getRegisterEventSize, spec, h.represents.card]

/-- The array refuses what the map accepts, if the call is not clear. -/
theorem refuses_of_not_clear (op : Op) (t : PollTable) (m : Interest) (hclear : ¬op.Clear m)
    (h : t.Holds m) : Ensures (step op) t fun r _ => r ≠ (spec op m).1 := by
  cases op with
  | register fd flag =>
    rw [Op.Clear, h.represents.card] at hclear
    push Not at hclear
    obtain ⟨hflag, hmem, hfull⟩ := hclear
    refine .of_run (congrArg (Option.map _) (registerEvent_of_full hfull)) ?_
    rw [spec, if_pos ⟨hflag, .inl hmem⟩]
    exact fun heq => Bool.false_ne_true (Answer.registered.inj heq)
  | cancel fd => exact absurd trivial hclear
  | size => exact absurd trivial hclear

/-- **Every history**: its calls succeed and fail as those of the map, which is what the array
stands for at the end, exactly if no call asks for new flags of a descriptor that is there while
there is no room. -/
theorem run_iff_clear (ops : List Op) :
    (Ensures (runAll step ops) create fun rs t =>
        rs = (traceAll spec ops ∅).1 ∧ t.Holds (traceAll spec ops ∅).2) ↔
      AdmissibleAll spec Op.Clear ops ∅ :=
  refines_spec.runAll_iff refuses_of_not_clear holds_create

/-! ### A full array -/

/-- New descriptors are registered as long as there is room. -/
theorem Holds.register_all (l : List ℤ) (flag : Flags) (hflag : (flag.read || flag.write) = true) :
    ∀ {t m}, t.Holds m → l.Nodup → (∀ fd ∈ l, fd ∉ m) → t.fdsSize + l.length ≤ MAX_FD_NUM →
      Ensures (runAll step (l.map fun fd => .register fd flag)) t fun _ t' => ∃ m',
        t'.Holds m' ∧ (∀ fd, fd ∈ m' ↔ fd ∈ l ∨ fd ∈ m) ∧ t'.fdsSize = t.fdsSize + l.length := by
  induction l with
  | nil =>
    intro t m h _ _ _
    rw [List.map_nil, runAll, ensures_pure]
    exact ⟨m, h, fun fd => by simp, rfl⟩
  | cons fd l ih =>
    intro t m h hnodup hnew hroom
    obtain ⟨hnot, hnodup⟩ := List.nodup_cons.mp hnodup
    obtain ⟨hfd, hnew⟩ := List.forall_mem_cons.mp hnew
    rw [List.length_cons] at hroom
    obtain ⟨t', hrun, h'⟩ := h.register fd hflag (by omega)
    have hsize : t'.fdsSize = t.fdsSize + 1 := by
      rw [← h'.represents.card, ← h.represents.card, ← Finset.card_insert_of_notMem
        (mt Finmap.mem_keys.mp hfd)]
      congr 1
      ext g
      rw [Finmap.mem_keys, Finmap.mem_insert, Finset.mem_insert, Finmap.mem_keys]
    have hnew' : ∀ g ∈ l, g ∉ m.insert fd (kept flag) := by
      intro g hg
      rw [Finmap.mem_insert, not_or]
      exact ⟨fun heq => hnot (heq ▸ hg), hnew g hg⟩
    have hstep : (step (.register fd flag)).run t = some (.registered true, t') :=
      congrArg (Option.map _) hrun
    rw [List.map_cons, runAll]
    refine .bind_of_run hstep ((ih h' hnodup hnew' (by omega)).bind fun _ t'' hend => ?_)
    obtain ⟨m', hm', hmem, hsize'⟩ := hend
    rw [ensures_pure]
    refine ⟨m', hm', fun g => ?_, by rw [List.length_cons]; omega⟩
    rw [hmem, Finmap.mem_insert, List.mem_cons, or_left_comm, or_assoc]

/-- After 1024 descriptors were registered for reading, one of them is refused for writing. -/
theorem full_array_refuses :
    Ensures (runAll step ((List.range MAX_FD_NUM).map fun n : ℕ => .register n { read := true }))
      create fun _ t => (∃ i < t.fdsSize, (t.fds i).fd = 0) ∧
        t.registerEvent 0 { write := true } = some (false, t) := by
  have hnodup : ((List.range MAX_FD_NUM).map fun n : ℕ => (n : ℤ)).Nodup :=
    List.nodup_range.map fun a b h => Int.ofNat.inj h
  have hall := holds_create.register_all _ { read := true } rfl hnodup
    (fun fd _ => Finmap.notMem_empty) (by rw [List.length_map, List.length_range]; rfl)
  simp only [List.map_map, Function.comp_def] at hall
  refine hall.mono fun _ t hend => ?_
  obtain ⟨m', h, hmem, hsize⟩ := hend
  rw [List.length_map, List.length_range] at hsize
  constructor
  · refine h.represents.mem_iff.mp ((hmem 0).mpr (.inl ?_))
    exact List.mem_map.mpr ⟨0, List.mem_range.mpr (by decide), rfl⟩
  · exact registerEvent_of_full (by rw [hsize]; exact Nat.le_add_left _ _)

/-! ### The entries as a list -/

/-- The entries that count are those of the list. -/
structure Lists (t : PollTable) (d : PollEventDriver) : Prop where
  size : t.fdsSize = d.fds.length
  slot : ∀ i x, d.fds[i]? = some x → t.fds i = ⟨x.fd, x.events, x.revents⟩

namespace Lists

variable {d : PollEventDriver} {n : ℕ}

theorem fd_eq (h : t.Lists d) {i : ℕ} (hi : i < d.fds.length) :
    (t.fds i).fd = n ↔ d.fds[i].fd = n := by
  rw [h.slot i d.fds[i] (List.getElem?_eq_getElem hi)]
  exact Int.natCast_inj

theorem findFd (h : t.Lists d) (hsize : t.fdsSize ≤ MAX_FD_NUM) (n : ℕ) :
    t.findFd n = some (d.findFd n) := by
  rcases findFd_cases n hsize with ⟨hfind, hnone⟩ | ⟨pos, hpos, hfind, hfd, hbefore⟩
  · rw [hfind, h.size, PollEventDriver.findFd, List.findIdx_eq_length_of_false]
    intro x hx
    obtain ⟨i, hi, rfl⟩ := List.mem_iff_getElem.mp hx
    exact decide_eq_false fun heq => hnone i (h.size ▸ hi) ((h.fd_eq hi).mpr heq)
  · rw [h.size] at hpos
    rw [hfind, PollEventDriver.findFd, (List.findIdx_eq hpos).mpr]
    refine ⟨decide_eq_true ((h.fd_eq hpos).mp hfd), fun i hi => ?_⟩
    exact decide_eq_false fun heq => hbefore i hi ((h.fd_eq (hi.trans hpos)).mpr heq)

/-- The entry of a registration is written in both. -/
theorem write (h : t.Lists d) {size : ℕ} {fds : List PollFd} (hsize : size = fds.length)
    (hget : ∀ i x, fds[i]? = some x →
      if i = pos then x = .asking n flag else d.fds[i]? = some x) :
    Lists ⟨Function.update t.fds pos (.asking n flag), size⟩ { d with fds } where
  size := hsize
  slot i x hx := by
    have hx := hget i x hx
    by_cases hi : i = pos
    · rw [if_pos hi] at hx
      subst hi hx
      exact Function.update_self ..
    · rw [if_neg hi] at hx
      exact (Function.update_of_ne hi ..).trans (h.slot i x hx)

theorem registerEvent (h : t.Lists d) (hsize : t.fdsSize ≤ MAX_FD_NUM) (n : ℕ) (flag : Flags)
    (accepted : Bool) : ∃ t',
      t.registerEvent n flag = some ((d.registerEvent n flag accepted).1, t') ∧
      t'.Lists (d.registerEvent n flag accepted).2 := by
  rw [PollEventDriver.registerEvent]
  cases hflag : (flag.read || flag.write) with
  | false =>
    rw [if_pos (by rw [← Bool.not_or, hflag]; rfl)]
    exact ⟨t, registerEvent_of_invalid hflag, h⟩
  | true =>
    rw [if_neg (by rw [← Bool.not_or, hflag]; decide)]
    by_cases hfull : d.fds.length ≥ PollEventDriver.MAX_FD_NUM
    · rw [if_pos hfull]
      exact ⟨t, registerEvent_of_full (h.size ▸ hfull), h⟩
    have hle : d.findFd n ≤ d.fds.length := List.findIdx_le_length
    have hroom : t.fdsSize < MAX_FD_NUM := h.size ▸ Nat.not_le.mp hfull
    have hrun := registerEvent_of_room hflag hroom (h.size ▸ hle) (h.findFd hsize n)
    rw [if_neg hfull]
    by_cases hend : d.findFd n = d.fds.length
    · rw [if_pos hend]
      refine ⟨_, hrun, h.write ?_ fun i x hx => ?_⟩
      · rw [if_pos (hend.trans h.size.symm), List.length_append, h.size]
        rfl
      · rw [hend]
        split
        · subst i
          rw [List.getElem?_concat_length] at hx
          exact (Option.some.inj hx).symm
        · have hlt := (List.getElem?_eq_some_iff.mp hx).1
          rw [List.length_append, List.length_singleton] at hlt
          rwa [List.getElem?_append_left (by omega)] at hx
    · rw [if_neg hend]
      refine ⟨_, hrun, h.write ?_ fun i x hx => ?_⟩
      · rw [if_neg (fun heq => hend (heq.trans h.size)), List.length_set, h.size]
      · split
        · subst i
          rw [List.getElem?_set_self (by omega)] at hx
          exact (Option.some.inj hx).symm
        · rwa [List.getElem?_set_ne (Ne.symm ‹_›)] at hx

theorem cancelEvent (h : t.Lists d) (hsize : t.fdsSize ≤ MAX_FD_NUM) (n : ℕ) :
    ∃ t', t.cancelEvent n = some t' ∧ t'.Lists (d.cancelEvent n) := by
  rw [PollEventDriver.cancelEvent]
  by_cases hend : d.findFd n = d.fds.length
  · rw [if_pos hend]
    refine ⟨t, ?_, h⟩
    rw [PollTable.cancelEvent, h.findFd hsize, Option.bind_some, if_pos (hend.trans h.size.symm)]
  · have hlt : d.findFd n < d.fds.length := Nat.lt_of_le_of_ne List.findIdx_le_length hend
    obtain ⟨t', hcancel, hsize', hmove⟩ :=
      cancelEvent_of_findFd hsize (by rwa [h.size]) (h.findFd hsize n)
    rw [if_neg hend]
    refine ⟨t', hcancel, ?_, fun i x hx => ?_⟩
    · rw [hsize', h.size, List.length_eraseIdx_of_lt hlt]
    · have hi := (List.getElem?_eq_some_iff.mp hx).1
      rw [List.length_eraseIdx_of_lt hlt, ← h.size] at hi
      rw [hmove i hi]
      rw [List.getElem?_eraseIdx] at hx
      refine h.slot _ x ?_
      rw [KeyedArray.skip]
      split at hx
      · rwa [if_pos ‹_›]
      · rwa [if_neg ‹_›]

end Lists

end PollTable

end Lsf.Asio
