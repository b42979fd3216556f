import Lsf.Asio.TimerService
import Mathlib.Algebra.GroupWithZero.Nat

/-!
# How often a timer fires

The handler of a timer is called once for each expiration that is read, but not more often than the
timer is to trigger. After the last call, and after a read that fails, the timer is closed.
`OnTimerEvent` means to leave a timer alone when the read would only have blocked, but it looks for
`EAGAIN` in the value of `read` and not in `errno`, so that such a timer is closed as well.

## Main definitions

* `AsCounted` — how often the handler was called, and whether the timer is closed
* `Accounted` — the three situations in which a timer can be
* `Spares`, `NoReadBlocks` — the condition on other code, and that on the reads

## Main results

* `Accounted.step` — what one step preserves
* `asCounted_iff_noReadBlocks`
-/

namespace Lsf.Asio.TimerService

variable {σ κ ω : Type} {D : BasicEventDriver σ κ} {s s' s'' : TimerService σ ω} {fd g o k : ℕ}
  {i : TimerStep}

/-- The expirations of a timer that were read. -/
def expirations (k : ℕ) (s : TimerService σ ω) : ℕ :=
  ((s.reads.filter fun r => r.1 = k).map fun r => r.2.count.toNat).sum

/-- The handler of the timer does not run. -/
def Outside (k : ℕ) (s : TimerService σ ω) : Prop := ∀ r ∈ s.running, r.serial ≠ k

/-- The handler was called as often as it should be, and the timer is closed if it should be. -/
structure AsCounted (triggerCount : UInt64) (k : ℕ) (s : TimerService σ ω) : Prop where
  invoked : s.invoked.count k =
    if triggerCount = 0 then s.expirations k else min triggerCount.toNat (s.expirations k)
  closed : some k ∈ s.closed ↔
    triggerCount ≠ 0 ∧ s.invoked.count k = triggerCount.toNat ∨ (k, .fails) ∈ s.reads

/-- Other code leaves the descriptor of the timer alone as long as the timer is not closed. -/
def Spares (fd k : ℕ) (i : TimerStep) (s : TimerService σ ω) : Prop :=
  some k ∉ s.closed →
    match i with
    | .asyncCloseTimer g => g ≠ fd
    | .asyncCancel g => g ≠ fd
    | .asyncRead _ g _ => g ≠ fd
    | .goOn => ∀ r ∈ s.running, r.serial ≠ k → r.timerFd ≠ fd
    | _ => True

/-- No read of the timer would block. -/
def NoReadBlocks (k : ℕ) : TimerStep → TimerService σ ω → Prop
  | .timerEvent fd .wouldBlock, s =>
    s.running = none → ∀ o ∈ s.timerOf fd, (s.completions o).serial ≠ k
  | _, _ => True

instance (fd k : ℕ) : ∀ (i : TimerStep) (s : TimerService σ ω), Decidable (Spares fd k i s)
  | .asyncAddTimer _ _ _ _ _ _, _ => isTrue fun _ => trivial
  | .asyncCloseTimer g, s => inferInstanceAs (Decidable (some k ∉ s.closed → g ≠ fd))
  | .asyncCancel g, s => inferInstanceAs (Decidable (some k ∉ s.closed → g ≠ fd))
  | .asyncRead _ g _, s => inferInstanceAs (Decidable (some k ∉ s.closed → g ≠ fd))
  | .openFd _, _ => isTrue fun _ => trivial
  | .close _, _ => isTrue fun _ => trivial
  | .elapse _ _, _ => isTrue fun _ => trivial
  | .timerEvent _ _, _ => isTrue fun _ => trivial
  | .goOn, s => inferInstanceAs (Decidable
    (some k ∉ s.closed → ∀ r ∈ s.running, r.serial ≠ k → r.timerFd ≠ fd))

instance (k : ℕ) : ∀ (i : TimerStep) (s : TimerService σ ω), Decidable (NoReadBlocks k i s)
  | .asyncAddTimer _ _ _ _ _ _, _ => isTrue trivial
  | .asyncCloseTimer _, _ => isTrue trivial
  | .asyncCancel _, _ => isTrue trivial
  | .asyncRead _ _ _, _ => isTrue trivial
  | .openFd _, _ => isTrue trivial
  | .close _, _ => isTrue trivial
  | .elapse _ _, _ => isTrue trivial
  | .timerEvent _ (.expirations _), _ => isTrue trivial
  | .timerEvent fd .wouldBlock, s => inferInstanceAs (Decidable
    (s.running = none → ∀ o ∈ s.timerOf fd, (s.completions o).serial ≠ k))
  | .timerEvent _ .fails, _ => isTrue trivial
  | .goOn, _ => isTrue trivial

/-- The step is one of `OnTimerEvent` for the timer. -/
def Concerns (k : ℕ) : TimerStep → TimerService σ ω → Prop
  | .timerEvent fd _, s => ∃ o ∈ s.timerOf fd, (s.completions o).serial = k
  | .goOn, s => ∃ r ∈ s.running, r.serial = k
  | _, _ => False

/-- A step concerns a timer that is kept or, where a handler returns, the one that it is for. -/
theorem not_concerns (hgone : ∀ fd o, s.timerOf fd = some o → (s.completions o).serial ≠ k)
    (hout : i = .goOn → s.Outside k) : ¬ Concerns k i s := by
  cases i with
  | timerEvent fd read =>
    rintro ⟨o, ho, hserial⟩
    exact hgone fd o ho hserial
  | goOn =>
    rintro ⟨r, hr, hserial⟩
    exact hout rfl r hr hserial
  | _ => exact id

/-! ### Steps that do not concern the timer -/

/-- What was read and called for the timer does not change. -/
structure LogKept (k : ℕ) (s s' : TimerService σ ω) : Prop where
  reads : s'.reads.filter (fun r => r.1 = k) = s.reads.filter fun r => r.1 = k
  invoked : s'.invoked.count k = s.invoked.count k
  closed : s.closed <+: s'.closed
  outside : s.Outside k → s'.Outside k

namespace LogKept

theorem refl (k : ℕ) (s : TimerService σ ω) : LogKept k s s := ⟨rfl, rfl, List.prefix_rfl, id⟩

theorem trans (h : LogKept k s s') (h' : LogKept k s' s'') : LogKept k s s'' :=
  ⟨h'.reads.trans h.reads, h'.invoked.trans h.invoked, h.closed.trans h'.closed,
    fun hout => h'.outside (h.outside hout)⟩

theorem expirations (h : LogKept k s s') : s'.expirations k = s.expirations k := by
  rw [TimerService.expirations, h.reads, TimerService.expirations]

theorem mem_reads (h : LogKept k s s') {read : TimerRead} :
    (k, read) ∈ s'.reads ↔ (k, read) ∈ s.reads := by
  have hmem : ∀ l : List (ℕ × TimerRead), (k, read) ∈ l ↔ (k, read) ∈ l.filter fun r => r.1 = k :=
    fun l => by simp
  rw [hmem s'.reads, h.reads, ← hmem]

theorem asyncCloseTimer (fd : ℕ) (s : TimerService σ ω) : LogKept k s (s.asyncCloseTimer D fd) :=
  { refl k s with closed := List.prefix_append _ _ }

theorem record {serial : ℕ} (h : serial ≠ k) (read : TimerRead) (s : TimerService σ ω) :
    LogKept k s (s.record serial read) :=
  { refl k s with reads := by simp [TimerService.record, h] }

theorem stop (s : TimerService σ ω) : LogKept k s s.stop := { refl k s with outside := nofun }

theorem countDown (o : ℕ) (s : TimerService σ ω) : LogKept k s (s.countDown o) :=
  { refl k s with }

theorem nextRound {r : TimerEventState} (h : r.serial ≠ k) (left : ℕ) (s : TimerService σ ω) :
    LogKept k s (s.nextRound D r left) := by
  cases left with
  | zero =>
    rw [TimerService.nextRound]
    split_ifs
    · exact asyncCloseTimer r.timerFd s
    · exact refl k s
  | succ left =>
    refine { refl k s with invoked := ?_, outside := ?_ }
    · simp [TimerService.nextRound, h]
    · rintro - r' hr'
      cases hr'
      exact h

end LogKept

theorem logKept_step (h : step D i s = some s') (hi : ¬ Concerns k i s) : LogKept k s s' := by
  obtain huser | ⟨fd, read, o, rfl, -, ho, hevent⟩ | ⟨r, rfl, hr, rfl⟩ := step_kinds h
  · refine ⟨by rw [huser.reads], by rw [huser.invoked], huser.closed, fun hout r hr => ?_⟩
    rw [huser.running] at hr
    exact hout r hr
  · obtain ⟨timerFd, -, rfl⟩ := Option.map_eq_some_iff.mp hevent
    have hserial : (s.completions o).serial ≠ k := fun heq => hi ⟨o, ho, heq⟩
    dsimp only
    split_ifs
    · exact (LogKept.record hserial read s).trans (.asyncCloseTimer timerFd _)
    · exact .record hserial read s
    · exact (LogKept.record hserial read s).trans (.nextRound hserial _ _)
  · have hserial : r.serial ≠ k := fun heq => hi ⟨r, hr, heq⟩
    rw [afterHandler]
    split_ifs
    · exact (LogKept.stop s).trans (.asyncCloseTimer r.timerFd _)
    · exact ((LogKept.stop s).trans (.countDown r.completion _)).trans (.nextRound hserial _ _)

/-! ### An open timer -/

/-- The timer `k` is open under the number `fd`, with its completion `o`. -/
structure Open (milliInterval : UInt64) (fd o k : ℕ) (s : TimerService σ ω) : Prop where
  map : s.service.readFuncMap fd = some o
  action : (s.completions o).action = some .timer
  timerFd : (s.completions o).timerFd = some fd
  serial : (s.completions o).serial = k
  descriptor : ∃ itValue, s.descriptors fd = some ⟨k, some ⟨itValue, .ofMilli milliInterval⟩⟩
  closed : some k ∉ s.closed

/-- What a step leaves as it is that does not touch the timer. -/
structure Apart (fd o k : ℕ) (s s' : TimerService σ ω) : Prop where
  map : s'.service.readFuncMap fd = s.service.readFuncMap fd
  completion : s'.completions o = s.completions o
  descriptor : ∀ interval, (∃ itValue, s.descriptors fd = some ⟨k, some ⟨itValue, interval⟩⟩) →
    ∃ itValue, s'.descriptors fd = some ⟨k, some ⟨itValue, interval⟩⟩
  closed : some k ∈ s'.closed → some k ∈ s.closed

namespace Apart

theorem refl (fd o k : ℕ) (s : TimerService σ ω) : Apart fd o k s s := ⟨rfl, rfl, fun _ => id, id⟩

theorem trans (h : Apart fd o k s s') (h' : Apart fd o k s' s'') : Apart fd o k s s'' :=
  ⟨h'.map.trans h.map, h'.completion.trans h.completion,
    fun interval hd => h'.descriptor interval (h.descriptor interval hd),
    fun hclosed => h.closed (h'.closed hclosed)⟩

theorem close (hs : Keyed s) (hk : s.opened[k]? = some fd) (hg : g ≠ fd) :
    Apart fd o k s (s.close g) := by
  refine { refl fd o k s with descriptor := fun interval hd => ?_, closed := fun hclosed => ?_ }
  · rwa [descriptors_close_of_ne hg.symm]
  · obtain hclosed | hclosed := List.mem_append.mp hclosed
    · exact hclosed
    · -- the descriptor that is closed was opened with its number
      obtain ⟨d, hd, hserial⟩ := Option.map_eq_some_iff.mp (List.mem_singleton.mp hclosed).symm
      have hopened := hs.descriptor g d hd
      rw [hserial, hk] at hopened
      exact absurd (Option.some.inj hopened).symm hg

theorem asyncCancel (hg : g ≠ fd) (s : TimerService σ ω) : Apart fd o k s (s.asyncCancel D g) :=
  { refl fd o k s with map := Function.update_of_ne hg.symm _ _ }

theorem asyncCloseTimer (hs : Keyed s) (hk : s.opened[k]? = some fd) (hg : g ≠ fd) :
    Apart fd o k s (s.asyncCloseTimer D g) :=
  (asyncCancel hg s).trans (close ((Fewer.asyncCancel g s).keyed hs) hk hg)

theorem addFd (hg : g ≠ fd) (timer : Option ITimerSpec) (s : TimerService σ ω) :
    Apart fd o k s (s.addFd g timer) := by
  refine { refl fd o k s with descriptor := fun interval hd => ?_ }
  rwa [descriptors_addFd_of_ne hg.symm]

theorem setCompletion {f : ReadCompletionFunc → ReadCompletionFunc} (hs : Keyed s)
    (hmap : s.service.readFuncMap fd = some o) (hg : g ≠ fd) :
    Apart fd o k s (s.setCompletion g f) := by
  have hnew : (s.setCompletion g f).service.readFuncMap fd = s.service.readFuncMap fd :=
    Function.update_of_ne hg.symm _ _
  refine { refl fd o k s with map := hnew, completion := completions_setCompletion_of_ne ?_ }
  obtain ⟨rfl, -⟩ | ⟨-, -, hne⟩ := (readFuncMap_setCompletion hs).mp (hnew.trans hmap)
  · exact absurd rfl hg
  · exact hne

theorem registerRead (accepted : Bool) (s : TimerService σ ω) :
    Apart fd o k s (s.registerRead D g accepted).2 := { refl fd o k s with }

theorem elapse (g : ℕ) (itValue : Timespec) (s : TimerService σ ω) :
    Apart fd o k s (s.elapse g itValue) := by
  refine { refl fd o k s with descriptor := fun interval hd => ?_ }
  by_cases hg : fd = g
  · subst hg
    obtain ⟨old, hd⟩ := hd
    rw [descriptors_elapse_self, hd]
    exact ⟨itValue, rfl⟩
  · rwa [descriptors_elapse_of_ne hg]

theorem record (serial : ℕ) (read : TimerRead) (s : TimerService σ ω) :
    Apart fd o k s (s.record serial read) := { refl fd o k s with }

theorem stop (s : TimerService σ ω) : Apart fd o k s s.stop := { refl fd o k s with }

theorem countDown {o' : ℕ} (h : o ≠ o') (s : TimerService σ ω) :
    Apart fd o k s (s.countDown o') :=
  { refl fd o k s with completion := completions_countDown_of_ne h }

theorem nextRound {r : TimerEventState} (hs : Keyed s) (hk : s.opened[k]? = some fd)
    (hr : r.timerFd ≠ fd) (left : ℕ) : Apart fd o k s (s.nextRound D r left) := by
  cases left with
  | zero =>
    rw [TimerService.nextRound]
    split_ifs
    · exact asyncCloseTimer hs hk hr
    · exact refl fd o k s
  | succ left => exact { refl fd o k s with }

end Apart

namespace Open

variable {milliInterval : UInt64}

theorem timerOf (h : s.Open milliInterval fd o k) : s.timerOf fd = some o :=
  timerOf_eq_some.mpr ⟨h.map, h.action⟩

theorem opened (hs : Keyed s) (h : s.Open milliInterval fd o k) : s.opened[k]? = some fd := by
  rw [← h.serial]
  exact hs.opened_of_timerOf h.timerOf

/-- The only completion of the timer. -/
theorem eq_of_serial (hs : Keyed s) (h : s.Open milliInterval fd o k) {o' : ℕ}
    (ho' : s.timerOf g = some o') (hserial : (s.completions o').serial = k) : g = fd ∧ o' = o := by
  have hg := hs.opened_of_timerOf ho'
  rw [hserial, h.opened hs] at hg
  obtain rfl := Option.some.inj hg
  exact ⟨rfl, Option.some.inj (ho'.symm.trans h.timerOf)⟩

theorem ne_of_free (h : s.Open milliInterval fd o k) (hfree : s.descriptors g = none) :
    g ≠ fd := by
  rintro rfl
  obtain ⟨itValue, hd⟩ := h.descriptor
  rw [hfree] at hd
  cases hd

theorem apart (h : s.Open milliInterval fd o k) (hapart : Apart fd o k s s') :
    s'.Open milliInterval fd o k where
  map := hapart.map.trans h.map
  action := by rw [hapart.completion, h.action]
  timerFd := by rw [hapart.completion, h.timerFd]
  serial := by rw [hapart.completion, h.serial]
  descriptor := hapart.descriptor _ h.descriptor
  closed := fun hclosed => h.closed (hapart.closed hclosed)

/-- A new timer has another descriptor. -/
theorem apart_asyncAddTimer {milliExpire milliInterval' triggerCount : UInt64}
    {timerFd result : Option ℕ} {isSet accepted : Bool} (hs : Keyed s)
    (ho : s.Open milliInterval fd o k)
    (h : s.asyncAddTimer D milliExpire milliInterval' triggerCount timerFd isSet accepted =
      some (result, s')) : Apart fd o k s s' := by
  obtain ⟨-, -, rfl⟩ | ⟨g, milli, s₁, -, hfree, rfl, hend⟩ := asyncAddTimer_cases h
  · exact .refl fd o k _
  have hg := ho.ne_of_free hfree
  let timer : Option ITimerSpec := some ⟨.ofMilli milli, .ofMilli milliInterval'⟩
  have hadded := (Fewer.addFd timer hfree).keyed hs
  have hk : (s.opened ++ [g])[k]? = some fd :=
    getElem?_mono (List.prefix_append _ _) (ho.opened hs)
  have hadd : Apart fd o k s (s.addFd g timer) := .addFd hg timer s
  have hregister := hadd.trans (.registerRead (D := D) (g := g) accepted _)
  have hregistered := (Fewer.registerRead (D := D) g accepted _).keyed hadded
  obtain ⟨-, rfl | rfl⟩ | ⟨-, rfl⟩ := hend
  · exact hadd.trans (.close hadded hk hg)
  · exact hregister.trans (.close hregistered hk hg)
  · exact hregister.trans (.setCompletion hregistered ho.map hg)

/-- The completion of another timer is kept for another descriptor. -/
theorem apart_onTimerEvent {read : TimerRead} {o' : ℕ} (hs : Keyed s)
    (ho : s.Open milliInterval fd o k) (ho' : s.timerOf g = some o')
    (hserial : (s.completions o').serial ≠ k) (h : s.onTimerEvent D o' read = some s') :
    Apart fd o k s s' := by
  obtain ⟨timerFd, htimerFd, rfl⟩ := Option.map_eq_some_iff.mp h
  have hk := ho.opened hs
  have hg : timerFd ≠ fd := by
    rintro rfl
    have hfd := hs.timer g o' ho'
    rw [htimerFd] at hfd
    obtain rfl := Option.some.inj hfd
    obtain rfl := Option.some.inj (ho'.symm.trans ho.timerOf)
    exact hserial ho.serial
  have hrecord := (Fewer.record (s.completions o').serial read s).keyed hs
  dsimp only
  split_ifs
  · exact (Apart.record _ read s).trans (.asyncCloseTimer hrecord hk hg)
  · exact .record _ read s
  · exact (Apart.record _ read s).trans (.nextRound hrecord hk hg _)

/-- The handler of another timer returns. -/
theorem apart_afterHandler (hs : Keyed s) (ho : s.Open milliInterval fd o k)
    (hr : s.running = some r) (hserial : r.serial ≠ k) (hg : r.timerFd ≠ fd) :
    Apart fd o k s (s.afterHandler D r) := by
  have hk := ho.opened hs
  have hne : o ≠ r.completion := by
    rintro rfl
    exact hserial ((hs.running r hr).serial.symm.trans ho.serial)
  have hstop := (Fewer.stop s).keyed hs
  rw [afterHandler]
  split_ifs
  · exact (Apart.stop s).trans (.asyncCloseTimer hstop hk hg)
  · exact ((Apart.stop s).trans (.countDown hne _)).trans
      (.nextRound ((Fewer.countDown r.completion _).keyed hstop) hk hg r.left)

/-- Steps that do not concern the timer and spare it. -/
theorem apart_step (hs : Keyed s) (ho : s.Open milliInterval fd o k) (hspares : Spares fd k i s)
    (hi : ¬ Concerns k i s) (h : step D i s = some s') : Apart fd o k s s' := by
  have hk := ho.opened hs
  have hspares := hspares ho.closed
  cases i with
  | asyncAddTimer milliExpire milliInterval triggerCount timerFd isSet accepted =>
    obtain ⟨⟨result, s'⟩, hadd, rfl⟩ := Option.map_eq_some_iff.mp h
    exact ho.apart_asyncAddTimer hs hadd
  | asyncCloseTimer g =>
    cases h
    exact { Apart.asyncCloseTimer (o := o) (D := D) hs hk hspares with }
  | asyncCancel g =>
    cases h
    exact .asyncCancel hspares s
  | asyncRead action g accepted =>
    obtain ⟨-, hs'⟩ := Option.ite_none_left_eq_some.mp h
    obtain rfl := Option.some.inj hs'
    rw [TimerService.asyncRead]
    split_ifs
    · exact .registerRead accepted s
    · exact (Apart.registerRead accepted s).trans
        (.setCompletion ((Fewer.registerRead g accepted s).keyed hs) ho.map hspares)
  | openFd g =>
    obtain ⟨hfree, rfl⟩ := openFd_eq_some.mp h
    exact .addFd (ho.ne_of_free hfree) none s
  | close g =>
    obtain ⟨htimer, hs'⟩ := Option.ite_none_left_eq_some.mp h
    obtain rfl := Option.some.inj hs'
    refine .close hs hk ?_
    rintro rfl
    obtain ⟨itValue, hd⟩ := ho.descriptor
    simp [hd] at htimer
  | elapse g itValue =>
    cases h
    exact .elapse g itValue s
  | timerEvent g read =>
    obtain ⟨-, hbind⟩ := Option.ite_none_left_eq_some.mp h
    obtain ⟨o', ho', hevent⟩ := Option.bind_eq_some_iff.mp hbind
    exact ho.apart_onTimerEvent hs ho' (fun hserial => hi ⟨o', ho', hserial⟩) hevent
  | goOn =>
    obtain ⟨r, hr, rfl⟩ := Option.map_eq_some_iff.mp h
    have hserial : r.serial ≠ k := fun heq => hi ⟨r, hr, heq⟩
    exact ho.apart_afterHandler hs hr hserial (hspares r hr hserial)

end Open

/-! ### The situations of a timer -/

/-- The service waits for the next event of the timer. -/
structure Waiting (milliInterval triggerCount : UInt64) (fd o k : ℕ) (s : TimerService σ ω) :
    Prop where
  isOpen : s.Open milliInterval fd o k
  notFailed : (k, .fails) ∉ s.reads
  outside : s.Outside k
  invoked : s.invoked.count k = s.expirations k
  left : (s.completions o).timerCount.toNat = triggerCount.toNat - s.invoked.count k
  more : triggerCount ≠ 0 → s.invoked.count k < triggerCount.toNat

/-- The handler of the timer runs. -/
structure Calling (milliInterval triggerCount : UInt64) (fd o k : ℕ) (s : TimerService σ ω)
    (left : ℕ) : Prop where
  isOpen : s.Open milliInterval fd o k
  notFailed : (k, .fails) ∉ s.reads
  running : s.running = some ⟨o, fd, k, left⟩
  invoked : s.invoked.count k + left = s.expirations k
  pos : 0 < s.invoked.count k
  left : (s.completions o).timerCount.toNat = triggerCount.toNat - (s.invoked.count k - 1)
  more : triggerCount ≠ 0 → s.invoked.count k ≤ triggerCount.toNat

/-- The timer is closed, after the last call or a read that failed. -/
structure Ended (triggerCount : UInt64) (k : ℕ) (s : TimerService σ ω) : Prop where
  outside : s.Outside k
  opened : k < s.opened.length
  gone : ∀ fd o, s.timerOf fd = some o → (s.completions o).serial ≠ k
  closed : some k ∈ s.closed
  asCounted : s.AsCounted triggerCount k

/-- The account of a timer is right. -/
structure Accounted (milliInterval triggerCount : UInt64) (fd o k : ℕ) (s : TimerService σ ω) :
    Prop where
  keyed : s.Keyed
  cases : s.Waiting milliInterval triggerCount fd o k ∨
    (∃ left, s.Calling milliInterval triggerCount fd o k left) ∨ s.Ended triggerCount k

variable {milliInterval triggerCount : UInt64} {read : TimerRead} {left : ℕ}

theorem Waiting.asCounted (h : s.Waiting milliInterval triggerCount fd o k) :
    s.AsCounted triggerCount k := by
  refine ⟨?_, iff_of_false h.isOpen.closed ?_⟩
  · split_ifs with hzero
    · exact h.invoked
    · have hmore := h.more hzero
      rw [← h.invoked, Nat.min_eq_right (Nat.le_of_lt hmore)]
  · rintro (⟨hne, hlast⟩ | hfailed)
    · exact absurd (h.more hne) (by rw [hlast]; exact Nat.lt_irrefl _)
    · exact h.notFailed hfailed

/-! ### Steps of other code -/

theorem running_step {r : TimerEventState} (hi : i ≠ .goOn) (h : step D i s = some s')
    (hr : s.running = some r) : s'.running = some r := by
  obtain huser | ⟨fd, read, o, -, hnone, -⟩ | ⟨r', rfl, -⟩ := step_kinds h
  · rw [huser.running, hr]
  · rw [hr] at hnone
    cases hnone
  · exact absurd rfl hi

/-- A serial that no timer has any more stays so. -/
theorem gone_step (hs : Keyed s) (hk : k < s.opened.length)
    (hgone : ∀ fd o, s.timerOf fd = some o → (s.completions o).serial ≠ k)
    (h : step D i s = some s') (ho : s'.timerOf fd = some o) : (s'.completions o).serial ≠ k := by
  obtain hnew | ⟨hold, hserial⟩ := timerOf_step hs h ho
  · rw [hnew]
    exact (Nat.ne_of_lt hk).symm
  · rw [hserial]
    exact hgone fd o hold

theorem Ended.step (hs : Keyed s) (h : s.Ended triggerCount k) (hstep : step D i s = some s') :
    s'.Ended triggerCount k := by
  have hlog := logKept_step hstep (not_concerns h.gone fun _ => h.outside)
  have hclosed := hlog.closed.subset h.closed
  refine ⟨hlog.outside h.outside, Nat.lt_of_lt_of_le h.opened (opened_step hs hstep).length_le,
    fun fd o => gone_step hs h.opened h.gone hstep, hclosed, ?_, iff_of_true hclosed ?_⟩
  · rw [hlog.invoked, hlog.expirations, h.asCounted.invoked]
  · rw [hlog.invoked, hlog.mem_reads]
    exact h.asCounted.closed.mp h.closed

theorem Waiting.other (hs : Keyed s) (h : s.Waiting milliInterval triggerCount fd o k)
    (hspares : Spares fd k i s) (hi : ¬ Concerns k i s) (hstep : step D i s = some s') :
    s'.Waiting milliInterval triggerCount fd o k := by
  have hlog := logKept_step hstep hi
  have hapart := h.isOpen.apart_step hs hspares hi hstep
  refine ⟨h.isOpen.apart hapart, fun hfailed => h.notFailed (hlog.mem_reads.mp hfailed),
    hlog.outside h.outside, ?_, ?_, ?_⟩
  · rw [hlog.invoked, hlog.expirations, h.invoked]
  · rw [hapart.completion, hlog.invoked, h.left]
  · rw [hlog.invoked]
    exact h.more

theorem Calling.other (hs : Keyed s) (h : s.Calling milliInterval triggerCount fd o k left)
    (hspares : Spares fd k i s) (hi : ¬ Concerns k i s) (hstep : step D i s = some s') :
    s'.Calling milliInterval triggerCount fd o k left := by
  have hlog := logKept_step hstep hi
  have hapart := h.isOpen.apart_step hs hspares hi hstep
  have hgo : i ≠ .goOn := by
    rintro rfl
    exact hi ⟨_, h.running, rfl⟩
  refine ⟨h.isOpen.apart hapart, fun hfailed => h.notFailed (hlog.mem_reads.mp hfailed),
    running_step hgo hstep h.running, ?_, ?_, ?_, ?_⟩
  · rw [hlog.invoked, hlog.expirations, h.invoked]
  · rw [hlog.invoked]
    exact h.pos
  · rw [hapart.completion, hlog.invoked, h.left]
  · rw [hlog.invoked]
    exact h.more

/-! ### Steps of the timer -/

theorem toNat_ne_zero_iff {a : UInt64} : a.toNat ≠ 0 ↔ a ≠ 0 := by
  rw [ne_eq, ne_eq, ← UInt64.toNat_inj, UInt64.toNat_zero]

/-- A multiple of 1000 that is 0 modulo `2 ^ 64` is a multiple of `2 ^ 64`. -/
theorem mod_ne_zero_of_milli {q r : ℕ} (h : q + r ≠ 0) (hlt : 1000 * q + r < 2 ^ 64)
    (hr : r < 1000) : (q * 1000 % 2 ^ 64 + r * 1000000 % 2 ^ 64 / 1000) % 2 ^ 64 ≠ 0 := by
  have hsec : q * 1000 % 2 ^ 64 = q * 1000 := Nat.mod_eq_of_lt (by omega)
  have hnsec : r * 1000000 % 2 ^ 64 / 1000 = r * 1000 := by
    rw [Nat.mod_eq_of_lt (by omega), show r * 1000000 = r * 1000 * 1000 by omega,
      Nat.mul_div_cancel _ (by decide)]
  have hsmall : q + r < 2 ^ 61 := by omega
  rw [hsec, hnsec, ← Nat.add_mul]
  intro hzero
  have hdvd : 2 ^ 61 * 8 ∣ (q + r) * 125 * 8 := by
    rw [Nat.mul_assoc]
    exact Nat.dvd_of_mod_eq_zero hzero
  have hle : 2 ^ 61 ≤ q + r :=
    Nat.le_of_dvd (Nat.pos_of_ne_zero h) (Nat.Coprime.dvd_of_dvd_mul_right
      (Nat.Coprime.pow_left 61 rfl) (Nat.dvd_of_mul_dvd_mul_right (by decide) hdvd))
  exact absurd hsmall (Nat.not_lt.mpr hle)

/-- `AsyncGetTimer` takes microseconds for milliseconds, but what it returns is not 0. -/
theorem toMilli_ofMilli_ne_zero (h : milliInterval ≠ 0) :
    (Timespec.ofMilli milliInterval).toMilli ≠ 0 := by
  have hpos := toNat_ne_zero_iff.mpr h
  have hdiv := Nat.div_add_mod milliInterval.toNat 1000
  have hlt := milliInterval.toNat_lt
  intro hzero
  refine mod_ne_zero_of_milli (q := milliInterval.toNat / 1000)
    (r := milliInterval.toNat % 1000) (by omega) (by omega) (Nat.mod_lt _ (by decide)) ?_
  have htoNat := congrArg UInt64.toNat hzero
  rwa [Timespec.toMilli, Timespec.ofMilli, UInt64.toNat_add, UInt64.toNat_mul, UInt64.toNat_div,
    UInt64.toNat_div, UInt64.toNat_mul, UInt64.toNat_mod] at htoNat

theorem Open.asyncGetTimer (h : s.Open milliInterval fd o k) (hinterval : milliInterval ≠ 0) :
    (s.asyncGetTimer fd).2 ≠ 0 := by
  obtain ⟨itValue, hd⟩ := h.descriptor
  rw [TimerService.asyncGetTimer, hd]
  exact toMilli_ofMilli_ne_zero hinterval

theorem Open.closed_of_close (h : s.Open milliInterval fd o k) :
    some k ∈ (s.asyncCloseTimer D fd).closed := by
  obtain ⟨itValue, hd⟩ := h.descriptor
  refine List.mem_append_right _ ?_
  rw [List.mem_singleton]
  show some k = (s.descriptors fd).map Descriptor.serial
  rw [hd]
  rfl

/-- The timer is closed. -/
theorem Open.ended (hs : Keyed s) (h : s.Open milliInterval fd o k) (hout : s.Outside k)
    (hinvoked : s.invoked.count k =
      if triggerCount = 0 then s.expirations k else min triggerCount.toNat (s.expirations k))
    (hreason : triggerCount ≠ 0 ∧ s.invoked.count k = triggerCount.toNat ∨ (k, .fails) ∈ s.reads) :
    (s.asyncCloseTimer D fd).Ended triggerCount k := by
  refine ⟨hout, (List.getElem?_eq_some_iff.mp (h.opened hs)).1, fun g o' ho' hserial => ?_,
    h.closed_of_close, hinvoked, iff_of_true h.closed_of_close hreason⟩
  have hold := (Fewer.asyncCloseTimer (D := D) fd s).timerOf ho'
  obtain ⟨rfl, -⟩ := h.eq_of_serial hs hold hserial
  exact absurd rfl (update_none_eq_some.mp (timerOf_eq_some.mp ho').1).1

/-- The loop of `OnTimerEvent`, from where as many rounds as expirations are left. -/
theorem Open.nextRound {r : TimerEventState} (hinterval : milliInterval ≠ 0)
    (h : s.Open milliInterval fd o k) (hfailed : (k, .fails) ∉ s.reads) (hout : s.Outside k)
    (hr : r.completion = o ∧ r.timerFd = fd ∧ r.serial = k)
    (hinvoked : s.invoked.count k + left = s.expirations k)
    (hleft : (s.completions o).timerCount.toNat = triggerCount.toNat - s.invoked.count k)
    (hmore : triggerCount ≠ 0 → s.invoked.count k < triggerCount.toNat) :
    (s.nextRound D r left).Waiting milliInterval triggerCount fd o k ∨
      ∃ left', (s.nextRound D r left).Calling milliInterval triggerCount fd o k left' := by
  obtain ⟨rfl, rfl, rfl⟩ := hr
  cases left with
  | zero =>
    rw [TimerService.nextRound, if_neg (h.asyncGetTimer hinterval)]
    exact .inl ⟨h, hfailed, hout, hinvoked, hleft, hmore⟩
  | succ left =>
    have hcount : (s.invoked ++ [r.serial]).count r.serial = s.invoked.count r.serial + 1 := by
      simp
    refine .inr ⟨left, { h with }, hfailed, rfl, ?_, ?_, ?_, fun hne => ?_⟩
    · show (s.invoked ++ [r.serial]).count r.serial + left = s.expirations r.serial
      rw [hcount, ← hinvoked]
      omega
    · show 0 < (s.invoked ++ [r.serial]).count r.serial
      rw [hcount]
      exact Nat.succ_pos _
    · show (s.completions r.completion).timerCount.toNat =
        triggerCount.toNat - ((s.invoked ++ [r.serial]).count r.serial - 1)
      rw [hcount, hleft, Nat.add_sub_cancel]
    · show (s.invoked ++ [r.serial]).count r.serial ≤ triggerCount.toNat
      rw [hcount]
      exact hmore hne

/-- What `OnTimerEvent` does with what it reads. -/
theorem onTimerEvent_eq (h : (s.completions o).timerFd = some fd) :
    s.onTimerEvent D o read = some
      (match read with
      | .expirations count => (s.record (s.completions o).serial read).nextRound D
          ⟨o, fd, (s.completions o).serial, 0⟩ count.toNat
      -- the value of `read` is -1 and not `EAGAIN`
      | .wouldBlock => (s.record (s.completions o).serial read).asyncCloseTimer D fd
      | .fails => (s.record (s.completions o).serial read).asyncCloseTimer D fd) := by
  rw [onTimerEvent, h]
  cases read <;> rfl

theorem expirations_record :
    (s.record k read).expirations k = s.expirations k + read.count.toNat := by
  simp [expirations, record]

theorem Waiting.timerEvent (hs : Keyed s) (hinterval : milliInterval ≠ 0)
    (h : s.Waiting milliInterval triggerCount fd o k) (hread : read ≠ .wouldBlock)
    (hevent : s.onTimerEvent D o read = some s') :
    s'.Waiting milliInterval triggerCount fd o k ∨
      (∃ left, s'.Calling milliInterval triggerCount fd o k left) ∨ s'.Ended triggerCount k := by
  have hkeyed := (Fewer.record k read s).keyed hs
  have hopen : (s.record k read).Open milliInterval fd o k := { h.isOpen with }
  rw [onTimerEvent_eq h.isOpen.timerFd, h.isOpen.serial] at hevent
  obtain rfl := Option.some.inj hevent
  cases read with
  | wouldBlock => exact absurd rfl hread
  | expirations count =>
    have hfailed : (k, .fails) ∉ (s.record k (.expirations count)).reads := by
      simpa [record] using h.notFailed
    have hround := hopen.nextRound (r := ⟨o, fd, k, 0⟩) (D := D) hinterval hfailed h.outside
      ⟨rfl, rfl, rfl⟩ (by rw [expirations_record, ← h.invoked]; rfl) h.left h.more
    obtain hwaiting | hcalling := hround
    · exact .inl hwaiting
    · exact .inr (.inl hcalling)
  | fails =>
    refine .inr (.inr (hopen.ended hkeyed h.outside ?_ (.inr ?_)))
    · rw [expirations_record]
      exact h.asCounted.invoked
    · exact List.mem_append_right _ (List.mem_singleton_self _)

/-- The service takes a read that would block for one that failed, and closes the timer. -/
theorem Waiting.wouldBlock (h : s.Waiting milliInterval triggerCount fd o k)
    (hevent : s.onTimerEvent D o .wouldBlock = some s') :
    s'.Outside k ∧ ¬ s'.AsCounted triggerCount k := by
  have hopen : (s.record k .wouldBlock).Open milliInterval fd o k := { h.isOpen with }
  rw [onTimerEvent_eq h.isOpen.timerFd, h.isOpen.serial] at hevent
  obtain rfl := Option.some.inj hevent
  refine ⟨h.outside, fun hcounted => ?_⟩
  obtain ⟨hne, hlast⟩ | hfailed := hcounted.closed.mp hopen.closed_of_close
  · exact absurd (h.more hne) (by rw [← hlast]; exact Nat.lt_irrefl _)
  · have hold : (k, .fails) ∈ s.reads := by simpa [asyncCloseTimer, asyncCancel, close, record]
      using hfailed
    exact h.notFailed hold

theorem toNat_timerCount_countDown (o : ℕ) (s : TimerService σ ω) :
    ((s.countDown o).completions o).timerCount.toNat = (s.completions o).timerCount.toNat - 1 := by
  rw [completions_countDown_self]
  dsimp only
  generalize (s.completions o).timerCount = a
  split_ifs with h
  · have hone : (1 : UInt64) ≤ a := by
      rw [UInt64.le_iff_toNat_le]
      exact Nat.pos_of_ne_zero (toNat_ne_zero_iff.mpr h)
    rw [UInt64.toNat_sub_of_le _ _ hone, UInt64.toNat_one]
  · rw [not_not.mp h]
    rfl

theorem Calling.goOn (hs : Keyed s) (hinterval : milliInterval ≠ 0)
    (h : s.Calling milliInterval triggerCount fd o k left) :
    let s' := s.afterHandler D ⟨o, fd, k, left⟩
    s'.Waiting milliInterval triggerCount fd o k ∨
      (∃ left, s'.Calling milliInterval triggerCount fd o k left) ∨ s'.Ended triggerCount k := by
  have hstop : s.stop.Open milliInterval fd o k := { h.isOpen with }
  have hout : s.stop.Outside k := nofun
  have hpos := h.pos
  rw [afterHandler]
  split_ifs with hlast
  · -- the count is used up
    have hone : triggerCount.toNat - (s.invoked.count k - 1) = 1 := by
      rw [← h.left, hlast, UInt64.toNat_one]
    have hne : triggerCount ≠ 0 := toNat_ne_zero_iff.mp (by omega)
    have hmore := h.more hne
    have hinvoked : s.invoked.count k = triggerCount.toNat := by omega
    refine .inr (.inr (hstop.ended ((Fewer.stop s).keyed hs) hout ?_ (.inl ⟨hne, hinvoked⟩)))
    show s.invoked.count k = if triggerCount = 0 then s.expirations k else
      min triggerCount.toNat (s.expirations k)
    rw [if_neg hne, ← h.invoked, hinvoked, Nat.min_eq_left (Nat.le_add_right _ _)]
  · have hcount : ((s.stop.countDown o).completions o).timerCount.toNat =
        triggerCount.toNat - s.invoked.count k := by
      have hleft : (s.stop.completions o).timerCount.toNat = _ := h.left
      rw [toNat_timerCount_countDown, hleft]
      omega
    have hmore : triggerCount ≠ 0 → s.invoked.count k < triggerCount.toNat := by
      intro hne
      have hmore := h.more hne
      have hleft := h.left
      have hone : (s.completions o).timerCount.toNat ≠ 1 := fun heq =>
        hlast (UInt64.toNat_inj.mp heq)
      omega
    have hfewer := Fewer.countDown o s.stop
    have hopen : (s.stop.countDown o).Open milliInterval fd o k :=
      { hstop with
        action := (hfewer.action o).trans hstop.action
        timerFd := (hfewer.timerFd o).trans hstop.timerFd
        serial := (hfewer.serial o).trans hstop.serial }
    obtain hwaiting | hcalling := hopen.nextRound (D := D) (r := ⟨o, fd, k, left⟩) hinterval
      h.notFailed hout ⟨rfl, rfl, rfl⟩ h.invoked hcount hmore
    · exact .inl hwaiting
    · exact .inr (.inl hcalling)

/-- **A step keeps the account right**, if no read of the timer blocks and other code spares it. -/
theorem Accounted.step (hinterval : milliInterval ≠ 0)
    (h : s.Accounted milliInterval triggerCount fd o k) (hspares : Spares fd k i s)
    (hread : NoReadBlocks k i s) (hstep : step D i s = some s') :
    s'.Accounted milliInterval triggerCount fd o k := by
  refine ⟨h.keyed.step hstep, ?_⟩
  obtain hwaiting | ⟨left, hcalling⟩ | hended := h.cases
  · by_cases hi : Concerns k i s
    · cases i with
      | timerEvent g read =>
        obtain ⟨hnone, hbind⟩ := Option.ite_none_left_eq_some.mp hstep
        obtain ⟨o', ho', hevent⟩ := Option.bind_eq_some_iff.mp hbind
        obtain ⟨o'', ho'', hserial⟩ := hi
        obtain rfl := Option.some.inj (ho'.symm.trans ho'')
        obtain ⟨rfl, rfl⟩ := hwaiting.isOpen.eq_of_serial h.keyed ho' hserial
        refine hwaiting.timerEvent h.keyed hinterval ?_ hevent
        rintro rfl
        exact hread (Option.not_isSome_iff_eq_none.mp hnone) o' ho' hserial
      | goOn =>
        obtain ⟨r, hr, hserial⟩ := hi
        exact absurd hserial (hwaiting.outside r hr)
      | _ => exact hi.elim
    · exact .inl (hwaiting.other h.keyed hspares hi hstep)
  · by_cases hi : Concerns k i s
    · cases i with
      | timerEvent g read =>
        obtain ⟨hnone, -⟩ := Option.ite_none_left_eq_some.mp hstep
        rw [hcalling.running] at hnone
        exact absurd rfl hnone
      | goOn =>
        obtain ⟨r, hr, rfl⟩ := Option.map_eq_some_iff.mp hstep
        obtain rfl := Option.some.inj (hr.symm.trans hcalling.running)
        exact hcalling.goOn h.keyed hinterval
      | _ => exact hi.elim
    · exact .inr (.inl ⟨left, hcalling.other h.keyed hspares hi hstep⟩)
  · exact .inr (.inr (hended.step h.keyed hstep))

theorem Accounted.asCounted (h : s.Accounted milliInterval triggerCount fd o k)
    (hout : s.Outside k) : s.AsCounted triggerCount k := by
  obtain hwaiting | ⟨left, hcalling⟩ | hended := h.cases
  · exact hwaiting.asCounted
  · exact absurd rfl (hout _ hcalling.running)
  · exact hended.asCounted

/-- A read of the timer that blocks ends that. -/
theorem Accounted.wouldBlock (h : s.Accounted milliInterval triggerCount fd o k)
    (hread : ¬ NoReadBlocks k i s) :
    ∃ s', TimerService.step D i s = some s' ∧
      ¬ (s'.Outside k → s'.AsCounted triggerCount k) := by
  unfold NoReadBlocks at hread
  split at hread
  · rename_i g
    obtain ⟨hrunning, hread⟩ := Classical.not_imp.mp hread
    obtain ⟨o', hread⟩ := not_forall.mp hread
    obtain ⟨ho', hserial⟩ := Classical.not_imp.mp hread
    have hserial := not_not.mp hserial
    obtain hwaiting | ⟨left, hcalling⟩ | hended := h.cases
    · obtain ⟨rfl, rfl⟩ := hwaiting.isOpen.eq_of_serial h.keyed ho' hserial
      obtain ⟨s', hevent⟩ : ∃ s', s.onTimerEvent D o' .wouldBlock = some s' :=
        ⟨_, onTimerEvent_eq hwaiting.isOpen.timerFd⟩
      refine ⟨s', ?_, fun hcounted => ?_⟩
      · rw [TimerService.step, hrunning, if_neg (by simp), ho', Option.bind_some]
        exact hevent
      · obtain ⟨hout, hnot⟩ := hwaiting.wouldBlock hevent
        exact hnot (hcounted hout)
    · rw [hcalling.running] at hrunning
      cases hrunning
    · exact absurd hserial (hended.gone g o' ho')
  · exact absurd trivial hread

/-! ### Runs -/

/-- Nothing is known of a timer that is still to be created. -/
structure Unknown (k : ℕ) (s : TimerService σ ω) : Prop where
  reads : s.reads.filter (fun r => r.1 = k) = []
  invoked : s.invoked.count k = 0
  outside : s.Outside k

theorem unknown_of_runSteps {driver : σ} {steps : List TimerStep}
    (h : runSteps (step D) steps (start driver) = some s) (hk : s.opened.length ≤ k) :
    Unknown k s := by
  have hinv : Keyed s ∧ (s.opened.length ≤ k → Unknown k s) := by
    refine (reachable_of_runSteps (guardedSteps_true steps _) h).invariant
      (I := fun s => Keyed s ∧ (s.opened.length ≤ k → Unknown k s))
      ⟨keyed_start driver, fun _ => ⟨rfl, rfl, nofun⟩⟩ ?_
    rintro i s s' - ⟨hs, hunknown⟩ hstep
    refine ⟨hs.step hstep, fun hk => ?_⟩
    have hk : s.opened.length ≤ k := Nat.le_trans (opened_step hs hstep).length_le hk
    obtain ⟨hreads, hinvoked, hout⟩ := hunknown hk
    have hgone : ∀ fd o, s.timerOf fd = some o → (s.completions o).serial ≠ k := by
      rintro fd o ho rfl
      exact absurd (List.getElem?_eq_some_iff.mp (hs.opened_of_timerOf ho)).1 (Nat.not_lt.mpr hk)
    have hlog := logKept_step hstep (not_concerns hgone fun _ => hout)
    exact ⟨hlog.reads.trans hreads, hlog.invoked.trans hinvoked, hlog.outside hout⟩
  exact hinv.2 hk

/-- The timer that `AsyncAddTimer` creates is open. -/
theorem open_of_asyncAddTimer {milliExpire : UInt64} {timerFd : Option ℕ} {isSet accepted : Bool}
    (hs : Keyed s)
    (hadd : s.asyncAddTimer D milliExpire milliInterval triggerCount timerFd isSet accepted =
      some (some fd, s')) :
    ∃ o, s'.Open milliInterval fd o s.opened.length ∧
      (s'.completions o).timerCount = triggerCount := by
  obtain ⟨-, hnone, -⟩ | ⟨g, milli, s₁, -, hfree, rfl, hend⟩ := asyncAddTimer_cases hadd
  · cases hnone
  obtain ⟨hnone, -⟩ | ⟨hfd, rfl⟩ := hend
  · cases hnone
  cases hfd
  let spec : ITimerSpec := ⟨.ofMilli milli, .ofMilli milliInterval⟩
  let t := ((s.addFd fd (some spec)).registerRead D fd accepted).2
  have hset : (t.setCompletion fd fun _ => ⟨some .timer, some fd, triggerCount, s.opened.length⟩
      ).completions (t.completionFor fd) =
      ⟨some .timer, some fd, triggerCount, s.opened.length⟩ := Function.update_self _ _ _
  have hdescriptor : t.descriptors fd = some ⟨s.opened.length, some spec⟩ := addFd_self
  refine ⟨t.completionFor fd,
    ⟨Function.update_self _ _ _, ?_, ?_, ?_, ⟨_, hdescriptor⟩, fun hclosed => ?_⟩, ?_⟩
  · rw [hset]
  · rw [hset]
  · rw [hset]
  · exact absurd (hs.closed _ hclosed) (Nat.lt_irrefl _)
  · rw [hset]

/-- A timer that was just created. -/
theorem accounted_of_asyncAddTimer {driver : σ} {steps : List TimerStep} {milliExpire : UInt64}
    {timerFd : Option ℕ} {isSet accepted : Bool}
    (hsteps : runSteps (step D) steps (start driver) = some s)
    (hadd : s.asyncAddTimer D milliExpire milliInterval triggerCount timerFd isSet accepted =
      some (some fd, s')) :
    ∃ o, s'.Accounted milliInterval triggerCount fd o s.opened.length := by
  have hs := keyed_of_runSteps hsteps
  have hstep : step D (.asyncAddTimer milliExpire milliInterval triggerCount timerFd isSet accepted)
    s = some s' := Option.map_eq_some_iff.mpr ⟨_, hadd, rfl⟩
  have hlog : LogKept s.opened.length s s' := logKept_step hstep id
  obtain ⟨o, hopen, hcount⟩ := open_of_asyncAddTimer hs hadd
  obtain ⟨hreads, hinvoked, hout⟩ := unknown_of_runSteps hsteps (Nat.le_refl _)
  have hnone : s'.invoked.count s.opened.length = 0 := hlog.invoked.trans hinvoked
  have hnoReads := hlog.reads.trans hreads
  refine ⟨o, hs.step hstep, .inl ⟨hopen, fun hfailed => ?_, hlog.outside hout, ?_, ?_,
    fun hne => ?_⟩⟩
  · have hmem := List.mem_filter_of_mem hfailed (p := fun r => decide (r.1 = s.opened.length))
      (decide_eq_true rfl)
    rw [hnoReads] at hmem
    cases hmem
  · rw [hnone, expirations, hnoReads]
    rfl
  · rw [hcount, hnone, Nat.sub_zero]
  · rw [hnone]
    exact Nat.pos_of_ne_zero (toNat_ne_zero_iff.mpr hne)

/-- **A timer is called and closed as its count says exactly when none of its reads would block.**
The timer is created with an interval after any steps, and then come any events and any steps of
other code, handlers among it, that leave the timer alone. -/
theorem asCounted_iff_noReadBlocks {driver : σ} {before steps : List TimerStep}
    {milliExpire : UInt64} {timerFd : Option ℕ} {isSet accepted : Bool}
    (hbefore : runSteps (step D) before (start driver) = some s) (hinterval : milliInterval ≠ 0)
    (hadd : s.asyncAddTimer D milliExpire milliInterval triggerCount timerFd isSet accepted =
      some (some fd, s'))
    (hspares : GuardedSteps (step D) (Spares fd s.opened.length) steps s') :
    HoldsAlong (step D)
        (fun s₁ => s₁.Outside s.opened.length → s₁.AsCounted triggerCount s.opened.length)
        steps s' ↔
      GuardedSteps (step D) (NoReadBlocks s.opened.length) steps s' := by
  obtain ⟨o, hstart⟩ := accounted_of_asyncAddTimer hbefore hadd
  exact holdsAlong_iff_guardedSteps_under
    (I := Accounted milliInterval triggerCount fd o s.opened.length)
    (fun s₁ h => h.asCounted) (fun i s₁ s₂ h hsp hg hstep => h.step hinterval hsp hg hstep)
    (fun i s₁ h _ hg => h.wouldBlock hg) hspares hstart

/-- A timer that is to trigger three times expires twice and then four times. -/
theorem timer_triggers_three_times : ∃ s' : TimerService EpollEventDriver ℕ,
    (start .create).asyncAddTimer epollDriver 10 5 3 (some 7) true true = some (some 7, s') ∧
      HoldsAlong (step epollDriver) (fun s₁ => s₁.Outside 0 → s₁.AsCounted 3 0)
        [.timerEvent 7 (.expirations 2), .openFd 8, .goOn, .goOn, .timerEvent 7 (.expirations 4),
          .goOn] s' := by
  have hbefore : runSteps (step epollDriver) [] (start .create : TimerService EpollEventDriver ℕ) =
    some (start .create) := rfl
  have hinterval : (5 : UInt64) ≠ 0 := by decide
  obtain ⟨s', hadd⟩ : ∃ s', (start .create : TimerService EpollEventDriver ℕ).asyncAddTimer
      epollDriver 10 5 3 (some 7) true true = some (some 7, s') := ⟨_, rfl⟩
  refine ⟨s', hadd, (asCounted_iff_noReadBlocks hbefore hinterval hadd ?_).mpr ?_⟩
  · cases hadd
    decide +kernel
  · cases hadd
    decide +kernel

/-- **A timer that is to trigger forever is closed by a read that would have blocked.** -/
theorem blocked_read_closes_timer : ∃ s' : TimerService EpollEventDriver ℕ,
    (start .create).asyncAddTimer epollDriver 10 10 0 (some 7) true true = some (some 7, s') ∧
      GuardedSteps (step epollDriver) (Spares 7 0) [.timerEvent 7 .wouldBlock] s' ∧
      ¬ HoldsAlong (step epollDriver) (fun s₁ => s₁.Outside 0 → s₁.AsCounted 0 0)
        [.timerEvent 7 .wouldBlock] s' := by
  refine ⟨_, rfl, by decide +kernel, fun h => ?_⟩
  have hclosed := (h.last rfl nofun).closed.mp (by decide +kernel)
  revert hclosed
  decide +kernel

end Lsf.Asio.TimerService
