import Lsf.Svr.SessionServer
import Mathlib.Data.List.Nodup

/-!
# The search for an unused id

`CreateTimer` and `CreateSession` count a number of 32 bits up until its lower 24 bits are an id
that is not in use. The counter goes around, from the greatest number to zero, and so do its lower
bits, 256 times as often: whatever number it starts from, in 2 ^ 24 steps the lower bits are every
id once. So the search ends within as many rounds if any id is unused.

## Main results

* `exists_step` — every id comes within 2 ^ 24 steps
* `findId_of_free` — the search ends with an unused id
* `exists_free_id` — fewer entries than ids leave one unused
* `createTimer_of_not_full`, `createSession_of_not_full`
-/

namespace Lsf.Timers

variable {ν : Type} {mask cur id : UInt32} {map : Table UInt32 ν} {fuel : ℕ}

/-! ### The counter -/

/-- Steps of the counter are counted in 32 bits. -/
theorem toNat_add_steps (cur : UInt32) (k : ℕ) :
    (cur + UInt32.ofNat k).toNat = (cur.toNat + k) % 2 ^ 32 := by
  rw [UInt32.toNat_add, UInt32.toNat_ofNat', Nat.add_mod_mod]

theorem toNat_and_mask (n : UInt32) : (n &&& 0xffffff).toNat = n.toNat % 2 ^ 24 := by
  rw [UInt32.toNat_and]
  exact Nat.and_two_pow_sub_one_eq_mod n.toNat 24

theorem and_mask_le (n : UInt32) : n &&& 0xffffff ≤ 0xffffff := by
  have hlt := Nat.mod_lt n.toNat (Nat.two_pow_pos 24)
  rw [UInt32.le_iff_toNat_le, toNat_and_mask]
  exact Nat.le_of_lt_succ hlt

/-- **Every id comes within 2 ^ 24 steps**, also where the counter begins again at zero. -/
theorem exists_step (cur : UInt32) (hid : id ≤ 0xffffff) :
    ∃ k < 2 ^ 24, (cur + 1 + UInt32.ofNat k) &&& 0xffffff = id := by
  have hle : id.toNat ≤ 16777215 := UInt32.le_iff_toNat_le.mp hid
  refine ⟨(id.toNat + (16777216 - (cur + 1).toNat % 16777216)) % 16777216,
    Nat.mod_lt _ (by decide), UInt32.toNat.inj ?_⟩
  rw [toNat_and_mask, toNat_add_steps]
  omega

/-! ### The search -/

/-- The search ends at the first unused id. -/
theorem findId_isSome {k : ℕ} (hk : k < fuel)
    (hfree : (cur + 1 + UInt32.ofNat k) &&& mask ∉ map) :
    ∃ id cur', findId mask map fuel cur = some (id, cur') := by
  induction fuel generalizing cur k with
  | zero => exact absurd hk (Nat.not_lt_zero k)
  | succ fuel ih =>
    rw [findId]
    by_cases hmem : (cur + 1) &&& mask ∈ map
    · rw [if_pos hmem]
      rcases k with _ | k
      · have hzero : cur + 1 + UInt32.ofNat 0 = cur + 1 := UInt32.add_zero _
        rw [hzero] at hfree
        exact absurd hmem hfree
      · refine ih (k := k) (by omega) ?_
        rw [UInt32.ofNat_add, UInt32.ofNat_one, UInt32.add_comm (UInt32.ofNat k),
          ← UInt32.add_assoc] at hfree
        exact hfree
    · rw [if_neg hmem]
      exact ⟨_, _, rfl⟩

/-- The id that is found comes from the counter. -/
theorem findId_masked {cur' : UInt32} (h : findId mask map fuel cur = some (id, cur')) :
    id = cur' &&& mask := by
  induction fuel generalizing cur with
  | zero => cases h
  | succ fuel ih =>
    rw [findId] at h
    split at h
    · exact ih h
    · obtain ⟨rfl, rfl⟩ := Prod.mk.inj (Option.some.inj h)
      rfl

/-- **The search ends** within 2 ^ 24 rounds with an unused id, if there is one. -/
theorem findId_of_free (cur : UInt32) (hid : id ≤ 0xffffff) (hfree : id ∉ map) :
    ∃ found cur', findId 0xffffff map (2 ^ 24) cur = some (found, cur') ∧ found ≤ 0xffffff ∧
      found ∉ map := by
  obtain ⟨k, hk, rfl⟩ := exists_step cur hid
  obtain ⟨found, cur', hfound⟩ := findId_isSome hk hfree
  refine ⟨found, cur', hfound, ?_, findId_notMem hfound⟩
  rw [findId_masked hfound]
  exact and_mask_le cur'

/-- **Fewer entries than ids leave one unused.** -/
theorem exists_free_id (hroom : map.entries.length < 2 ^ 24) :
    ∃ id : UInt32, id ≤ 0xffffff ∧ id ∉ map := by
  by_contra hall
  push Not at hall
  have hnodup : ((List.range (2 ^ 24)).map UInt32.ofNat).Nodup := by
    refine List.nodup_range.map_on fun a ha b hb heq => ?_
    have hnat := congrArg UInt32.toNat heq
    rw [List.mem_range] at ha hb
    rwa [UInt32.toNat_ofNat', UInt32.toNat_ofNat', Nat.mod_eq_of_lt (by omega),
      Nat.mod_eq_of_lt (by omega)] at hnat
  have hsubset : (List.range (2 ^ 24)).map UInt32.ofNat ⊆ map.keys := by
    intro id hid
    obtain ⟨n, hn, rfl⟩ := List.mem_map.mp hid
    refine AList.mem_keys.mp (hall _ ?_)
    rw [List.mem_range] at hn
    rw [UInt32.le_iff_toNat_le, UInt32.toNat_ofNat', Nat.mod_eq_of_lt (by omega)]
    exact Nat.le_of_lt_succ hn
  have hlen := (List.subperm_of_subset hnodup hsubset).length_le
  rw [List.length_map, List.length_range] at hlen
  have hkeys : map.keys.length = map.entries.length := List.length_map _
  omega

/-- Where the loop of `CreateTimer` and that of `CreateSession` end. -/
def Finds (map : Table UInt32 ν) (cur id : UInt32) : Prop :=
  id ≤ 0xffffff ∧ id ∉ map ∧ ∃ cur', findId 0xffffff map (2 ^ 24) cur = some (id, cur')

end Lsf.Timers

namespace Lsf.Sessions

open Timers

variable {μ δ ω : Type} [Inhabited δ]

/-! ### The managers -/

theorem createTimer_of_free {m : TimerManager μ} (milliSecond : UInt64)
    (timerType : ENTimerType) (hfull : m.full = false) (hfree : ∃ id ≤ 0xffffff, id ∉ m.map) :
    ∃ timerId m', m.createTimer milliSecond timerType = some (some timerId, m') ∧
      Finds m.map m.curMaxId timerId := by
  obtain ⟨id, hid, hnot⟩ := hfree
  obtain ⟨timerId, cur', hfound, hle, hunused⟩ := findId_of_free m.curMaxId hid hnot
  have hfound' : findId TimerManager.MAX_TIMER_ID m.map (2 ^ 24) m.curMaxId =
      some (timerId, cur') := hfound
  rw [TimerManager.createTimer, hfull, if_neg Bool.false_ne_true, hfound']
  exact ⟨timerId, _, rfl, hle, hunused, cur', hfound⟩

theorem createSession_of_free {v : Server μ δ ω} (hfull : v.sessions.entries.length < v.maxSize)
    (hfree : ∃ id ≤ 0xffffff, id ∉ v.sessions) :
    ∃ sessionId v', v.createSession = some (some sessionId, v') ∧
      Finds v.sessions v.curMaxId sessionId := by
  obtain ⟨id, hid, hnot⟩ := hfree
  obtain ⟨sessionId, cur', hfound, hle, hunused⟩ := findId_of_free v.curMaxId hid hnot
  have hfound' : findId MAX_SESSION_ID v.sessions (2 ^ 24) v.curMaxId =
      some (sessionId, cur') := hfound
  rw [Server.createSession, if_neg (Nat.not_le.mpr hfull), hfound']
  exact ⟨sessionId, _, rfl, hle, hunused, cur', hfound⟩

/-- A manager for no more elements than there are ids has an unused one whenever it is not full. -/
theorem createTimer_of_not_full {m : TimerManager μ} (milliSecond : UInt64)
    (timerType : ENTimerType) (hmax : m.maxSize ≤ 2 ^ 24) (hfull : m.full = false) :
    ∃ timerId m', m.createTimer milliSecond timerType = some (some timerId, m') ∧
      Finds m.map m.curMaxId timerId := by
  have hlt : m.map.entries.length < m.maxSize :=
    Nat.not_le.mp (of_decide_eq_false hfull)
  exact createTimer_of_free milliSecond timerType hfull (exists_free_id (by omega))

theorem createSession_of_not_full {v : Server μ δ ω} (hmax : v.maxSize ≤ 2 ^ 24)
    (hfull : v.sessions.entries.length < v.maxSize) :
    ∃ sessionId v', v.createSession = some (some sessionId, v') ∧
      Finds v.sessions v.curMaxId sessionId :=
  createSession_of_free hfull (exists_free_id (by omega))

/-- **An unused id is found** by both managers from any value of their counters, if they are not
full and there is one. -/
theorem managers_find_unused_ids :
    (∀ (m : TimerManager μ) (milliSecond : UInt64) (timerType : ENTimerType), m.full = false →
      (∃ id ≤ 0xffffff, id ∉ m.map) →
      ∃ timerId m', m.createTimer milliSecond timerType = some (some timerId, m') ∧
        Finds m.map m.curMaxId timerId) ∧
    ∀ v : Server μ δ ω, v.sessions.entries.length < v.maxSize →
      (∃ id ≤ 0xffffff, id ∉ v.sessions) →
      ∃ sessionId v', v.createSession = some (some sessionId, v') ∧
        Finds v.sessions v.curMaxId sessionId :=
  ⟨fun _ milliSecond timerType hfull hfree =>
      createTimer_of_free milliSecond timerType hfull hfree,
    fun _ hfull hfree => createSession_of_free hfull hfree⟩

/-- A manager whose counter is at its end, with the first id in use. -/
def lastNumber : TimerManager Unit where
  map := AList.singleton 0 {}
  maxSize := 2
  curMaxId := 0xffffffff
  now := 0

theorem lastNumber_finds :
    (∃ timerId m', lastNumber.createTimer 5 .sessionTimeout = some (some timerId, m') ∧
      Finds lastNumber.map 0xffffffff timerId) ∧
    ∃ sessionId v', (⟨lastNumber, ∅, 2, 0xffffffff, ()⟩ : Server Unit Unit Unit).createSession =
        some (some sessionId, v') ∧
      Finds (∅ : Table UInt32 (Session Unit Unit)) 0xffffffff sessionId := by
  obtain ⟨htimer, hsession⟩ := @managers_find_unused_ids Unit Unit Unit _
  refine ⟨htimer lastNumber 5 .sessionTimeout rfl ⟨1, by decide, by decide⟩, ?_⟩
  exact hsession ⟨lastNumber, ∅, 2, 0xffffffff, ()⟩ (by decide) ⟨1, by decide, by decide⟩

end Lsf.Sessions
