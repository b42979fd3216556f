import Mathlib.Data.Finmap

/-!
# Arrays as finite maps

An array of entries, each a key and a value, of which no two have one key. It represents a finite
map: entries are added behind the last, written over, and taken out by moving the later ones.

## Main definitions

* `KeyedArray.Represents`

## Main results

* `Represents.append`, `Represents.overwrite`, `Represents.remove` — the edits of the array are
  those of the map
* `Represents.card` — there are as many entries as keys
-/

namespace Lsf.KeyedArray

variable {κ ν : Type} [DecidableEq κ]

/-- The first `n` entries are those of the map. -/
structure Represents (entry : ℕ → κ × ν) (n : ℕ) (m : Finmap fun _ : κ => ν) : Prop where
  distinct : ∀ i < n, ∀ j < n, (entry i).1 = (entry j).1 → i = j
  lookup : ∀ k v, m.lookup k = some v ↔ ∃ i < n, entry i = (k, v)

/-- The place in the old array of an entry behind which one was taken out. -/
def skip (pos i : ℕ) : ℕ := if i < pos then i else i + 1

theorem skip_injective {pos i j : ℕ} (h : skip pos i = skip pos j) : i = j := by
  rw [skip, skip] at h
  split at h <;> split at h <;> omega

theorem skip_lt {pos i n : ℕ} (hi : i < n - 1) : skip pos i < n := by
  rw [skip]
  split <;> omega

theorem skip_ne (pos i : ℕ) : skip pos i ≠ pos := by
  rw [skip]
  split <;> omega

theorem exists_skip {pos i n : ℕ} (hi : i < n) (hne : i ≠ pos) (hpos : pos < n) :
    ∃ j < n - 1, skip pos j = i := by
  by_cases hlt : i < pos
  · exact ⟨i, by omega, if_pos hlt⟩
  · refine ⟨i - 1, by omega, ?_⟩
    rw [skip, if_neg (by omega)]
    omega

namespace Represents

variable {entry entry' : ℕ → κ × ν} {n pos : ℕ} {m : Finmap fun _ : κ => ν} {k : κ} {v : ν}

theorem empty (entry : ℕ → κ × ν) : Represents entry 0 ∅ where
  distinct i hi := absurd hi (Nat.not_lt_zero i)
  lookup k v := by
    rw [Finmap.lookup_empty]
    constructor
    · intro h
      cases h
    · rintro ⟨i, hi, -⟩
      exact absurd hi (Nat.not_lt_zero i)

theorem mem_iff (h : Represents entry n m) : k ∈ m ↔ ∃ i < n, (entry i).1 = k := by
  rw [Finmap.mem_iff]
  constructor
  · rintro ⟨v, hv⟩
    obtain ⟨i, hi, heq⟩ := (h.lookup k v).mp hv
    exact ⟨i, hi, congrArg Prod.fst heq⟩
  · rintro ⟨i, hi, rfl⟩
    exact ⟨(entry i).2, (h.lookup _ _).mpr ⟨i, hi, rfl⟩⟩

/-- **There are as many entries as keys.** -/
theorem card (h : Represents entry n m) : m.keys.card = n := by
  have himage : m.keys = (Finset.range n).image fun i => (entry i).1 := by
    ext k
    rw [Finmap.mem_keys, h.mem_iff, Finset.mem_image]
    simp only [Finset.mem_range]
  have hinj : Set.InjOn (fun i => (entry i).1) (Finset.range n) := by
    intro i hi j hj heq
    exact h.distinct i (Finset.mem_range.mp hi) j (Finset.mem_range.mp hj) heq
  rw [himage, Finset.card_image_of_injOn hinj, Finset.card_range]

/-- An entry with a new key behind the last. -/
theorem append (h : Represents entry n m) (hnew : k ∉ m) (hsame : ∀ i < n, entry' i = entry i)
    (hlast : entry' n = (k, v)) : Represents entry' (n + 1) (m.insert k v) where
  distinct := by
    have hne : ∀ i < n, (entry' i).1 ≠ (entry' n).1 := by
      intro i hi heq
      rw [hsame i hi, hlast] at heq
      exact hnew (h.mem_iff.mpr ⟨i, hi, heq⟩)
    intro i hi j hj heq
    rcases Nat.lt_succ_iff_lt_or_eq.mp hi with hi | rfl
    · rcases Nat.lt_succ_iff_lt_or_eq.mp hj with hj | rfl
      · rw [hsame i hi, hsame j hj] at heq
        exact h.distinct i hi j hj heq
      · exact absurd heq (hne i hi)
    · rcases Nat.lt_succ_iff_lt_or_eq.mp hj with hj | rfl
      · exact absurd heq.symm (hne j hj)
      · rfl
  lookup k' v' := by
    simp only [Nat.lt_succ_iff_lt_or_eq, or_and_right, exists_or, exists_eq_left, hlast,
      Prod.mk.injEq]
    have hold : (∃ i < n, entry' i = (k', v')) ↔ m.lookup k' = some v' := by
      rw [h.lookup]
      exact exists_congr fun i => and_congr_right fun hi => by rw [hsame i hi]
    rw [hold]
    by_cases hk : k' = k
    · subst hk
      rw [Finmap.lookup_insert, Finmap.lookup_eq_none.mpr hnew, Option.some_inj]
      simp
    · rw [Finmap.lookup_insert_of_ne _ hk]
      simp [Ne.symm hk]

/-- Another value for a key that is there. -/
theorem overwrite (h : Represents entry n m) (hpos : pos < n) (hkey : (entry pos).1 = k)
    (hsame : ∀ i < n, i ≠ pos → entry' i = entry i) (hhere : entry' pos = (k, v)) :
    Represents entry' n (m.insert k v) where
  distinct := by
    have hkeys : ∀ i < n, (entry' i).1 = (entry i).1 := by
      intro i hi
      by_cases heq : i = pos
      · rw [heq, hhere, hkey]
      · rw [hsame i hi heq]
    intro i hi j hj heq
    rw [hkeys i hi, hkeys j hj] at heq
    exact h.distinct i hi j hj heq
  lookup k' v' := by
    by_cases hk : k' = k
    · subst hk
      rw [Finmap.lookup_insert, Option.some_inj]
      constructor
      · rintro rfl
        exact ⟨pos, hpos, hhere⟩
      · rintro ⟨i, hi, heq⟩
        by_cases hi' : i = pos
        · rw [hi', hhere] at heq
          exact congrArg Prod.snd heq
        · rw [hsame i hi hi'] at heq
          exact absurd (h.distinct i hi pos hpos (by rw [heq, hkey])) hi'
    · rw [Finmap.lookup_insert_of_ne _ hk, h.lookup]
      refine exists_congr fun i => and_congr_right fun hi => ?_
      by_cases hi' : i = pos
      · rw [hi', hhere]
        refine iff_of_false (fun heq => hk ?_) fun heq => hk (congrArg Prod.fst heq).symm
        rw [heq] at hkey
        exact hkey
      · rw [hsame i hi hi']

/-- An entry is taken out, and the later ones move. -/
theorem remove (h : Represents entry n m) (hpos : pos < n) (hkey : (entry pos).1 = k)
    (hmove : ∀ i < n - 1, entry' i = entry (skip pos i)) :
    Represents entry' (n - 1) (m.erase k) where
  distinct i hi j hj heq := by
    rw [hmove i hi, hmove j hj] at heq
    exact skip_injective (h.distinct _ (skip_lt hi) _ (skip_lt hj) heq)
  lookup k' v' := by
    by_cases hk : k' = k
    · subst hk
      rw [Finmap.lookup_erase]
      refine iff_of_false (by rintro ⟨⟩) ?_
      rintro ⟨i, hi, heq⟩
      rw [hmove i hi] at heq
      exact skip_ne pos i (h.distinct _ (skip_lt hi) _ hpos (by rw [heq, hkey]))
    · rw [Finmap.lookup_erase_ne hk, h.lookup]
      constructor
      · rintro ⟨i, hi, heq⟩
        have hi' : i ≠ pos := by
          rintro rfl
          rw [heq] at hkey
          exact hk hkey
        obtain ⟨j, hj, rfl⟩ := exists_skip hi hi' hpos
        exact ⟨j, hj, by rw [hmove j hj, heq]⟩
      · rintro ⟨i, hi, heq⟩
        exact ⟨skip pos i, skip_lt hi, by rw [← hmove i hi, heq]⟩

end Represents

end Lsf.KeyedArray
