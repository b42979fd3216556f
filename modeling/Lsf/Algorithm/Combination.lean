import Lsf.Foundations.Enumeration
import Mathlib.Data.List.Induction
import Mathlib.Data.Bool.Basic
import Mathlib.Data.List.Nodup
import Mathlib.Data.List.Sort
import Mathlib.Tactic.SplitIfs

/-!
# Enumerating combinations

`for_combination` calls a function for all combinations of some elements. It walks through vectors
with a 1 for each element that is in the combination, from the one with all 1s in front to the one
with all 1s at the back. `next_combination` moves the first 1 that is followed by a 0 and takes the
1s before it to the front: that is the next vector in the order in which the last position counts
most.

A vector of `int8_t` that is 0 or 1 is a list of Booleans. A position outside of it gives none. The
iterators of a combination are their distances from the first.

## Main definitions

* `nextCombination`, `forCombination` — the source's functions
* `successor` — the vector after another one, by recursion on the vector
* `combs` — all vectors of a length with so many 1s, in the order of the walk

## Main results

* `nextCombination_eq` — the loop over positions computes the successor
* `walk_combs` — the walk goes through all vectors
* `forCombination_calls`
* `stepsRight_iff` — one step, in a vector that may be empty
-/

namespace Lsf.Combination

/-- `std::sort` with `std::greater`. -/
def sortGreater (vec : List Bool) : List Bool := vec.insertionSort (· ≥ ·)

/-- `count - 1` as a `size_t`. -/
def countPred (count : ℕ) : ℕ := if count = 0 then 18446744073709551615 else count - 1

/-- The loop of `next_combination`, with so many rounds left. -/
def nextCombinationLoop (vec : List Bool) : ℕ → ℕ → Option (Bool × List Bool)
  | 0, _ => some (false, vec)
  | left + 1, i =>
    vec[i]?.bind fun a =>
      if a = true then
        vec[i + 1]?.bind fun b =>
          if b = false then
            let vec := (vec.set i b).set (i + 1) a
            some (true, sortGreater (vec.take i) ++ vec.drop i)
          else nextCombinationLoop vec left (i + 1)
      else nextCombinationLoop vec left (i + 1)

/-- `next_combination`: what it returns and the vector afterwards. -/
def nextCombination (vec : List Bool) (count : ℕ) : Option (Bool × List Bool) :=
  nextCombinationLoop vec (countPred count) 0

/-- The inner loop of `for_combination`, with so many rounds left. -/
def combination (vec : List Bool) : ℕ → ℕ → Option (List ℕ)
  | 0, _ => some []
  | left + 1, i =>
    vec[i]?.bind fun b =>
      (combination vec left (i + 1)).map fun iters => if b then i :: iters else iters

/-- The outer loop of `for_combination`: the arguments of the calls of `func`. -/
def forCombinationLoop (count : ℕ) : ℕ → List Bool → Option (List (List ℕ))
  | 0, _ => none
  | fuel + 1, vec =>
    (combination vec count 0).bind fun call =>
      (nextCombination vec count).bind fun next =>
        if next.1 then (forCombinationLoop count fuel next.2).map (call :: ·) else some [call]

/-- `for_combination`: what it returns and the calls of `func`. -/
def forCombination (fuel count cmbCount : ℕ) : Option (Bool × List (List ℕ)) :=
  if count < cmbCount then some (false, [])
  else
    (forCombinationLoop count fuel
      (List.replicate cmbCount true ++ List.replicate (count - cmbCount) false)).map (true, ·)

/-! ### The next vector -/

/-- The vector after `front ++ vec`, where `front` has been looked through. -/
def successorFrom (front : List Bool) : List Bool → Option (List Bool)
  | [] => none
  | a :: vec =>
    if a = true ∧ vec.head? = some false then some (sortGreater front ++ false :: true :: vec.tail)
    else successorFrom (front ++ [a]) vec

/-- The next combination, none after the last one. -/
def successor (vec : List Bool) : Option (List Bool) := successorFrom [] vec

section Successor

variable {front vec w : List Bool} {x : Bool}

theorem nextCombinationLoop_eq (front : List Bool) (hne : vec ≠ []) :
    nextCombinationLoop (front ++ vec) (vec.length - 1) front.length =
      some (match successorFrom front vec with
        | some w => (true, w)
        | none => (false, front ++ vec)) := by
  induction vec generalizing front with
  | nil => exact absurd rfl hne
  | cons a vec ih =>
    cases vec with
    | nil => simp [nextCombinationLoop, successorFrom]
    | cons b vec =>
      have ha : (front ++ a :: b :: vec)[front.length]? = some a := by simp
      have hb : (front ++ a :: b :: vec)[front.length + 1]? = some b := by simp
      have hrest := ih (front ++ [a]) (List.cons_ne_nil _ _)
      rw [List.append_assoc, List.singleton_append, List.length_append, List.length_singleton]
        at hrest
      rw [List.length_cons, List.length_cons, Nat.add_sub_cancel, nextCombinationLoop, ha,
        Option.bind_some, successorFrom]
      cases a with
      | false =>
        rw [if_neg Bool.false_ne_true, if_neg fun h => Bool.false_ne_true h.1]
        exact hrest
      | true =>
        rw [if_pos rfl, hb, Option.bind_some]
        cases b with
        | true =>
          rw [if_neg Bool.true_eq_false.mp,
            if_neg fun h => Bool.true_eq_false.mp (Option.some.inj h.2)]
          exact hrest
        | false =>
          rw [if_pos rfl, if_pos ⟨rfl, rfl⟩]
          simp

/-- **`next_combination` computes the next vector**, and leaves the last one as it is. -/
theorem nextCombination_eq (hne : vec ≠ []) : nextCombination vec vec.length =
    some (match successor vec with
      | some w => (true, w)
      | none => (false, vec)) := by
  rw [nextCombination, countPred, if_neg fun h => hne (List.eq_nil_of_length_eq_zero h)]
  exact nextCombinationLoop_eq [] hne

/-- The first change is the same in a longer vector. -/
theorem successorFrom_concat (h : successorFrom front vec = some w) :
    successorFrom front (vec ++ [x]) = some (w ++ [x]) := by
  induction vec generalizing front with
  | nil => cases h
  | cons a vec ih =>
    rw [successorFrom] at h
    rw [List.cons_append, successorFrom]
    split_ifs at h with hchange
    · cases vec with
      | nil => cases hchange.2
      | cons b vec =>
        cases h
        rw [if_pos ⟨hchange.1, hchange.2⟩, List.append_assoc]
        rfl
    · cases vec with
      | nil => cases h
      | cons b vec =>
        rw [List.cons_append, List.head?_cons] at *
        rw [if_neg hchange]
        exact ih h

theorem successor_concat (x : Bool) (h : successor vec = some w) :
    successor (vec ++ [x]) = some (w ++ [x]) := successorFrom_concat h

/-- Leading 0s and the 1s after them are passed by. -/
theorem successorFrom_replicate (front vec : List Bool) (d k : ℕ) (hk : vec.head? ≠ some false) :
    successorFrom front (List.replicate d false ++ (List.replicate k true ++ vec)) =
      successorFrom (front ++ (List.replicate d false ++ List.replicate k true)) vec := by
  induction d generalizing front with
  | zero =>
    rw [List.replicate_zero, List.nil_append, List.nil_append]
    induction k generalizing front with
    | zero => rw [List.replicate_zero, List.nil_append, List.append_nil]
    | succ k ih =>
      rw [List.replicate_succ, List.cons_append, successorFrom, if_neg, ih, List.append_assoc,
        List.singleton_append]
      rintro ⟨-, hhead⟩
      cases k with
      | zero => exact hk hhead
      | succ k => cases hhead
  | succ d ih =>
    rw [List.replicate_succ, List.cons_append, successorFrom,
      if_neg fun h => Bool.false_ne_true h.1, ih, List.append_assoc, List.singleton_append,
      List.cons_append]

/-- The vector with all 1s at the back is the last. -/
theorem successor_last (d k : ℕ) :
    successor (List.replicate d false ++ List.replicate k true) = none := by
  have h := successorFrom_replicate [] [] d k nofun
  rw [List.append_nil] at h
  rw [successor, h]
  rfl

theorem sortGreater_replicate (d k : ℕ) :
    sortGreater (List.replicate d false ++ List.replicate k true) =
      List.replicate k true ++ List.replicate d false := by
  have hperm : (sortGreater (List.replicate d false ++ List.replicate k true)).Perm
      (List.replicate k true ++ List.replicate d false) :=
    (List.perm_insertionSort _ _).trans List.perm_append_comm
  have hsorted : (sortGreater (List.replicate d false ++ List.replicate k true)).Pairwise (· ≥ ·) :=
    List.pairwise_insertionSort _ _
  have hblocks : (List.replicate k true ++ List.replicate d false).Pairwise (· ≥ ·) := by
    rw [List.pairwise_append, List.pairwise_replicate, List.pairwise_replicate]
    refine ⟨.inr le_rfl, .inr le_rfl, fun a ha b hb => ?_⟩
    rw [List.eq_of_mem_replicate ha, List.eq_of_mem_replicate hb]
    exact Bool.false_le true
  exact List.Perm.eq_of_pairwise' hsorted hblocks hperm

/-- Where a vector ends in its only 1 before a 0, the 1 moves to the end and the others to the
front. -/
theorem successor_wrap (d k : ℕ) :
    successor (List.replicate d false ++ List.replicate (k + 1) true ++ [false]) =
      some (List.replicate k true ++ List.replicate (d + 1) false ++ [true]) := by
  have h := successorFrom_replicate [] [true, false] d k nofun
  have hsplit : List.replicate d false ++ List.replicate (k + 1) true ++ [false] =
      List.replicate d false ++ (List.replicate k true ++ [true, false]) := by
    rw [List.replicate_succ', List.append_assoc, List.append_assoc]
    rfl
  rw [successor, hsplit, h, successorFrom, if_pos ⟨rfl, rfl⟩, List.nil_append,
    sortGreater_replicate,
    List.replicate_succ', List.append_assoc, List.append_assoc, List.append_assoc]
  rfl

end Successor

/-! ### The walk through all vectors -/

/-- The vectors of length `n` with `k` 1s, those with a 0 at the end before those with a 1. -/
def combs : ℕ → ℕ → List (List Bool)
  | 0, 0 => [[]]
  | 0, _ + 1 => []
  | n + 1, 0 => (combs n 0).map (· ++ [false])
  | n + 1, k + 1 => (combs n (k + 1)).map (· ++ [false]) ++ (combs n k).map (· ++ [true])

theorem combs_of_lt {n k : ℕ} (h : n < k) : combs n k = [] := by
  induction n generalizing k with
  | zero =>
    obtain ⟨k, rfl⟩ : ∃ k', k = k' + 1 := ⟨k - 1, by omega⟩
    rfl
  | succ n ih =>
    obtain ⟨k, rfl⟩ : ∃ k', k = k' + 1 := ⟨k - 1, by omega⟩
    rw [combs, ih (by omega), ih (by omega)]
    rfl

/-- **The walk goes through all vectors**, from the 1s in front to the 1s at the back. -/
theorem walk_combs (d k : ℕ) : Walk successor (List.replicate k true ++ List.replicate d false)
    (combs (d + k) k) (List.replicate d false ++ List.replicate k true) := by
  obtain ⟨n, hn⟩ : ∃ n, n = d + k := ⟨_, rfl⟩
  rw [← hn]
  induction n generalizing d k with
  | zero =>
    obtain ⟨rfl, rfl⟩ : d = 0 ∧ k = 0 := by omega
    exact .single []
  | succ n ih =>
    cases k with
    | zero =>
      obtain rfl : d = n + 1 := by omega
      have h := (ih n 0 rfl).map fun a b => successor_concat false
      simp only [List.replicate_zero, List.nil_append, List.append_nil,
        ← List.replicate_succ'] at h ⊢
      exact h
    | succ k =>
      have hback := (ih d k (by omega)).map fun a b => successor_concat true
      rw [List.append_assoc, List.append_assoc, ← List.replicate_succ'] at hback
      cases d with
      | zero =>
        rw [combs, combs_of_lt (by omega), List.map_nil, List.nil_append]
        rw [List.replicate_zero, List.nil_append, ← List.replicate_succ'] at hback
        rw [List.replicate_zero, List.append_nil]
        exact hback
      | succ d =>
        have hfront := (ih d (k + 1) (by omega)).map fun a b => successor_concat false
        rw [List.append_assoc, ← List.replicate_succ'] at hfront
        refine hfront.append (successor_wrap d k) ?_
        rw [List.append_assoc]
        exact hback

theorem concat_mem_map {l : List (List Bool)} {w : List Bool} {x y : Bool} :
    w ++ [x] ∈ l.map (· ++ [y]) ↔ x = y ∧ w ∈ l := by
  rw [List.mem_map]
  constructor
  · rintro ⟨w', hw', heq⟩
    obtain ⟨rfl, hxy⟩ := List.append_inj' heq rfl
    obtain rfl := List.singleton_inj.mp hxy
    exact ⟨rfl, hw'⟩
  · rintro ⟨rfl, hw⟩
    exact ⟨w, hw, rfl⟩

theorem mem_combs {n k : ℕ} {v : List Bool} : v ∈ combs n k ↔ v.length = n ∧ v.count true = k := by
  induction n generalizing k v with
  | zero => cases k <;> simp +contextual [combs, List.length_eq_zero_iff]
  | succ n ih =>
    induction v using List.reverseRecOn with
    | nil => cases k <;> simp [combs]
    | append_singleton w x =>
      rw [List.length_append, List.length_singleton, Nat.add_right_cancel_iff, List.count_append]
      cases k with
      | zero => cases x <;> simp [combs, concat_mem_map, ih]
      | succ k => cases x <;> simp [combs, concat_mem_map, ih]

theorem nodup_combs (n k : ℕ) : (combs n k).Nodup := by
  have hconcat : ∀ x : Bool, Function.Injective fun w : List Bool => w ++ [x] :=
    fun x => List.append_left_injective [x]
  induction n generalizing k with
  | zero => cases k <;> simp [combs]
  | succ n ih =>
    cases k with
    | zero => exact (ih 0).map (hconcat false)
    | succ k =>
      refine ((ih (k + 1)).map (hconcat false)).append ((ih k).map (hconcat true)) ?_
      intro v hfalse htrue
      obtain ⟨w, -, rfl⟩ := List.mem_map.mp hfalse
      exact Bool.false_ne_true (concat_mem_map.mp htrue).1

/-! ### Combinations -/

/-- The positions of the 1s, counted from `i` on. -/
def ones (i : ℕ) : List Bool → List ℕ
  | [] => []
  | b :: vec => if b then i :: ones (i + 1) vec else ones (i + 1) vec

section Ones

variable {i n : ℕ} {front vec : List Bool}

theorem combination_eq (front vec : List Bool) :
    combination (front ++ vec) vec.length front.length = some (ones front.length vec) := by
  induction vec generalizing front with
  | nil => rfl
  | cons b vec ih =>
    have hb : (front ++ b :: vec)[front.length]? = some b := by simp
    have hrest := ih (front ++ [b])
    rw [List.append_assoc, List.singleton_append, List.length_append, List.length_singleton]
      at hrest
    rw [List.length_cons, combination, hb, Option.bind_some, hrest]
    rfl

theorem combination_vec : combination vec vec.length 0 = some (ones 0 vec) :=
  combination_eq [] vec

theorem bounds_of_mem_ones {j : ℕ} (hj : j ∈ ones i vec) : i ≤ j ∧ j < i + vec.length := by
  induction vec generalizing i with
  | nil => cases hj
  | cons b vec ih =>
    rw [List.length_cons]
    cases b with
    | false =>
      have h := ih (i := i + 1) hj
      omega
    | true =>
      obtain rfl | hj := List.mem_cons.mp hj
      · omega
      · have h := ih hj
        omega

theorem pairwise_ones : (ones i vec).Pairwise (· < ·) := by
  induction vec generalizing i with
  | nil => exact .nil
  | cons b vec ih =>
    cases b with
    | false => exact ih
    | true => exact .cons (fun j hj => (bounds_of_mem_ones hj).1) ih

theorem length_ones : (ones i vec).length = vec.count true := by
  induction vec generalizing i with
  | nil => rfl
  | cons b vec ih => cases b <;> simp [ones, ih]

theorem ones_injective {w : List Bool} (hlen : vec.length = w.length) (h : ones i vec = ones i w) :
    vec = w := by
  induction vec generalizing i w with
  | nil => exact (List.eq_nil_of_length_eq_zero hlen.symm).symm
  | cons a vec ih =>
    cases w with
    | nil => cases hlen
    | cons b w =>
      have hrest : vec.length = w.length := Nat.succ.inj hlen
      -- `i` is only in the positions of a vector that begins with a 1
      have hout : ∀ v : List Bool, i ∉ ones (i + 1) v := fun v hmem =>
        absurd (bounds_of_mem_ones hmem).1 (Nat.not_succ_le_self i)
      cases a <;> cases b
      · rw [ih hrest h]
      · exact absurd (h ▸ List.mem_cons_self : i ∈ ones (i + 1) vec) (hout vec)
      · exact absurd (h ▸ List.mem_cons_self : i ∈ ones (i + 1) w) (hout w)
      · rw [ih hrest (List.cons.inj h).2]

/-- Every increasing list of positions belongs to a vector. -/
theorem exists_ones {c : List ℕ} (hsorted : c.Pairwise (· < ·)) (hc : ∀ j ∈ c, i ≤ j ∧ j < i + n) :
    ∃ vec, vec.length = n ∧ ones i vec = c := by
  induction n generalizing i c with
  | zero =>
    cases c with
    | nil => exact ⟨[], rfl, rfl⟩
    | cons j c =>
      have hj := hc j List.mem_cons_self
      omega
  | succ n ih =>
    by_cases hi : i ∈ c
    · -- it is the first of them
      cases c with
      | nil => cases hi
      | cons j c =>
        obtain ⟨hlt, hrest⟩ := List.pairwise_cons.mp hsorted
        obtain rfl : i = j := by
          obtain rfl | hmem := List.mem_cons.mp hi
          · rfl
          · have hji := hlt i hmem
            have hij := hc j List.mem_cons_self
            omega
        obtain ⟨vec, hlen, hones⟩ := ih (i := i + 1) (c := c) hrest fun k hk => by
          have hik := hlt k hk
          have hkn := hc k (List.mem_cons_of_mem _ hk)
          omega
        exact ⟨true :: vec, congrArg (· + 1) hlen, congrArg (i :: ·) hones⟩
    · obtain ⟨vec, hlen, hones⟩ := ih (i := i + 1) hsorted fun k hk => by
        have hik : i ≠ k := fun heq => hi (heq ▸ hk)
        have hkn := hc k hk
        omega
      exact ⟨false :: vec, congrArg (· + 1) hlen, hones⟩

end Ones

/-! ### The calls -/

/-- Along a walk to the last vector there is one call for each vector. -/
theorem forCombinationLoop_of_walk {n : ℕ} {v w : List Bool} {vs : List (List Bool)}
    (hwalk : Walk successor v vs w) (hlast : successor w = none) (hn : 1 ≤ n)
    (hlen : ∀ v ∈ vs, v.length = n) (more : ℕ) :
    forCombinationLoop n (vs.length + more) v = some (vs.map (ones 0)) := by
  induction hwalk with
  | single v =>
    obtain rfl := hlen v (List.mem_singleton_self v)
    have hne : v ≠ [] := List.ne_nil_of_length_pos hn
    rw [List.length_singleton, Nat.add_comm, forCombinationLoop, combination_vec,
      Option.bind_some, nextCombination_eq hne, hlast]
    rfl
  | @cons v v' w vs hnext _ ih =>
    obtain rfl := hlen v List.mem_cons_self
    have hne : v ≠ [] := List.ne_nil_of_length_pos hn
    rw [List.length_cons, Nat.add_right_comm, forCombinationLoop, combination_vec,
      Option.bind_some, nextCombination_eq hne, hnext, Option.bind_some, if_pos rfl,
      ih hlast fun v hv => hlen v (List.mem_cons_of_mem _ hv)]
    rfl

/-- **`for_combination` calls its function once for each combination.** -/
theorem forCombination_calls (n k : ℕ) (hn : 1 ≤ n) :
    (k ≤ n → ∃ calls : List (List ℕ),
      (∀ more, forCombination (calls.length + more) n k = some (true, calls)) ∧
      calls.Nodup ∧
      ∀ c, c ∈ calls ↔ c.length = k ∧ c.Pairwise (· < ·) ∧ ∀ i ∈ c, i < n) ∧
    (n < k → ∀ fuel, forCombination fuel n k = some (false, [])) := by
  refine ⟨fun hk => ?_, fun hk fuel => if_pos hk⟩
  obtain ⟨d, rfl⟩ : ∃ d, n = d + k := ⟨n - k, by omega⟩
  have hlen : ∀ v ∈ combs (d + k) k, v.length = d + k := fun v hv => (mem_combs.mp hv).1
  refine ⟨(combs (d + k) k).map (ones 0), fun more => ?_, ?_, fun c => ?_⟩
  · rw [forCombination, if_neg (Nat.not_lt.mpr hk), Nat.add_sub_cancel, List.length_map,
      forCombinationLoop_of_walk (walk_combs d k) (successor_last d k) hn hlen]
    rfl
  · refine List.Nodup.map_on (fun v hv w hw h => ?_) (nodup_combs _ _)
    exact ones_injective ((hlen v hv).trans (hlen w hw).symm) h
  · rw [List.mem_map]
    constructor
    · rintro ⟨v, hv, rfl⟩
      obtain ⟨hlen, hcount⟩ := mem_combs.mp hv
      refine ⟨length_ones.trans hcount, pairwise_ones, fun i hi => ?_⟩
      have hbounds := bounds_of_mem_ones hi
      omega
    · rintro ⟨hlength, hsorted, hbound⟩
      obtain ⟨v, hv, rfl⟩ := exists_ones (i := 0) (n := d + k) hsorted fun j hj =>
        ⟨Nat.zero_le j, by rw [Nat.zero_add]; exact hbound j hj⟩
      exact ⟨v, mem_combs.mpr ⟨hv, length_ones.symm.trans hlength⟩, rfl⟩

/-- Two of three elements. -/
theorem forCombination_calls_two_of_three : ∃ calls : List (List ℕ),
    (∀ more, forCombination (calls.length + more) 3 2 = some (true, calls)) ∧ calls.Nodup ∧
      ∀ c, c ∈ calls ↔ c.length = 2 ∧ c.Pairwise (· < ·) ∧ ∀ i ∈ c, i < 3 :=
  (forCombination_calls 3 2 (by decide)).1 (by decide)

example : forCombination 3 3 2 = some (true, [[0, 1], [0, 2], [1, 2]]) := by decide

/-! ### One step -/

section Step

variable {front vec w : List Bool}

theorem change_prefix_iff {a : Bool} :
    [true, false] <+: a :: vec ↔ a = true ∧ vec.head? = some false := by
  rcases vec with _ | ⟨b, vec⟩
  · simp
  · simp [List.cons_prefix_cons, eq_comm]

/-- There is no next vector if no 1 is followed by a 0. -/
theorem successorFrom_eq_none_iff :
    successorFrom front vec = none ↔ ¬[true, false] <:+: vec := by
  induction vec generalizing front with
  | nil => simp [successorFrom]
  | cons a vec ih =>
    rw [successorFrom, List.infix_cons_iff, change_prefix_iff]
    by_cases hchange : a = true ∧ vec.head? = some false
    · rw [if_pos hchange]
      exact iff_of_false (Option.some_ne_none _) fun h => h (.inl hchange)
    · rw [if_neg hchange, ih, or_iff_right hchange]

/-- The next vector has the same elements. -/
theorem successorFrom_perm (h : successorFrom front vec = some w) : w.Perm (front ++ vec) := by
  induction vec generalizing front with
  | nil => cases h
  | cons a vec ih =>
    rw [successorFrom] at h
    split_ifs at h with hchange
    · obtain ⟨rfl, hhead⟩ := hchange
      obtain ⟨vec, rfl⟩ := List.head?_eq_some_iff.mp hhead
      rw [← Option.some.inj h]
      exact (List.perm_insertionSort _ front).append (List.Perm.swap true false vec)
    · have hperm := ih h
      rwa [List.append_assoc, List.singleton_append] at hperm

/-- What `next_combination` should do: it stays inside the vector, says whether a 1 is followed by a
0, and keeps the number of 1s. -/
def StepsRight (vec : List Bool) : Prop :=
  ∃ changed w, nextCombination vec vec.length = some (changed, w) ∧
    (changed = false ↔ ¬[true, false] <:+: vec) ∧
    (changed = true → w.length = vec.length ∧ w.count true = vec.count true)

/-- The position 0 is not in an empty vector, and `count - 1` is not 0. -/
theorem nextCombination_nil : nextCombination [] 0 = none := rfl

theorem forCombinationLoop_nil (fuel : ℕ) : forCombinationLoop 0 fuel [] = none := by
  rcases fuel with _ | fuel
  · rfl
  · rw [forCombinationLoop, nextCombination_nil]
    rfl

theorem stepsRight_of_ne_nil (hne : vec ≠ []) : StepsRight vec := by
  have hnext := nextCombination_eq hne
  rcases hsucc : successor vec with _ | w
  · rw [hsucc] at hnext
    have hnone := successorFrom_eq_none_iff.mp hsucc
    exact ⟨false, vec, hnext, iff_of_true rfl hnone, fun h => absurd h Bool.false_ne_true⟩
  · rw [hsucc] at hnext
    have hperm := successorFrom_perm hsucc
    have hsome : ¬¬[true, false] <:+: vec := by
      intro hnone
      have hsucc' : successor vec = none := successorFrom_eq_none_iff.mpr hnone
      rw [hsucc] at hsucc'
      cases hsucc'
    refine ⟨true, w, hnext, iff_of_false Bool.true_eq_false.mp hsome, ?_⟩
    intro _
    exact ⟨hperm.length_eq, hperm.count_eq true⟩

/-- Without elements `for_combination` does not come to an end. -/
theorem forCombination_empty (fuel : ℕ) : forCombination fuel 0 0 = none := by
  have hloop := forCombinationLoop_nil fuel
  rw [forCombination, if_neg (Nat.lt_irrefl 0)]
  exact Option.map_eq_none_iff.mpr hloop

/-- There is one combination of no elements. -/
theorem forCombination_zero {n : ℕ} (hn : 1 ≤ n) :
    forCombination 1 n 0 = some (true, [[]]) := by
  have hcall := forCombinationLoop_of_walk (.single (List.replicate n false)) (n := n)
    (by simpa using successor_last n 0) hn (by simp) 0
  have hones : ones 0 (List.replicate n false) = [] := by
    refine List.eq_nil_of_length_eq_zero ?_
    rw [length_ones, List.count_replicate]
    rfl
  rw [forCombination, if_neg (Nat.not_lt_zero n), List.replicate_zero, List.nil_append,
    Nat.sub_zero]
  rw [List.map_singleton, hones] at hcall
  exact Option.map_eq_some_iff.mpr ⟨_, hcall, rfl⟩

/-- **`next_combination` is right except for an empty vector**, where it reads outside of it. So
`for_combination` makes its call for no elements and ends, except for an empty range. -/
theorem stepsRight_iff (vec : List Bool) : (StepsRight vec ↔ 1 ≤ vec.length) ∧
    ((∃ fuel, forCombination fuel vec.length 0 = some (true, [[]])) ↔ 1 ≤ vec.length) := by
  rcases vec with _ | ⟨a, vec⟩
  · have hlen : ¬1 ≤ ([] : List Bool).length := Nat.not_succ_le_zero 0
    refine ⟨iff_of_false ?_ hlen, iff_of_false ?_ hlen⟩
    · rintro ⟨changed, w, hnext, -, -⟩
      rw [List.length_nil, nextCombination_nil] at hnext
      cases hnext
    · rintro ⟨fuel, hresult⟩
      rw [List.length_nil, forCombination_empty] at hresult
      cases hresult
  · have hlen : 1 ≤ (a :: vec).length := Nat.le_add_left 1 vec.length
    refine ⟨iff_of_true ?_ hlen, iff_of_true ?_ hlen⟩
    · exact stepsRight_of_ne_nil (List.cons_ne_nil a vec)
    · exact ⟨1, forCombination_zero hlen⟩

/-- The vector of an empty range. -/
theorem not_stepsRight_nil : ¬((∀ vec : List Bool, StepsRight vec) ∧
    ∃ fuel, forCombination fuel 0 0 = some (true, [[]])) := by
  rintro ⟨hall, -⟩
  obtain ⟨changed, w, hnext, -, -⟩ := hall []
  rw [List.length_nil, nextCombination_nil] at hnext
  cases hnext

end Step

end Lsf.Combination
