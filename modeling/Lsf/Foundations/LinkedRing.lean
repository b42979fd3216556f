import Mathlib.Data.List.Cycle
import Mathlib.Logic.Function.Basic

/-!
# Doubly linked rings

A ring is a cyclic list of places in which each place holds a `next` and a `prev` link. It is the
shape of an intrusive list: a used list closed by a sentinel, or a free list. The links are two
functions on places, and a ring is a property of their restriction to its members, so that several
disjoint rings can live in the same two functions.

The two structural lemmas say what the usual pointer assignments do: `IsRing.insert` links a new
place before the first member, `IsRing.unlink` takes the first member out. As a ring has no first
member of its own, `IsRing.rotate` puts any member first.

## Main definitions

* `IsRing` — the links of the members of a list close to a ring in that order
-/

namespace Lsf

variable {ι : Type} {next prev next' prev' : ι → ι}

/-- An assignment to a number and then to those that follow it is one to all of them. -/
theorem ite_range_update {α : Type} (value f : ℕ → α) (pos rounds x : ℕ) :
    (if pos + 1 ≤ x ∧ x < pos + 1 + rounds then value x
      else Function.update f pos (value pos) x) =
      if pos ≤ x ∧ x < pos + (rounds + 1) then value x else f x := by
  by_cases hx : x = pos
  · subst hx
    rw [if_neg (by omega), if_pos (by omega), Function.update_self]
  · rw [Function.update_of_ne hx]
    congr 1
    rw [eq_iff_iff]
    omega

/-- An assignment to a place outside a list does not change what its members hold. -/
theorem map_update_of_notMem [DecidableEq ι] {α : Type} {f : ι → α} {p : ι} {x : α} {l : List ι}
    (hp : p ∉ l) : l.map (Function.update f p x) = l.map f := by
  refine List.map_congr_left fun y hy => ?_
  rw [Function.update_of_ne]
  rintro rfl
  exact hp hy

/-- The links of the members of `l` close to a ring, in the order of `l`. -/
def IsRing (next prev : ι → ι) (l : List ι) : Prop :=
  (l : Cycle ι).Chain fun a b => next a = b ∧ prev b = a

namespace IsRing

@[simp] theorem nil : IsRing next prev [] := Cycle.Chain.nil _

theorem cons_iff {a : ι} {l : List ι} : IsRing next prev (a :: l) ↔
    List.IsChain (fun a b => next a = b ∧ prev b = a) (a :: (l ++ [a])) :=
  Cycle.chain_coe_cons _ _ _

@[simp] theorem singleton_iff {a : ι} : IsRing next prev [a] ↔ next a = a ∧ prev a = a :=
  Cycle.chain_singleton _ _

/-- A ring may be read from any of its members. -/
theorem rotate {l m : List ι} (h : IsRing next prev (l ++ m)) : IsRing next prev (m ++ l) := by
  have hr : ((l ++ m : List ι) : Cycle ι) = (m ++ l : List ι) :=
    Cycle.coe_eq_coe.mpr ⟨l.length, by simp⟩
  rw [IsRing, hr] at h
  exact h

theorem next_head {a b : ι} {l : List ι} (h : IsRing next prev (a :: b :: l)) : next a = b :=
  (List.isChain_cons_cons.mp (cons_iff.mp h)).1.1

theorem prev_second {a b : ι} {l : List ι} (h : IsRing next prev (a :: b :: l)) : prev b = a :=
  (List.isChain_cons_cons.mp (cons_iff.mp h)).1.2

/-- The links that close the ring: from the last member to the first and back. -/
theorem closes {a : ι} {l : List ι} {z : ι} (h : IsRing next prev (a :: l))
    (hz : (a :: l).getLast? = some z) : next z = a ∧ prev a = z := by
  have hc : List.IsChain (fun a b => next a = b ∧ prev b = a) ((a :: l) ++ [a]) := cons_iff.mp h
  exact (List.isChain_append.mp hc).2.2 z hz a rfl

theorem next_prev_head {a : ι} {l : List ι} (h : IsRing next prev (a :: l)) :
    next (prev a) = a := by
  obtain ⟨h₁, h₂⟩ := h.closes (List.getLast?_eq_some_getLast (List.cons_ne_nil a l))
  rw [h₂, h₁]

theorem prev_head_mem {a : ι} {l : List ι} (h : IsRing next prev (a :: l)) : prev a ∈ a :: l := by
  obtain ⟨-, h₂⟩ := h.closes (List.getLast?_eq_some_getLast (List.cons_ne_nil a l))
  rw [h₂]
  exact List.getLast_mem _

theorem next_head_mem {a : ι} {l : List ι} (h : IsRing next prev (a :: l)) : next a ∈ a :: l := by
  cases l with
  | nil => simp [(singleton_iff.mp h).1]
  | cons b l => simp [h.next_head]

/-- A ring is alone on the first place exactly when that place is its own successor. -/
theorem next_head_eq_iff {a : ι} {l : List ι} (h : IsRing next prev (a :: l))
    (hn : (a :: l).Nodup) : next a = a ↔ l = [] := by
  cases l with
  | nil => simp [(singleton_iff.mp h).1]
  | cons b l =>
    rw [h.next_head]
    have : a ≠ b := by rintro rfl; simp at hn
    simpa using this.symm

/-- A ring depends only on the links of its members. -/
theorem congr {l : List ι} (h : IsRing next prev l) (hnext : ∀ a ∈ l, next' a = next a)
    (hprev : ∀ a ∈ l, prev' a = prev a) : IsRing next' prev' l := by
  cases l with
  | nil => exact nil
  | cons a l =>
    refine cons_iff.mpr ((cons_iff.mp h).imp_of_mem_imp fun x y hx hy hxy => ?_)
    have hmem : ∀ w ∈ a :: (l ++ [a]), w ∈ a :: l := by
      intro w hw
      simpa [or_comm] using hw
    rw [hnext x (hmem x hx), hprev y (hmem y hy)]
    exact hxy

/-- The part of a ring that its first member's `prev` closes: with that link put aside, the
members are still chained. Both structural lemmas below keep this part. -/
private theorem chain_of_agree {a : ι} {l : List ι} (h : IsRing next prev (a :: l))
    (hn : (a :: l).Nodup) (hnext : ∀ x ∈ a :: l, x ≠ prev a → next' x = next x)
    (hprev : ∀ x ∈ l, prev' x = prev x) :
    List.IsChain (fun a b => next' a = b ∧ prev' b = a) (a :: l) := by
  have hc : List.IsChain (fun a b => next a = b ∧ prev b = a) (a :: l) :=
    (cons_iff.mp h : List.IsChain _ ((a :: l) ++ [a])).left_of_append
  refine hc.imp_of_mem_tail_imp fun x y hx hy hxy => ?_
  have hya : y ≠ a := by rintro rfl; simp_all
  have hxz : x ≠ prev a := by
    rintro rfl
    exact hya (hxy.1.symm.trans h.next_prev_head)
  exact ⟨by rw [hnext x hx hxz, hxy.1], by rw [hprev y hy, hxy.2]⟩

/-- Linking `p` between the first member and its predecessor. -/
theorem insert {a p : ι} {l : List ι} (h : IsRing next prev (a :: l)) (hn : (a :: l).Nodup)
    (hp : next' p = a ∧ prev' a = p) (hz : prev' p = prev a ∧ next' (prev a) = p)
    (hnext : ∀ x ∈ a :: l, x ≠ prev a → next' x = next x) (hprev : ∀ x ∈ l, prev' x = prev x) :
    IsRing next' prev' (p :: a :: l) := by
  have hlast := List.getLast?_eq_some_getLast (List.cons_ne_nil a l)
  have hza : prev a = (a :: l).getLast (List.cons_ne_nil a l) := (h.closes hlast).2
  have hc : List.IsChain (fun a b => next' a = b ∧ prev' b = a) ((a :: l) ++ [p]) := by
    refine List.isChain_append.mpr ⟨chain_of_agree h hn hnext hprev, by simp, ?_⟩
    intro x hx y hy
    obtain rfl : prev a = x := by rw [hza]; simpa [hlast] using hx
    obtain rfl : p = y := by simpa using hy
    exact ⟨hz.2, hz.1⟩
  exact cons_iff.mpr (List.isChain_cons_cons.mpr ⟨hp, hc⟩)

/-- Taking the first of at least two members out. -/
theorem unlink {p a : ι} {l : List ι} (h : IsRing next prev (p :: a :: l))
    (hn : (p :: a :: l).Nodup) (hz : next' (prev p) = a ∧ prev' a = prev p)
    (hnext : ∀ x ∈ a :: l, x ≠ prev p → next' x = next x) (hprev : ∀ x ∈ l, prev' x = prev x) :
    IsRing next' prev' (a :: l) := by
  have hlast := List.getLast?_eq_some_getLast (List.cons_ne_nil a l)
  have hlast' : (p :: a :: l).getLast? = some ((a :: l).getLast (List.cons_ne_nil a l)) := by
    rw [List.getLast?_cons_cons, hlast]
  have hc : List.IsChain (fun a b => next a = b ∧ prev b = a) (a :: l) :=
    ((List.isChain_cons_cons.mp (cons_iff.mp h)).2 :
      List.IsChain _ ((a :: l) ++ [p])).left_of_append
  have hc' : List.IsChain (fun a b => next' a = b ∧ prev' b = a) (a :: l) := by
    refine hc.imp_of_mem_tail_imp fun x y hx hy hxy => ?_
    have hxz : x ≠ prev p := by
      rintro rfl
      have : y = p := hxy.1.symm.trans h.next_prev_head
      simp_all
    exact ⟨by rw [hnext x hx hxz, hxy.1], by rw [hprev y hy, hxy.2]⟩
  rw [cons_iff, ← List.cons_append]
  refine List.isChain_append.mpr ⟨hc', by simp, ?_⟩
  intro x hx y hy
  obtain rfl : prev p = x := by rw [(h.closes hlast').2]; simpa [hlast] using hx
  obtain rfl : a = y := by simpa using hy
  exact hz

/-- The numbers from `1` to `n`, each linked to the next and the last to the first, form a ring. -/
theorem range' {next prev : ℕ → ℕ} {n : ℕ}
    (hnext : ∀ x, 1 ≤ x → x < n → next x = x + 1) (hprev : ∀ x, 1 ≤ x → x < n → prev (x + 1) = x)
    (hlast : next n = 1) (hfirst : prev 1 = n) : IsRing next prev (List.range' 1 n) := by
  cases n with
  | zero => exact nil
  | succ n =>
    have hrange : List.range' 1 (n + 1) = 1 :: List.range' 2 n := rfl
    have hchain : List.IsChain (fun a b => next a = b ∧ prev b = a) (List.range' 1 (n + 1)) := by
      have hsucc := List.isChain_range' 1 (n + 1) 1
      refine hsucc.imp_of_mem_imp fun a b ha hb hab => ?_
      subst hab
      rw [List.mem_range'_1] at ha hb
      exact ⟨hnext a ha.1 (by omega), hprev a ha.1 (by omega)⟩
    rw [hrange, cons_iff, ← List.cons_append, ← hrange]
    refine List.isChain_append.mpr ⟨hchain, List.isChain_singleton _, ?_⟩
    intro x hx y hy
    have hxn : x = n + 1 := by
      simp [List.getLast?_range'] at hx
      omega
    obtain rfl : 1 = y := by simpa using hy
    rw [hxn]
    exact ⟨hlast, hfirst⟩

section Update

variable [DecidableEq ι] {a p : ι} {l : List ι}

/-- The four assignments that link `p` before `a`. -/
theorem linkBefore (h : IsRing next prev (a :: l)) (hn : (a :: l).Nodup) (hp : p ∉ a :: l) :
    IsRing (Function.update (Function.update next p a) (prev a) p)
      (Function.update (Function.update prev p (prev a)) a p) (p :: a :: l) := by
  have hza : p ≠ prev a := fun heq => hp (heq ▸ h.prev_head_mem)
  have hpa : p ≠ a := fun heq => hp (heq ▸ List.mem_cons_self)
  refine h.insert hn ⟨?_, Function.update_self ..⟩ ⟨?_, Function.update_self ..⟩
    (fun x hx hxz => ?_) fun x hx => ?_
  · rw [Function.update_of_ne hza, Function.update_self]
  · rw [Function.update_of_ne hpa, Function.update_self]
  · rw [Function.update_of_ne hxz, Function.update_of_ne]
    rintro rfl
    exact hp hx
  · rw [Function.update_of_ne, Function.update_of_ne]
    · rintro rfl
      exact hp (List.mem_cons_of_mem a hx)
    · rintro rfl
      exact (List.nodup_cons.mp hn).1 hx

/-- The two assignments that take `p` out. -/
theorem takeOut (h : IsRing next prev (p :: l)) (hn : (p :: l).Nodup) :
    IsRing (Function.update next (prev p) (next p)) (Function.update prev (next p) (prev p)) l := by
  cases l with
  | nil => exact nil
  | cons a l =>
    have hnext := h.next_head
    refine h.unlink hn ⟨?_, ?_⟩ (fun x hx hxz => Function.update_of_ne hxz _ _) fun x hx => ?_
    · rw [Function.update_self, hnext]
    · rw [hnext, Function.update_self]
    · rw [hnext, Function.update_of_ne]
      rintro rfl
      simp only [List.nodup_cons] at hn
      exact hn.2.1 hx

/-- Assignments outside a ring do not matter to it. -/
theorem update_of_notMem {x y v w : ι} (h : IsRing next prev l) (hx : x ∉ l) (hy : y ∉ l) :
    IsRing (Function.update next x v) (Function.update prev y w) l := by
  refine h.congr (fun a ha => Function.update_of_ne ?_ _ _) fun a ha => Function.update_of_ne ?_ _ _
  · rintro rfl
    exact hx ha
  · rintro rfl
    exact hy ha

end Update

end IsRing

end Lsf
