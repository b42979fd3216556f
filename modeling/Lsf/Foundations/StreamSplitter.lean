import Mathlib.Data.List.Basic

/-!
# Splitting a stream that arrives in pieces

A `Splitter` takes the first item off a stream if it is complete. What it answers must not change
when more of the stream arrives; that law and the one that an item is not empty are all that is
needed for `Splitter.parse`, which takes off all complete items, to be indifferent to how the
stream was cut.

## Main definitions

* `Splitter` — a way to take the first item off a stream
* `Splitter.parse` — all complete items, and what is left
* `Splitter.feed` — a stream in pieces, the rest of each kept for the next

## Main results

* `Splitter.parse_append`, `Splitter.feed_eq_parse`
-/

namespace Lsf

variable {β γ : Type}

/-- A way to take the first item off a stream. -/
structure Splitter (β γ : Type) where
  split : List β → Option (γ × List β)
  shorter : ∀ {b c r}, split b = some (c, r) → r.length < b.length
  stable : ∀ {b c r} (x : List β), split b = some (c, r) → split (b ++ x) = some (c, r ++ x)

namespace Splitter

variable (S : Splitter β γ)

/-- All complete items of a stream, and what is left. -/
def parse (b : List β) : List γ × List β :=
  match h : S.split b with
  | none => ([], b)
  | some (c, r) =>
    have := S.shorter h
    (c :: (parse r).1, (parse r).2)
termination_by b.length

variable {S} {b r x : List β} {c : γ}

theorem parse_of_none (h : S.split b = none) : S.parse b = ([], b) := by
  rw [parse]
  split
  · rfl
  · rename_i heq
    rw [h] at heq
    cases heq

theorem parse_of_some (h : S.split b = some (c, r)) :
    S.parse b = (c :: (S.parse r).1, (S.parse r).2) := by
  rw [parse]
  split
  · rename_i heq
    rw [h] at heq
    cases heq
  · rename_i heq
    rw [h] at heq
    cases heq
    rfl

/-- Induction along the items that are taken off. -/
theorem parse_induction {P : List β → Prop} (none : ∀ b, S.split b = none → P b)
    (some : ∀ b c r, S.split b = some (c, r) → P r → P b) (b : List β) : P b := by
  induction hn : b.length using Nat.strongRecOn generalizing b with
  | ind n ih =>
    cases hs : S.split b with
    | none => exact none b hs
    | some cr =>
      obtain ⟨c, r⟩ := cr
      exact some b c r hs (ih r.length (hn ▸ S.shorter hs) r rfl)

/-- Nothing can be taken off what is left. -/
theorem split_rest (b : List β) : S.split (S.parse b).2 = none := by
  induction b using S.parse_induction with
  | none b hs => rwa [parse_of_none hs]
  | some b c r hs ih => rwa [parse_of_some hs]

/-- **Parsing more of a stream continues where parsing the first part stopped.** -/
theorem parse_append (b x : List β) : S.parse (b ++ x) =
    ((S.parse b).1 ++ (S.parse ((S.parse b).2 ++ x)).1, (S.parse ((S.parse b).2 ++ x)).2) := by
  induction b using S.parse_induction with
  | none b hs => rw [parse_of_none hs, List.nil_append]
  | some b c r hs ih => rw [parse_of_some hs, parse_of_some (S.stable x hs), ih, List.cons_append]

/-- What was taken off a stream and what is left make up the stream, and they still do when more of
it arrives. -/
theorem append_parse_eq_parse {cs : List γ} {k : List β}
    (h : (cs ++ (S.parse k).1, (S.parse k).2) = S.parse b) (x : List β) :
    (cs ++ (S.parse (k ++ x)).1, (S.parse (k ++ x)).2) = S.parse (b ++ x) := by
  rw [parse_append b, parse_append k, ← h, List.append_assoc]

theorem parse_prefix_append (b x : List β) : (S.parse b).1 <+: (S.parse (b ++ x)).1 := by
  rw [parse_append]
  exact List.prefix_append _ _

/-- The first item that is parsed is the first one that can be taken off. -/
theorem split_of_parse_eq_cons {cs : List γ} (h : (S.parse b).1 = c :: cs) :
    ∃ r, S.split b = some (c, r) := by
  cases hs : S.split b with
  | none =>
    rw [parse_of_none hs] at h
    cases h
  | some cr =>
    rw [parse_of_some hs] at h
    cases h
    exact ⟨cr.2, rfl⟩

/-- A map between streams that the splitters agree on is one that the items agree on. -/
theorem parse_map {β' γ' : Type} {S' : Splitter β' γ'} {f : β → β'} {g : γ → γ'}
    (h : ∀ b, S'.split (b.map f) = (S.split b).map fun p => (g p.1, p.2.map f)) (b : List β) :
    S'.parse (b.map f) = ((S.parse b).1.map g, (S.parse b).2.map f) := by
  induction b using S.parse_induction with
  | none b hs =>
    have hs' : S'.split (b.map f) = none := by rw [h, hs, Option.map_none]
    rw [parse_of_none hs, parse_of_none hs', List.map_nil]
  | some b c r hs ih =>
    have hs' : S'.split (b.map f) = some (g c, r.map f) := by rw [h, hs, Option.map_some]
    rw [parse_of_some hs, parse_of_some hs', ih, List.map_cons]

/-- The items of a stream in pieces, where what is left of each piece is kept for the next. -/
def feed (S : Splitter β γ) : List β → List (List β) → List γ × List β
  | r, [] => ([], r)
  | r, x :: xs => ((S.parse (r ++ x)).1 ++ (S.feed (S.parse (r ++ x)).2 xs).1,
      (S.feed (S.parse (r ++ x)).2 xs).2)

/-- **How the stream is cut does not matter.** -/
theorem feed_eq_parse {xs : List (List β)} (hr : S.split r = none) :
    S.feed r xs = S.parse (r ++ xs.flatten) := by
  induction xs generalizing r with
  | nil => rw [feed, List.flatten_nil, List.append_nil, parse_of_none hr]
  | cons x xs ih =>
    rw [feed, ih (split_rest _), List.flatten_cons, ← List.append_assoc,
      parse_append (r ++ x) xs.flatten]

end Splitter

end Lsf
