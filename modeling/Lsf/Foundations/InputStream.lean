import Lsf.Foundations.StringSearch

/-!
# Reading from a stream

A stream is what has not been read yet, and two bits: whether a read has come upon the end, and
whether one has failed. A read from a stream with one of the bits set fails.

Text has lines that end in a newline, a carriage return or both. `linesOf` gives the lines of a
text with any of these, the last of them without an end.

## Main definitions

* `IStream`, `getline`
* `linesOf` — the lines of a text with any of three ends
* `render`, `ConsistsOf` — a text from lines and their ends

## Main results

* `getline_of_forall`, `getline_of_cut` — by what the stream looks like
* `consistsOf_linesOf` — every text has lines and ends
* `filterMap_linesOf_render` — lines that are not empty do not depend on the ends
-/

namespace Lsf

/-- The character that ends a line. -/
def newline : UInt8 := 10

/-- What has not been read yet, `eofbit` and `failbit`. -/
structure IStream where
  rest : List UInt8
  eof : Bool
  fail : Bool

/-- `std::getline`, into `line`. -/
def getline (is : IStream) (line : List UInt8) : IStream × List UInt8 :=
  if is.eof || is.fail then ({ is with fail := true }, line)
  else
    match findFrom (· == newline) is.rest 0 with
    | some stop => ({ is with rest := is.rest.drop (stop + 1) }, is.rest.take stop)
    | none => ({ rest := [], eof := true, fail := is.rest.isEmpty }, is.rest)

theorem getline_of_forall {rest : List UInt8} (h : ∀ c ∈ rest, (c == newline) = false)
    (line : List UInt8) :
    getline { rest := rest, eof := false, fail := false } line =
      ({ rest := [], eof := true, fail := rest.isEmpty }, rest) := by
  have hnone : findFrom (· == newline) rest 0 = none := findFrom_of_forall h
  simp only [getline, Bool.or_self, if_neg Bool.false_ne_true, hnone]

theorem getline_of_cut {front rest : List UInt8} (h : ∀ c ∈ front, (c == newline) = false)
    (line : List UInt8) :
    getline { rest := front ++ newline :: rest, eof := false, fail := false } line =
      ({ rest := rest, eof := false, fail := false }, front) := by
  have hcut : (front ++ newline :: rest).drop 0 = front ++ newline :: rest := rfl
  have hsome := findFrom_of_cut (p := (· == newline)) hcut h rfl
  have hdrop := drop_succ_of_cut hcut
  rw [Nat.zero_add] at hsome hdrop
  simp only [getline, Bool.or_self, if_neg Bool.false_ne_true, hsome, hdrop, List.take_left]

/-! ### Three ends of lines -/

/-- The character before it, or instead of it. -/
def carriageReturn : UInt8 := 13

/-- What a line may end in. -/
inductive LineEnd
  | lf
  | crlf
  | cr

/-- The characters of a line end. -/
def LineEnd.text : LineEnd → List UInt8
  | .lf => [newline]
  | .crlf => [carriageReturn, newline]
  | .cr => [carriageReturn]

/-- The lines of a text, where `line` has been read of the first. A newline behind a carriage return
belongs to the same end. -/
def linesFrom (line : List UInt8) : List UInt8 → List (List UInt8)
  | [] => [line]
  | 10 :: s => line :: linesFrom [] s
  | 13 :: 10 :: s => line :: linesFrom [] s
  | 13 :: s => line :: linesFrom [] s
  | c :: s => linesFrom (line ++ [c]) s

/-- The lines of a text, the last without an end. -/
def linesOf (s : List UInt8) : List (List UInt8) :=
  linesFrom [] s

/-- Lines with their ends, and a last line. -/
def render (ended : List (List UInt8 × LineEnd)) (last : List UInt8) : List UInt8 :=
  ended.flatMap (fun line => line.1 ++ line.2.text) ++ last

/-- No end of a line is in the text. -/
def IsLine (s : List UInt8) : Prop :=
  ∀ c ∈ s, c ≠ newline ∧ c ≠ carriageReturn

theorem linesFrom_cons {c : UInt8} (hlf : c ≠ newline) (hcr : c ≠ carriageReturn)
    (line s : List UInt8) : linesFrom line (c :: s) = linesFrom (line ++ [c]) s := by
  rw [linesFrom]
  · exact hlf
  · exact fun _ hc _ => hcr hc
  · exact hcr

theorem linesFrom_append {front : List UInt8} (h : IsLine front) (line s : List UInt8) :
    linesFrom line (front ++ s) = linesFrom (line ++ front) s := by
  induction front generalizing line with
  | nil => rw [List.append_nil, List.nil_append]
  | cons c front ih =>
    obtain ⟨⟨hlf, hcr⟩, hfront⟩ := List.forall_mem_cons.mp h
    rw [List.cons_append, linesFrom_cons hlf hcr, ih hfront, List.append_assoc,
      List.singleton_append]

/-- A carriage return ends a line, whatever comes next, but for an empty line. -/
theorem filterMap_linesFrom_cr {β : Type} {f : List UInt8 → Option β} (hf : f [] = none)
    (line s : List UInt8) :
    (linesFrom line (carriageReturn :: s)).filterMap f = (line :: linesFrom [] s).filterMap f := by
  cases s with
  | nil => rfl
  | cons c s =>
    by_cases hlf : c = newline
    · subst hlf
      have hcrlf : linesFrom line (carriageReturn :: newline :: s) = line :: linesFrom [] s := rfl
      have hnext : linesFrom [] (newline :: s) = [] :: linesFrom [] s := rfl
      rw [hcrlf, hnext, List.filterMap_cons, List.filterMap_cons, List.filterMap_cons, hf]
    · have hcr : linesFrom line (carriageReturn :: c :: s) = line :: linesFrom [] (c :: s) := by
        rw [carriageReturn, linesFrom]
        rintro _ ⟨rfl, -⟩
        exact hlf rfl
      rw [hcr]

/-- **Lines that are not empty do not depend on the ends.** -/
theorem filterMap_linesOf_render {β : Type} {f : List UInt8 → Option β} (hf : f [] = none)
    (ended : List (List UInt8 × LineEnd)) (last : List UInt8)
    (hended : ∀ line ∈ ended, IsLine line.1) (hlast : IsLine last) :
    (linesOf (render ended last)).filterMap f =
      (ended.map Prod.fst ++ [last]).filterMap f := by
  induction ended with
  | nil =>
    have happend := linesFrom_append hlast [] []
    rw [List.append_nil] at happend
    exact congrArg (List.filterMap f) happend
  | cons line ended ih =>
    obtain ⟨hline, hended⟩ := List.forall_mem_cons.mp hended
    have hrender : render (line :: ended) last = line.1 ++ (line.2.text ++ render ended last) := by
      rw [render, render, List.flatMap_cons, List.append_assoc, List.append_assoc]
    rw [hrender, linesOf, linesFrom_append hline, List.nil_append, List.map_cons, List.cons_append,
      List.filterMap_cons, ← ih hended, linesOf, ← List.filterMap_cons]
    cases line.2 with
    | lf => rfl
    | crlf => rfl
    | cr => exact filterMap_linesFrom_cr hf line.1 _

/-- The text consists of the lines, with ends between them. -/
def ConsistsOf (s : List UInt8) (lines : List (List UInt8)) : Prop :=
  ∃ ended last, s = render ended last ∧ (∀ line ∈ ended, IsLine line.1) ∧ IsLine last ∧
    lines = ended.map Prod.fst ++ [last]

theorem ConsistsOf.cons {s line : List UInt8} {lines : List (List UInt8)} (h : ConsistsOf s lines)
    (hline : IsLine line) (lineEnd : LineEnd) :
    ConsistsOf (line ++ (lineEnd.text ++ s)) (line :: lines) := by
  obtain ⟨ended, last, rfl, hended, hlast, rfl⟩ := h
  refine ⟨(line, lineEnd) :: ended, last, ?_, List.forall_mem_cons.mpr ⟨hline, hended⟩, hlast, rfl⟩
  rw [render, render, List.flatMap_cons, List.append_assoc, List.append_assoc]

theorem consistsOf_linesFrom (line s : List UInt8) (hline : IsLine line) :
    ConsistsOf (line ++ s) (linesFrom line s) := by
  have hnil : IsLine [] := fun c hc => absurd hc List.not_mem_nil
  induction line, s using linesFrom.induct with
  | case1 line =>
    exact ⟨[], line, List.append_nil line, fun _ h => absurd h List.not_mem_nil, hline, rfl⟩
  | case2 line s ih => exact (ih hnil).cons hline .lf
  | case3 line s ih => exact (ih hnil).cons hline .crlf
  | case4 line s hs ih =>
    rw [linesFrom]
    · exact (ih hnil).cons hline .cr
    · exact hs
  | case5 line c s hlf hcrlf hcr ih =>
    have hc : IsLine (line ++ [c]) := fun x hx => by
      obtain hx | hx := List.mem_append.mp hx
      · exact hline x hx
      · rw [List.mem_singleton.mp hx]
        exact ⟨hlf, hcr⟩
    rw [linesFrom_cons hlf hcr, List.append_cons]
    exact ih hc

/-- **Every text has lines and ends.** -/
theorem consistsOf_linesOf (s : List UInt8) : ConsistsOf s (linesOf s) :=
  consistsOf_linesFrom [] s fun _ hc => absurd hc List.not_mem_nil

end Lsf
