import Lsf.Foundations.WordReplacement
import Mathlib.Data.List.TakeWhile
import Mathlib.Tactic.SplitIfs

/-!
# Filtering words

`SubstitueInplace` goes through a sentence from its first byte on. Where one of the words of the
dictionary begins, its bytes are replaced by a substitution character for each of its UTF-8
characters, and the loop goes on behind the first of these.

A string is the list of its bytes. The dictionary is the list of the entries of the multimap in the
order in which they were added, which is the order of the entries of a range.

## Main definitions

* `addWord`, `checkHasWord`, `substitueInplace`, `utf8Length` — the source's functions
* `ProperWord` — what the dictionary's words are like

## Main results

* `substitueWords_cases` — the loop over the words at one position
* `substitueLoop_cleans` — the loop over positions reads the sentence word by word
* `substitueInplace_filters`
-/

namespace Lsf.WordsFilter

/-- `std::multimap<char, std::string>`. -/
abbrev Map := List (UInt8 × List UInt8)

/-- `AddWord`. -/
def addWord (map : Map) (word : List UInt8) : Map :=
  match word with
  | [] => map
  | front :: _ => map ++ [(front, word)]

/-- The words in the range of `equal_range`. -/
def equalRange (map : Map) (c : UInt8) : List (List UInt8) :=
  (map.filter fun entry => entry.1 = c).map Prod.snd

/-- A byte with which a UTF-8 character begins. -/
def isLead (b : UInt8) : Bool := b &&& 0xc0 != 0x80

/-- `Utf8Length`, of the string up to its first NUL. -/
def utf8Length (str : List UInt8) : ℕ := (str.takeWhile (· ≠ 0)).countP isLead

/-- The check whether a word is long enough, and the comparison. -/
def hasWordAt (sentence : List UInt8) (i : ℕ) (word : List UInt8) : Bool :=
  if sentence.length - i < word.length then false
  else (sentence.drop i).take word.length = word

/-- `CheckHasWord`. -/
def checkHasWord (map : Map) (sentence : List UInt8) : Bool :=
  (List.range sentence.length).any fun i =>
    sentence[i]?.any fun c => (equalRange map c).any (hasWordAt sentence i)

/-- The loop over the words of a range, with `sentence` and `find`. -/
def substitueWords (subchar : UInt8) (i : ℕ) :
    List (List UInt8) → List UInt8 → Bool → List UInt8 × Bool
  | [], sentence, find => (sentence, find)
  | word :: words, sentence, find =>
    if hasWordAt sentence i word then
      substitueWords subchar i words
        (sentence.take i ++ List.replicate (utf8Length word) subchar ++
          sentence.drop (i + word.length)) true
    else substitueWords subchar i words sentence find

/-- The loop over the positions. It gives none when the fuel is used up. -/
def substitueLoop (map : Map) (subchar : UInt8) :
    ℕ → ℕ → List UInt8 → Bool → Option (List UInt8 × Bool)
  | 0, _, _, _ => none
  | fuel + 1, i, sentence, find =>
    match sentence[i]? with
    | none => some (sentence, find)
    | some c =>
      let next := substitueWords subchar i (equalRange map c) sentence find
      substitueLoop map subchar fuel (i + 1) next.1 next.2

/-- `SubstitueInplace`: the sentence afterwards and what is returned. -/
def substitueInplace (fuel : ℕ) (map : Map) (sentence : List UInt8) (subchar : UInt8) :
    Option (List UInt8 × Bool) :=
  substitueLoop map subchar fuel 0 sentence false

/-- A word that is not empty, begins with the first byte of a character, and has neither NUL nor the
substitution character in it. -/
structure ProperWord (subchar : UInt8) (word : List UInt8) : Prop where
  lead : ∃ front rest, word = front :: rest ∧ isLead front = true
  nul_notMem : 0 ∉ word
  subchar_notMem : subchar ∉ word

section Filter

variable {words : List (List UInt8)} {map : Map} {subchar c : UInt8}
  {sentence front rest word : List UInt8} {i fuel : ℕ} {find : Bool}

/-! ### The dictionary -/

theorem mem_equalRange : word ∈ equalRange map c ↔ (c, word) ∈ map := by
  simp [equalRange]

theorem mem_addWords {w : List UInt8} (hwords : ∀ w ∈ words, w ≠ []) :
    (c, w) ∈ words.foldl addWord map ↔ (c, w) ∈ map ∨ w ∈ words ∧ w.head? = some c := by
  induction words generalizing map with
  | nil => simp
  | cons word words ih =>
    obtain ⟨hword, hwords⟩ := List.forall_mem_cons.mp hwords
    rw [List.foldl_cons, ih hwords]
    cases word with
    | nil => exact absurd rfl hword
    | cons front rest =>
      rw [addWord, List.mem_append, List.mem_singleton, Prod.mk.injEq, List.mem_cons, or_assoc]
      refine or_congr_right ⟨?_, ?_⟩
      · rintro (⟨rfl, rfl⟩ | h)
        · exact ⟨.inl rfl, rfl⟩
        · exact ⟨.inr h.1, h.2⟩
      · rintro ⟨rfl | h, hhead⟩
        · exact .inl ⟨(Option.some.inj hhead).symm, rfl⟩
        · exact .inr ⟨h, hhead⟩

/-- The words of a range are those that begin with its character. -/
theorem mem_equalRange_addWords (hwords : ∀ w ∈ words, w ≠ []) :
    word ∈ equalRange (words.foldl addWord []) c ↔ word ∈ words ∧ word.head? = some c := by
  rw [mem_equalRange, mem_addWords hwords, or_iff_right List.not_mem_nil]

theorem hasWordAt_iff_drop : hasWordAt sentence i word = true ↔ word <+: sentence.drop i := by
  rw [hasWordAt, ← List.length_drop]
  by_cases hshort : (sentence.drop i).length < word.length
  · rw [if_pos hshort]
    exact iff_of_false Bool.false_ne_true fun h => absurd h.length_le (Nat.not_le.mpr hshort)
  · rw [if_neg hshort, decide_eq_true_iff, List.prefix_iff_eq_take, eq_comm]

theorem hasWordAt_iff : hasWordAt (front ++ rest) front.length word = true ↔ word <+: rest := by
  rw [hasWordAt_iff_drop, List.drop_left]

theorem ProperWord.ne_nil (h : ProperWord subchar word) : word ≠ [] := by
  obtain ⟨front, rest, rfl, -⟩ := h.lead
  exact List.cons_ne_nil _ _

theorem utf8Length_eq {str : List UInt8} (h : 0 ∉ str) : utf8Length str = str.countP isLead := by
  rw [utf8Length, List.takeWhile_eq_self_iff.mpr]
  intro b hb
  have hne : b ≠ 0 := fun heq => h (heq ▸ hb)
  simpa using hne

theorem ProperWord.replaceable (h : ProperWord subchar word) :
    Replaceable subchar utf8Length word := by
  refine ⟨h.ne_nil, ?_, h.subchar_notMem⟩
  rw [utf8Length_eq h.nul_notMem]
  obtain ⟨front, rest, rfl, hlead⟩ := h.lead
  exact List.countP_pos_iff.mpr ⟨front, List.mem_cons_self, hlead⟩

theorem ProperWord.utf8Length_le (h : ProperWord subchar word) :
    utf8Length word ≤ word.length := by
  rw [utf8Length_eq h.nul_notMem]
  exact List.countP_le_length

/-! ### The loops -/

/-- Words that do not begin at the position are passed over. -/
theorem substitueWords_of_forall (hno : ∀ w ∈ words, ¬ w <+: rest) :
    substitueWords subchar front.length words (front ++ rest) find = (front ++ rest, find) := by
  induction words with
  | nil => rfl
  | cons word words ih =>
    obtain ⟨hword, hno⟩ := List.forall_mem_cons.mp hno
    rw [substitueWords, if_neg fun h => hword (hasWordAt_iff.mp h), ih hno]

/-- No proper word begins with the substitution character. -/
theorem ProperWord.not_at_start {k : ℕ} (h : ProperWord subchar word) (hk : 0 < k) :
    ¬ word <+: List.replicate k subchar ++ rest := by
  obtain ⟨k, rfl⟩ : ∃ k', k = k' + 1 := ⟨k - 1, by omega⟩
  obtain ⟨front, rest', rfl, -⟩ := h.lead
  rw [List.replicate_succ, List.cons_append, List.cons_prefix_cons]
  rintro ⟨rfl, -⟩
  exact h.subchar_notMem List.mem_cons_self

/-- **One position**: no word begins there, or the first that does is replaced, and no other begins
with what has replaced it. -/
theorem substitueWords_cases (hwords : ∀ w ∈ words, ProperWord subchar w) (front rest : List UInt8)
    (find : Bool) :
    ((∀ w ∈ words, ¬ w <+: rest) ∧
      substitueWords subchar front.length words (front ++ rest) find = (front ++ rest, find)) ∨
    ∃ w ∈ words, ∃ rest', rest = w ++ rest' ∧
      substitueWords subchar front.length words (front ++ rest) find =
        (front ++ (List.replicate (utf8Length w) subchar ++ rest'), true) := by
  induction words with
  | nil => exact .inl ⟨fun w hw => absurd hw List.not_mem_nil, rfl⟩
  | cons word words ih =>
    obtain ⟨hword, hwords⟩ := List.forall_mem_cons.mp hwords
    rw [substitueWords]
    by_cases hpre : word <+: rest
    · obtain ⟨rest', rfl⟩ := hpre
      refine .inr ⟨word, List.mem_cons_self, rest', rfl, ?_⟩
      have hcut : (front ++ (word ++ rest')).take front.length = front := List.take_left
      have hdrop : (front ++ (word ++ rest')).drop (front.length + word.length) = rest' := by
        rw [← List.append_assoc, ← List.length_append, List.drop_left]
      rw [if_pos (hasWordAt_iff.mpr (List.prefix_append word rest')), hcut, hdrop,
        List.append_assoc,
        substitueWords_of_forall fun w hw => (hwords w hw).not_at_start hword.replaceable.width_pos]
    · rw [if_neg fun h => hpre (hasWordAt_iff.mp h)]
      obtain ⟨hno, heq⟩ | ⟨w, hw, rest', hrest, heq⟩ := ih hwords
      · exact .inl ⟨List.forall_mem_cons.mpr ⟨hpre, hno⟩, heq⟩
      · exact .inr ⟨w, List.mem_cons_of_mem _ hw, rest', hrest, heq⟩

/-- What the loops rely on: the words are proper, and a range has those with its character. -/
structure Dictionary (subchar : UInt8) (words : List (List UInt8)) (map : Map) : Prop where
  proper : ∀ w ∈ words, ProperWord subchar w
  range : ∀ c w, w ∈ equalRange map c ↔ w ∈ words ∧ w.head? = some c

theorem dictionary_addWords (hwords : ∀ w ∈ words, ProperWord subchar w) :
    Dictionary subchar words (words.foldl addWord []) :=
  ⟨hwords, fun _ _ => mem_equalRange_addWords fun w hw => (hwords w hw).ne_nil⟩

/-- The loop goes past substitution characters. -/
theorem substitueLoop_marks (hdict : Dictionary subchar words map) (front rest : List UInt8)
    (find : Bool) (fuel k : ℕ) :
    substitueLoop map subchar (fuel + k) front.length
        (front ++ (List.replicate k subchar ++ rest)) find =
      substitueLoop map subchar fuel (front ++ List.replicate k subchar).length
        (front ++ List.replicate k subchar ++ rest) find := by
  induction k generalizing front with
  | zero => simp
  | succ k ih =>
    have hget : (front ++ (subchar :: (List.replicate k subchar ++ rest)))[front.length]? =
        some subchar := by simp
    have hrange : equalRange map subchar = [] := by
      refine List.eq_nil_iff_forall_not_mem.mpr fun w hw => ?_
      obtain ⟨hw, hhead⟩ := (hdict.range subchar w).mp hw
      exact (hdict.proper w hw).subchar_notMem (List.mem_of_mem_head? hhead)
    have hrest := ih (front ++ [subchar])
    rw [List.length_append, List.length_singleton, List.append_assoc, List.singleton_append,
      List.append_assoc front, List.singleton_append] at hrest
    rw [List.replicate_succ, List.cons_append, ← Nat.add_assoc, substitueLoop, hget]
    simp only [hrange, substitueWords]
    exact hrest

/-- Where a word is replaced the loop goes on behind what has replaced it. -/
theorem substitueLoop_word {c : UInt8} {rest' : List UInt8} {find : Bool}
    (hdict : Dictionary subchar words map) (hw : word ∈ words)
    (heq : substitueWords subchar front.length (equalRange map c) (front ++ c :: rest) find =
      (front ++ (List.replicate (utf8Length word) subchar ++ rest'), true)) (fuel : ℕ) :
    substitueLoop map subchar (fuel + utf8Length word) front.length (front ++ c :: rest) find =
      substitueLoop map subchar fuel
        (front ++ List.replicate (utf8Length word) subchar).length
        (front ++ List.replicate (utf8Length word) subchar ++ rest') true := by
  have hget : (front ++ c :: rest)[front.length]? = some c := by simp
  have hpos := (hdict.proper word hw).replaceable.width_pos
  obtain ⟨k, hk⟩ : ∃ k, utf8Length word = k + 1 := ⟨utf8Length word - 1, by omega⟩
  have hmarks := substitueLoop_marks hdict (front ++ [subchar]) rest' true fuel k
  rw [List.length_append, List.length_singleton] at hmarks
  rw [hk, List.replicate_succ, List.cons_append] at heq
  rw [hk, ← Nat.add_assoc, substitueLoop, hget]
  simp only [heq]
  rw [List.replicate_succ, List.append_cons front subchar (List.replicate k subchar),
    List.append_cons front subchar (List.replicate k subchar ++ rest'), hmarks]

/-- **The loop over the positions** reads what is left of the sentence word by word. -/
theorem substitueLoop_cleans (hdict : Dictionary subchar words map) (front rest : List UInt8)
    (find : Bool) :
    ∃ result found, Cleans words subchar utf8Length rest result found ∧
      ∀ fuel, rest.length < fuel →
        substitueLoop map subchar fuel front.length (front ++ rest) find =
          some (front ++ result, find || found) := by
  obtain ⟨n, hn⟩ : ∃ n, n = rest.length := ⟨_, rfl⟩
  induction n using Nat.strong_induction_on generalizing front rest find with
  | _ n ih =>
    cases rest with
    | nil =>
      refine ⟨[], false, .nil, fun fuel hfuel => ?_⟩
      obtain ⟨fuel, rfl⟩ : ∃ f, fuel = f + 1 := ⟨fuel - 1, by omega⟩
      have hget : (front ++ ([] : List UInt8))[front.length]? = none := by simp
      rw [substitueLoop, hget, Bool.or_false]
    | cons c rest =>
      have hget : (front ++ c :: rest)[front.length]? = some c := by simp
      have hproper : ∀ w ∈ equalRange map c, ProperWord subchar w := fun w hw =>
        hdict.proper w ((hdict.range c w).mp hw).1
      rw [List.length_cons] at hn
      obtain ⟨hno, heq⟩ | ⟨w, hw, rest', hrest, heq⟩ :=
        substitueWords_cases hproper front (c :: rest) find
      · obtain ⟨result, found, hcleans, hloop⟩ :=
          ih rest.length (by omega) (front ++ [c]) rest find rfl
        rw [List.length_append, List.length_singleton, List.append_assoc, List.singleton_append,
          List.append_assoc, List.singleton_append] at hloop
        refine ⟨c :: result, found, .keep (fun w hw hpre => ?_) hcleans, fun fuel hfuel => ?_⟩
        · -- a word that begins here is in the range
          obtain ⟨w', rfl, -⟩ := (List.prefix_cons_iff.mp hpre).resolve_left
            (hdict.proper w hw).ne_nil
          exact hno _ ((hdict.range c _).mpr ⟨hw, rfl⟩) hpre
        · rw [List.length_cons] at hfuel
          obtain ⟨fuel, rfl⟩ : ∃ f, fuel = f + 1 := ⟨fuel - 1, by omega⟩
          rw [substitueLoop, hget]
          simp only [heq]
          exact hloop fuel (by omega)
      · have hw := ((hdict.range c w).mp hw).1
        have hpos := (hdict.proper w hw).replaceable.width_pos
        have hle := (hdict.proper w hw).utf8Length_le
        have hlen := congrArg List.length hrest
        rw [List.length_cons, List.length_append] at hlen
        obtain ⟨result, found, hcleans, hloop⟩ := ih rest'.length (by omega)
          (front ++ List.replicate (utf8Length w) subchar) rest' true rfl
        have hword := substitueLoop_word hdict hw heq
        rw [hrest] at hword ⊢
        refine ⟨_, true, .word hw hcleans, fun fuel hfuel => ?_⟩
        rw [List.length_append] at hfuel
        obtain ⟨fuel, rfl⟩ : ∃ f, fuel = f + utf8Length w := ⟨fuel - utf8Length w, by omega⟩
        rw [hword, hloop fuel (by omega), Bool.or_true, Bool.true_or, List.append_assoc]

/-- `CheckHasWord` looks for the words of the dictionary anywhere in the sentence. -/
theorem checkHasWord_iff (hdict : Dictionary subchar words map) :
    checkHasWord map sentence = true ↔ ∃ w ∈ words, w <:+: sentence := by
  rw [checkHasWord, List.any_eq_true]
  constructor
  · rintro ⟨i, hi, hany⟩
    rw [List.getElem?_eq_getElem (List.mem_range.mp hi), Option.any_some, List.any_eq_true] at hany
    obtain ⟨w, hw, hhas⟩ := hany
    refine ⟨w, ((hdict.range _ w).mp hw).1, ?_⟩
    exact (hasWordAt_iff_drop.mp hhas).isInfix.trans (List.drop_suffix i sentence).isInfix
  · rintro ⟨w, hw, front, rest, rfl⟩
    obtain ⟨c, w, rfl, -⟩ := (hdict.proper w hw).lead
    have hget : (front ++ c :: w ++ rest)[front.length]? = some c := by simp
    refine ⟨front.length, List.mem_range.mpr (by simp), ?_⟩
    rw [hget, Option.any_some, List.any_eq_true]
    refine ⟨c :: w, (hdict.range c _).mpr ⟨hw, rfl⟩, ?_⟩
    rw [List.append_assoc, hasWordAt_iff]
    exact List.prefix_append _ _

theorem isLead_of_ascii (hascii : c < 0x80) : isLead c = true := by
  rw [isLead, bne_iff_ne]
  intro heq
  have hle : (c &&& 0xc0).toNat ≤ c.toNat := by
    rw [UInt8.toNat_and]
    exact Nat.and_le_left
  rw [heq] at hle
  exact absurd (UInt8.lt_iff_toNat_lt.mp hascii) (Nat.not_lt.mpr hle)

/-- **The filter removes all words.** It returns whether there were any, and leaves as many UTF-8
characters as there were. -/
theorem substitueInplace_filters (hwords : ∀ w ∈ words, ProperWord subchar w)
    (hascii : subchar < 0x80) (hnul : subchar ≠ 0) (hsentence : 0 ∉ sentence) :
    ∃ result found,
      (∀ more, substitueInplace (sentence.length + 1 + more) (words.foldl addWord []) sentence
        subchar = some (result, found)) ∧
      found = checkHasWord (words.foldl addWord []) sentence ∧
      (found = false → result = sentence) ∧
      (found = true → checkHasWord (words.foldl addWord []) result = false ∧
        utf8Length result = utf8Length sentence) := by
  have hdict := dictionary_addWords hwords
  have hreplaceable : ∀ w ∈ words, Replaceable subchar utf8Length w := fun w hw =>
    (hwords w hw).replaceable
  obtain ⟨result, found, hcleans, hloop⟩ := substitueLoop_cleans hdict [] sentence false
  rw [Bool.false_or] at hloop
  refine ⟨result, found, fun more => hloop _ (by omega), ?_, hcleans.eq_of_not_found, fun _ => ?_⟩
  · rw [Bool.eq_iff_iff, hcleans.found_iff hreplaceable, checkHasWord_iff hdict]
  · have hno : ¬ checkHasWord (words.foldl addWord []) result = true := by
      rw [checkHasWord_iff hdict]
      rintro ⟨w, hw, hinfix⟩
      exact hcleans.not_infix hreplaceable hw hinfix
    have hresult : 0 ∉ result := fun hmem =>
      hcleans.forall_mem (p := (· ≠ 0)) hnul (fun b hb heq => hsentence (heq ▸ hb)) 0 hmem rfl
    rw [utf8Length_eq hresult, utf8Length_eq hsentence]
    refine ⟨Bool.not_eq_true _ ▸ hno, hcleans.countP_eq (isLead_of_ascii hascii) fun w hw => ?_⟩
    exact utf8Length_eq (hwords w hw).nul_notMem

/-- Of two words that overlap the first is replaced. -/
theorem substitueInplace_filters_overlap :
    let map := [[97, 98], [98, 0xe6, 0x93, 0x8d]].foldl addWord []
    let sentence := [97, 98, 0xe6, 0x93, 0x8d]
    ∃ result found,
      (∀ more, substitueInplace (sentence.length + 1 + more) map sentence 42 =
        some (result, found)) ∧
      found = checkHasWord map sentence ∧ (found = false → result = sentence) ∧
      (found = true →
        checkHasWord map result = false ∧ utf8Length result = utf8Length sentence) := by
  have hwords : ∀ w ∈ [[97, 98], [98, 0xe6, 0x93, 0x8d]], ProperWord 42 w :=
    List.forall_mem_cons.mpr ⟨⟨⟨97, [98], rfl, by decide⟩, by decide, by decide⟩,
      List.forall_mem_singleton.mpr ⟨⟨98, _, rfl, by decide⟩, by decide, by decide⟩⟩
  exact substitueInplace_filters hwords (by decide) (by decide) (by decide)

end Filter

end Lsf.WordsFilter
