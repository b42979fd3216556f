import Lsf.Foundations.Numeral

/-!
# Numbers from text

`TypeCast` turns a text into a number with `std::stoul` and base 0, which reads the base from the
text: `0x` stands before hexadecimal digits, another leading zero before octal ones. The number is
then cut to the width that is wanted, and a text that is no number gives zero. The other way round
`TypeCast` is `std::to_string`.

## Main definitions

* `stoul` — none where the source throws
* `typeCastUInt16` — `TypeCast<uint16_t>`
* `numeralString` — a number in a base
* `typeCastString` — `TypeCast<std::string>` of an unsigned number

## Main results

* `typeCastUInt16_typeCastString` — what is written is read back
-/

namespace Lsf.TypeCast

/-- `isspace`. -/
def isSpace (c : UInt8) : Bool := c == 32 || (9 ≤ c && c ≤ 13)

/-- The value of a digit or a letter. -/
def digitOf (c : UInt8) : Option ℕ :=
  if 48 ≤ c.toNat ∧ c.toNat ≤ 57 then some (c.toNat - 48)
  else if 97 ≤ c.toNat ∧ c.toNat ≤ 122 then some (c.toNat - 87)
  else if 65 ≤ c.toNat ∧ c.toNat ≤ 90 then some (c.toNat - 55)
  else none

/-- The digits of a base that a text begins with. -/
def digitsOf (base : ℕ) : List UInt8 → List ℕ
  | [] => []
  | c :: text =>
    match digitOf c with
    | none => []
    | some d => if d < base then d :: digitsOf base text else []

/-- A sign is skipped, and whether it was a minus is told. -/
def readSign (text : List UInt8) : Bool × List UInt8 :=
  if text.head? = some 45 then (true, text.tail)
  else if text.head? = some 43 then (false, text.tail)
  else (false, text)

/-- Base 0: the base and the text from the first digit on. Without a hexadecimal digit after it `0x`
is the digit zero. -/
def readBase (text : List UInt8) : ℕ × List UInt8 :=
  if text.head? = some 48 then
    if (text[1]? = some 120 ∨ text[1]? = some 88) ∧ digitsOf 16 (text.drop 2) ≠ [] then
      (16, text.drop 2)
    else (8, text)
  else (10, text)

/-- `std::stoul(text, nullptr, 0)`, which throws without a digit and for numbers of more than 64
bits. -/
def stoul (text : List UInt8) : Option UInt64 :=
  let sign := readSign (text.dropWhile isSpace)
  let base := readBase sign.2
  let ds := digitsOf base.1 base.2
  let value := numeralValue base.1 ds
  if ds = [] then none
  else if 2 ^ 64 ≤ value then none
  else some (if sign.1 then -UInt64.ofNat value else UInt64.ofNat value)

/-- `TypeCast` to a number of 16 bits, 0 for a text that is none. -/
def typeCastUInt16 (text : List UInt8) : UInt16 :=
  match stoul text with
  | none => 0
  | some value => value.toUInt16

/-- The character of a digit. -/
def digitChar (d : ℕ) : UInt8 := UInt8.ofNat (if d < 10 then 48 + d else 87 + d)

/-- A number in a base, with small letters for the digits from ten on. -/
def numeralString (base n : ℕ) : List UInt8 := (numeral base n).map digitChar

/-- `TypeCast` of a number to its text. -/
def typeCastString (n : ℕ) : List UInt8 := numeralString 10 n

/-! ### Digits -/

variable {base d n : ℕ} {c : UInt8}

theorem toNat_digitChar (hd : d < 36) :
    (digitChar d).toNat = if d < 10 then 48 + d else 87 + d := by
  rw [digitChar, UInt8.toNat_ofNat', Nat.mod_eq_of_lt]
  split <;> omega

theorem digitOf_digitChar (hd : d < 36) : digitOf (digitChar d) = some d := by
  have hnat := toNat_digitChar hd
  rw [digitOf]
  by_cases hten : d < 10
  · rw [if_pos hten] at hnat
    rw [if_pos (by omega), hnat, Nat.add_sub_cancel_left]
  · rw [if_neg hten] at hnat
    rw [if_neg (by omega), if_pos (by omega), hnat, Nat.add_sub_cancel_left]

theorem digitChar_ne (hd : d < 36) (hc : digitOf c ≠ some d) : digitChar d ≠ c := by
  rintro rfl
  exact hc (digitOf_digitChar hd)

theorem mem_numeralString (hbase : 1 < base) (hc : c ∈ numeralString base n) :
    ∃ d < base, c = digitChar d := by
  obtain ⟨d, hd, rfl⟩ := List.mem_map.mp hc
  exact ⟨d, lt_of_mem_numeral hbase hd, rfl⟩

/-- What is no digit does not occur in a number. -/
theorem notMem_numeralString (hbase : 1 < base) (hle : base ≤ 36) (hc : digitOf c = none) :
    c ∉ numeralString base n := by
  intro hmem
  obtain ⟨d, hd, rfl⟩ := mem_numeralString hbase hmem
  rw [digitOf_digitChar (by omega)] at hc
  cases hc

theorem digitsOf_numeralString (hbase : 1 < base) (hle : base ≤ 36) :
    digitsOf base (numeralString base n) = numeral base n := by
  have hlt : ∀ d ∈ numeral base n, d < base := fun d hd => lt_of_mem_numeral hbase hd
  rw [numeralString]
  generalize numeral base n = ds at hlt
  induction ds with
  | nil => rfl
  | cons d ds ih =>
    obtain ⟨hd, hlt⟩ := List.forall_mem_cons.mp hlt
    simp only [List.map_cons, digitsOf, digitOf_digitChar (Nat.lt_of_lt_of_le hd hle), if_pos hd,
      ih hlt]

theorem numeralValue_digitsOf (hbase : 1 < base) (hle : base ≤ 36) :
    numeralValue base (digitsOf base (numeralString base n)) = n := by
  rw [digitsOf_numeralString hbase hle, numeralValue_numeral]

/-! ### Reading what was written -/

/-- A number that is not zero begins with another digit. -/
theorem exists_typeCastString_eq_cons (hn : n ≠ 0) :
    ∃ d text, 0 < d ∧ d < 10 ∧ typeCastString n = digitChar d :: text := by
  obtain ⟨d, ds, hds⟩ := List.exists_cons_of_ne_nil (numeral_ne_nil 10 n)
  have hhead := head?_numeral (b := 10) hn
  rw [hds, List.head?_cons, ne_eq, Option.some_inj] at hhead
  have hlt : d < 10 := lt_of_mem_numeral (by decide) (hds ▸ List.mem_cons_self)
  refine ⟨d, ds.map digitChar, Nat.pos_of_ne_zero hhead, hlt, ?_⟩
  rw [typeCastString, numeralString, hds, List.map_cons]

theorem isSpace_digitChar (hd : d < 10) : isSpace (digitChar d) = false := by
  have hnat := toNat_digitChar (d := d) (by omega)
  rw [if_pos hd] at hnat
  simp only [isSpace, Bool.or_eq_false_iff, Bool.and_eq_false_iff, beq_eq_false_iff_ne, ne_eq,
    decide_eq_false_iff_not, UInt8.le_iff_toNat_le, ← UInt8.toNat_inj, hnat]
  refine ⟨?_, .inr ?_⟩
  · change ¬48 + d = 32
    omega
  · change ¬48 + d ≤ 13
    omega

/-- Before a number that is not zero there are no spaces, no sign and no base. -/
theorem readBase_typeCastString (hn : n ≠ 0) :
    readBase (readSign ((typeCastString n).dropWhile isSpace)).2 = (10, typeCastString n) ∧
      (readSign ((typeCastString n).dropWhile isSpace)).1 = false := by
  obtain ⟨d, text, hpos, hd, htext⟩ := exists_typeCastString_eq_cons hn
  have hspace : (typeCastString n).dropWhile isSpace = typeCastString n := by
    rw [htext, List.dropWhile_cons_of_neg (by rw [isSpace_digitChar hd]; decide)]
  have hne : ∀ c : UInt8, digitOf c ≠ some d → (typeCastString n).head? ≠ some c := by
    intro c hc h
    rw [htext, List.head?_cons] at h
    exact digitChar_ne (by omega) hc (Option.some.inj h)
  have hminus : digitOf 45 ≠ some d := (Option.some_ne_none d).symm
  have hplus : digitOf 43 ≠ some d := (Option.some_ne_none d).symm
  have hzero : digitOf 48 ≠ some d := fun h => Nat.ne_of_lt hpos (Option.some.inj h)
  rw [hspace, readSign, if_neg (hne 45 hminus), if_neg (hne 43 hplus)]
  exact ⟨if_neg (hne 48 hzero), rfl⟩

theorem stoul_typeCastString (hn : n < 2 ^ 64) :
    stoul (typeCastString n) = some (UInt64.ofNat n) := by
  by_cases hzero : n = 0
  · subst hzero
    rfl
  · obtain ⟨hbase, hsign⟩ := readBase_typeCastString hzero
    have hdigits : digitsOf 10 (typeCastString n) = numeral 10 n :=
      digitsOf_numeralString (by decide) (by decide)
    simp only [stoul, hbase, hsign, hdigits, numeralValue_numeral]
    rw [if_neg (numeral_ne_nil 10 n), if_neg (Nat.not_le.mpr hn)]
    rfl

/-- **What is written is read back.** -/
theorem typeCastUInt16_typeCastString (x : UInt16) :
    typeCastUInt16 (typeCastString x.toNat) = x := by
  have hlt := x.toNat_lt
  have hstoul := stoul_typeCastString (n := x.toNat) (by omega)
  simp only [typeCastUInt16, hstoul]
  apply UInt16.toNat.inj
  rw [UInt64.toNat_toUInt16, UInt64.toNat_ofNat']
  omega

end Lsf.TypeCast
