import Lsf.Foundations.ByteBuffer
import Mathlib.Data.List.GetD
import Mathlib.Data.List.Induction
import Mathlib.Data.Nat.Notation

/-!
# Bytes as hexadecimal digits

`BinToHexString` writes two digits from a table for each byte. `HexStringToBin` fills a string with
spaces and goes over it: one switch writes the high half of a byte and another adds the low half to
it. A character that is no digit changes nothing.

## Main definitions

* `binToHexString`, `hexStringToBin` — the source's functions
* `isHexDigit`, `lowerCase` — digits in either case, and in lower case

## Main results

* `hexStringToBin_cons_cons` — two characters give one byte
* `hexString_roundTrip`
-/

namespace Lsf.StringExt

/-- `CHAR_TABLE`. -/
def charTable : List UInt8 :=
  [48, 49, 50, 51, 52, 53, 54, 55, 56, 57, 97, 98, 99, 100, 101, 102]

/-- The digit of a half of a byte, which is an index of the table. -/
def hexChar (half : UInt8) : UInt8 :=
  charTable.getD half.toNat 0

/-- One turn of the loop of `BinToHexString`. -/
def pushDigits (tmp : List UInt8) (b : UInt8) : List UInt8 :=
  tmp ++ [hexChar (b >>> 4 &&& 0xf)] ++ [hexChar (b &&& 0xf)]

/-- `BinToHexString`. -/
def binToHexString (input : List UInt8) : List UInt8 :=
  input.foldl pushDigits []

/-- The value of a digit, in either case. Both switches have these cases. -/
def digitValue : UInt8 → Option UInt8
  | 48 => some 0x0
  | 49 => some 0x1
  | 50 => some 0x2
  | 51 => some 0x3
  | 52 => some 0x4
  | 53 => some 0x5
  | 54 => some 0x6
  | 55 => some 0x7
  | 56 => some 0x8
  | 57 => some 0x9
  | 97 => some 0xa
  | 98 => some 0xb
  | 99 => some 0xc
  | 100 => some 0xd
  | 101 => some 0xe
  | 102 => some 0xf
  | 65 => some 0xa
  | 66 => some 0xb
  | 67 => some 0xc
  | 68 => some 0xd
  | 69 => some 0xe
  | 70 => some 0xf
  | _ => none

/-- The first switch. -/
def setHigh (old c : UInt8) : UInt8 :=
  match digitValue c with
  | some v => v <<< 4 &&& 0xf0
  | none => old

/-- The second switch. -/
def addLow (old c : UInt8) : UInt8 :=
  match digitValue c with
  | some v => old + v
  | none => old

/-- What the switches make of a byte of `tmp`. -/
def setByte (old high low : UInt8) : UInt8 :=
  addLow (setHigh old high) low

/-- `HexStringToBin`. -/
def hexStringToBin (input : List UInt8) : List UInt8 :=
  (List.range (input.length / 2)).foldl
    (fun tmp off =>
      tmp.set off (setByte (tmp.getD off 0) (input.getD (off * 2) 0) (input.getD (off * 2 + 1) 0)))
    (List.replicate (input.length / 2) 32)

/-- A hexadecimal digit, in either case. -/
def isHexDigit (c : UInt8) : Bool :=
  (48 ≤ c && c ≤ 57) || (65 ≤ c && c ≤ 70) || (97 ≤ c && c ≤ 102)

/-- `tolower` of an ASCII character. -/
def lowerCase (c : UInt8) : UInt8 :=
  if 65 ≤ c ∧ c ≤ 90 then c + 32 else c

/-! ### One byte -/

theorem setByte_hexChar (b : UInt8) :
    setByte 32 (hexChar (b >>> 4 &&& 0xf)) (hexChar (b &&& 0xf)) = b := by
  revert b
  exact forall_byte (by decide +kernel)

theorem digitValue_ne_none {c : UInt8} (h : isHexDigit c = true) : digitValue c ≠ none := by
  have hall : ∀ c : UInt8, isHexDigit c = true → digitValue c ≠ none :=
    forall_byte (by decide +kernel)
  exact hall c h

/-- A digit and its value. -/
theorem digit_of_digitValue {c v : UInt8} (h : digitValue c = some v) :
    v < 16 ∧ hexChar v = lowerCase c := by
  have hall : ∀ c : UInt8,
      (digitValue c).all (fun v => decide (v < 16 ∧ hexChar v = lowerCase c)) = true :=
    forall_byte (by decide +kernel)
  have hv := hall c
  rw [h] at hv
  exact of_decide_eq_true hv

/-- The halves of a byte are what the switches put there. -/
theorem halves {v w : UInt8} (hv : v < 16) (hw : w < 16) :
    ((v <<< 4 &&& 0xf0) + w) >>> 4 &&& 0xf = v ∧ ((v <<< 4 &&& 0xf0) + w) &&& 0xf = w :=
  forall_bytes_lt (p := fun v w => ((v <<< 4 &&& 0xf0) + w) >>> 4 &&& 0xf = v ∧
    ((v <<< 4 &&& 0xf0) + w) &&& 0xf = w) (by decide +kernel) hv hw

/-- Two digits are found again in their byte. -/
theorem hexChar_setByte (old : UInt8) {high low : UInt8} (hhigh : isHexDigit high = true)
    (hlow : isHexDigit low = true) :
    hexChar (setByte old high low >>> 4 &&& 0xf) = lowerCase high ∧
      hexChar (setByte old high low &&& 0xf) = lowerCase low := by
  obtain ⟨v, hv⟩ := Option.ne_none_iff_exists'.mp (digitValue_ne_none hhigh)
  obtain ⟨w, hw⟩ := Option.ne_none_iff_exists'.mp (digitValue_ne_none hlow)
  obtain ⟨hv16, hvchar⟩ := digit_of_digitValue hv
  obtain ⟨hw16, hwchar⟩ := digit_of_digitValue hw
  obtain ⟨hhalf, hhalf'⟩ := halves hv16 hw16
  have hbyte : setByte old high low = (v <<< 4 &&& 0xf0) + w := by
    rw [setByte, setHigh, hv, addLow, hw]
  rw [hbyte, hhalf, hhalf', hvchar, hwchar]
  exact ⟨rfl, rfl⟩

/-! ### A string -/

theorem foldl_pushDigits (input tmp : List UInt8) :
    input.foldl pushDigits tmp = tmp ++ binToHexString input := by
  induction input generalizing tmp with
  | nil => exact (List.append_nil tmp).symm
  | cons b input ih =>
    rw [binToHexString, List.foldl_cons, List.foldl_cons, ih, ih (pushDigits [] b), pushDigits,
      pushDigits, List.nil_append, List.append_assoc, List.append_assoc, List.append_assoc]

theorem binToHexString_cons (b : UInt8) (input : List UInt8) :
    binToHexString (b :: input) =
      hexChar (b >>> 4 &&& 0xf) :: hexChar (b &&& 0xf) :: binToHexString input := by
  rw [binToHexString, List.foldl_cons, foldl_pushDigits]
  rfl

/-- Each turn of a loop sets one element, which no other turn reads. -/
theorem foldl_set_range (f : ℕ → UInt8 → UInt8) (n : ℕ) (tmp : List UInt8)
    (hlen : n ≤ tmp.length) :
    (List.range n).foldl (fun tmp off => tmp.set off (f off (tmp.getD off 0))) tmp =
      ((List.range n).map fun off => f off (tmp.getD off 0)) ++ tmp.drop n := by
  induction n with
  | zero => rfl
  | succ n ih =>
    have hmap : ((List.range n).map fun off => f off (tmp.getD off 0)).length = n := by
      rw [List.length_map, List.length_range]
    have hdrop : tmp.drop n = tmp.getD n 0 :: tmp.drop (n + 1) := by
      rw [List.drop_eq_getElem_cons hlen, List.getD_eq_getElem _ _ hlen]
    rw [List.range_succ, List.foldl_append, ih (Nat.le_of_succ_le hlen), List.map_append, hdrop]
    generalize (List.range n).map (fun off => f off (tmp.getD off 0)) = front at hmap
    subst hmap
    simp

/-- **Two characters give one byte.** -/
theorem hexStringToBin_cons_cons (high low : UInt8) (input : List UInt8) :
    hexStringToBin (high :: low :: input) = setByte 32 high low :: hexStringToBin input := by
  have heq : ∀ input : List UInt8, hexStringToBin input =
      (List.range (input.length / 2)).map fun off =>
        setByte 32 (input.getD (off * 2) 0) (input.getD (off * 2 + 1) 0) := by
    intro input
    rw [hexStringToBin,
      foldl_set_range (fun off old =>
        setByte old (input.getD (off * 2) 0) (input.getD (off * 2 + 1) 0)) _ _
        (List.length_replicate ▸ Nat.le_refl _),
      List.drop_of_length_le (List.length_replicate ▸ Nat.le_refl _), List.append_nil]
    refine List.map_congr_left fun off hoff => ?_
    rw [List.getD_replicate _ (List.mem_range.mp hoff)]
  have hlen : (high :: low :: input).length / 2 = input.length / 2 + 1 := by
    rw [List.length_cons, List.length_cons]
    omega
  rw [heq, heq, hlen, List.range_succ_eq_map, List.map_cons, List.map_map]
  refine congrArg _ (List.map_congr_left fun off _ => ?_)
  rw [Function.comp_apply, Nat.succ_mul]
  rfl

/-- **Writing bytes as digits and reading them back**, and reading digits and writing them back in
lower case. -/
theorem hexString_roundTrip (b : List UInt8) :
    hexStringToBin (binToHexString b) = b ∧
      ∀ h : List UInt8, h.length % 2 = 0 → (∀ c ∈ h, isHexDigit c = true) →
        binToHexString (hexStringToBin h) = h.map lowerCase := by
  constructor
  · induction b with
    | nil => rfl
    | cons b input ih =>
      rw [binToHexString_cons, hexStringToBin_cons_cons, setByte_hexChar, ih]
  · intro h
    induction h using List.twoStepInduction with
    | nil => exact fun _ _ => rfl
    | singleton c => exact fun heven => absurd heven Nat.one_ne_zero
    | cons_cons high low h ih =>
      intro heven hdigits
      obtain ⟨hhigh, hdigits⟩ := List.forall_mem_cons.mp hdigits
      obtain ⟨hlow, hdigits⟩ := List.forall_mem_cons.mp hdigits
      obtain ⟨hhigh', hlow'⟩ := hexChar_setByte 32 hhigh hlow
      have heven' : h.length % 2 = 0 := by
        rw [List.length_cons, List.length_cons] at heven
        omega
      rw [hexStringToBin_cons_cons, binToHexString_cons, ih heven' hdigits, hhigh', hlow',
        List.map_cons, List.map_cons]

/-- The byte 175, and `"aF"`. -/
theorem hexString_roundTrip_mixed :
    hexStringToBin (binToHexString [175]) = [175] ∧
      binToHexString (hexStringToBin [97, 70]) = [97, 102] :=
  ⟨(hexString_roundTrip [175]).1,
    (hexString_roundTrip [175]).2 [97, 70] rfl (List.all_eq_true.mp rfl)⟩

end Lsf.StringExt
