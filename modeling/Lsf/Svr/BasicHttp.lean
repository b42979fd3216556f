import Lsf.Foundations.ByteBuffer
import Mathlib.Data.Int.Notation

/-!
# Base64

`Base64Encode` and `Base64Decode` have the vendored library write into a new buffer, and take a
string from it whose length they compute from the length of what they were given. For decoding that
is three bytes for every four characters, also where some of the characters are padding: then the
string has more bytes than were decoded, the NUL behind them and what the memory held.

The lengths are handed to the library as an `int`. What a new buffer holds is a parameter.

## Main definitions

* `csBase64Encode`, `csBase64Decode` — the library's functions, with what they write
* `base64Encode`, `base64Decode` — the source's functions
* `encoded` — base64 with padding

## Main results

* `encodeLoop_wrote`, `decodeLoop_wrote` — what the loops write
* `base64_roundTrip_iff`
-/

namespace Lsf.BasicHttp

/-- A `size_t` that is handed over as an `int` of 32 bits. -/
def toInt (n : ℕ) : ℤ :=
  if n % 4294967296 < 2147483648 then (n % 4294967296 : ℕ) else (n % 4294967296 : ℕ) - 4294967296

/-- The largest `int`. -/
def intMax : ℕ := 2147483647

/-- `b64`. -/
def b64 : List UInt8 :=
  [65, 66, 67, 68, 69, 70, 71, 72, 73, 74, 75, 76, 77, 78, 79, 80, 81, 82, 83, 84, 85, 86, 87, 88,
    89, 90, 97, 98, 99, 100, 101, 102, 103, 104, 105, 106, 107, 108, 109, 110, 111, 112, 113, 114,
    115, 116, 117, 118, 119, 120, 121, 122, 48, 49, 50, 51, 52, 53, 54, 55, 56, 57, 43, 47]

/-- The character of an index of the table. -/
def codeChar (v : UInt8) : UInt8 :=
  b64.getD v.toNat 0

/-- One turn of the loop of `cs_base64_encode`, at `i`. -/
def encodeTurn (src : List UInt8) (srcLen : ℤ) (i : ℕ) (out : ℕ × List UInt8) :
    ℕ × List UInt8 :=
  let a := src.getD i 0
  let b := if srcLen ≤ i + 1 then 0 else src.getD (i + 1) 0
  let c := if srcLen ≤ i + 2 then 0 else src.getD (i + 2) 0
  let out := putNext out (codeChar (a >>> 2))
  let out := putNext out (codeChar ((a &&& 3) <<< 4 ||| b >>> 4))
  let out := if i + 1 < srcLen then putNext out (codeChar ((b &&& 15) <<< 2 ||| c >>> 6)) else out
  if i + 2 < srcLen then putNext out (codeChar (c &&& 63)) else out

/-- So many turns from `i` on. -/
def encodeLoop (src : List UInt8) (srcLen : ℤ) : ℕ → ℕ → ℕ × List UInt8 → ℕ × List UInt8
  | 0, _, out => out
  | turns + 1, i, out => encodeLoop src srcLen turns (i + 3) (encodeTurn src srcLen i out)

/-- `while (j % 4 != 0)`, which makes three turns at most. -/
def padLoop : ℕ → ℕ × List UInt8 → ℕ × List UInt8
  | 0, out => out
  | turns + 1, out => if out.1 % 4 ≠ 0 then padLoop turns (putNext out 61) else out

/-- `cs_base64_encode`, with what is in `dst` afterwards. -/
def csBase64Encode (src : List UInt8) (srcLen : ℤ) (dst : List UInt8) : List UInt8 :=
  let out := encodeLoop src srcLen ((srcLen.toNat + 2) / 3) 0 (0, dst)
  (putNext (padLoop 3 out) 0).2

/-- `tab`. -/
def tab : List UInt8 :=
  List.replicate 43 255 ++ [62, 255, 255, 255, 63, 52, 53, 54, 55, 56, 57, 58, 59, 60, 61, 255, 255,
    255, 200, 255, 255, 255, 0, 1, 2, 3, 4, 5, 6, 7, 8, 9, 10, 11, 12, 13, 14, 15, 16, 17, 18, 19,
    20, 21, 22, 23, 24, 25, 255, 255, 255, 255, 255, 255, 26, 27, 28, 29, 30, 31, 32, 33, 34, 35,
    36, 37, 38, 39, 40, 41, 42, 43, 44, 45, 46, 47, 48, 49, 50, 51, 255, 255, 255, 255, 255]

/-- `from_b64`. -/
def fromB64 (ch : UInt8) : UInt8 :=
  tab.getD (ch &&& 127).toNat 0

/-- The loop of `cs_base64_decode`, for so many quadruples of what is left of `s`. -/
def decodeLoop : ℕ → List UInt8 → ℕ × List UInt8 → ℕ × List UInt8
  | 0, _, out => out
  | quads + 1, s, out =>
    let a := fromB64 (s.getD 0 0)
    let b := fromB64 (s.getD 1 0)
    let c := fromB64 (s.getD 2 0)
    let d := fromB64 (s.getD 3 0)
    if a = 255 ∨ b = 255 ∨ c = 255 ∨ d = 255 then out
    else if a = 200 ∨ b = 200 then out
    else
      let out := putNext out (a <<< 2 ||| b >>> 4)
      if c = 200 then out
      else
        let out := putNext out (b <<< 4 ||| c >>> 2)
        if d = 200 then out else decodeLoop quads (s.drop 4) (putNext out (c <<< 6 ||| d))

/-- `cs_base64_decode`, with what is in `dst` afterwards. -/
def csBase64Decode (s : List UInt8) (len : ℤ) (dst : List UInt8) : List UInt8 :=
  (putNext (decodeLoop (len.toNat / 4) s (0, dst)) 0).2

/-- `new char[size]`, where `heap` is what the memory holds. -/
def newBuffer (heap : ℕ → UInt8) (size : ℕ) : List UInt8 :=
  (List.range size).map heap

/-- `Base64Decode`. -/
def base64Decode (heap : ℕ → UInt8) (instr : List UInt8) : List UInt8 :=
  let length := instr.length / 4 * 3
  let buffer := newBuffer heap (length + 1)
  (csBase64Decode instr (toInt instr.length) buffer).take length

/-- `Base64Encode`. -/
def base64Encode (heap : ℕ → UInt8) (instr : List UInt8) : List UInt8 :=
  let length := (instr.length + 2) / 3 * 4
  let buffer := newBuffer heap (length + 1)
  (csBase64Encode instr (toInt instr.length) buffer).take length

/-- Base64 with padding. -/
def encoded : List UInt8 → List UInt8
  | [] => []
  | [a] => [codeChar (a >>> 2), codeChar ((a &&& 3) <<< 4), 61, 61]
  | [a, b] =>
    [codeChar (a >>> 2), codeChar ((a &&& 3) <<< 4 ||| b >>> 4), codeChar ((b &&& 15) <<< 2), 61]
  | a :: b :: c :: rest =>
    codeChar (a >>> 2) :: codeChar ((a &&& 3) <<< 4 ||| b >>> 4) ::
      codeChar ((b &&& 15) <<< 2 ||| c >>> 6) :: codeChar (c &&& 63) :: encoded rest

theorem length_encoded (s : List UInt8) : (encoded s).length = (s.length + 2) / 3 * 4 := by
  induction s using encoded.induct with
  | case1 => rfl
  | case2 a => simp only [encoded, List.length_cons, List.length_nil]
  | case3 a b => simp only [encoded, List.length_cons, List.length_nil]
  | case4 a b c rest ih =>
    simp only [encoded, List.length_cons, ih]
    omega

/-! ### Encoding -/

section Turn

variable (front rest : List UInt8) (a b c : UInt8) (out : ℕ × List UInt8)

theorem encodeTurn_three :
    encodeTurn (front ++ a :: b :: c :: rest) (front ++ a :: b :: c :: rest).length front.length
        out =
      [codeChar (a >>> 2), codeChar ((a &&& 3) <<< 4 ||| b >>> 4),
        codeChar ((b &&& 15) <<< 2 ||| c >>> 6), codeChar (c &&& 63)].foldl putNext out := by
  have hlen : ((front ++ a :: b :: c :: rest).length : ℤ) = front.length + 3 + rest.length := by
    simp only [List.length_append, List.length_cons]
    omega
  have hone : (front.length : ℤ) + 1 < front.length + 3 + rest.length := by omega
  have htwo : (front.length : ℤ) + 2 < front.length + 3 + rest.length := by omega
  simp only [encodeTurn, hlen, if_pos hone, if_pos htwo, if_neg (Int.not_le.mpr hone),
    if_neg (Int.not_le.mpr htwo)]
  simp

theorem encodeTurn_two :
    encodeTurn (front ++ [a, b]) (front ++ [a, b]).length front.length out =
      [codeChar (a >>> 2), codeChar ((a &&& 3) <<< 4 ||| b >>> 4),
        codeChar ((b &&& 15) <<< 2)].foldl putNext out := by
  have hlen : ((front ++ [a, b]).length : ℤ) = front.length + 2 := by
    simp only [List.length_append, List.length_cons, List.length_nil]
    omega
  have hone : (front.length : ℤ) + 1 < front.length + 2 := by omega
  simp only [encodeTurn, hlen, if_pos hone, if_neg (Int.not_le.mpr hone),
    if_pos (Int.le_refl _), if_neg (Int.lt_irrefl _)]
  simp

theorem encodeTurn_one :
    encodeTurn (front ++ [a]) (front ++ [a]).length front.length out =
      [codeChar (a >>> 2), codeChar ((a &&& 3) <<< 4)].foldl putNext out := by
  have hlen : ((front ++ [a]).length : ℤ) = front.length + 1 := by
    simp only [List.length_append, List.length_singleton]
    omega
  have htwo : (front.length : ℤ) + 1 ≤ front.length + 2 := by omega
  simp only [encodeTurn, hlen, if_pos htwo, if_neg (Int.not_lt.mpr htwo),
    if_pos (Int.le_refl _), if_neg (Int.lt_irrefl _)]
  simp

end Turn

theorem padLoop_of_full (turns : ℕ) {out : ℕ × List UInt8} (hfull : out.1 % 4 = 0) :
    padLoop turns out = out := by
  cases turns with
  | zero => rfl
  | succ turns => exact if_neg fun h => h hfull

theorem padLoop_of_not_full {turns : ℕ} {out : ℕ × List UInt8} (hfull : out.1 % 4 ≠ 0) :
    padLoop (turns + 1) out = padLoop turns (putNext out 61) :=
  if_pos hfull

/-- **The loop and the padding write the text**, if there is room for it. -/
theorem encodeLoop_wrote (src front rest : List UInt8) (hsrc : src = front ++ rest) {size : ℕ}
    {written : List UInt8} {out : ℕ × List UInt8} (h : Wrote size written out)
    (hfull : written.length % 4 = 0) (hroom : written.length + (encoded rest).length ≤ size) :
    Wrote size (written ++ encoded rest)
      (padLoop 3 (encodeLoop src src.length ((rest.length + 2) / 3) front.length out)) := by
  induction rest using encoded.induct generalizing front written out with
  | case1 =>
    rw [encoded, List.append_nil]
    exact (padLoop_of_full 3 (h.position ▸ hfull)).symm ▸ h
  | case2 a =>
    have hpos : out.1 % 4 = 0 := h.position ▸ hfull
    rw [List.length_singleton, encodeLoop, encodeLoop, hsrc, encodeTurn_one,
      padLoop_of_not_full (show (out.1 + 1 + 1) % 4 ≠ 0 by omega),
      padLoop_of_not_full (show (out.1 + 1 + 1 + 1) % 4 ≠ 0 by omega),
      padLoop_of_full _ (show (out.1 + 1 + 1 + 1 + 1) % 4 = 0 by omega)]
    exact h.foldl_putNext [codeChar (a >>> 2), codeChar ((a &&& 3) <<< 4), 61, 61] hroom
  | case3 a b =>
    have hpos : out.1 % 4 = 0 := h.position ▸ hfull
    rw [List.length_cons, List.length_singleton, encodeLoop, encodeLoop, hsrc, encodeTurn_two,
      padLoop_of_not_full (show (out.1 + 1 + 1 + 1) % 4 ≠ 0 by omega),
      padLoop_of_full _ (show (out.1 + 1 + 1 + 1 + 1) % 4 = 0 by omega)]
    exact h.foldl_putNext [codeChar (a >>> 2), codeChar ((a &&& 3) <<< 4 ||| b >>> 4),
      codeChar ((b &&& 15) <<< 2), 61] hroom
  | case4 a b c rest ih =>
    have hturns : ((a :: b :: c :: rest).length + 2) / 3 = (rest.length + 2) / 3 + 1 := by
      simp only [List.length_cons]
      omega
    have hout := h.foldl_putNext [codeChar (a >>> 2), codeChar ((a &&& 3) <<< 4 ||| b >>> 4),
        codeChar ((b &&& 15) <<< 2 ||| c >>> 6), codeChar (c &&& 63)] (by
          simp only [encoded, List.length_cons, List.length_nil] at hroom ⊢; omega)
    have hnext := ih (front ++ [a, b, c]) (by rw [hsrc, List.append_assoc]; rfl) hout
      (by rw [List.length_append]; simp only [List.length_cons, List.length_nil]; omega)
      (by simp only [encoded, List.length_append, List.length_cons, List.length_nil] at hroom ⊢
          omega)
    rw [hturns, encodeLoop, hsrc, encodeTurn_three, ← hsrc]
    rw [List.append_assoc, List.length_append] at hnext
    exact hnext

/-! ### Decoding -/

/-- An index of the table is found again. -/
theorem fromB64_codeChar {v : UInt8} (hv : v.toNat < 64) : fromB64 (codeChar v) = v :=
  forall_byte_lt (p := fun v => fromB64 (codeChar v) = v) (by decide +kernel) v hv

section Bits

variable (a b c : UInt8)

theorem high_lt (shift : UInt8) {size : ℕ} (h : 256 ≤ size <<< (shift.toNat % 8)) :
    (a >>> shift).toNat < size := by
  rw [Nat.shiftLeft_eq, Nat.mul_comm] at h
  rw [UInt8.toNat_shiftRight, Nat.shiftRight_eq_div_pow]
  exact Nat.div_lt_of_lt_mul (Nat.lt_of_lt_of_le a.toNat_lt h)

theorem low_lt (mask : UInt8) : (a &&& mask).toNat < mask.toNat + 1 := by
  rw [UInt8.toNat_and]
  exact Nat.lt_succ_of_le Nat.and_le_right

theorem index_one : (a >>> 2).toNat < 64 :=
  high_lt a 2 (by decide)

theorem index_four : (c &&& 63).toNat < 64 :=
  low_lt c 63

theorem low_two : (a &&& 3).toNat < 4 :=
  low_lt a 3

theorem low_four : (b &&& 15).toNat < 16 :=
  low_lt b 15

theorem high_four : (b >>> 4).toNat < 16 :=
  high_lt b 4 (by decide)

theorem high_two : (c >>> 6).toNat < 4 :=
  high_lt c 6 (by decide)

/-- Two bits and four bits make an index, and are found again in it. -/
theorem index_two {m n : UInt8} (hm : m.toNat < 4) (hn : n.toNat < 16) :
    (m <<< 4 ||| n).toNat < 64 ∧ (m <<< 4 ||| n) >>> 4 = m ∧ (m <<< 4 ||| n) <<< 4 = n <<< 4 :=
  forall_bytes_lt (p := fun m n => (m <<< 4 ||| n).toNat < 64 ∧ (m <<< 4 ||| n) >>> 4 = m ∧
    (m <<< 4 ||| n) <<< 4 = n <<< 4) (by decide +kernel) hm hn

/-- Four bits and two bits make an index, and are found again in it. -/
theorem index_three {m n : UInt8} (hm : m.toNat < 16) (hn : n.toNat < 4) :
    (m <<< 2 ||| n).toNat < 64 ∧ (m <<< 2 ||| n) >>> 2 = m ∧ (m <<< 2 ||| n) <<< 6 = n <<< 6 :=
  forall_bytes_lt (p := fun m n => (m <<< 2 ||| n).toNat < 64 ∧ (m <<< 2 ||| n) >>> 2 = m ∧
    (m <<< 2 ||| n) <<< 6 = n <<< 6) (by decide +kernel) hm hn

theorem byte_one : (a >>> 2) <<< 2 ||| ((a &&& 3) <<< 4 ||| b >>> 4) >>> 4 = a := by
  rw [(index_two (low_two a) (high_four b)).2.1]
  exact forall_byte (p := fun a => (a >>> 2) <<< 2 ||| (a &&& 3) = a) (by decide +kernel) a

theorem byte_two : ((a &&& 3) <<< 4 ||| b >>> 4) <<< 4 ||| ((b &&& 15) <<< 2 ||| c >>> 6) >>> 2 =
    b := by
  rw [(index_two (low_two a) (high_four b)).2.2, (index_three (low_four b) (high_two c)).2.1]
  exact forall_byte (p := fun b => (b >>> 4) <<< 4 ||| (b &&& 15) = b) (by decide +kernel) b

theorem byte_three : ((b &&& 15) <<< 2 ||| c >>> 6) <<< 6 ||| (c &&& 63) = c := by
  rw [(index_three (low_four b) (high_two c)).2.2]
  exact forall_byte (p := fun c => (c >>> 6) <<< 6 ||| (c &&& 63) = c) (by decide +kernel) c

end Bits

/-- Four characters of the table are decoded to three bytes. -/
theorem decodeLoop_quad {v w x y : UInt8} (hv : v.toNat < 64) (hw : w.toNat < 64)
    (hx : x.toNat < 64) (hy : y.toNat < 64) (quads : ℕ) (s : List UInt8) (out : ℕ × List UInt8) :
    decodeLoop (quads + 1) (codeChar v :: codeChar w :: codeChar x :: codeChar y :: s) out =
      decodeLoop quads s
        ([v <<< 2 ||| w >>> 4, w <<< 4 ||| x >>> 2, x <<< 6 ||| y].foldl putNext out) := by
  have hne : ∀ u : UInt8, u.toNat < 64 → u ≠ 255 ∧ u ≠ 200 := fun u hu => by
    constructor <;> rintro rfl <;> exact absurd hu (by decide)
  have hinvalid : ¬ (v = 255 ∨ w = 255 ∨ x = 255 ∨ y = 255) := by
    rintro (h | h | h | h)
    · exact (hne v hv).1 h
    · exact (hne w hw).1 h
    · exact (hne x hx).1 h
    · exact (hne y hy).1 h
  have hpad : ¬ (v = 200 ∨ w = 200) := by
    rintro (h | h)
    · exact (hne v hv).2 h
    · exact (hne w hw).2 h
  simp only [decodeLoop, List.getD_cons_zero, List.getD_cons_succ, fromB64_codeChar hv,
    fromB64_codeChar hw, fromB64_codeChar hx, fromB64_codeChar hy, if_neg hinvalid, if_neg hpad,
    if_neg (hne x hx).2, if_neg (hne y hy).2, List.drop_succ_cons, List.drop_zero,
    List.foldl_cons, List.foldl_nil]

/-- **The loop reads the text back**, where there is no padding. -/
theorem decodeLoop_wrote (s : List UInt8) (hthree : s.length % 3 = 0) {size : ℕ}
    {written : List UInt8} {out : ℕ × List UInt8} (h : Wrote size written out)
    (hroom : written.length + s.length ≤ size) :
    Wrote size (written ++ s) (decodeLoop (s.length / 3) (encoded s) out) := by
  induction s using encoded.induct generalizing written out with
  | case1 => rwa [List.append_nil]
  | case2 a => exact absurd hthree (by rw [List.length_singleton]; decide)
  | case3 a b =>
    exact absurd hthree (by rw [List.length_cons, List.length_singleton]; decide)
  | case4 a b c rest ih =>
    simp only [List.length_cons] at hthree hroom
    have hquads : (a :: b :: c :: rest).length / 3 = rest.length / 3 + 1 := by
      simp only [List.length_cons]
      omega
    rw [hquads, encoded, decodeLoop_quad (index_one a) (index_two (low_two a) (high_four b)).1
      (index_three (low_four b) (high_two c)).1 (index_four c), byte_one, byte_two, byte_three]
    have hnext := ih (by omega) (h.foldl_putNext [a, b, c] (by
      simp only [List.length_cons, List.length_nil]; omega)) (by
      simp only [List.length_append, List.length_cons, List.length_nil]; omega)
    rwa [List.append_assoc] at hnext

theorem decodeLoop_touched (quads : ℕ) (s : List UInt8) (out : ℕ × List UInt8) :
    Touched (3 * quads) out (decodeLoop quads s out) := by
  induction quads generalizing s out with
  | zero => exact .refl 0 out
  | succ quads ih =>
    rw [decodeLoop]
    split
    · exact .refl _ out
    split
    · exact .refl _ out
    dsimp only
    split
    · exact ((Touched.refl 0 out).putNext _).mono (by omega)
    split
    · exact (((Touched.refl 0 out).putNext _).putNext _).mono (by omega)
    · refine (Touched.trans ?_ (ih _ _)).mono (Nat.le_of_eq (Nat.add_comm _ _))
      exact (((Touched.refl 0 out).putNext _).putNext _).putNext _

/-! ### The round trip -/

theorem length_newBuffer (heap : ℕ → UInt8) (size : ℕ) : (newBuffer heap size).length = size := by
  rw [newBuffer, List.length_map, List.length_range]

theorem toInt_of_le {n : ℕ} (h : n ≤ intMax) : toInt n = n := by
  rw [intMax] at h
  rw [toInt, Nat.mod_eq_of_lt (by omega), if_pos (by omega)]

/-- A length that is no `int` becomes smaller. -/
theorem toInt_of_lt {n : ℕ} (h : intMax < n) : (toInt n).toNat + 4294967296 ≤ n ∨
    (toInt n).toNat = 0 := by
  rw [intMax] at h
  rw [toInt]
  split
  · left
    omega
  · right
    omega

theorem base64Encode_eq (heap : ℕ → UInt8) (s : List UInt8)
    (hint : (s.length + 2) / 3 * 4 ≤ intMax) : base64Encode heap s = encoded s := by
  have hlen := length_encoded s
  have hstart := Wrote.start (newBuffer heap ((s.length + 2) / 3 * 4 + 1))
  rw [length_newBuffer] at hstart
  have hloop := encodeLoop_wrote s [] s rfl hstart rfl
    (by rw [List.length_nil, Nat.zero_add, hlen]; exact Nat.le_succ _)
  rw [List.nil_append] at hloop
  have hout := hloop.putNext 0 (by rw [hlen]; exact Nat.lt_succ_self _)
  have htake := hout.take (n := (encoded s).length) (by rw [List.length_append]; omega)
  rw [List.take_left] at htake
  rw [base64Encode, csBase64Encode, toInt_of_le (by omega), Int.toNat_natCast, ← hlen]
  exact hlen ▸ htake

theorem base64Decode_eq (heap : ℕ → UInt8) (s : List UInt8) (hthree : s.length % 3 = 0)
    (hint : (s.length + 2) / 3 * 4 ≤ intMax) : base64Decode heap (encoded s) = s := by
  have hlength : (encoded s).length / 4 * 3 = s.length := by
    rw [length_encoded]
    omega
  have hquads : (encoded s).length / 4 = s.length / 3 := by
    rw [length_encoded]
    omega
  have hstart := Wrote.start (newBuffer heap (s.length + 1))
  rw [length_newBuffer] at hstart
  have hloop := decodeLoop_wrote s hthree hstart
    (by rw [List.length_nil, Nat.zero_add]; exact Nat.le_succ _)
  rw [List.nil_append] at hloop
  have hout := hloop.putNext 0 (Nat.lt_succ_self _)
  have htake := hout.take (n := s.length) (by rw [List.length_append]; omega)
  rw [List.take_left] at htake
  rw [base64Decode, csBase64Decode, toInt_of_le (by rwa [length_encoded]), Int.toNat_natCast,
    hlength, hquads]
  exact htake

/-- What is decoded has three bytes for every four characters, whatever they are. -/
theorem length_base64Decode (heap : ℕ → UInt8) (instr : List UInt8) :
    (base64Decode heap instr).length = instr.length / 4 * 3 := by
  have htouched := (decodeLoop_touched ((toInt instr.length).toNat / 4) instr
    (0, newBuffer heap (instr.length / 4 * 3 + 1))).putNext 0
  rw [base64Decode, csBase64Decode, List.length_take, htouched.length_eq, length_newBuffer]
  exact Nat.min_eq_left (Nat.le_succ _)

/-- Where so many characters are no quadruples, the memory is left as it was. -/
theorem getElem?_base64Decode (heap : ℕ → UInt8) (instr : List UInt8) {i : ℕ}
    (hquads : 3 * ((toInt instr.length).toNat / 4) < i) (hi : i < instr.length / 4 * 3) :
    (base64Decode heap instr)[i]? = some (heap i) := by
  have htouched := (decodeLoop_touched ((toInt instr.length).toNat / 4) instr
    (0, newBuffer heap (instr.length / 4 * 3 + 1))).putNext 0
  rw [base64Decode, csBase64Decode, List.getElem?_take_of_lt hi,
    htouched.getElem?_eq i (by omega), newBuffer, List.getElem?_map,
    List.getElem?_range (Nat.lt_succ_of_lt hi)]
  rfl

theorem length_encodeLoop (src : List UInt8) (srcLen : ℤ) (turns i : ℕ) (out : ℕ × List UInt8) :
    (encodeLoop src srcLen turns i out).2.length = out.2.length := by
  induction turns generalizing i out with
  | zero => rfl
  | succ turns ih =>
    rw [encodeLoop, ih, encodeTurn]
    split <;> split <;> simp only [putNext, List.length_set]

theorem length_padLoop (turns : ℕ) (out : ℕ × List UInt8) :
    (padLoop turns out).2.length = out.2.length := by
  induction turns generalizing out with
  | zero => rfl
  | succ turns ih =>
    rw [padLoop]
    split
    · rw [ih, putNext, List.length_set]
    · rfl

theorem length_base64Encode (heap : ℕ → UInt8) (instr : List UInt8) :
    (base64Encode heap instr).length = (instr.length + 2) / 3 * 4 := by
  rw [base64Encode, csBase64Encode, List.length_take, putNext, List.length_set, length_padLoop,
    length_encodeLoop, length_newBuffer]
  exact Nat.min_eq_left (Nat.le_succ _)

/-- **The round trip**, whatever is in the memory: it is right for lengths that are multiples of
three, up to the length where the text is longer than an `int` says. -/
theorem base64_roundTrip_iff (s : List UInt8) :
    (∀ heap heap', base64Decode heap' (base64Encode heap s) = s) ↔
      s.length % 3 = 0 ∧ (s.length + 2) / 3 * 4 ≤ intMax := by
  constructor
  · intro h
    have hlen := congrArg List.length (h (fun _ => 0) fun _ => 0)
    rw [length_base64Decode, length_base64Encode] at hlen
    have hthree : s.length % 3 = 0 := by omega
    refine ⟨hthree, Nat.not_lt.mp fun hlong => ?_⟩
    -- The last byte is what the memory holds, which may be one thing or another.
    have hlast : ∀ x : UInt8, s[s.length - 1]? = some x := fun x => by
      have hinstr := length_base64Encode (fun _ => 0) s
      have hcut := toInt_of_lt hlong
      rw [intMax] at hlong
      have hget := getElem?_base64Decode (fun _ => x) (base64Encode (fun _ => 0) s)
        (i := s.length - 1) (by rw [hinstr]; omega) (by rw [hinstr]; omega)
      rwa [h] at hget
    exact absurd ((hlast 0).symm.trans (hlast 1)) (by decide)
  · rintro ⟨hthree, hint⟩ heap heap'
    rw [base64Encode_eq heap s hint, base64Decode_eq heap' s hthree hint]

/-- `"a"` comes back with two bytes more, of which the last is what the memory held. -/
theorem base64_roundTrip_one (heap heap' : ℕ → UInt8) :
    base64Decode heap' (base64Encode heap [97]) = [97, 0, heap' 2] := by
  rw [base64Encode_eq heap [97] (by decide)]
  rfl

theorem not_base64_roundTrip :
    ¬ ∀ (s : List UInt8) (heap heap' : ℕ → UInt8),
      base64Decode heap' (base64Encode heap s) = s := by
  intro h
  have hone := h [97] (fun _ => 0) fun _ => 0
  rw [base64_roundTrip_one] at hone
  exact absurd hone (by decide)

end Lsf.BasicHttp
