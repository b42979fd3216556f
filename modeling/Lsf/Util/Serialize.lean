import Lsf.Svr.BasicManager

/-!
# Reading a buffer

`UnSerialize` and its siblings read an element at an offset in a buffer and move the offset behind
it. Before that they compare the end of the element with the length of the buffer, and the end is
computed in 64 bits: an element whose end is 2 ^ 64 or more is taken for one that ends near the
start of the buffer. `UnSerializeProtobuf` takes the length of the element from the buffer itself,
and hands it to the protobuf library as an `int`.

The library is a parameter. It reads nothing but the bytes it is given, where their number is not
negative.

## Main definitions

* `unSerialize`, `unSerializeBinary`, `unSerializeProtobuf` — the source's functions, with the reads
  they make
* `Outcome.Safe` — the reads and the offset stay in the buffer
* `LengthFits` — when the length in a buffer is that of an element there

## Main results

* `unSerialize_safe_iff`
* `safe_with_every_library_iff` — the same of a length, for all that the library may do
* `unSerializeProtobuf_contents` — the manager's function, which reads a list of bytes
-/

namespace Lsf.Serialize

variable {α ε : Type}

/-- The address space, by the offset from the buffer. -/
abbrev Memory := UInt64 → UInt8

/-- A number of bytes that are read from an offset on. -/
structure Read where
  start : UInt64
  count : UInt64

/-- The offset of one of the bytes. -/
def Read.offset (r : Read) (i : ℕ) : UInt64 := r.start + UInt64.ofNat i

/-- The bytes that are read are from the one offset on and before the other. -/
def Read.Inside (r : Read) (first last : UInt64) : Prop :=
  ∀ i < r.count.toNat, first ≤ r.offset i ∧ r.offset i < last

/-- The bytes that are read. -/
def Memory.bytes (mem : Memory) (r : Read) : List UInt8 :=
  (List.range r.count.toNat).map fun i => mem (r.offset i)

/-- What a function returns, the offset and the element that it leaves, and what it has read of the
buffer. -/
structure Outcome (α : Type) where
  success : Bool
  uselen : UInt64
  elem : α
  reads : List Read

/-- Bytes are assigned to an element if they end in the buffer. -/
def unSerializeBytes (assign : List UInt8 → α) (mem : Memory) (buflen uselen : UInt64) (elem : α)
    (count : UInt64) : Outcome α :=
  if buflen < uselen + count then ⟨false, uselen, elem, []⟩
  else ⟨true, uselen + count, assign (mem.bytes ⟨uselen, count⟩), [⟨uselen, count⟩]⟩

/-- A type whose objects are copied byte by byte. -/
structure ElemType (α : Type) where
  sizeof : UInt64
  ofBytes : List UInt8 → α

/-- `size_t`, the lowest byte first. -/
def sizeT : ElemType UInt64 := ⟨8, fun bytes => UInt64.ofNat (ofLittleEndian bytes)⟩

/-- `UnSerialize`. -/
def unSerialize (type : ElemType α) (mem : Memory) (buflen uselen : UInt64) (elem : α) :
    Outcome α :=
  unSerializeBytes type.ofBytes mem buflen uselen elem type.sizeof

/-- What `bin` has behind `binlen` bytes stays. -/
def unSerializeBinary (mem : Memory) (buflen uselen : UInt64) (bin : List UInt8) (binlen : UInt64) :
    Outcome (List UInt8) :=
  unSerializeBytes (· ++ bin.drop binlen.toNat) mem buflen uselen bin binlen

/-- A type of messages. `ParseFromArray` gets where the bytes begin and how many there are, and a
message. It returns whether it succeeds, the message that it leaves and what it has read. -/
structure PBType (ε : Type) where
  parseFromArray : Memory → UInt64 → Int32 → ε → Bool × ε × List Read

/-- The bytes that are read are some of those that are given. -/
def PBType.Documented (pb : PBType ε) : Prop :=
  ∀ mem start (size : Int32) elem, 0 ≤ size →
    ∀ r ∈ (pb.parseFromArray mem start size elem).2.2, ∀ i < r.count.toNat,
      ∃ j < size.toInt.toNat, r.offset i = start + UInt64.ofNat j

/-- A `size_t` that is handed over as an `int`. -/
def toInt (n : UInt64) : Int32 := n.toUInt32.toInt32

/-- `UnSerializeProtobuf`. -/
def unSerializeProtobuf (pb : PBType ε) (mem : Memory) (buflen uselen : UInt64) (elem : ε) :
    Outcome ε :=
  let len := unSerialize sizeT mem buflen uselen 0
  if len.success = false then ⟨false, len.uselen, elem, len.reads⟩
  else if len.elem = 0 then ⟨true, len.uselen, elem, len.reads⟩
  else if buflen < len.uselen + len.elem then ⟨false, len.uselen, elem, len.reads⟩
  else
    let (parsed, message, reads) := pb.parseFromArray mem len.uselen (toInt len.elem) elem
    ⟨parsed, if parsed then len.uselen + len.elem else len.uselen, message, len.reads ++ reads⟩

/-- The reads are of the buffer from the offset on, and the offset does not go back and does not
leave the buffer. -/
structure Outcome.Safe (buflen uselen : UInt64) (o : Outcome α) : Prop where
  reads : ∀ r ∈ o.reads, r.Inside uselen buflen
  le : uselen ≤ o.uselen
  bound : o.uselen ≤ buflen

/-- The end of an element is a number of 64 bits. -/
def Fits (uselen count : UInt64) : Prop := uselen.toNat + count.toNat < UInt64.size

instance (uselen count : UInt64) : Decidable (Fits uselen count) :=
  inferInstanceAs (Decidable (_ < _))

section Reads

variable {mem : Memory} {buflen uselen count : UInt64}

/-! ### Elements of a known size -/

theorem fits_iff : Fits uselen count ↔ uselen.toNat + count.toNat < 18446744073709551616 := Iff.rfl

theorem toNat_add_of_fits (h : Fits uselen count) :
    (uselen + count).toNat = uselen.toNat + count.toNat := by
  rw [UInt64.toNat_add]
  exact Nat.mod_eq_of_lt h

theorem Fits.le_add (h : Fits uselen count) : uselen ≤ uselen + count := by
  rw [UInt64.le_iff_toNat_le, toNat_add_of_fits h]
  exact Nat.le_add_right _ _

/-- An end that does not fit comes before the start. -/
theorem add_lt_of_not_fits (h : ¬ Fits uselen count) : uselen + count < uselen := by
  have huselen := uselen.toNat_lt
  have hcount := count.toNat_lt
  rw [fits_iff] at h
  rw [UInt64.lt_iff_toNat_lt, UInt64.toNat_add]
  omega

/-- So it is not refused. -/
theorem not_refused_of_not_fits (hle : uselen ≤ buflen) (h : ¬ Fits uselen count) :
    ¬ buflen < uselen + count :=
  UInt64.not_lt.mpr (UInt64.le_trans (UInt64.le_of_lt (add_lt_of_not_fits h)) hle)

theorem toNat_offset {i : ℕ} (hi : uselen.toNat + i < 18446744073709551616) :
    (Read.offset ⟨uselen, count⟩ i).toNat = uselen.toNat + i := by
  show (uselen + UInt64.ofNat i).toNat = _
  rw [UInt64.toNat_add, UInt64.toNat_ofNat']
  omega

/-- Bytes whose end fits, and comes before that of the buffer. -/
theorem inside_of_fits (h : Fits uselen count) (hend : uselen + count ≤ buflen) :
    Read.Inside ⟨uselen, count⟩ uselen buflen := by
  intro i hi
  have hi' : i < count.toNat := hi
  rw [UInt64.le_iff_toNat_le, toNat_add_of_fits h] at hend
  rw [fits_iff] at h
  rw [UInt64.le_iff_toNat_le, UInt64.lt_iff_toNat_lt, toNat_offset (by omega)]
  omega

/-- Bytes whose end does not fit go up to the end of the address space. -/
theorem not_inside_of_not_fits (h : ¬ Fits uselen count) :
    ¬ Read.Inside ⟨uselen, count⟩ uselen buflen := by
  intro hinside
  have huselen := uselen.toNat_lt
  have hbuflen := buflen.toNat_lt
  rw [fits_iff] at h
  have hi : 18446744073709551615 - uselen.toNat < count.toNat := by omega
  have hlast := UInt64.lt_iff_toNat_lt.mp (hinside _ hi).2
  rw [toNat_offset (by omega)] at hlast
  omega

theorem unSerializeBytes_safe_iff {assign : List UInt8 → α} {elem : α} (hle : uselen ≤ buflen) :
    (unSerializeBytes assign mem buflen uselen elem count).Safe buflen uselen ↔
      Fits uselen count := by
  rw [unSerializeBytes]
  by_cases hfits : Fits uselen count
  · refine iff_of_true ?_ hfits
    by_cases hend : buflen < uselen + count
    · rw [if_pos hend]
      exact ⟨fun r hr => absurd hr List.not_mem_nil, UInt64.le_refl _, hle⟩
    · rw [if_neg hend]
      have hend' := UInt64.not_lt.mp hend
      exact ⟨List.forall_mem_singleton.mpr (inside_of_fits hfits hend'), hfits.le_add, hend'⟩
  · refine iff_of_false (fun hsafe => ?_) hfits
    rw [if_neg (not_refused_of_not_fits hle hfits)] at hsafe
    exact UInt64.not_lt.mpr hsafe.le (add_lt_of_not_fits hfits)

end Reads

/-! ### Elements with their length before them -/

section Protobuf

variable {pb : PBType ε} {mem : Memory} {buflen uselen : UInt64} {elem : ε}

/-- The length that the buffer has for the element at an offset. -/
def protobufLen (mem : Memory) (uselen : UInt64) : UInt64 :=
  sizeT.ofBytes (mem.bytes ⟨uselen, sizeT.sizeof⟩)

/-- The library is called for an element. -/
def ParsesAt (mem : Memory) (buflen uselen : UInt64) : Prop :=
  uselen + 8 ≤ buflen ∧ protobufLen mem uselen ≠ 0 ∧ uselen + 8 + protobufLen mem uselen ≤ buflen

/-- The length fits behind the offset, and is an `int`. -/
def LengthFits (mem : Memory) (uselen : UInt64) : Prop :=
  Fits (uselen + 8) (protobufLen mem uselen) ∧ 0 ≤ toInt (protobufLen mem uselen)

/-- The call of the library for it. -/
def PBType.parseAt (pb : PBType ε) (mem : Memory) (uselen : UInt64) (elem : ε) :
    Bool × ε × List Read :=
  pb.parseFromArray mem (uselen + 8) (toInt (protobufLen mem uselen)) elem

/-- The library reads nothing outside the buffer for the element, and fails where the end of the
element comes before the offset. -/
def PBType.Harmless (pb : PBType ε) (mem : Memory) (buflen uselen : UInt64) (elem : ε) : Prop :=
  (∀ r ∈ (pb.parseAt mem uselen elem).2.2, r.Inside uselen buflen) ∧
    ((pb.parseAt mem uselen elem).1 = true → uselen ≤ uselen + 8 + protobufLen mem uselen)

/-- Where there is no room for the length the function fails. -/
theorem unSerializeProtobuf_of_lt (hend : buflen < uselen + 8) :
    unSerializeProtobuf pb mem buflen uselen elem = ⟨false, uselen, elem, []⟩ := by
  have hlen : unSerialize sizeT mem buflen uselen 0 = ⟨false, uselen, 0, []⟩ := if_pos hend
  rw [unSerializeProtobuf, hlen]
  rfl

theorem unSerialize_sizeT (hend : uselen + 8 ≤ buflen) : unSerialize sizeT mem buflen uselen 0 =
    ⟨true, uselen + 8, protobufLen mem uselen, [⟨uselen, 8⟩]⟩ :=
  if_neg (UInt64.not_lt.mpr hend)

/-- After the length nothing else is read if the library is not called. -/
theorem unSerializeProtobuf_of_not_parsesAt (hend : uselen + 8 ≤ buflen)
    (hparses : ¬ ParsesAt mem buflen uselen) :
    unSerializeProtobuf pb mem buflen uselen elem =
      ⟨decide (protobufLen mem uselen = 0), uselen + 8, elem, [⟨uselen, 8⟩]⟩ := by
  rw [unSerializeProtobuf, unSerialize_sizeT hend]
  by_cases hzero : protobufLen mem uselen = 0
  · simp [hzero]
  · have hlt : buflen < uselen + 8 + protobufLen mem uselen :=
      UInt64.not_le.mp fun hle => hparses ⟨hend, hzero, hle⟩
    simp [hzero, hlt]

theorem unSerializeProtobuf_of_parsesAt (hparses : ParsesAt mem buflen uselen) :
    unSerializeProtobuf pb mem buflen uselen elem =
      ⟨(pb.parseAt mem uselen elem).1,
        if (pb.parseAt mem uselen elem).1 then uselen + 8 + protobufLen mem uselen else uselen + 8,
        (pb.parseAt mem uselen elem).2.1, ⟨uselen, 8⟩ :: (pb.parseAt mem uselen elem).2.2⟩ := by
  obtain ⟨hend, hzero, hle⟩ := hparses
  rw [unSerializeProtobuf, unSerialize_sizeT hend]
  simp only [Bool.true_eq_false, if_false, hzero, UInt64.not_lt.mpr hle]
  rfl

/-- Where there is room for the length it is read. -/
theorem length_read (hend : uselen + 8 ≤ buflen) :
    ⟨uselen, 8⟩ ∈ (unSerializeProtobuf pb mem buflen uselen elem).reads := by
  by_cases hparses : ParsesAt mem buflen uselen
  · rw [unSerializeProtobuf_of_parsesAt hparses]
    exact List.mem_cons_self
  · rw [unSerializeProtobuf_of_not_parsesAt hend hparses]
    exact List.mem_singleton_self _

/-- An `int` is what the lower 32 bits are in two's complement. -/
theorem toInt_toInt (n : UInt64) : (toInt n).toInt =
    if n.toNat % 4294967296 < 2147483648 then (n.toNat % 4294967296 : ℤ)
    else n.toNat % 4294967296 - 4294967296 := by
  have hbits : (toInt n).toInt = (n.toUInt32.toBitVec).toInt := rfl
  have hlow : n.toUInt32.toBitVec.toNat = n.toNat % 4294967296 := UInt64.toNat_toUInt32 n
  rw [hbits, BitVec.toInt_eq_toNat_cond, hlow]
  split_ifs <;> omega

theorem toInt_nonneg_iff {n : UInt64} : 0 ≤ toInt n ↔ n.toNat % 4294967296 < 2147483648 := by
  have hzero : (0 : Int32).toInt = 0 := rfl
  rw [Int32.le_iff_toInt_le, hzero, toInt_toInt]
  split_ifs <;> omega

theorem toNat_toInt_le {n : UInt64} (h : 0 ≤ toInt n) : (toInt n).toInt.toNat ≤ n.toNat := by
  rw [toInt_toInt, if_pos (toInt_nonneg_iff.mp h)]
  omega

/-- The bytes of an element that fits are in the buffer. -/
theorem PBType.harmless_of_lengthFits (hpb : pb.Documented) (hfits : Fits uselen 8)
    (hend : uselen + 8 + protobufLen mem uselen ≤ buflen) (hlen : LengthFits mem uselen) :
    pb.Harmless mem buflen uselen elem := by
  refine ⟨fun r hr i hi => ?_, fun _ => UInt64.le_trans hfits.le_add hlen.1.le_add⟩
  obtain ⟨j, hj, hoffset⟩ := hpb _ _ _ _ hlen.2 r hr i hi
  have hinside := inside_of_fits hlen.1 hend j (Nat.lt_of_lt_of_le hj (toNat_toInt_le hlen.2))
  rw [hoffset]
  exact ⟨UInt64.le_trans hfits.le_add hinside.1, hinside.2⟩

theorem unSerializeProtobuf_safe_iff (hpb : pb.Documented) (hle : uselen ≤ buflen) :
    (unSerializeProtobuf pb mem buflen uselen elem).Safe buflen uselen ↔
      Fits uselen 8 ∧ (ParsesAt mem buflen uselen →
        LengthFits mem uselen ∨ pb.Harmless mem buflen uselen elem) := by
  by_cases hfits : Fits uselen 8
  · rw [and_iff_right hfits]
    by_cases hend : uselen + 8 ≤ buflen
    · have hread := inside_of_fits hfits hend
      by_cases hparses : ParsesAt mem buflen uselen
      · have hharmless : LengthFits mem uselen → pb.Harmless mem buflen uselen elem :=
          PBType.harmless_of_lengthFits hpb hfits hparses.2.2
        rw [unSerializeProtobuf_of_parsesAt hparses, imp_iff_right hparses,
          or_iff_right_of_imp hharmless]
        constructor
        · intro hsafe
          refine ⟨(List.forall_mem_cons.mp hsafe.reads).2, fun hcall => ?_⟩
          have hback := hsafe.le
          rwa [hcall, if_pos rfl] at hback
        · rintro ⟨hreads, hback⟩
          refine ⟨List.forall_mem_cons.mpr ⟨hread, hreads⟩, ?_, ?_⟩
          · split_ifs with hcall
            · exact hback hcall
            · exact hfits.le_add
          · split_ifs
            · exact hparses.2.2
            · exact hend
      · rw [unSerializeProtobuf_of_not_parsesAt hend hparses]
        refine iff_of_true ?_ fun h => absurd h hparses
        exact ⟨List.forall_mem_singleton.mpr hread, hfits.le_add, hend⟩
    · rw [unSerializeProtobuf_of_lt (UInt64.not_le.mp hend)]
      refine iff_of_true ?_ fun h => absurd h.1 hend
      exact ⟨fun r hr => absurd hr List.not_mem_nil, UInt64.le_refl _, hle⟩
  · -- the length itself ends outside
    have hend := UInt64.not_lt.mp (not_refused_of_not_fits hle hfits)
    refine iff_of_false (fun hsafe => ?_) fun h => hfits h.1
    exact not_inside_of_not_fits hfits (hsafe.reads _ (length_read hend))

/-- A library that never fails and, of a negative number of bytes, reads one at some offset. -/
def PBType.unchecked (offset : UInt64) : PBType ε where
  parseFromArray _ _ size message := (true, message, if 0 ≤ size then [] else [⟨offset, 1⟩])

theorem reads_unchecked (offset start : UInt64) (size : Int32) :
    ((PBType.unchecked offset).parseFromArray mem start size elem).2.2 =
      if 0 ≤ size then [] else [⟨offset, 1⟩] := rfl

theorem documented_unchecked (offset : UInt64) :
    (PBType.unchecked offset : PBType ε).Documented := by
  intro _ _ size _ hsize r hr
  rw [reads_unchecked, if_pos hsize] at hr
  cases hr

theorem not_inside_self : ¬ Read.Inside ⟨buflen, 1⟩ uselen buflen := by
  intro h
  have hlast := (h 0 Nat.one_pos).2
  have hoffset : Read.offset ⟨buflen, 1⟩ 0 = buflen := UInt64.add_zero buflen
  rw [hoffset] at hlast
  exact UInt64.lt_irrefl _ hlast

theorem lengthFits_of_unchecked (hfits : Fits uselen 8)
    (h : (PBType.unchecked buflen).Harmless mem buflen uselen elem) : LengthFits mem uselen := by
  obtain ⟨hreads, hback⟩ := h
  have hnonneg : 0 ≤ toInt (protobufLen mem uselen) := by
    by_contra hneg
    rw [PBType.parseAt, reads_unchecked, if_neg hneg] at hreads
    exact not_inside_self (hreads _ (List.mem_singleton_self _))
  refine ⟨?_, hnonneg⟩
  by_contra hnot
  -- the end is before the start, and not before the offset, only for a length that is negative
  have hback' := UInt64.le_iff_toNat_le.mp (hback rfl)
  have hlow := toInt_nonneg_iff.mp hnonneg
  have hlen := (protobufLen mem uselen).toNat_lt
  have hstart := toNat_add_of_fits hfits
  have height : (8 : UInt64).toNat = 8 := rfl
  rw [UInt64.toNat_add, hstart] at hback'
  rw [fits_iff, hstart] at hnot
  rw [fits_iff] at hfits
  omega

/-- **Every library that does what is documented is safe to use** exactly with a length that fits.
-/
theorem safe_with_every_library_iff (hle : uselen ≤ buflen) :
    (∀ pb : PBType ε, pb.Documented →
      (unSerializeProtobuf pb mem buflen uselen elem).Safe buflen uselen) ↔
      Fits uselen 8 ∧ (ParsesAt mem buflen uselen → LengthFits mem uselen) := by
  constructor
  · intro hsafe
    obtain ⟨hfits, hparse⟩ := (unSerializeProtobuf_safe_iff (documented_unchecked buflen) hle).mp
      (hsafe (.unchecked buflen) (documented_unchecked buflen))
    refine ⟨hfits, fun hparses => ?_⟩
    obtain hlen | hharmless := hparse hparses
    · exact hlen
    · exact lengthFits_of_unchecked hfits hharmless
  · rintro ⟨hfits, hparse⟩ pb hpb
    exact (unSerializeProtobuf_safe_iff hpb hle).mpr ⟨hfits, fun hparses => .inl (hparse hparses)⟩

/-- **Reading a buffer is safe** exactly if what is read ends within 64 bits; for an element with
its length before it, with the library at hand and with all that it may be. -/
theorem unSerialize_safe_iff (hpb : pb.Documented) (hle : uselen ≤ buflen) :
    (∀ (type : ElemType α) (elem : α),
      (unSerialize type mem buflen uselen elem).Safe buflen uselen ↔ Fits uselen type.sizeof) ∧
    (∀ bin binlen, (unSerializeBinary mem buflen uselen bin binlen).Safe buflen uselen ↔
      Fits uselen binlen) ∧
    (∀ elem, (unSerializeProtobuf pb mem buflen uselen elem).Safe buflen uselen ↔
      Fits uselen 8 ∧ (ParsesAt mem buflen uselen →
        LengthFits mem uselen ∨ pb.Harmless mem buflen uselen elem)) ∧
    ∀ elem : ε, (∀ library : PBType ε, library.Documented →
      (unSerializeProtobuf library mem buflen uselen elem).Safe buflen uselen) ↔
        Fits uselen 8 ∧ (ParsesAt mem buflen uselen → LengthFits mem uselen) :=
  ⟨fun _ _ => unSerializeBytes_safe_iff hle, fun _ _ => unSerializeBytes_safe_iff hle,
    fun _ => unSerializeProtobuf_safe_iff hpb hle, fun _ => safe_with_every_library_iff hle⟩

end Protobuf

/-! ### Segments of shared memory -/

/-- The bytes that the library is given. -/
def given (start : UInt64) (size : Int32) : Read := ⟨start, UInt64.ofNat size.toInt.toNat⟩

/-- A library that parses the bytes it is given, and fails for a negative number of them. -/
def PBType.ofParse (parse : List UInt8 → Option ε) : PBType ε where
  parseFromArray mem start size message :=
    if 0 ≤ size then
      ((parse (mem.bytes (given start size))).isSome,
        (parse (mem.bytes (given start size))).getD message, [given start size])
    else (false, message, [])

section Segments

variable {mem : Memory} {buflen uselen count start : UInt64} {size : Int32} {message : ε}
  {parse : List UInt8 → Option ε}

theorem ofParse_of_nonneg (hsize : 0 ≤ size) :
    (PBType.ofParse parse).parseFromArray mem start size message =
      ((parse (mem.bytes (given start size))).isSome,
        (parse (mem.bytes (given start size))).getD message, [given start size]) := if_pos hsize

theorem documented_ofParse (parse : List UInt8 → Option ε) : (PBType.ofParse parse).Documented := by
  intro mem start size message hsize r hr i hi
  rw [ofParse_of_nonneg hsize] at hr
  obtain rfl := List.mem_singleton.mp hr
  refine ⟨i, Nat.lt_of_lt_of_le hi ?_, rfl⟩
  show (UInt64.ofNat size.toInt.toNat).toNat ≤ _
  rw [UInt64.toNat_ofNat']
  exact Nat.mod_le _ _

/-- A message without fields is parsed from no bytes. -/
def emptyMessage : PBType Unit := .ofParse fun bytes => if bytes = [] then some () else none

/-- At the offset 2 ^ 32 of the memory the length is 2 ^ 64 - 2 ^ 32. -/
def backwards : Memory := fun offset =>
  if 0x100000004 ≤ offset ∧ offset < 0x100000008 then 255 else 0

/-- The offset goes back, to before the length that was read. -/
theorem unSerialize_goes_back :
    ¬ (unSerializeBinary backwards 10 5 [] 0xffffffffffffffff).Safe 10 5 ∧
    ¬ (unSerializeProtobuf emptyMessage backwards 0x200000000 0x100000000 ()).Safe
      0x200000000 0x100000000 := by
  refine ⟨fun h => ?_, fun h => ?_⟩
  · exact absurd ((unSerializeBytes_safe_iff (by decide)).mp h) (by decide)
  · have hback :
        (unSerializeProtobuf emptyMessage backwards 0x200000000 0x100000000 ()).uselen = 8 := by
      decide
    exact absurd (hback ▸ h.le) (by decide)

/-- A message of any bytes. -/
def rawMessage : PBType (List UInt8) := .ofParse some

/-- At the offset 4 of the memory the length is 3, and then there are three bytes. -/
def threeAtFour : Memory := fun offset =>
  if offset = 4 then 3 else if offset < 12 then 0 else 65

/-- A buffer that has the length and the bytes. -/
theorem unSerialize_safe_of_three_bytes :
    ((∀ (type : ElemType UInt64) (elem : UInt64),
      (unSerialize type threeAtFour 20 4 elem).Safe 20 4 ↔ Fits 4 type.sizeof) ∧
    (∀ bin binlen, (unSerializeBinary threeAtFour 20 4 bin binlen).Safe 20 4 ↔ Fits 4 binlen) ∧
    (∀ elem, (unSerializeProtobuf rawMessage threeAtFour 20 4 elem).Safe 20 4 ↔
      Fits 4 8 ∧ (ParsesAt threeAtFour 20 4 →
        LengthFits threeAtFour 4 ∨ rawMessage.Harmless threeAtFour 20 4 elem)) ∧
    ∀ elem, (∀ library : PBType (List UInt8), library.Documented →
      (unSerializeProtobuf library threeAtFour 20 4 elem).Safe 20 4) ↔
        Fits 4 8 ∧ (ParsesAt threeAtFour 20 4 → LengthFits threeAtFour 4)) ∧
    ParsesAt threeAtFour 20 4 ∧ LengthFits threeAtFour 4 ∧
    (unSerializeProtobuf rawMessage threeAtFour 20 4 []).uselen = 15 ∧
    (unSerializeProtobuf rawMessage threeAtFour 20 4 []).elem = [65, 65, 65] :=
  ⟨unSerialize_safe_iff (documented_ofParse _) (by decide),
    ⟨by decide, by decide, by decide⟩, ⟨by decide, by decide⟩, by decide, by decide⟩

/-- What the buffer has. -/
def Memory.contents (mem : Memory) (buflen : UInt64) : List UInt8 := mem.bytes ⟨0, buflen⟩

theorem length_bytes (r : Read) : (mem.bytes r).length = r.count.toNat := by
  rw [Memory.bytes, List.length_map, List.length_range]

theorem take_drop_contents (hend : uselen.toNat + count.toNat ≤ buflen.toNat) :
    ((mem.contents buflen).drop uselen.toNat).take count.toNat = mem.bytes ⟨uselen, count⟩ := by
  have hlen : (mem.contents buflen).length = buflen.toNat := length_bytes _
  refine List.ext_getElem ?_ fun i h₁ h₂ => ?_
  · rw [List.length_take, List.length_drop, hlen, length_bytes]
    show min _ _ = count.toNat
    omega
  · rw [List.getElem_take, List.getElem_drop]
    simp only [Memory.contents, Memory.bytes, List.getElem_map, List.getElem_range]
    have hoffset : Read.offset ⟨0, buflen⟩ (uselen.toNat + i) = Read.offset ⟨uselen, count⟩ i := by
      show 0 + UInt64.ofNat (uselen.toNat + i) = uselen + UInt64.ofNat i
      rw [UInt64.zero_add, UInt64.ofNat_add, UInt64.ofNat_toNat]
    rw [hoffset]

/-- A cursor in the buffer reads what a function does whose end fits. -/
theorem get_contents (hfits : Fits uselen count) :
    (Cursor.mk (mem.contents buflen) uselen.toNat).get count.toNat =
      if buflen < uselen + count then none
      else some (mem.bytes ⟨uselen, count⟩, ⟨mem.contents buflen, (uselen + count).toNat⟩) := by
  have hlen : (mem.contents buflen).length = buflen.toNat := length_bytes _
  have hlt : buflen < uselen + count ↔ buflen.toNat < uselen.toNat + count.toNat := by
    rw [UInt64.lt_iff_toNat_lt, toNat_add_of_fits hfits]
  rw [Cursor.get, hlen, toNat_add_of_fits hfits]
  by_cases hend : buflen < uselen + count
  · rw [if_pos hend, if_pos (hlt.mp hend)]
  · have hend' := mt hlt.mpr hend
    rw [if_neg hend, if_neg hend', take_drop_contents (Nat.not_lt.mp hend')]

/-- The element and the offset after a function that succeeds. -/
def Outcome.toOption (o : Outcome α) : Option (α × UInt64) :=
  if o.success then some (o.elem, o.uselen) else none

theorem toNat_protobufLen :
    (protobufLen mem uselen).toNat = ofLittleEndian (mem.bytes ⟨uselen, 8⟩) := by
  have hlt := ofLittleEndian_lt (mem.bytes ⟨uselen, 8⟩)
  rw [length_bytes] at hlt
  exact (UInt64.toNat_ofNat').trans (Nat.mod_eq_of_lt hlt)

theorem svrUnSerialize_contents (hfits : Fits uselen 8) :
    Svr.unSerialize ⟨mem.contents buflen, uselen.toNat⟩ =
      if buflen < uselen + 8 then none
      else some ((protobufLen mem uselen).toNat, ⟨mem.contents buflen, (uselen + 8).toNat⟩) := by
  have hget : (Cursor.mk (mem.contents buflen) uselen.toNat).get Svr.sizeofSize = _ :=
    get_contents hfits
  rw [Svr.unSerialize, hget, toNat_protobufLen]
  split_ifs <;> rfl

theorem bytes_given (start : UInt64) {n : UInt64} (hlt : n.toNat < 2147483648) :
    0 ≤ toInt n ∧ given start (toInt n) = ⟨start, n⟩ := by
  have hmod : n.toNat % 4294967296 = n.toNat := by omega
  have hnonneg : 0 ≤ toInt n := toInt_nonneg_iff.mpr (hmod.symm ▸ hlt)
  have hsize : (toInt n).toInt.toNat = n.toNat := by
    rw [toInt_toInt, if_pos (toInt_nonneg_iff.mp hnonneg)]
    omega
  exact ⟨hnonneg, by rw [given, hsize, UInt64.ofNat_toNat]⟩

/-- Where the library is given the length in full, the manager's function on natural numbers is the
source's. -/
theorem unSerializeProtobuf_contents (pb : Svr.Protobuf ε) (hfits : Fits uselen 8)
    (hlen : ParsesAt mem buflen uselen → Fits (uselen + 8) (protobufLen mem uselen) ∧
      (protobufLen mem uselen).toNat < 2147483648) :
    Svr.unSerializeProtobuf pb ⟨mem.contents buflen, uselen.toNat⟩ =
      (unSerializeProtobuf (.ofParse pb.parseFromArray) mem buflen uselen pb.empty).toOption.map
        fun (e, pos) => (e, ⟨mem.contents buflen, pos.toNat⟩) := by
  have hzero : (protobufLen mem uselen).toNat = 0 ↔ protobufLen mem uselen = 0 :=
    ⟨fun h => UInt64.toNat.inj h, fun h => congrArg UInt64.toNat h⟩
  rw [Svr.unSerializeProtobuf, svrUnSerialize_contents hfits]
  by_cases hend : uselen + 8 ≤ buflen
  · rw [if_neg (UInt64.not_lt.mpr hend), Option.bind_some]
    show (if (protobufLen mem uselen).toNat = 0 then _ else Option.bind _ _) = _
    by_cases hparses : ParsesAt mem buflen uselen
    · obtain ⟨hfits', hlt⟩ := hlen hparses
      obtain ⟨hnonneg, hgiven⟩ := bytes_given (uselen + 8) hlt
      rw [if_neg (hzero.not.mpr hparses.2.1), get_contents hfits',
        if_neg (UInt64.not_lt.mpr hparses.2.2), Option.bind_some,
        unSerializeProtobuf_of_parsesAt hparses, PBType.parseAt, ofParse_of_nonneg hnonneg, hgiven]
      show (pb.parseFromArray (mem.bytes ⟨uselen + 8, protobufLen mem uselen⟩)).map _ = _
      cases pb.parseFromArray (mem.bytes ⟨uselen + 8, protobufLen mem uselen⟩) <;> rfl
    · rw [unSerializeProtobuf_of_not_parsesAt hend hparses]
      by_cases hnone : protobufLen mem uselen = 0
      · rw [if_pos (hzero.mpr hnone), decide_eq_true hnone]
        rfl
      · -- an end that does not fit is not refused
        have hrefused : buflen < uselen + 8 + protobufLen mem uselen :=
          UInt64.not_le.mp fun hle => hparses ⟨hend, hnone, hle⟩
        have hfits' : Fits (uselen + 8) (protobufLen mem uselen) := by
          by_contra hnot
          exact not_refused_of_not_fits hend hnot hrefused
        rw [if_neg (hzero.not.mpr hnone), get_contents hfits', if_pos hrefused,
          decide_eq_false hnone]
        rfl
  · rw [if_pos (UInt64.not_le.mp hend), unSerializeProtobuf_of_lt (UInt64.not_le.mp hend)]
    rfl

end Segments

end Lsf.Serialize
