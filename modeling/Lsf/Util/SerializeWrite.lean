import Lsf.Util.Serialize

/-!
# Writing a buffer

`Serialize` and its siblings write an element at an offset in a buffer and move the offset behind
it, or return false where the element does not end in the buffer. `SerializeProtobuf` first writes
the length of the message, and then has the library write the message behind it.

A function that returns false leaves the offset where it was, if it is not one of the two for
messages: these have moved it behind the length before they see that the message does not end in the
buffer, or that the library fails.

## Main definitions

* `serialize`, `serializeBinary`, `serializeProtobuf` — the source's functions
* `OffsetKept`

## Main results

* `unSerialize_serialize` — what is written is read back
* `serializeProtobuf_kept_iff`, `unSerializeProtobuf_kept_iff` — when the offset is kept
-/

namespace Lsf.Serialize

variable {α ε : Type}

/-- Bytes are written from an offset on. -/
def Memory.write (mem : Memory) (start : UInt64) (bytes : List UInt8) : Memory := fun offset =>
  bytes[(offset - start).toNat]?.getD (mem offset)

/-- What a function returns, the offset that it leaves, and the memory. -/
structure Written where
  success : Bool
  uselen : UInt64
  mem : Memory

/-- Bytes are written if they end in the buffer. -/
def serializeBytes (mem : Memory) (buflen uselen count : UInt64) (bytes : List UInt8) : Written :=
  if buflen < uselen + count then ⟨false, uselen, mem⟩
  else ⟨true, uselen + count, mem.write uselen bytes⟩

/-- A type whose objects are written and read byte by byte. -/
structure StoredType (α : Type) extends ElemType α where
  toBytes : α → List UInt8

/-- An object has its size in bytes, and is what its bytes are read as. -/
structure StoredType.Lawful (type : StoredType α) : Prop where
  length_toBytes : ∀ x, (type.toBytes x).length = type.sizeof.toNat
  ofBytes_toBytes : ∀ x, type.ofBytes (type.toBytes x) = x

/-- `size_t`, as it is written. -/
def storedSizeT : StoredType UInt64 := { sizeT with toBytes n := littleEndian 8 n.toNat }

/-- `Serialize`. -/
def serialize (type : StoredType α) (mem : Memory) (buflen uselen : UInt64) (elem : α) : Written :=
  serializeBytes mem buflen uselen type.sizeof (type.toBytes elem)

/-- `SerializeBinary`. -/
def serializeBinary (mem : Memory) (buflen uselen : UInt64) (bin : List UInt8) (binlen : UInt64) :
    Written :=
  serializeBytes mem buflen uselen binlen (bin.take binlen.toNat)

/-- A type of messages that are written. `ByteSize` is an `int`. What
`SerializeWithCachedSizesToArray` returns is whether the pointer is not null, and the memory. -/
structure PBWriter (ε : Type) where
  byteSize : ε → Int32
  serializeWithCachedSizesToArray : Memory → UInt64 → ε → Bool × Memory

/-- The length of a message, an `int` as a `size_t`. -/
def PBWriter.protobufLen (pb : PBWriter ε) (elem : ε) : UInt64 :=
  (pb.byteSize elem).toInt64.toUInt64

/-- `SerializeProtobuf`. -/
def serializeProtobuf (pb : PBWriter ε) (mem : Memory) (buflen uselen : UInt64) (elem : ε) :
    Written :=
  let len := serialize storedSizeT mem buflen uselen (pb.protobufLen elem)
  if len.success = false then ⟨false, len.uselen, len.mem⟩
  else if pb.protobufLen elem = 0 then ⟨true, len.uselen, len.mem⟩
  else if buflen < len.uselen + pb.protobufLen elem then ⟨false, len.uselen, len.mem⟩
  else
    let (done, mem) := pb.serializeWithCachedSizesToArray len.mem len.uselen elem
    ⟨done, if done then len.uselen + pb.protobufLen elem else len.uselen, mem⟩

variable {mem : Memory} {buflen uselen count start : UInt64} {bytes : List UInt8}

/-! ### Reading what was written -/

theorem bytes_write (hlen : bytes.length = count.toNat) :
    (mem.write start bytes).bytes ⟨start, count⟩ = bytes := by
  have hcount := count.toNat_lt
  refine List.ext_getElem (by rw [length_bytes, hlen]) fun i h₁ h₂ => ?_
  have hoffset : (Read.offset ⟨start, count⟩ i - start).toNat = i := by
    show (start + UInt64.ofNat i - start).toNat = i
    rw [UInt64.add_comm, UInt64.add_sub_cancel, UInt64.toNat_ofNat', Nat.mod_eq_of_lt (by omega)]
  simp only [Memory.bytes, List.getElem_map, List.getElem_range, Memory.write]
  rw [hoffset, List.getElem?_eq_getElem h₂, Option.getD_some]

/-- **What is written is read back**, with the same offset behind it. -/
theorem unSerialize_serialize {type : StoredType α} (htype : type.Lawful) (elem old : α)
    (hok : (serialize type mem buflen uselen elem).success = true) :
    unSerialize type.toElemType (serialize type mem buflen uselen elem).mem buflen uselen old =
      ⟨true, (serialize type mem buflen uselen elem).uselen, elem, [⟨uselen, type.sizeof⟩]⟩ := by
  rw [serialize, serializeBytes] at hok ⊢
  split at hok
  · cases hok
  · rename_i hroom
    rw [if_neg hroom, unSerialize, unSerializeBytes, if_neg hroom,
      bytes_write (htype.length_toBytes elem), htype.ofBytes_toBytes]

theorem storedSizeT_lawful : storedSizeT.Lawful where
  length_toBytes n := length_littleEndian 8 n.toNat
  ofBytes_toBytes n := by
    show UInt64.ofNat (ofLittleEndian (littleEndian 8 n.toNat)) = n
    rw [ofLittleEndian_littleEndian n.toNat_lt, UInt64.ofNat_toNat]

/-! ### The offset after a failure -/

/-- Where false is returned the offset is what it was. -/
def OffsetKept (uselen : UInt64) (success : Bool) (uselen' : UInt64) : Prop :=
  success = false → uselen' = uselen

theorem offsetKept_true (uselen uselen' : UInt64) : OffsetKept uselen true uselen' :=
  fun hfalse => absurd hfalse Bool.true_eq_false.mp

theorem offsetKept_false_iff {uselen uselen' : UInt64} :
    OffsetKept uselen false uselen' ↔ uselen' = uselen := imp_iff_right rfl

theorem serializeBytes_kept : OffsetKept uselen
    (serializeBytes mem buflen uselen count bytes).success
    (serializeBytes mem buflen uselen count bytes).uselen := by
  rw [serializeBytes]
  split
  · exact fun _ => rfl
  · exact offsetKept_true _ _

theorem unSerializeBytes_kept {assign : List UInt8 → α} {elem : α} : OffsetKept uselen
    (unSerializeBytes assign mem buflen uselen elem count).success
    (unSerializeBytes assign mem buflen uselen elem count).uselen := by
  rw [unSerializeBytes]
  split
  · exact fun _ => rfl
  · exact offsetKept_true _ _

/-- Behind a length the offset is another one. -/
theorem add_eight_ne (uselen : UInt64) : uselen + 8 ≠ uselen := by
  intro h
  have heq := congrArg UInt64.toNat h
  have hlt := uselen.toNat_lt
  rw [UInt64.toNat_add] at heq
  have height : (8 : UInt64).toNat = 8 := rfl
  omega

/-- The call of the library for a message. -/
def PBWriter.serializeAt (pb : PBWriter ε) (mem : Memory) (uselen : UInt64) (elem : ε) :
    Bool × Memory :=
  pb.serializeWithCachedSizesToArray
    (mem.write uselen (storedSizeT.toBytes (pb.protobufLen elem))) (uselen + 8) elem

section Protobuf

variable {pb : PBWriter ε} {reader : PBType ε} {elem : ε}

/-- The offset of a message that is not written is kept if there is no room for the length. -/
theorem serializeProtobuf_kept_iff : OffsetKept uselen
      (serializeProtobuf pb mem buflen uselen elem).success
      (serializeProtobuf pb mem buflen uselen elem).uselen ↔
    (uselen + 8 ≤ buflen → pb.protobufLen elem ≠ 0 →
      uselen + 8 + pb.protobufLen elem ≤ buflen ∧ (pb.serializeAt mem uselen elem).1 = true) := by
  rw [serializeProtobuf]
  by_cases hend : uselen + 8 ≤ buflen
  · have hlen : serialize storedSizeT mem buflen uselen (pb.protobufLen elem) =
        ⟨true, uselen + 8, mem.write uselen (storedSizeT.toBytes (pb.protobufLen elem))⟩ :=
      if_neg (UInt64.not_lt.mpr hend)
    rw [hlen, imp_iff_right hend]
    simp only [Bool.true_eq_false, if_false]
    by_cases hzero : pb.protobufLen elem = 0
    · rw [if_pos hzero]
      exact iff_of_true (offsetKept_true _ _) fun h => absurd hzero h
    rw [if_neg hzero, imp_iff_right hzero]
    by_cases hroom : buflen < uselen + 8 + pb.protobufLen elem
    · rw [if_pos hroom]
      rw [offsetKept_false_iff]
      exact iff_of_false (add_eight_ne uselen) fun h => UInt64.not_le.mpr hroom h.1
    · rw [if_neg hroom, and_iff_right (UInt64.not_lt.mp hroom), PBWriter.serializeAt]
      cases hdone : (pb.serializeWithCachedSizesToArray _ (uselen + 8) elem).1 with
      | true => exact iff_of_true (offsetKept_true _ _) rfl
      | false =>
        rw [offsetKept_false_iff, if_neg Bool.false_ne_true]
        exact iff_of_false (add_eight_ne uselen) Bool.false_ne_true
  · have hlen : serialize storedSizeT mem buflen uselen (pb.protobufLen elem) =
        ⟨false, uselen, mem⟩ := if_pos (UInt64.not_le.mp hend)
    rw [hlen]
    exact iff_of_true (fun _ => rfl) fun h => absurd h hend

/-- The same where a message is read. -/
theorem unSerializeProtobuf_kept_iff : OffsetKept uselen
      (unSerializeProtobuf reader mem buflen uselen elem).success
      (unSerializeProtobuf reader mem buflen uselen elem).uselen ↔
    (uselen + 8 ≤ buflen → protobufLen mem uselen ≠ 0 →
      uselen + 8 + protobufLen mem uselen ≤ buflen ∧
        (reader.parseAt mem uselen elem).1 = true) := by
  by_cases hend : uselen + 8 ≤ buflen
  · rw [imp_iff_right hend]
    by_cases hparses : ParsesAt mem buflen uselen
    · rw [unSerializeProtobuf_of_parsesAt hparses, imp_iff_right hparses.2.1,
        and_iff_right hparses.2.2]
      cases hdone : (reader.parseAt mem uselen elem).1 with
      | true => exact iff_of_true (offsetKept_true _ _) rfl
      | false =>
        rw [offsetKept_false_iff, if_neg Bool.false_ne_true]
        exact iff_of_false (add_eight_ne uselen) Bool.false_ne_true
    · rw [unSerializeProtobuf_of_not_parsesAt hend hparses]
      by_cases hzero : protobufLen mem uselen = 0
      · rw [decide_eq_true hzero]
        exact iff_of_true (offsetKept_true _ _) fun h => absurd hzero h
      · rw [decide_eq_false hzero, offsetKept_false_iff, imp_iff_right hzero]
        exact iff_of_false (add_eight_ne uselen) fun h => hparses ⟨hend, hzero, h.1⟩
  · rw [unSerializeProtobuf_of_lt (UInt64.not_le.mp hend)]
    exact iff_of_true (fun _ => rfl) fun h => absurd h hend

/-- **The offset after a failure.** Four of the functions keep it. The two for messages keep it
exactly if there is no room for the length, or the length is zero, or the message behind the length
ends in the buffer and the library succeeds. -/
theorem offset_kept_iff (type : StoredType α) (pb : PBWriter ε) (reader : PBType ε) (mem : Memory)
    (buflen uselen : UInt64) :
    (∀ x : α, OffsetKept uselen (serialize type mem buflen uselen x).success
      (serialize type mem buflen uselen x).uselen) ∧
    (∀ x : α, OffsetKept uselen (unSerialize type.toElemType mem buflen uselen x).success
      (unSerialize type.toElemType mem buflen uselen x).uselen) ∧
    (∀ bin binlen, OffsetKept uselen (serializeBinary mem buflen uselen bin binlen).success
      (serializeBinary mem buflen uselen bin binlen).uselen) ∧
    (∀ bin binlen, OffsetKept uselen (unSerializeBinary mem buflen uselen bin binlen).success
      (unSerializeBinary mem buflen uselen bin binlen).uselen) ∧
    (∀ elem, OffsetKept uselen (serializeProtobuf pb mem buflen uselen elem).success
        (serializeProtobuf pb mem buflen uselen elem).uselen ↔
      (uselen + 8 ≤ buflen → pb.protobufLen elem ≠ 0 →
        uselen + 8 + pb.protobufLen elem ≤ buflen ∧ (pb.serializeAt mem uselen elem).1 = true)) ∧
    ∀ elem, OffsetKept uselen (unSerializeProtobuf reader mem buflen uselen elem).success
        (unSerializeProtobuf reader mem buflen uselen elem).uselen ↔
      (uselen + 8 ≤ buflen → protobufLen mem uselen ≠ 0 →
        uselen + 8 + protobufLen mem uselen ≤ buflen ∧
          (reader.parseAt mem uselen elem).1 = true) :=
  ⟨fun _ => serializeBytes_kept, fun _ => unSerializeBytes_kept,
    fun _ _ => serializeBytes_kept, fun _ _ => unSerializeBytes_kept,
    fun _ => serializeProtobuf_kept_iff, fun _ => unSerializeProtobuf_kept_iff⟩

end Protobuf

/-- A message of three bytes that are all zero. -/
def threeBytes : PBWriter Unit where
  byteSize _ := 3
  serializeWithCachedSizesToArray mem start _ := (true, mem.write start [0, 0, 0])

/-- The length three and no bytes behind it. -/
def lengthOnly : Memory := fun offset => if offset = 0 then 3 else 0

/-- In a buffer of ten bytes there is room for the length only, and it is skipped. -/
theorem length_skipped :
    (serializeProtobuf threeBytes lengthOnly 10 0 ()).success = false ∧
    (serializeProtobuf threeBytes lengthOnly 10 0 ()).uselen = 8 ∧
    (unSerializeProtobuf emptyMessage lengthOnly 10 0 ()).success = false ∧
    (unSerializeProtobuf emptyMessage lengthOnly 10 0 ()).uselen = 8 := by
  decide

end Lsf.Serialize
