import Lsf.Svr.DataServer

/-!
# Keys of the store

A key is the number of a type of data, the id and two letters, with dots between them. It is printed
into a buffer of 256 bytes, of which the last is for the end of the text, and what does not fit
would be left out.

A type is any number that a variable of the enumeration may have, and is printed as a `size_t`.

## Main definitions

* `snprintf`, `convertDataKey`, `convertControlInfoKey` — with the buffer

## Main results

* `snprintf_format` — a key fits in the buffer
* `convertDataKey_number`, `convertControlInfoKey_number` — the keys of the handlers
-/

namespace Lsf.StorageKeys

/-- What is in a buffer of `size` bytes after a text was printed into it, up to the end of text. -/
def snprintf (size : ℕ) (text : List Char) : List Char := text.take (size - 1)

/-- `(size_t)type`. -/
def sizeT (type : Int32) : UInt64 := type.toInt64.toUInt64

/-- The text of `"%lu.%lu.dt"`, or with other letters at the end. -/
def format (letters : List Char) (type : Int32) (id : UInt64) : List Char :=
  Nat.toDigits 10 (sizeT type).toNat ++ '.' :: (Nat.toDigits 10 id.toNat ++ '.' :: letters)

/-- `ConvertDataKey`. -/
def convertDataKey (type : Int32) (id : UInt64) : String :=
  String.ofList (snprintf 256 (format ['d', 't'] type id))

/-- `ConvertControlInfoKey`. -/
def convertControlInfoKey (type : Int32) (id : UInt64) : String :=
  String.ofList (snprintf 256 (format ['c', 'i'] type id))

variable {letters letters' : List Char} {type type' : Int32} {id id' : UInt64}

/-- A number of 64 bits has 20 digits at most. -/
theorem length_toDigits_le (n : UInt64) : (Nat.toDigits 10 n.toNat).length ≤ 20 := by
  have hlt := n.toNat_lt
  exact (Nat.length_toDigits_le_iff (by decide) (by decide)).mpr (by omega)

/-- **A key fits in the buffer.** -/
theorem snprintf_format (hletters : letters.length = 2) :
    snprintf 256 (format letters type id) = format letters type id := by
  have htype := length_toDigits_le (sizeT type)
  have hid := length_toDigits_le id
  refine List.take_of_length_le ?_
  rw [format, List.length_append, List.length_cons, List.length_append, List.length_cons, hletters]
  omega

theorem toUInt64_injective : Function.Injective Int64.toUInt64 := by
  rintro ⟨x⟩ ⟨y⟩ h
  exact congrArg Int64.ofUInt64 h

theorem sizeT_injective (h : sizeT type = sizeT type') : type = type' := by
  have hwide : type.toInt64 = type'.toInt64 := toUInt64_injective h
  have hint := congrArg Int64.toInt hwide
  rw [Int32.toInt_toInt64, Int32.toInt_toInt64] at hint
  exact Int32.toInt_inj.mp hint

/-- Type, id and letters can be read off a key. -/
theorem snprintf_format_inj (hletters : letters.length = 2) (hletters' : letters'.length = 2)
    (h : String.ofList (snprintf 256 (format letters type id)) =
      String.ofList (snprintf 256 (format letters' type' id'))) :
    type = type' ∧ id = id' ∧ letters = letters' := by
  rw [snprintf_format hletters, snprintf_format hletters'] at h
  obtain ⟨htype, hid, hsame⟩ := DataSvr.toDigits_dot_inj (String.ofList_injective h)
  exact ⟨sizeT_injective (UInt64.toNat.inj htype), UInt64.toNat.inj hid, hsame⟩

/-! ### The keys of the handlers -/

open DataSvr (DataKey ENDataType)

theorem sizeT_number (type : ENDataType) :
    (sizeT (Int32.ofNat type.number)).toNat = type.number := by
  cases type <;> rfl

/-- For the types that there are, the keys are those of the handlers. -/
theorem convertDataKey_number (key : DataKey) :
    convertDataKey (Int32.ofNat key.type.number) key.id = DataSvr.convertDataKey key := by
  apply String.toList_injective
  rw [convertDataKey, String.toList_ofList, snprintf_format rfl, format, sizeT_number,
    DataSvr.toList_convertDataKey]

theorem convertControlInfoKey_number (key : DataKey) :
    convertControlInfoKey (Int32.ofNat key.type.number) key.id =
      DataSvr.convertControlInfoKey key := by
  apply String.toList_injective
  rw [convertControlInfoKey, String.toList_ofList, snprintf_format rfl, format, sizeT_number,
    DataSvr.toList_convertControlInfoKey]

/-- **Keys never clash**, and none is cut at the end of the buffer. -/
theorem keys_never_clash :
    (∀ type type' id id', convertDataKey type id = convertDataKey type' id' →
      type = type' ∧ id = id') ∧
    (∀ type type' id id', convertControlInfoKey type id = convertControlInfoKey type' id' →
      type = type' ∧ id = id') ∧
    (∀ type type' id id', convertDataKey type id ≠ convertControlInfoKey type' id') ∧
    ∀ type id, (format ['d', 't'] type id).length < 256 ∧
      (format ['c', 'i'] type id).length < 256 := by
  refine ⟨fun type type' id id' h => ?_, fun type type' id id' h => ?_,
    fun type type' id id' h => ?_, fun type id => ?_⟩
  · obtain ⟨htype, hid, -⟩ := snprintf_format_inj rfl rfl h
    exact ⟨htype, hid⟩
  · obtain ⟨htype, hid, -⟩ := snprintf_format_inj rfl rfl h
    exact ⟨htype, hid⟩
  · obtain ⟨-, -, hsame⟩ := snprintf_format_inj rfl rfl h
    exact absurd hsame (by decide)
  · have htype := length_toDigits_le (sizeT type)
    have hid := length_toDigits_le id
    simp only [format, List.length_append, List.length_cons, List.length_nil]
    omega

end Lsf.StorageKeys
