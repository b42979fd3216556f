import Lsf.Foundations.Cursor
import Lsf.Foundations.SecondaryIndex

/-!
# A manager across a restart

When a server goes down each manager writes its elements into a segment of shared memory, and when
the server comes up again the manager reads them from there. The segment has the number of the
elements and then each element with its size before it.

The messages themselves are written and read by the protobuf library, which is a parameter. Sizes of
segments are natural numbers, as no memory has more than `2 ^ 64` bytes.

## Main definitions

* `Protobuf` — a type of messages
* `serialize`, `unSerialize`, `serializeProtobuf`, `unSerializeProtobuf` — the source's functions
* `BasicManager.release`, `BasicManager.init`

## Main results

* `rebuilt_after_release`, `not_rebuilt_without_key_or_room`
-/

namespace Lsf.Svr

variable {κ ε : Type}

/-- What the library does with the messages of a type, which are `empty` when they are made. -/
structure Protobuf (ε : Type) where
  empty : ε
  byteSize : ε → ℕ
  serializeToArray : ε → List UInt8
  parseFromArray : List UInt8 → Option ε

/-- The functions of the library are inverse to each other; a message that was just made has no
bytes, and sizes are of type `int`. -/
structure Protobuf.Exact (pb : Protobuf ε) : Prop where
  empty : pb.byteSize pb.empty = 0
  byteSize_lt : ∀ e, pb.byteSize e < 2 ^ 31
  length : ∀ e, (pb.serializeToArray e).length = pb.byteSize e
  parse : ∀ e, pb.parseFromArray (pb.serializeToArray e) = some e

/-- The size of a message is of type `int`. -/
def Protobuf.Fits (pb : Protobuf ε) (e : ε) : Prop := pb.byteSize e < 2 ^ 31

/-- The functions of the library are inverse to each other where the sizes are of type `int`. -/
structure Protobuf.Inverse (pb : Protobuf ε) : Prop where
  empty : pb.byteSize pb.empty = 0
  length : ∀ e, pb.Fits e → (pb.serializeToArray e).length = pb.byteSize e
  parse : ∀ e, pb.Fits e → pb.parseFromArray (pb.serializeToArray e) = some e

theorem Protobuf.Exact.inverse {pb : Protobuf ε} (hpb : pb.Exact) : pb.Inverse :=
  ⟨hpb.empty, fun e _ => hpb.length e, fun e _ => hpb.parse e⟩

theorem Protobuf.Inverse.fits_empty {pb : Protobuf ε} (hpb : pb.Inverse) : pb.Fits pb.empty := by
  rw [Protobuf.Fits, hpb.empty]
  decide

/-- The segments of shared memory. -/
structure SharedMem where
  segments : Table Int32 (List UInt8)
  /-- The calls to the system succeed. -/
  usable : Bool

namespace SharedMem

/-- `IsShmExist`. -/
def isShmExist (key : Int32) (shm : SharedMem) : Bool := (shm.segments.lookup key).isSome

/-- `Delete`, and whether it succeeds. -/
def delete (key : Int32) (shm : SharedMem) : Bool × SharedMem :=
  if shm.usable && shm.isShmExist key then (true, { shm with segments := shm.segments.erase key })
  else (false, shm)

/-- `Create`, of a segment that does not exist. -/
def create (key : Int32) (size : ℕ) (shm : SharedMem) : Bool × SharedMem :=
  if shm.usable then
    (true, { shm with segments := shm.segments.insert key (List.replicate size 0) })
  else (false, shm)

end SharedMem

/-! ### Serialization -/

/-- `sizeof(size_t)`. -/
def sizeofSize : ℕ := 8

/-- `Serialize` of a `size_t`. -/
def serialize (n : ℕ) : Cursor UInt8 → Option (Cursor UInt8) :=
  Cursor.put sizeofSize (littleEndian sizeofSize n)

/-- `UnSerialize` of a `size_t`. -/
def unSerialize (c : Cursor UInt8) : Option (ℕ × Cursor UInt8) :=
  (c.get sizeofSize).map fun (bytes, c) => (ofLittleEndian bytes, c)

section Messages

variable (pb : Protobuf ε)

/-- `SerializeProtobuf`, none where the buffer is too short. -/
def serializeProtobuf (e : ε) (c : Cursor UInt8) : Option (Cursor UInt8) :=
  let protobufLen := pb.byteSize e
  (serialize protobufLen c).bind fun c =>
    if protobufLen = 0 then some c else c.put protobufLen (pb.serializeToArray e)

/-- `UnSerializeProtobuf` into a message that was just made. -/
def unSerializeProtobuf (c : Cursor UInt8) : Option (ε × Cursor UInt8) :=
  (unSerialize c).bind fun (protobufLen, c) =>
    if protobufLen = 0 then some (pb.empty, c)
    else (c.get protobufLen).bind fun (bytes, c) => (pb.parseFromArray bytes).map (·, c)

end Messages

/-! ### Managers -/

/-- The manager of elements of a type `ε` with keys of a type `κ`. -/
structure BasicManager (κ ε : Type) where
  isInit : Bool := false
  map : Table κ ε := ∅
  shmKey : Int32
  maxSize : UInt64

namespace BasicManager

section Release

variable (pb : Protobuf ε)

/-- The `byte_size` that `Release` counts. -/
def byteSize (m : BasicManager κ ε) : ℕ :=
  m.map.entries.foldl (fun n e => n + pb.byteSize e.2 + sizeofSize) sizeofSize

/-- Every element of a list is serialized. -/
def serializeAll : List ε → Cursor UInt8 → Option (Cursor UInt8)
  | [], c => some c
  | e :: es, c => (serializeProtobuf pb e c).bind (serializeAll es)

/-- What `Release` writes into a segment. -/
def write (m : BasicManager κ ε) (segment : List UInt8) : Option (Cursor UInt8) :=
  let c := (serialize m.map.entries.length ⟨segment, 0⟩).getD ⟨segment, 0⟩
  serializeAll pb (m.map.entries.map fun e => e.2) c

/-- `Release`. -/
def release (m : BasicManager κ ε) (shm : SharedMem) : Bool × SharedMem :=
  -- just ignore empty shm key
  if m.shmKey = 0 then (true, shm)
  else
    let (deleted, shm) :=
      if shm.isShmExist m.shmKey then shm.delete m.shmKey else (true, shm)
    if deleted = false then (false, shm)
    else
      let (created, shm) := shm.create m.shmKey (m.byteSize pb)
      if created = false then (false, shm)
      else
        match m.write pb ((shm.segments.lookup m.shmKey).getD []) with
        | none => (false, shm)
        | some c => (true, { shm with segments := shm.segments.insert m.shmKey c.items })

end Release

variable [DecidableEq κ] (pb : Protobuf ε) (getKey : ε → κ)

/-- The loop of `Init` that recovers `n` elements. -/
def recover : ℕ → Table κ ε → Cursor UInt8 → Option (Table κ ε)
  | 0, map, _ => some map
  | n + 1, map, c =>
    -- recover from buffer, and insert into map
    (unSerializeProtobuf pb c).bind fun (e, c) => recover n (map.insert (getKey e) e) c

/-- `Init` of a fresh manager. -/
def init (shmKey : Int32) (maxSize : UInt64) (shm : SharedMem) :
    Option (BasicManager κ ε × SharedMem) :=
  if maxSize = 0 then none
  else if shmKey ≠ 0 ∧ shm.isShmExist shmKey = true then
    let start : Cursor UInt8 := ⟨(shm.segments.lookup shmKey).getD [], 0⟩
    let (elemSize, c) := (unSerialize start).getD (0, start)
    -- recover every elem, and delete shm
    (recover pb getKey (min elemSize maxSize.toNat) ∅ c).map fun map =>
      ({ isInit := true, map, shmKey, maxSize }, (shm.delete shmKey).2)
  else some ({ isInit := true, shmKey, maxSize }, shm)

end BasicManager

/-! ### Round trip -/

section RoundTrip

variable {pb : Protobuf ε} {e : ε} {es : List ε} {len : ℕ} {xs zs : List UInt8} {c : Cursor UInt8}

/-- The bytes of an element in a segment. -/
def encode (pb : Protobuf ε) (e : ε) : List UInt8 :=
  littleEndian sizeofSize (pb.byteSize e) ++ pb.serializeToArray e

theorem length_encode (hpb : pb.Inverse) (he : pb.Fits e) :
    (encode pb e).length = sizeofSize + pb.byteSize e := by
  rw [encode, List.length_append, length_littleEndian, hpb.length e he]

theorem serialize_wrote (n : ℕ) (hc : c.Wrote len xs) (hfit : xs.length + sizeofSize ≤ len) :
    ∃ c', serialize n c = some c' ∧ c'.Wrote len (xs ++ littleEndian sizeofSize n) := by
  have hput := hc.put (littleEndian sizeofSize n) (by rwa [length_littleEndian])
  rwa [length_littleEndian] at hput

theorem serializeProtobuf_wrote (hpb : pb.Inverse) (he : pb.Fits e) (hc : c.Wrote len xs)
    (hfit : xs.length + (encode pb e).length ≤ len) :
    ∃ c', serializeProtobuf pb e c = some c' ∧ c'.Wrote len (xs ++ encode pb e) := by
  rw [length_encode hpb he] at hfit
  have hlength := hpb.length e he
  obtain ⟨c₁, hc₁, hwrote₁⟩ := serialize_wrote (pb.byteSize e) hc (by omega)
  rw [serializeProtobuf, hc₁, Option.bind_some, encode, ← List.append_assoc]
  split_ifs with hzero
  · have hnil : pb.serializeToArray e = [] := List.length_eq_zero_iff.mp (hlength.trans hzero)
    exact ⟨c₁, rfl, by rwa [hnil, List.append_nil]⟩
  · have hput := hwrote₁.put (pb.serializeToArray e) (by
      rw [List.length_append, length_littleEndian, hlength]
      omega)
    rwa [hlength] at hput

theorem serializeAll_wrote (hpb : pb.Inverse) (hes : ∀ e ∈ es, pb.Fits e) (hc : c.Wrote len xs)
    (hfit : xs.length + (es.flatMap (encode pb)).length ≤ len) :
    ∃ c', BasicManager.serializeAll pb es c = some c' ∧
      c'.Wrote len (xs ++ es.flatMap (encode pb)) := by
  induction es generalizing xs c with
  | nil => exact ⟨c, rfl, by rwa [List.flatMap_nil, List.append_nil]⟩
  | cons e es ih =>
    rw [List.flatMap_cons, List.length_append] at hfit
    obtain ⟨he, hes⟩ := List.forall_mem_cons.mp hes
    obtain ⟨c₁, hc₁, hwrote₁⟩ := serializeProtobuf_wrote hpb he hc (by omega)
    obtain ⟨c', hc', hwrote⟩ := ih hes hwrote₁ (by rw [List.length_append]; omega)
    rw [List.append_assoc] at hwrote
    exact ⟨c', by rw [BasicManager.serializeAll, hc₁]; exact hc', hwrote⟩

theorem unSerialize_split {n : ℕ} (hn : n < 2 ^ 64) (xs zs : List UInt8) :
    unSerialize ⟨xs ++ littleEndian sizeofSize n ++ zs, xs.length⟩ =
      some (n, ⟨xs ++ littleEndian sizeofSize n ++ zs,
        (xs ++ littleEndian sizeofSize n).length⟩) := by
  have hget := Cursor.get_of_split xs (littleEndian sizeofSize n) zs
  rw [length_littleEndian] at hget
  rw [unSerialize, hget, Option.map_some]
  simp only
  rw [ofLittleEndian_littleEndian (by rw [sizeofSize]; omega)]

theorem unSerializeProtobuf_split (hpb : pb.Inverse) (he : pb.Fits e) (xs zs : List UInt8) :
    unSerializeProtobuf pb ⟨xs ++ encode pb e ++ zs, xs.length⟩ =
      some (e, ⟨xs ++ encode pb e ++ zs, (xs ++ encode pb e).length⟩) := by
  have hlength := hpb.length e he
  have hlen := unSerialize_split (Nat.lt_trans he (by omega)) xs (pb.serializeToArray e ++ zs)
  have hassoc : xs ++ littleEndian sizeofSize (pb.byteSize e) ++ (pb.serializeToArray e ++ zs) =
      xs ++ encode pb e ++ zs := by simp only [encode, List.append_assoc]
  rw [hassoc] at hlen
  rw [unSerializeProtobuf, hlen, Option.bind_some]
  simp only
  split_ifs with hzero
  · -- a message without bytes is one that was just made
    have hnil : pb.serializeToArray e = [] := List.length_eq_zero_iff.mp (hlength.trans hzero)
    have hempty : pb.serializeToArray pb.empty = [] :=
      List.length_eq_zero_iff.mp ((hpb.length _ hpb.fits_empty).trans hpb.empty)
    have hsame : pb.empty = e := by
      have hparse := hpb.parse pb.empty hpb.fits_empty
      rw [hempty, ← hnil, hpb.parse e he] at hparse
      exact (Option.some.inj hparse).symm
    rw [hsame, encode, hnil, List.append_nil]
  · have hget := Cursor.get_of_split (xs ++ littleEndian sizeofSize (pb.byteSize e))
      (pb.serializeToArray e) zs
    rw [hlength, List.append_assoc xs] at hget
    rw [encode, hget, Option.bind_some]
    simp only [hpb.parse e he, Option.map_some, List.append_assoc]

variable [DecidableEq κ] {getKey : ε → κ}

theorem recover_split (hpb : pb.Inverse) (hes : ∀ e ∈ es, pb.Fits e) (map : Table κ ε) :
    BasicManager.recover pb getKey es.length map ⟨xs ++ es.flatMap (encode pb), xs.length⟩ =
      some (es.foldl (fun map e => map.insert (getKey e) e) map) := by
  induction es generalizing xs map with
  | nil => rfl
  | cons e es ih =>
    obtain ⟨he, hes⟩ := List.forall_mem_cons.mp hes
    rw [List.length_cons, List.flatMap_cons, ← List.append_assoc, BasicManager.recover,
      unSerializeProtobuf_split hpb he xs _, Option.bind_some]
    exact ih hes (map.insert (getKey e) e)

end RoundTrip

namespace BasicManager

variable {pb : Protobuf ε} {m : BasicManager κ ε}

/-- The elements of a manager, in the order of its map. -/
def elems (m : BasicManager κ ε) : List ε := m.map.entries.map fun e => e.2

/-- The bytes of the segment of a manager. -/
def contents (pb : Protobuf ε) (m : BasicManager κ ε) : List UInt8 :=
  littleEndian sizeofSize m.map.entries.length ++ m.elems.flatMap (encode pb)

/-- The sizes of all elements are of type `int`. -/
def Fits (pb : Protobuf ε) (m : BasicManager κ ε) : Prop := ∀ e ∈ m.elems, pb.Fits e

theorem fits_of_exact (hpb : pb.Exact) : m.Fits pb := fun e _ => hpb.byteSize_lt e

theorem byteSize_eq_of_fits (hpb : pb.Inverse) (hm : m.Fits pb) :
    m.byteSize pb = (m.contents pb).length := by
  have hfold : ∀ (l : List (Sigma fun _ : κ => ε)) (n : ℕ), (∀ e ∈ l, pb.Fits e.2) →
      l.foldl (fun n e => n + pb.byteSize e.2 + sizeofSize) n =
        n + ((l.map fun e => e.2).flatMap (encode pb)).length := by
    intro l
    induction l with
    | nil => exact fun n _ => rfl
    | cons e l ih =>
      intro n hl
      obtain ⟨he, hl⟩ := List.forall_mem_cons.mp hl
      rw [List.foldl_cons, ih _ hl, List.map_cons, List.flatMap_cons, List.length_append,
        length_encode hpb he]
      omega
  rw [byteSize, hfold _ _ fun e he => hm e.2 (List.mem_map_of_mem he), contents, List.length_append,
    length_littleEndian]
  rfl

/-- `Release` counts as many bytes as it writes. -/
theorem byteSize_eq (hpb : pb.Exact) : m.byteSize pb = (m.contents pb).length :=
  byteSize_eq_of_fits hpb.inverse (fits_of_exact hpb)

theorem write_eq_of_fits (hpb : pb.Inverse) (hm : m.Fits pb) {segment : List UInt8}
    (hlen : segment.length = m.byteSize pb) :
    m.write pb segment = some ⟨m.contents pb, m.byteSize pb⟩ := by
  rw [byteSize_eq_of_fits hpb hm] at hlen ⊢
  have hsize : (m.contents pb).length =
      sizeofSize + (m.elems.flatMap (encode pb)).length := by
    rw [contents, List.length_append, length_littleEndian]
  obtain ⟨c₁, hc₁, hwrote₁⟩ := serialize_wrote m.map.entries.length
    (Cursor.wrote_start segment) (by rw [List.length_nil]; omega)
  obtain ⟨c', hc', hwrote⟩ := serializeAll_wrote hpb hm hwrote₁ (by
    rw [List.nil_append, length_littleEndian]
    omega)
  have hfull : c' = ⟨m.contents pb, (m.contents pb).length⟩ := by
    have hitems := hwrote.items_eq hlen.symm
    have hpos := hwrote.pos
    obtain ⟨items, pos⟩ := c'
    simp only at hitems hpos
    rw [hitems, hpos]
    rfl
  rw [write, hc₁, Option.getD_some, ← hfull]
  exact hc'

theorem write_eq (hpb : pb.Exact) {segment : List UInt8} (hlen : segment.length = m.byteSize pb) :
    m.write pb segment = some ⟨m.contents pb, m.byteSize pb⟩ :=
  write_eq_of_fits hpb.inverse (fits_of_exact hpb) hlen

/-- The size that `Release` counts is that of the bytes that it writes. -/
def WritesAll (pb : Protobuf ε) (m : BasicManager κ ε) : Prop :=
  ∀ segment : List UInt8, segment.length = m.byteSize pb →
    ∃ c, m.write pb segment = some c ∧ c.pos = m.byteSize pb ∧ c.items.length = m.byteSize pb

variable [DecidableEq κ] {getKey : ε → κ} {maxSize : UInt64} {shm : SharedMem}

/-- `Release` and then `Init` of a fresh manager succeed, and the map is the same again. -/
def Rebuilds (pb : Protobuf ε) (getKey : ε → κ) (maxSize : UInt64) (shm : SharedMem)
    (m : BasicManager κ ε) : Prop :=
  ∃ shm' m' shm'', m.release pb shm = (true, shm') ∧
    init pb getKey m.shmKey maxSize shm' = some (m', shm'') ∧
    ∀ key, m'.map.lookup key = m.map.lookup key

omit [DecidableEq κ] in
theorem release_eq_of_fits (hpb : pb.Inverse) (hm : m.Fits pb) (hshm : shm.usable = true)
    (hkey : m.shmKey ≠ 0) :
    ∃ shm', m.release pb shm = (true, shm') ∧
      shm'.segments.lookup m.shmKey = some (m.contents pb) := by
  have hcreated : ∀ shm : SharedMem, shm.usable = true → ∃ shm',
      shm.create m.shmKey (m.byteSize pb) = (true, shm') ∧
      shm'.segments.lookup m.shmKey = some (List.replicate (m.byteSize pb) 0) := fun shm hshm =>
    ⟨_, if_pos hshm, AList.lookup_insert _⟩
  have hdeleted : ∃ shm', (if shm.isShmExist m.shmKey = true then shm.delete m.shmKey
      else (true, shm)) = (true, shm') ∧ shm'.usable = true := by
    split_ifs with hexist
    · exact ⟨_, if_pos (by rw [hshm, hexist]; rfl), hshm⟩
    · exact ⟨shm, rfl, hshm⟩
  obtain ⟨shm₁, hdelete, hshm₁⟩ := hdeleted
  obtain ⟨shm₂, hcreate, hlookup⟩ := hcreated shm₁ hshm₁
  have hwrite := write_eq_of_fits hpb hm (List.length_replicate (n := m.byteSize pb) (a := 0))
  rw [release, if_neg hkey, hdelete]
  simp only [Bool.true_eq_false, if_false, hcreate, hlookup, Option.getD_some, hwrite]
  exact ⟨_, rfl, AList.lookup_insert _⟩

omit [DecidableEq κ] in
/-- The segment has the elements after `Release`. -/
theorem release_eq (hpb : pb.Exact) (hshm : shm.usable = true) (hkey : m.shmKey ≠ 0) :
    ∃ shm', m.release pb shm = (true, shm') ∧
      shm'.segments.lookup m.shmKey = some (m.contents pb) :=
  release_eq_of_fits hpb.inverse (fits_of_exact hpb) hshm hkey

variable (getKey) in
theorem init_eq_of_fits (hpb : pb.Inverse) (hm : m.Fits pb)
    (hcount : m.map.entries.length ≤ maxSize.toNat) (hsize : maxSize ≠ 0) (hkey : m.shmKey ≠ 0)
    (hsegment : shm.segments.lookup m.shmKey = some (m.contents pb)) :
    ∃ m' shm', init pb getKey m.shmKey maxSize shm = some (m', shm') ∧
      m'.map = m.elems.foldl (fun map e => map.insert (getKey e) e) ∅ := by
  have hexist : shm.isShmExist m.shmKey = true := by rw [SharedMem.isShmExist, hsegment]; rfl
  have hread : unSerialize ⟨m.contents pb, 0⟩ = some (m.map.entries.length,
      ⟨m.contents pb, (littleEndian sizeofSize m.map.entries.length).length⟩) :=
    unSerialize_split (Nat.lt_of_le_of_lt hcount maxSize.toNat_lt) [] _
  have hrecover : recover pb getKey (min m.map.entries.length maxSize.toNat) ∅
      ⟨m.contents pb, (littleEndian sizeofSize m.map.entries.length).length⟩ =
      some (m.elems.foldl (fun map e => map.insert (getKey e) e) ∅) := by
    rw [Nat.min_eq_left hcount,
      ← show m.elems.length = m.map.entries.length from List.length_map ..]
    exact recover_split hpb hm ∅
  rw [init, if_neg hsize, if_pos ⟨hkey, hexist⟩]
  simp only [hsegment, Option.getD_some, hread, hrecover, Option.map_some]
  exact ⟨_, _, rfl, rfl⟩

variable (getKey) in
/-- `Init` reads what is in the segment. -/
theorem init_eq (hpb : pb.Exact) (hcount : m.map.entries.length ≤ maxSize.toNat)
    (hsize : maxSize ≠ 0) (hkey : m.shmKey ≠ 0)
    (hsegment : shm.segments.lookup m.shmKey = some (m.contents pb)) :
    ∃ m' shm', init pb getKey m.shmKey maxSize shm = some (m', shm') ∧
      m'.map = m.elems.foldl (fun map e => map.insert (getKey e) e) ∅ :=
  init_eq_of_fits getKey hpb.inverse (fits_of_exact hpb) hcount hsize hkey hsegment

end BasicManager

open BasicManager

/-- **A manager is the same again after a restart**, where it has a key for the shared memory and
there is room for its elements and for one at least. -/
theorem rebuilt_after_release [DecidableEq κ] {pb : Protobuf ε} (hpb : pb.Exact) {getKey : ε → κ}
    {m : BasicManager κ ε} (hkeys : ∀ key e, m.map.lookup key = some e → getKey e = key)
    {maxSize : UInt64} (hcount : m.map.entries.length ≤ maxSize.toNat) {shm : SharedMem}
    (hshm : shm.usable = true) (hkey : m.shmKey ≠ 0) (hsize : maxSize ≠ 0) :
    m.Rebuilds pb getKey maxSize shm ∧ m.WritesAll pb := by
  constructor
  · obtain ⟨shm', hrelease, hsegment⟩ := release_eq hpb hshm hkey
    obtain ⟨m', shm'', hinit, hmap⟩ := init_eq getKey hpb hcount hsize hkey hsegment
    refine ⟨shm', m', shm'', hrelease, hinit, fun key => ?_⟩
    rw [hmap]
    exact Table.lookup_foldl_insert hkeys key
  · intro segment hlen
    exact ⟨_, write_eq hpb hlen, rfl, (byteSize_eq hpb).symm⟩

/-- Messages whose only field is an `optional bool` of number 1. Without the field there are no
bytes, and else there is its tag and its value. -/
def optionalBool : Protobuf (Option Bool) where
  empty := none
  byteSize
    | none => 0
    | some _ => 2
  serializeToArray
    | none => []
    | some b => [0x08, if b then 1 else 0]
  parseFromArray
    | [] => some none
    | [tag, b] => if tag = 0x08 then some (some (b ≠ 0)) else none
    | _ => none

theorem optionalBool_exact : optionalBool.Exact where
  empty := rfl
  byteSize_lt
    | none => by decide
    | some _ => show 2 < 2 ^ 31 by decide
  length e := by cases e <;> rfl
  parse
    | none => rfl
    | some false => rfl
    | some true => rfl

/-- Three elements, one of them without bytes. -/
theorem rebuilt_with_empty_element :
    let m : BasicManager (Option Bool) (Option Bool) :=
      { map := ((AList.insert none none ∅).insert (some true) (some true)).insert (some false)
          (some false), shmKey := 7, maxSize := 3 }
    m.Rebuilds optionalBool id 4 ⟨∅, true⟩ ∧ m.WritesAll optionalBool := by
  intro m
  have hkeys : ∀ key e, m.map.lookup key = some e → id e = key := by
    intro key e hlookup
    rw [Table.lookup_insert, Table.lookup_insert, Table.lookup_insert] at hlookup
    split_ifs at hlookup with h₁ h₂ h₃
    · exact (Option.some.inj hlookup).symm.trans h₁.symm
    · exact (Option.some.inj hlookup).symm.trans h₂.symm
    · exact (Option.some.inj hlookup).symm.trans h₃.symm
    · cases hlookup
  exact rebuilt_after_release optionalBool_exact hkeys (by decide) rfl (by decide) (by decide)

/-- With the key 0 nothing is written, and without room for an element the manager refuses to
start. -/
theorem not_rebuilt_without_key_or_room :
    (¬ ∀ (m : BasicManager (Option Bool) (Option Bool)) (maxSize : UInt64) (shm : SharedMem),
      (∀ key e, m.map.lookup key = some e → e = key) → m.map.entries.length ≤ maxSize.toNat →
        shm.usable = true → maxSize ≠ 0 → m.Rebuilds optionalBool id maxSize shm) ∧
    ¬ ∀ (m : BasicManager (Option Bool) (Option Bool)) (maxSize : UInt64) (shm : SharedMem),
      (∀ key e, m.map.lookup key = some e → e = key) → m.map.entries.length ≤ maxSize.toNat →
        shm.usable = true → m.shmKey ≠ 0 → m.Rebuilds optionalBool id maxSize shm := by
  constructor
  · intro hall
    have hkeys : ∀ key e, (AList.insert (some true) (some true)
        (∅ : Table (Option Bool) (Option Bool))).lookup key = some e → e = key := by
      intro key e hlookup
      rw [Table.lookup_insert] at hlookup
      split_ifs at hlookup with h
      · exact (Option.some.inj hlookup).symm.trans h.symm
      · cases hlookup
    obtain ⟨shm', m', shm'', hrelease, hinit, hmap⟩ :=
      hall ⟨false, AList.insert (some true) (some true) ∅, 0, 1⟩ 1 ⟨∅, true⟩ hkeys (by decide) rfl
        (by decide)
    cases hrelease
    cases hinit
    cases (hmap (some true)).symm.trans (AList.lookup_empty _)
  · intro hall
    obtain ⟨shm', m', shm'', -, hinit, -⟩ :=
      hall ⟨false, ∅, 7, 1⟩ 0 ⟨∅, true⟩ (by simp) (by decide) rfl (by decide)
    cases hinit

end Lsf.Svr
