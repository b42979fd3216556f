import Lsf.Foundations.StreamSplitter
import Mathlib.Algebra.Group.Nat.Defs
import Mathlib.Data.Nat.Notation

/-!
# Messages in a byte stream

A message is sent as a packed header, two magic bytes and a length in network byte order, followed
by its content. The length counts the header.

The elements of a stream are values of any type with a byte value, so that a stream can carry more
than its bytes, such as where each of them came from.

## Main definitions

* `getSingleMessageFromStream`, `putSingleMessageIntoStream` — the source's functions
* `frames` — the splitter they make

## Main results

* `getSingleMessageFromStream_put_iff` — which messages can be got back
* `parse_put` — what was put into a stream is what is got from it
-/

namespace Lsf.Svr

variable {β : Type}

/-! ### Header -/

/-- `msg::MAGIC`. -/
def MAGIC : UInt8 × UInt8 := (0xf8, 0x8f)

/-- `msg::Header`, packed: two magic bytes and a 32-bit length. -/
structure Header where
  magic : UInt8 × UInt8
  length : ℕ

/-- `sizeof(msg::Header)`. -/
def sizeofHeader : ℕ := 6

/-- The host value of a length in network byte order. -/
def ntohl (b₀ b₁ b₂ b₃ : UInt8) : ℕ :=
  b₀.toNat * 2 ^ 24 + b₁.toNat * 2 ^ 16 + b₂.toNat * 2 ^ 8 + b₃.toNat

/-- A 32-bit length in network byte order. -/
def htonl (n : ℕ) : List UInt8 :=
  [UInt8.ofNat (n / 2 ^ 24), UInt8.ofNat (n / 2 ^ 16), UInt8.ofNat (n / 2 ^ 8), UInt8.ofNat n]

/-- The header at the start of a buffer, after `ntoh`. -/
def Header.load : List UInt8 → Header
  | m₀ :: m₁ :: b₀ :: b₁ :: b₂ :: b₃ :: _ => ⟨(m₀, m₁), ntohl b₀ b₁ b₂ b₃⟩
  | _ => ⟨(0, 0), 0⟩

/-- The bytes of a header, after `hton`. -/
def Header.store (header : Header) : List UInt8 :=
  header.magic.1 :: header.magic.2 :: htonl header.length

/-! ### The functions -/

/-- `GetSingleMessageFromStream`: the content and the new `pos`, or none where it returns false. -/
def getSingleMessageFromStream (val : β → UInt8) (buffer : List β) (pos : ℕ) :
    Option (List β × ℕ) :=
  if pos = buffer.length then none
  else
    let start := buffer.drop pos
    let length := buffer.length - pos
    if length < sizeofHeader then none
    else
      let header := Header.load (start.map val)
      if length < header.length then none
      else if header.magic ≠ MAGIC ∨ header.length ≤ sizeofHeader then none
      else some ((buffer.drop (pos + sizeofHeader)).take (header.length - sizeofHeader),
        pos + header.length)

/-- `PutSingleMessageIntoStream`: the bytes of a message. The length is a 32-bit field. -/
def putSingleMessageIntoStream (content : List UInt8) : List UInt8 :=
  Header.store ⟨MAGIC, (sizeofHeader + content.length) % 2 ^ 32⟩ ++ content

/-! ### As a splitter -/

theorem load_append {b : List UInt8} (h : sizeofHeader ≤ b.length) (x : List UInt8) :
    Header.load (b ++ x) = Header.load b := by
  rcases b with _ | ⟨m₀, _ | ⟨m₁, _ | ⟨b₀, _ | ⟨b₁, _ | ⟨b₂, _ | ⟨b₃, b⟩⟩⟩⟩⟩⟩
  all_goals first | rfl | (simp [sizeofHeader] at h)

variable {val : β → UInt8} {b c r x : List β} {buffer : List β} {pos pos' : ℕ}

/-- What is got at a position depends only on what comes after it. -/
theorem getSingleMessageFromStream_drop (hpos : pos ≤ buffer.length) :
    getSingleMessageFromStream val buffer pos =
      (getSingleMessageFromStream val (buffer.drop pos) 0).map fun p => (p.1, pos + p.2) := by
  have hend : pos = buffer.length ↔ 0 = buffer.length - pos := by omega
  simp only [getSingleMessageFromStream, List.length_drop, Nat.sub_zero,
    List.drop_drop, Nat.zero_add, Nat.add_zero, hend]
  split_ifs <;> rfl

/-- The conditions under which a message is got from the start of a buffer, and what it is. -/
theorem getSingleMessageFromStream_zero_eq_some :
    getSingleMessageFromStream val b 0 = some (c, pos') ↔
      sizeofHeader ≤ b.length ∧ pos' = (Header.load (b.map val)).length ∧ pos' ≤ b.length ∧
        (Header.load (b.map val)).magic = MAGIC ∧ sizeofHeader < pos' ∧
          c = (b.drop sizeofHeader).take (pos' - sizeofHeader) := by
  simp only [getSingleMessageFromStream, List.drop_zero, Nat.sub_zero, Nat.zero_add]
  generalize (Header.load (b.map val)) = header
  split_ifs with h₀ h₁ h₂ h₃
  · simp only [false_iff]
    rintro ⟨hlen, -⟩
    simp only [sizeofHeader] at hlen
    omega
  · simp only [false_iff]
    omega
  · simp only [false_iff]
    omega
  · simp only [false_iff]
    rintro ⟨-, rfl, -, hmagic, hlt, -⟩
    exact h₃.elim (fun hne => hne hmagic) fun hle => by omega
  · simp only [Option.some.injEq, Prod.mk.injEq]
    rw [not_or, not_not] at h₃
    constructor
    · rintro ⟨rfl, rfl⟩
      exact ⟨by omega, rfl, by omega, h₃.1, by omega, rfl⟩
    · rintro ⟨-, rfl, -, -, -, rfl⟩
      exact ⟨rfl, rfl⟩

/-- The first message of a stream, and the stream after it. -/
def splitFrame (val : β → UInt8) (b : List β) : Option (List β × List β) :=
  (getSingleMessageFromStream val b 0).map fun p => (p.1, b.drop p.2)

theorem splitFrame_eq_some : splitFrame val b = some (c, r) ↔
    ∃ pos', getSingleMessageFromStream val b 0 = some (c, pos') ∧ r = b.drop pos' := by
  simp only [splitFrame, Option.map_eq_some_iff, Prod.mk.injEq, Prod.exists]
  constructor
  · rintro ⟨c', pos', h, rfl, rfl⟩
    exact ⟨pos', h, rfl⟩
  · rintro ⟨pos', h, rfl⟩
    exact ⟨c, pos', h, rfl, rfl⟩

/-- **The answers of `GetSingleMessageFromStream` are stable when the buffer grows.** -/
def frames (val : β → UInt8) : Splitter β (List β) where
  split := splitFrame val
  shorter {b c r} h := by
    obtain ⟨pos', hget, rfl⟩ := splitFrame_eq_some.mp h
    obtain ⟨-, -, hle, -, hlt, -⟩ := getSingleMessageFromStream_zero_eq_some.mp hget
    rw [List.length_drop]
    omega
  stable {b c r} x h := by
    obtain ⟨pos', hget, rfl⟩ := splitFrame_eq_some.mp h
    obtain ⟨hlen, hpos, hle, hmagic, hlt, hc⟩ := getSingleMessageFromStream_zero_eq_some.mp hget
    have hload : Header.load ((b ++ x).map val) = Header.load (b.map val) := by
      rw [List.map_append, load_append (by simpa using hlen)]
    refine splitFrame_eq_some.mpr ⟨pos', getSingleMessageFromStream_zero_eq_some.mpr
      ⟨by rw [List.length_append]; omega, by rw [hload]; exact hpos, by
        rw [List.length_append]; omega, by rw [hload]; exact hmagic, hlt, ?_⟩, ?_⟩
    · rw [hc, List.drop_append_of_le_length hlen, List.take_append_of_le_length]
      rw [List.length_drop]
      omega
    · rw [List.drop_append_of_le_length hle]

/-- The messages of a stream do not depend on what its elements carry besides their values. -/
theorem parse_map_frames {γ : Type} (f : β → γ) (val : γ → UInt8) (b : List β) :
    (frames val).parse (b.map f) = (((frames (val ∘ f)).parse b).1.map (List.map f),
      ((frames (val ∘ f)).parse b).2.map f) := by
  refine Splitter.parse_map (fun b => ?_) b
  show splitFrame val (b.map f) = (splitFrame (val ∘ f) b).map _
  simp only [splitFrame, getSingleMessageFromStream, List.length_map, List.map_drop, List.map_map]
  split_ifs <;> simp

/-- The content of a message starts behind its header. -/
theorem getElem?_zero_of_split {content : List β}
    (h : (frames val).split b = some (content, r)) :
    sizeofHeader < b.length ∧ content[0]? = b[sizeofHeader]? := by
  obtain ⟨pos', hget, -⟩ := splitFrame_eq_some.mp h
  obtain ⟨-, -, hle, -, hlt, rfl⟩ := getSingleMessageFromStream_zero_eq_some.mp hget
  refine ⟨by omega, ?_⟩
  rw [List.getElem?_take_of_lt (by omega), List.getElem?_drop, Nat.add_zero]

theorem rest_suffix_of_split (h : (frames val).split b = some (c, r)) : r <:+ b := by
  obtain ⟨pos', -, rfl⟩ := splitFrame_eq_some.mp h
  exact List.drop_suffix _ _

/-- What is left of a buffer is its end. -/
theorem parse_rest_suffix (b : List β) : ((frames val).parse b).2 <:+ b := by
  induction b using (frames val).parse_induction with
  | none b hs =>
    have hrest : ((frames val).parse b).2 = b := by rw [Splitter.parse_of_none hs]
    exact ⟨[], hrest⟩
  | some b c r hs ih =>
    rw [Splitter.parse_of_some hs]
    exact ih.trans (rest_suffix_of_split hs)

/-! ### Round trip -/

theorem ntohl_htonl {n : ℕ} (hn : n < 2 ^ 32) {b₀ b₁ b₂ b₃ : UInt8}
    (h : htonl n = [b₀, b₁, b₂, b₃]) : ntohl b₀ b₁ b₂ b₃ = n := by
  simp only [htonl, List.cons.injEq, and_true] at h
  obtain ⟨rfl, rfl, rfl, rfl⟩ := h
  simp only [ntohl, UInt8.toNat_ofNat']
  omega

theorem length_put (content : List UInt8) :
    (putSingleMessageIntoStream content).length = sizeofHeader + content.length := by
  simp [putSingleMessageIntoStream, Header.store, htonl, sizeofHeader]
  omega

/-- The header that is read where a message was put. -/
theorem load_put (content x : List UInt8) :
    Header.load (putSingleMessageIntoStream content ++ x) =
      ⟨MAGIC, (sizeofHeader + content.length) % 2 ^ 32⟩ := by
  have hlt : (sizeofHeader + content.length) % 2 ^ 32 < 2 ^ 32 := Nat.mod_lt _ (by decide)
  show Header.mk MAGIC (ntohl _ _ _ _) = _
  rw [ntohl_htonl hlt rfl]

/-- A message is got back from the start of a buffer if its length is neither that of a header
alone nor too large for the field. -/
theorem get_put_zero_iff (content x : List UInt8) :
    getSingleMessageFromStream id (putSingleMessageIntoStream content ++ x) 0 =
        some (content, (putSingleMessageIntoStream content).length) ↔
      content ≠ [] ∧ content.length < 2 ^ 32 - 6 := by
  have hdrop : (putSingleMessageIntoStream content ++ x).drop sizeofHeader = content ++ x := rfl
  rw [getSingleMessageFromStream_zero_eq_some, List.map_id, load_put, hdrop, List.length_append,
    length_put, ← List.length_pos_iff]
  simp only [sizeofHeader]
  constructor
  · rintro ⟨-, hlength, -, -, hlt, -⟩
    have hmod := Nat.mod_lt (6 + content.length) (show 0 < 2 ^ 32 by decide)
    omega
  · rintro ⟨hpos, hlen⟩
    refine ⟨by omega, (Nat.mod_eq_of_lt (by omega)).symm, by omega, trivial, by omega, ?_⟩
    rw [Nat.add_sub_cancel_left, List.take_left]

/-- **A message is got back from where it was put** exactly if it is not empty and its length
leaves room for the header in the 32-bit field. A message outside these limits is put into the
stream all the same. -/
theorem getSingleMessageFromStream_put_iff (front content rest : List UInt8) :
    getSingleMessageFromStream id (front ++ putSingleMessageIntoStream content ++ rest)
        front.length =
        some (content, front.length + (putSingleMessageIntoStream content).length) ↔
      content ≠ [] ∧ content.length < 2 ^ 32 - 6 := by
  rw [getSingleMessageFromStream_drop (by simp), List.append_assoc, List.drop_left,
    ← get_put_zero_iff content rest, Option.map_eq_some_iff]
  constructor
  · rintro ⟨⟨c, pos'⟩, hget, heq⟩
    simp only [Prod.mk.injEq, Nat.add_left_cancel_iff] at heq
    rw [hget, heq.1, heq.2]
  · intro hget
    exact ⟨_, hget, rfl⟩

/-- The empty message is sent and is never got back. -/
theorem empty_message_is_not_got : ¬ ∀ front content rest : List UInt8,
    getSingleMessageFromStream id (front ++ putSingleMessageIntoStream content ++ rest)
        front.length =
      some (content, front.length + (putSingleMessageIntoStream content).length) := by
  intro h
  exact absurd (h [] [] []) (by decide)

/-- A message that was put into a stream is the first one that is got from it. -/
theorem splitFrame_put {content : List UInt8} (hne : content ≠ [])
    (hlen : content.length < 2 ^ 32 - 6) (x : List UInt8) :
    splitFrame id (putSingleMessageIntoStream content ++ x) = some (content, x) :=
  splitFrame_eq_some.mpr ⟨_, (get_put_zero_iff content x).mpr ⟨hne, hlen⟩, by rw [List.drop_left]⟩

/-- **What was put into a stream is what is got from it**, once each and in order. -/
theorem parse_put {contents : List (List UInt8)}
    (h : ∀ content ∈ contents, content ≠ [] ∧ content.length < 2 ^ 32 - 6) :
    (frames id).parse (contents.map putSingleMessageIntoStream).flatten = (contents, []) := by
  induction contents with
  | nil => exact Splitter.parse_of_none rfl
  | cons content contents ih =>
    have hc := h content List.mem_cons_self
    have hfirst := splitFrame_put hc.1 hc.2 (contents.map putSingleMessageIntoStream).flatten
    rw [List.map_cons, List.flatten_cons, Splitter.parse_of_some (S := frames id) hfirst,
      ih fun c hmem => h c (List.mem_cons_of_mem _ hmem)]

end Lsf.Svr
