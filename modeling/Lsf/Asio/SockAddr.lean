import Lsf.Util.StringExt
import Lsf.Util.TypeCast

/-!
# Socket addresses

A socket address is an internet address of one of two families with a port. Its text is the text of
the address and the port, with a bar between them, and is read back by splitting it at the bar.

The bytes of an address and of a port are in network order. The functions that convert the bytes of
an address to text and back are parameters, `Inet`; what is used of them is in `Inet.Documented`.
The system's structures are read through a union: `SockaddrType` has its parts in the order of their
offsets, and one part is the address of one family and the flow information of the other.

## Main definitions

* `Address`, `SockAddr` — with the source's constructors and comparisons
* `Inet`, `Inet.Documented` — `inet_ntop` and `inet_pton`

## Main results

* `Address.equal_v6` — of an IPv6 address four bytes are compared
* `ofString_toString` — a text is read back
* `equal_v4`, `equal_v6` — what the comparison says for each family
-/

namespace Lsf.Asio

open Lsf.TypeCast
open Lsf.StringExt (splitGet Delimit)

/-- The bytes of an address, in network order. -/
inductive Address
  | v4 (bytes : Vector UInt8 4)
  | v6 (bytes : Vector UInt8 16)
  deriving DecidableEq

/-- The address is one of IPv4. -/
def Address.isV4 : Address → Bool
  | v4 _ => true
  | v6 _ => false

/-- `inet_ntop` and `inet_pton` for each family. -/
structure Inet where
  ntop4 : Vector UInt8 4 → List UInt8
  ntop6 : Vector UInt8 16 → List UInt8
  pton4 : List UInt8 → Option (Vector UInt8 4)
  pton6 : List UInt8 → Option (Vector UInt8 16)

/-- `DEF_DELIMIT`. -/
def defDelimit : List UInt8 := [124]

/-- Texts are read back, those of IPv6 are no texts of IPv4, and none has a bar in it. -/
structure Inet.Documented (inet : Inet) : Prop where
  pton4_ntop4 : ∀ bytes, inet.pton4 (inet.ntop4 bytes) = some bytes
  pton6_ntop6 : ∀ bytes, inet.pton6 (inet.ntop6 bytes) = some bytes
  pton4_ntop6 : ∀ bytes, inet.pton4 (inet.ntop6 bytes) = none
  bar_notMem_ntop4 : ∀ bytes, 124 ∉ inet.ntop4 bytes
  bar_notMem_ntop6 : ∀ bytes, 124 ∉ inet.ntop6 bytes

/-- The bytes of `"0.0.0.0"` are all zero. -/
def Address.any : Address := .v4 (Vector.replicate 4 0)

/-- The constructor from a text tries both families. -/
def Address.ofString (inet : Inet) (ipStr : List UInt8) : Address :=
  match inet.pton4 ipStr with
  | some bytes => .v4 bytes
  | none =>
    match inet.pton6 ipStr with
    | some bytes => .v6 bytes
    | none => .any

/-- `ToString()` of an address. -/
def Address.toString (inet : Inet) : Address → List UInt8
  | .v4 bytes => inet.ntop4 bytes
  | .v6 bytes => inet.ntop6 bytes

/-- `memcmp` of two ranges of one length. -/
def memcmp : List UInt8 → List UInt8 → ℤ
  | x :: p, y :: q => if x = y then memcmp p q else x.toNat - y.toNat
  | _, _ => 0

/-- `operator==` of addresses. Both families compare as many bytes as an IPv4 address has. -/
def Address.equal : Address → Address → Bool
  | .v4 own, .v4 rhs => memcmp (own.toList.take 4) (rhs.toList.take 4) == 0
  | .v6 own, .v6 rhs => memcmp (own.toList.take 4) (rhs.toList.take 4) == 0
  | _, _ => false

/-- The address family. -/
inductive Domain
  | v4
  | v6
  deriving DecidableEq

/-- `AF_INET` and `AF_INET6`. -/
def Domain.family : Domain → UInt16
  | v4 => 2
  | v6 => 10

/-- The union of `sockaddr_in` and `sockaddr_in6`. The four bytes behind the port are `sin_addr` of
the one and `sin6_flowinfo` of the other. -/
structure SockaddrType where
  family : UInt16
  port : UInt16
  word : Vector UInt8 4
  sin6Addr : Vector UInt8 16

/-- A socket address, with all bytes of the union. -/
structure SockAddr where
  domain : Domain
  sockaddr : SockaddrType

namespace SockAddr

/-- The two bytes of a number change places. -/
def htons (x : UInt16) : UInt16 := UInt16.ofNat (x.toNat % 256 * 256 + x.toNat / 256)

/-- `ntohs`, which swaps the two bytes. -/
def ntohs (x : UInt16) : UInt16 := UInt16.ofNat (x.toNat % 256 * 256 + x.toNat / 256)

/-- `IsV4()`. -/
def isV4 (self : SockAddr) : Bool := self.domain = .v4

/-- The constructor from an address and a port, which leaves some of the memory as it was. -/
def ofAddress (memory : SockaddrType) (address : Address) (port : UInt16) : SockAddr :=
  match address with
  | .v4 bytes => ⟨.v4, { memory with
      family := Domain.v4.family, port := htons port, word := bytes }⟩
  | .v6 bytes => ⟨.v6, { memory with
      family := Domain.v6.family, port := htons port, word := Vector.replicate 4 0,
      sin6Addr := bytes }⟩

/-- The part of a text with a given index. There is one for every index. -/
def part (str : List UInt8) (index : ℕ) : List UInt8 :=
  (splitGet (str.length + 2) str (.string defDelimit) index false).getD []

/-- A socket address from its text. -/
def ofString (inet : Inet) (memory : SockaddrType) (str : List UInt8) : SockAddr :=
  ofAddress memory (.ofString inet (part str 0)) (typeCastUInt16 (part str 1))

/-- `GetPort()`. -/
def getPort (self : SockAddr) : UInt16 := ntohs self.sockaddr.port

/-- `GetAddress()`. -/
def getAddress (self : SockAddr) : Address :=
  if self.isV4 then .v4 self.sockaddr.word else .v6 self.sockaddr.sin6Addr

/-- `ToString()`, the address and the port. -/
def toString (inet : Inet) (self : SockAddr) : List UInt8 :=
  self.getAddress.toString inet ++ defDelimit ++ typeCastString self.getPort.toNat

/-- `operator==`. For IPv6 the bytes of the own address are compared with themselves, and what
`memcmp` gives counts as true if it is not zero. -/
def equal (self rhs : SockAddr) : Bool :=
  if self.isV4 then
    self.sockaddr.family == rhs.sockaddr.family &&
      self.sockaddr.word == rhs.sockaddr.word &&
      self.sockaddr.port == rhs.sockaddr.port
  else
    self.sockaddr.family == rhs.sockaddr.family &&
      self.sockaddr.port == rhs.sockaddr.port &&
      self.sockaddr.word == rhs.sockaddr.word &&
      memcmp self.sockaddr.sin6Addr.toList self.sockaddr.sin6Addr.toList != 0

end SockAddr

/-! ### Comparing bytes -/

theorem memcmp_self (p : List UInt8) : memcmp p p = 0 := by
  induction p with
  | nil => rfl
  | cons x p ih => rw [memcmp, if_pos rfl, ih]

theorem memcmp_eq_zero_iff {p q : List UInt8} (hlen : p.length = q.length) :
    memcmp p q = 0 ↔ p = q := by
  induction p generalizing q with
  | nil =>
    rw [List.length_nil, eq_comm, List.length_eq_zero_iff] at hlen
    subst hlen
    exact iff_of_true rfl rfl
  | cons x p ih =>
    rcases q with _ | ⟨y, q⟩
    · cases hlen
    rw [memcmp, List.cons.injEq]
    by_cases hxy : x = y
    · rw [if_pos hxy, ih (Nat.succ.inj hlen), and_iff_right hxy]
    · rw [if_neg hxy, iff_false_right (fun h => hxy h.1)]
      intro h
      exact hxy (UInt8.toNat.inj (by omega))

/-- Two IPv6 addresses that begin with the same four bytes compare as equal. -/
theorem Address.equal_v6 (own rhs : Vector UInt8 16) :
    (Address.v6 own).equal (.v6 rhs) = true ↔ own.toList.take 4 = rhs.toList.take 4 := by
  rw [equal, beq_iff_eq, memcmp_eq_zero_iff (by simp)]

theorem Address.equal_v4 (own rhs : Vector UInt8 4) :
    (Address.v4 own).equal (.v4 rhs) = true ↔ own = rhs := by
  rw [equal, beq_iff_eq, memcmp_eq_zero_iff (by simp), List.take_of_length_le (by simp),
    List.take_of_length_le (by simp), Vector.toList_inj]

namespace SockAddr

variable {inet : Inet} {memory memory' : SockaddrType} {address address' : Address}
  {port port' : UInt16}

/-! ### The text -/

theorem ntohs_htons (x : UInt16) : ntohs (htons x) = x := by
  have hlt := x.toNat_lt
  have hswap : x.toNat % 256 * 256 + x.toNat / 256 < 2 ^ 16 := by omega
  have hlow : (x.toNat % 256 * 256 + x.toNat / 256) % 256 = x.toNat / 256 := by omega
  have hhigh : (x.toNat % 256 * 256 + x.toNat / 256) / 256 = x.toNat % 256 := by omega
  apply UInt16.toNat.inj
  rw [ntohs, htons, UInt16.toNat_ofNat', UInt16.toNat_ofNat', Nat.mod_eq_of_lt hswap, hlow, hhigh,
    Nat.div_add_mod', Nat.mod_eq_of_lt hlt]

theorem htons_injective (h : htons port = htons port') : port = port' := by
  rw [← ntohs_htons port, h, ntohs_htons]

theorem getPort_ofAddress : (ofAddress memory address port).getPort = port := by
  cases address <;> exact ntohs_htons port

theorem getAddress_ofAddress : (ofAddress memory address port).getAddress = address := by
  cases address <;> rfl

theorem addressOfString_toString (h : inet.Documented) (address : Address) :
    Address.ofString inet (address.toString inet) = address := by
  cases address with
  | v4 bytes => simp only [Address.ofString, Address.toString, h.pton4_ntop4]
  | v6 bytes => simp only [Address.ofString, Address.toString, h.pton4_ntop6, h.pton6_ntop6]

theorem bar_notMem_toString (h : inet.Documented) (address : Address) :
    124 ∉ address.toString inet := by
  cases address with
  | v4 bytes => exact h.bar_notMem_ntop4 bytes
  | v6 bytes => exact h.bar_notMem_ntop6 bytes

/-- A text with one bar has two parts. -/
theorem part_of_bar {front back : List UInt8} (hfront : 124 ∉ front) (hback : 124 ∉ back)
    (index : ℕ) : part (front ++ defDelimit ++ back) index = [front, back].getD index [] := by
  have hjoin : front ++ defDelimit ++ back = [124].intercalate [front, back] := by
    simp [defDelimit, List.intercalate]
  have hfree : ∀ piece ∈ [front, back], 124 ∉ piece :=
    List.forall_mem_cons.mpr ⟨hfront, List.forall_mem_singleton.mpr hback⟩
  have hget := StringExt.splitGet_eq ([124].intercalate [front, back]) (.string defDelimit) index
    false 0
  rw [Nat.add_zero, defDelimit, StringExt.piecesFrom_string,
    List.splitOn_intercalate 124 hfree (List.cons_ne_nil _ _)] at hget
  rw [part, hjoin, defDelimit, hget, Option.getD_some]

/-- **A text is read back**: address and port are those that it was made from. -/
theorem ofString_toString (h : inet.Documented) :
    ofString inet memory' ((ofAddress memory address port).toString inet) =
      ofAddress memory' address port := by
  have hport : 124 ∉ typeCastString port.toNat :=
    TypeCast.notMem_numeralString (by decide) (by decide) rfl
  have hpart := part_of_bar (bar_notMem_toString h address) hport
  rw [toString, getAddress_ofAddress, getPort_ofAddress, ofString, hpart 0, hpart 1]
  change ofAddress memory' (.ofString inet (address.toString inet))
    (typeCastUInt16 (typeCastString port.toNat)) = _
  rw [addressOfString_toString h, typeCastUInt16_typeCastString]

/-! ### The comparison -/

/-- Of IPv4 the comparison looks at all that the constructor was given. -/
theorem equal_v4 (bytes bytes' : Vector UInt8 4) :
    (ofAddress memory (.v4 bytes) port).equal (ofAddress memory' (.v4 bytes') port') = true ↔
      bytes = bytes' ∧ port = port' := by
  have hport : (htons port == htons port') = true ↔ port = port' := by
    rw [beq_iff_eq]
    exact ⟨htons_injective, congrArg htons⟩
  simp only [equal, ofAddress, isV4, decide_true, if_true, beq_self_eq_true, Bool.true_and,
    Bool.and_eq_true, hport, beq_iff_eq]

/-- **No IPv6 address is equal to any**, not to itself either. -/
theorem equal_v6 {self rhs : SockAddr} (h : self.isV4 = false) : self.equal rhs = false := by
  rw [equal, h, if_neg Bool.false_ne_true, memcmp_self]
  exact Bool.and_false _

end SockAddr

/-! ### Uncompressed texts

The texts that the system's functions give for addresses without zeros to leave out. -/

/-- Numbers in a base with a mark between them. -/
def joinNumerals (base : ℕ) (mark : UInt8) (ns : List ℕ) : List UInt8 :=
  [mark].intercalate (ns.map (numeralString base))

/-- The numbers of a text between its marks. -/
def splitNumerals (base : ℕ) (mark : UInt8) (text : List UInt8) : List ℕ :=
  (text.splitOn mark).map fun piece => numeralValue base (digitsOf base piece)

section Numerals

variable {base : ℕ} {mark c : UInt8} {ns : List ℕ}

theorem splitNumerals_joinNumerals (hbase : 1 < base) (hle : base ≤ 36)
    (hmark : digitOf mark = none) (hne : ns ≠ []) :
    splitNumerals base mark (joinNumerals base mark ns) = ns := by
  have hfree : ∀ piece ∈ ns.map (numeralString base), mark ∉ piece := by
    intro piece hpiece
    obtain ⟨n, -, rfl⟩ := List.mem_map.mp hpiece
    exact notMem_numeralString hbase hle hmark
  rw [splitNumerals, joinNumerals,
    List.splitOn_intercalate mark hfree (mt List.map_eq_nil_iff.mp hne), List.map_map]
  have hid : (fun piece => numeralValue base (digitsOf base piece)) ∘ numeralString base = id := by
    funext n
    exact numeralValue_digitsOf hbase hle
  rw [hid, List.map_id]

theorem notMem_joinNumerals (hbase : 1 < base) (hle : base ≤ 36) (hc : digitOf c = none)
    (hmark : c ≠ mark) : c ∉ joinNumerals base mark ns := by
  rw [joinNumerals]
  induction ns with
  | nil => exact List.not_mem_nil
  | cons n ns ih =>
    rw [List.map_cons, StringExt.intercalate_cons, List.mem_append, not_or]
    refine ⟨notMem_numeralString hbase hle hc, ?_⟩
    split
    · exact List.not_mem_nil
    · rw [List.mem_cons, not_or]
      exact ⟨hmark, ih⟩

end Numerals

/-- Two bytes are one number. -/
def groups : List UInt8 → List ℕ
  | x :: y :: bytes => (x.toNat * 256 + y.toNat) :: groups bytes
  | _ => []

/-- The bytes of groups of 16 bits. -/
def ungroup (ns : List ℕ) : List UInt8 := ns.flatMap fun n => [UInt8.ofNat (n / 256), UInt8.ofNat n]

/-- The vector of a list that has the length for it. -/
def ofList (n : ℕ) (bytes : List UInt8) : Option (Vector UInt8 n) :=
  if h : bytes.length = n then some ⟨bytes.toArray, h⟩ else none

/-- A text is accepted if it is the text of what is read from it. -/
def Inet.uncompressed : Inet where
  ntop4 bytes := joinNumerals 10 46 (bytes.toList.map UInt8.toNat)
  ntop6 bytes := joinNumerals 16 58 (groups bytes.toList)
  pton4 text :=
    let ns := splitNumerals 10 46 text
    if joinNumerals 10 46 ns = text ∧ ∀ n ∈ ns, n < 2 ^ 8 then ofList 4 (ns.map UInt8.ofNat)
    else none
  pton6 text :=
    let ns := splitNumerals 16 58 text
    if joinNumerals 16 58 ns = text ∧ ∀ n ∈ ns, n < 2 ^ 16 then ofList 16 (ungroup ns) else none

theorem ofList_toList {n : ℕ} (bytes : Vector UInt8 n) : ofList n bytes.toList = some bytes := by
  rw [ofList, dif_pos (Vector.length_toList)]
  exact congrArg some (Vector.toList_inj.mp rfl)

theorem groups_lt (bytes : List UInt8) : ∀ n ∈ groups bytes, n < 2 ^ 16 := by
  induction bytes using groups.induct with
  | case1 x y bytes ih =>
    have hx := x.toNat_lt
    have hy := y.toNat_lt
    rw [groups]
    exact List.forall_mem_cons.mpr ⟨by omega, ih⟩
  | case2 bytes h => simp [groups]

theorem ungroup_groups (bytes : List UInt8) (heven : bytes.length % 2 = 0) :
    ungroup (groups bytes) = bytes := by
  induction bytes using groups.induct with
  | case1 x y bytes ih =>
    have hy := y.toNat_lt
    have hhigh : (x.toNat * 256 + y.toNat) / 256 = x.toNat := by omega
    have hlow : UInt8.ofNat (x.toNat * 256 + y.toNat) = y := by
      apply UInt8.toNat.inj
      rw [UInt8.toNat_ofNat']
      omega
    rw [List.length_cons, List.length_cons] at heven
    have ih := ih (by omega)
    rw [ungroup] at ih ⊢
    rw [groups, List.flatMap_cons, ih, hhigh, hlow, UInt8.ofNat_toNat]
    rfl
  | case2 bytes h =>
    rcases bytes with _ | ⟨x, _ | ⟨y, bytes⟩⟩
    · rfl
    · cases heven
    · exact absurd rfl (h x y bytes)

theorem Inet.uncompressed_documented : Inet.uncompressed.Documented where
  pton4_ntop4 bytes := by
    have hne : bytes.toList.map UInt8.toNat ≠ [] := by
      rw [ne_eq, ← List.length_eq_zero_iff, List.length_map, Vector.length_toList]
      decide
    have hlt : ∀ n ∈ bytes.toList.map UInt8.toNat, n < 2 ^ 8 := by
      intro n hn
      obtain ⟨x, -, rfl⟩ := List.mem_map.mp hn
      exact x.toNat_lt
    have hid : UInt8.ofNat ∘ UInt8.toNat = id := by
      funext x
      exact UInt8.ofNat_toNat
    simp only [uncompressed]
    rw [splitNumerals_joinNumerals (by decide) (by decide) rfl hne, if_pos ⟨rfl, hlt⟩,
      List.map_map, hid, List.map_id, ofList_toList]
  pton6_ntop6 bytes := by
    have hne : groups bytes.toList ≠ [] := by
      intro h
      have hnil := ungroup_groups bytes.toList (by rw [Vector.length_toList])
      have hlen := congrArg List.length hnil
      rw [h, Vector.length_toList] at hlen
      cases hlen
    simp only [uncompressed]
    rw [splitNumerals_joinNumerals (by decide) (by decide) rfl hne,
      if_pos ⟨rfl, groups_lt bytes.toList⟩, ungroup_groups _ (by rw [Vector.length_toList]),
      ofList_toList]
  pton4_ntop6 bytes := by
    -- Without a dot in it the text is one number.
    have hdot : 46 ∉ joinNumerals 16 58 (groups bytes.toList) :=
      notMem_joinNumerals (by decide) (by decide) rfl (by decide)
    have hone := List.splitOn_intercalate 46 (List.forall_mem_singleton.mpr hdot)
      (List.cons_ne_nil _ _)
    rw [List.intercalate_singleton] at hone
    simp only [uncompressed]
    rw [splitNumerals, hone, ofList, dif_neg (by simp), ite_self]
  bar_notMem_ntop4 bytes := notMem_joinNumerals (by decide) (by decide) rfl (by decide)
  bar_notMem_ntop6 bytes := notMem_joinNumerals (by decide) (by decide) rfl (by decide)

namespace SockAddr

/-! ### Both families -/

/-- The text gives an address that compares equal, and two addresses of one family compare as what
they are, for IPv4. An IPv6 address from its text never compares equal, and two IPv6 addresses
compare as what they are if they differ. -/
theorem equal_exact (h : inet.Documented) (memory memory' : SockaddrType) (address : Address)
    (port : UInt16) :
    ((ofString inet memory' ((ofAddress memory address port).toString inet)).equal
        (ofAddress memory address port) = true ↔ address.isV4 = true) ∧
    ∀ address' port', address.isV4 = address'.isV4 →
      (((ofAddress memory address port).equal (ofAddress memory' address' port') = true ↔
          address = address' ∧ port = port') ↔
        address.isV4 = true ∨ ¬(address = address' ∧ port = port')) := by
  rw [ofString_toString h]
  cases address with
  | v4 bytes =>
    refine ⟨iff_of_true ((equal_v4 bytes bytes).mpr ⟨rfl, rfl⟩) rfl, ?_⟩
    intro address' port' hfamily
    cases address' with
    | v6 bytes' => cases hfamily
    | v4 bytes' => exact iff_of_true (by rw [equal_v4, Address.v4.injEq]) (.inl rfl)
  | v6 bytes =>
    have hfalse : ∀ rhs memory, (ofAddress memory (.v6 bytes) port).equal rhs = false :=
      fun rhs memory => equal_v6 rfl
    constructor
    · rw [hfalse]
      exact iff_of_false Bool.false_ne_true Bool.false_ne_true
    · intro address' port' _
      rw [hfalse, Address.isV4]
      simp only [Bool.false_eq_true, false_iff, false_or]

/-- `192.168.101.111`. -/
def addressV4 : Address := .v4 #v[192, 168, 101, 111]

/-- `2001:1db8:1111:2222:3333:4444:5555:6666`. -/
def addressV6 : Address :=
  .v6 #v[0x20, 0x01, 0x1d, 0xb8, 0x11, 0x11, 0x22, 0x22, 0x33, 0x33, 0x44, 0x44, 0x55, 0x55, 0x66,
    0x66]

/-- A union of zeros. -/
def emptyMemory : SockaddrType := ⟨0, 0, Vector.replicate 4 0, Vector.replicate 16 0⟩

theorem equal_exact_addressV4 :
    (ofString .uncompressed emptyMemory
        ((ofAddress emptyMemory addressV4 8080).toString .uncompressed)).equal
          (ofAddress emptyMemory addressV4 8080) = true ∧
      ((ofAddress emptyMemory addressV4 8080).equal (ofAddress emptyMemory addressV4 443) = true ↔
        addressV4 = addressV4 ∧ (8080 : UInt16) = 443) := by
  have h := equal_exact Inet.uncompressed_documented emptyMemory emptyMemory addressV4 8080
  exact ⟨h.1.mpr rfl, (h.2 addressV4 443 rfl).mpr (.inl rfl)⟩

/-- An IPv6 address is not equal to what is read from its text, and not to itself. -/
theorem addressV6_not_equal :
    (ofString .uncompressed emptyMemory
        ((ofAddress emptyMemory addressV6 8080).toString .uncompressed)).equal
          (ofAddress emptyMemory addressV6 8080) = false ∧
      (ofAddress emptyMemory addressV6 8080).equal (ofAddress emptyMemory addressV6 8080) =
        false := by
  rw [ofString_toString Inet.uncompressed_documented]
  exact ⟨equal_v6 rfl, equal_v6 rfl⟩

end SockAddr

end Lsf.Asio
