import Lsf.Svr.ProxyTransfer

/-!
# Routing in the proxy server

The random modes start at a random slot and take the first slot after it that has a socket, whether
the socket is connected or not. The offset is drawn with a division by the number of slots, and the
mode with an exception ends at the excepted slot without looking whether there is such a slot.

## Main definitions

* `probes`, `firstOccupied` — the slots in the order in which the random modes look at them
* `Routable` — the inputs that the rules can deal with
* `Delivers` — what the random modes are for

## Main results

* `ensures_handleMessageTransfer` — what a message is handed to, mode by mode
* `handleMessageTransfer_completes_iff`
* `random_modes_deliver_iff`
-/

namespace Lsf.Proxy

open AcceptServerMsgTransferService (handOver transfers slot)

variable {s : AcceptServerMsgTransferService} {serverType : ENServerType}
  {sockList : List (Option ℕ)} {message : String} {calls : Random.Calls}

/-! ### The order of the slots -/

/-- There is a socket in the slot. -/
def occupied (sockList : List (Option ℕ)) (k : ℕ) : Bool := sockList[k]?.join.isSome

/-- `(i + rand) % size`, where the sum has 32 bits. -/
def probe (size : ℕ) (rand : UInt32) (i : ℕ) : ℕ := (UInt32.ofNat i + rand).toNat % size

/-- The slots that the loop of a random mode looks at, in this order. -/
def probes (size : ℕ) (rand : UInt32) : List ℕ :=
  (List.range (min size (2 ^ 32))).map (probe size rand)

/-- The first of them that has a socket and is not left out. -/
def firstOccupied (sockList : List (Option ℕ)) (skip : ℕ → Bool) (rand : UInt32) : Option ℕ :=
  (probes sockList.length rand).find? fun k => occupied sockList k && !skip k

/-- The offset that is drawn for a list of this size. -/
def Random.drawn (calls : Calls) (size : ℕ) : UInt32 :=
  UInt32.ofNat ((random calls (UInt32.ofNat size)).toNat % (size % 2 ^ 32))

theorem probe_lt {size : ℕ} (hsize : 0 < size) (rand : UInt32) (i : ℕ) :
    probe size rand i < size := Nat.mod_lt _ hsize

/-- Lists of a usual size are gone through completely. -/
theorem mem_probes_iff {size k : ℕ} {rand : UInt32} (hsize : size ≤ 2 ^ 31)
    (hrand : rand.toNat < size) : k ∈ probes size rand ↔ k < size := by
  have hprobe : ∀ i < size, probe size rand i = (i + rand.toNat) % size := by
    intro i hi
    rw [probe, UInt32.toNat_add, UInt32.toNat_ofNat', Nat.mod_eq_of_lt (by omega : i < 2 ^ 32),
      Nat.mod_eq_of_lt (by omega : i + rand.toNat < 2 ^ 32)]
  rw [probes, Nat.min_eq_left (by omega), List.mem_map]
  constructor
  · rintro ⟨i, -, rfl⟩
    exact probe_lt (by omega) rand i
  · intro hk
    by_cases hle : rand.toNat ≤ k
    · refine ⟨k - rand.toNat, List.mem_range.mpr (by omega), ?_⟩
      rw [hprobe _ (by omega), Nat.sub_add_cancel hle, Nat.mod_eq_of_lt hk]
    · refine ⟨k + size - rand.toNat, List.mem_range.mpr (by omega), ?_⟩
      rw [hprobe _ (by omega), Nat.sub_add_cancel (by omega), Nat.add_mod_right,
        Nat.mod_eq_of_lt hk]

theorem Random.drawn_lt {size : ℕ} (h0 : 0 < size) (hsize : size < 2 ^ 32) :
    (drawn calls size).toNat < size := by
  rw [drawn, UInt32.toNat_ofNat', Nat.mod_eq_of_lt hsize]
  exact lt_of_le_of_lt (Nat.mod_le _ _) (Nat.mod_lt _ h0)

/-- **`GetRand(0, size - 1)` divides by zero** where the size is a multiple of 2 ^ 32. -/
theorem ensures_getRand {size : ℕ} {Q : UInt32 → AcceptServerMsgTransferService → Prop} :
    Ensures (Random.getRand calls 0 (UInt32.ofNat size - 1)) s Q ↔
      size % 2 ^ 32 ≠ 0 ∧ Q (Random.drawn calls size) s := by
  have hoff : UInt32.ofNat size - 1 - 0 + 1 = UInt32.ofNat size := by
    rw [UInt32.sub_zero, UInt32.sub_add_cancel]
  rw [Random.getRand]
  by_cases hone : size % 2 ^ 32 = 1
  · have hsize : UInt32.ofNat size = 1 := by
      rw [← UInt32.ofNat_mod_size, hone]
      rfl
    have hdrawn : Random.drawn calls size = 0 := by
      rw [Random.drawn, hone, Nat.mod_one]
      rfl
    rw [hsize, if_pos (by decide), ensures_pure, hdrawn, hone]
    exact (and_iff_right Nat.one_ne_zero).symm
  · have hlast : ¬ UInt32.ofNat size - 1 ≤ 0 := by
      rw [UInt32.le_iff_toNat_le, UInt32.toNat_sub, UInt32.toNat_ofNat']
      simp
      omega
    rw [if_neg hlast, ensures_bind, ensures_remainder, hoff, UInt32.toNat_ofNat', ensures_pure,
      Random.drawn]
    simp

/-! ### The loops -/

theorem firstOccupied_eq_some {skip : ℕ → Bool} {rand : UInt32} {k : ℕ}
    (h : firstOccupied sockList skip rand = some k) :
    ∃ i < min sockList.length (2 ^ 32), probe sockList.length rand i = k ∧
      (occupied sockList k && !skip k) = true ∧ ∀ j < i,
        ¬ (occupied sockList (probe sockList.length rand j) &&
          !skip (probe sockList.length rand j)) = true := by
  rw [firstOccupied, probes, List.find?_map, Option.map_eq_some_iff] at h
  obtain ⟨i, hi, rfl⟩ := h
  obtain ⟨hocc, hmem, hbefore⟩ := List.find?_range_eq_some.mp hi
  exact ⟨i, List.mem_range.mp hmem, rfl, hocc, fun j hj => by
    simpa only [Function.comp_apply, Bool.not_eq_true, Bool.not_eq_true'] using hbefore j hj⟩

theorem firstOccupied_eq_none {skip : ℕ → Bool} {rand : UInt32} :
    firstOccupied sockList skip rand = none ↔
      ∀ k ∈ probes sockList.length rand, ¬ (occupied sockList k && !skip k) = true :=
  List.find?_eq_none

/-- One round of the loop of a random mode. -/
theorem ensures_tryIndex {skip : ℕ → Bool} {rand : UInt32} (hsize : 0 < sockList.length) (i : ℕ)
    {Q : Bool → AcceptServerMsgTransferService → Prop} :
    Ensures (tryIndex serverType sockList message skip rand (UInt32.ofNat i)) s Q ↔
      if occupied sockList (probe sockList.length rand i) &&
          !skip (probe sockList.length rand i) then
        Q true (s.handOver (s.transfers serverType (probe sockList.length rand i) message))
      else Q false s := by
  have hlt := probe_lt hsize rand i
  have hnat : (UInt32.ofNat (probe sockList.length rand i)).toNat =
      probe sockList.length rand i := by
    rw [UInt32.toNat_ofNat', Nat.mod_eq_of_lt]
    exact lt_of_le_of_lt (Nat.mod_le _ _) (UInt32.ofNat i + rand).toNat_lt
  rw [tryIndex, ensures_bind, ensures_remainder, ← probe, ensures_bind, ensures_elementAt hlt,
    and_iff_right hsize.ne', occupied, List.getElem?_eq_getElem hlt, Option.join_some]
  split_ifs
  · rw [ensures_bind, ensures_transferMessageByTypeAndId, ensures_pure, hnat]
  · rw [ensures_pure]

/-- **The loop of a random mode** sends to the first slot that has a socket and is not left out. -/
theorem ensures_tryLoop {skip : ℕ → Bool} {rand : UInt32}
    {Q : Bool → AcceptServerMsgTransferService → Prop} :
    Ensures (forLoop sockList.length (tryIndex serverType sockList message skip rand)
        (sockList.length + 1) 0) s Q ↔
      match firstOccupied sockList skip rand with
      | some k => Q true (s.handOver (s.transfers serverType k message))
      | none => sockList.length < 2 ^ 32 ∧ Q false s := by
  cases hfirst : firstOccupied sockList skip rand with
  | some k =>
    obtain ⟨i, hi, hik, hk, hbefore⟩ := firstOccupied_eq_some hfirst
    have hloop : Ensures (forLoop sockList.length
        (tryIndex serverType sockList message skip rand) (sockList.length + 1) 0) s fun b s' =>
          if b then s' = s.handOver (s.transfers serverType k message)
          else sockList.length < 2 ^ 32 ∧ s' = s ∧ sockList.length ≤ i := by
      refine ensures_forLoop (P := fun j s' => s' = s ∧ j ≤ i) ?_ ?_ ⟨rfl, Nat.zero_le i⟩
        (Nat.lt_succ_self _)
      · rintro j _ hsize - ⟨rfl, hj⟩
        rw [ensures_tryIndex (by omega)]
        obtain hlt | rfl := Nat.lt_or_eq_of_le hj
        · rw [if_neg (hbefore j hlt)]
          exact ⟨rfl, hlt⟩
        · rw [hik, if_pos hk]
          rfl
      · rintro hsize _ ⟨-, hle⟩
        omega
    obtain ⟨b, s', hrun, hend⟩ := hloop
    cases b with
    | true =>
      obtain rfl := hend
      exact Ensures.iff_of_run hrun
    | false =>
      obtain ⟨-, -, hle⟩ := hend
      omega
  | none =>
    have hnone := firstOccupied_eq_none.mp hfirst
    by_cases hsize : sockList.length < 2 ^ 32
    · have hloop : Ensures (forLoop sockList.length
          (tryIndex serverType sockList message skip rand) (sockList.length + 1) 0) s fun b s' =>
            if b then False else sockList.length < 2 ^ 32 ∧ s' = s := by
        refine ensures_forLoop (P := fun _ s' => s' = s) (Q := fun _ => False) ?_ (by omega) rfl
          (Nat.lt_succ_self _)
        rintro j _ hj hj' rfl
        have hmem : probe sockList.length rand j ∈ probes sockList.length rand :=
          List.mem_map.mpr ⟨j, List.mem_range.mpr (by omega), rfl⟩
        rw [ensures_tryIndex (by omega), if_neg (hnone _ hmem)]
        rfl
      obtain ⟨b, s', hrun, hend⟩ := hloop
      cases b with
      | true => exact hend.elim
      | false =>
        obtain ⟨-, rfl⟩ := hend
        exact (Ensures.iff_of_run hrun).trans (and_iff_right hsize).symm
    · refine iff_of_false (forLoop_endless (P := fun s' => s' = s) (by omega) ?_ rfl _ _)
        fun h => hsize h.1
      rintro i _ rfl
      have hi := i.toNat_lt
      have hmem : probe sockList.length rand i.toNat ∈ probes sockList.length rand :=
        List.mem_map.mpr ⟨i.toNat, List.mem_range.mpr (by omega), rfl⟩
      rw [← UInt32.ofNat_toNat (x := i), ensures_tryIndex (by omega), if_neg (hnone _ hmem)]
      exact ⟨rfl, rfl⟩

/-- One round of the loop of a broadcast. -/
theorem ensures_sendIndex (h : s.sockMap[serverType.number]? = some sockList) {i : UInt32}
    (hi : i.toNat < sockList.length) {Q : Bool → AcceptServerMsgTransferService → Prop} :
    Ensures (sendIndex serverType sockList message i) s Q ↔
      Q false (s.handOver (s.transfers serverType i.toNat message)) := by
  have hslot := AcceptServerMsgTransferService.slot_eq h i.toNat
  rw [List.getElem?_eq_getElem hi, Option.join_some] at hslot
  rw [sendIndex, ensures_bind, ensures_elementAt hi]
  cases hsock : sockList[i.toNat] with
  | none =>
    rw [hsock] at hslot
    simp [transfers, hslot]
  | some sockfd => simp [ensures_transferMessageByTypeAndId]

/-- **The loop of a broadcast** sends to all slots, and does not end when there are more slots than
the counter has values. -/
theorem ensures_broadcastLoop (h : s.sockMap[serverType.number]? = some sockList)
    {Q : Bool → AcceptServerMsgTransferService → Prop} :
    Ensures (forLoop sockList.length (sendIndex serverType sockList message)
        (sockList.length + 1) 0) s Q ↔
      sockList.length < 2 ^ 32 ∧ Q false (s.handOver ((List.range sockList.length).flatMap
        fun k => s.transfers serverType k message)) := by
  by_cases hsize : sockList.length < 2 ^ 32
  · have hloop : Ensures (forLoop sockList.length (sendIndex serverType sockList message)
        (sockList.length + 1) 0) s fun b s' => if b then False else sockList.length < 2 ^ 32 ∧
          s' = s.handOver ((List.range sockList.length).flatMap
            fun k => s.transfers serverType k message) := by
      refine ensures_forLoop (P := fun k s' => s' = s.handOver ((List.range k).flatMap
        fun k => s.transfers serverType k message)) (Q := fun _ => False) ?_ (by omega)
        (AcceptServerMsgTransferService.handOver_nil s).symm (Nat.lt_succ_self _)
      rintro k _ hk hk' rfl
      have hnat : (UInt32.ofNat k).toNat = k := by
        rw [UInt32.toNat_ofNat', Nat.mod_eq_of_lt hk']
      refine (ensures_sendIndex (s := s.handOver _) h (hnat.symm ▸ hk)).mpr ?_
      rw [hnat, List.range_succ, List.flatMap_append]
      simp
    obtain ⟨b, s', hrun, hend⟩ := hloop
    cases b with
    | true => exact hend.elim
    | false =>
      obtain ⟨-, rfl⟩ := hend
      exact (Ensures.iff_of_run hrun).trans (and_iff_right hsize).symm
  · refine iff_of_false (forLoop_endless (P := fun s' => s'.sockMap = s.sockMap) (by omega) ?_ rfl
      _ _) fun hend => hsize hend.1
    intro i s' hs'
    have hi := i.toNat_lt
    rw [ensures_sendIndex (hs'.symm ▸ h) (by omega)]
    exact ⟨rfl, hs'⟩

/-! ### The handler -/

theorem ensures_handleMessageTransfer_none
    {Q : Unit → AcceptServerMsgTransferService → Prop} :
    Ensures (handleMessageTransfer calls none message) s Q ↔ Q () s :=
  ensures_pure

/-- A message for a server type without a list is dropped. -/
theorem ensures_handleMessageTransfer_of_unknown {head : ProxyHead}
    (h : s.sockMap[head.getDstServerType.number]? = none)
    {Q : Unit → AcceptServerMsgTransferService → Prop} :
    Ensures (handleMessageTransfer calls (some head) message) s Q ↔ Q () s := by
  simp only [handleMessageTransfer, ensures_bind, ensures_get]
  rw [if_pos (List.getElem?_eq_none_iff.mp h), ensures_pure]

/-- What a message for a server type with a list is handed to, mode by mode. -/
def Handles (s : AcceptServerMsgTransferService) (sockList : List (Option ℕ))
    (calls : Random.Calls) (head : ProxyHead) (message : String)
    (Q : AcceptServerMsgTransferService → Prop) : Prop :=
  let size := sockList.length
  let send (k : ℕ) := s.transfers head.getDstServerType k message
  match head.getTransferType with
  | .byId => Q (s.handOver (send head.getDstServerId.toNat))
  | .byHash => Q (s.handOver
      (if size = 0 then [] else send (head.getDstHashId.toNat % size % 2 ^ 32)))
  | .byBroadcast => size < 2 ^ 32 ∧ Q (s.handOver ((List.range size).flatMap send))
  | .byRandom => size % 2 ^ 32 ≠ 0 ∧
      match firstOccupied sockList (fun _ => false) (Random.drawn calls size) with
      | some k => Q (s.handOver (send k))
      | none => size < 2 ^ 32 ∧ Q s
  | .byRandomExceptId => size % 2 ^ 32 ≠ 0 ∧
      match firstOccupied sockList (fun k => k = head.getDstExceptId.toNat)
        (Random.drawn calls size) with
      | some k => Q (s.handOver (send k))
      | none => size < 2 ^ 32 ∧ head.getDstExceptId.toNat < size ∧
          Q (s.handOver (send head.getDstExceptId.toNat))

/-- **What `HandleMessageTransfer` does, mode by mode.** -/
theorem ensures_handleMessageTransfer {head : ProxyHead}
    (h : s.sockMap[head.getDstServerType.number]? = some sockList)
    {Q : Unit → AcceptServerMsgTransferService → Prop} :
    Ensures (handleMessageTransfer calls (some head) message) s Q ↔
      Handles s sockList calls head message (Q ()) := by
  obtain ⟨hlt, hlist⟩ := List.getElem?_eq_some_iff.mp h
  simp only [handleMessageTransfer, ensures_bind, ensures_get]
  rw [if_neg (not_le.mpr hlt), ensures_bind, ensures_elementAt hlt, hlist, Handles]
  cases head.getTransferType with
  | byId => simp [ensures_transferMessageByTypeAndId]
  | byHash =>
    cases hsize : sockList.length with
    | zero =>
      obtain rfl := List.eq_nil_of_length_eq_zero hsize
      simp
    | succ n =>
      have hne : sockList.isEmpty = false := by
        rw [List.isEmpty_eq_false_iff, ← List.length_pos_iff]
        omega
      simp [hne, ensures_remainder, ensures_transferMessageByTypeAndId]
  | byBroadcast =>
    rw [ensures_bind, ensures_broadcastLoop h]
    simp
  | byRandom =>
    rw [ensures_bind, ensures_getRand, ensures_bind, ensures_tryLoop]
    simp
  | byRandomExceptId =>
    simp only [ensures_bind, ensures_getRand, ensures_tryLoop]
    refine and_congr_right fun _ => ?_
    cases firstOccupied sockList (fun k => k = head.getDstExceptId.toNat)
      (Random.drawn calls sockList.length) with
    | some k => simp
    | none =>
      refine and_congr_right fun _ => ?_
      by_cases hexcept : head.getDstExceptId.toNat < sockList.length
      · rw [if_neg Bool.false_ne_true, ensures_bind, ensures_elementAt hexcept,
          and_iff_right hexcept]
        have hslot := AcceptServerMsgTransferService.slot_eq h head.getDstExceptId.toNat
        rw [List.getElem?_eq_getElem hexcept, Option.join_some] at hslot
        cases hsock : sockList[head.getDstExceptId.toNat] with
        | none =>
          rw [hsock] at hslot
          simp [transfers, hslot]
        | some sockfd => simp [ensures_transferMessageByTypeAndId]
      · rw [if_neg Bool.false_ne_true, ensures_bind]
        exact iff_of_false (not_ensures_elementAt hexcept) fun hq => hexcept hq.1

/-! ### Which messages the proxy server can deal with -/

/-- The mode of the message can be applied to the server list. A random mode draws its offset by a
division by the number of slots as a 32-bit number; a loop that goes through all slots does not end
if the 32-bit counter has fewer values than there are slots; and without another server to send to,
the excepted slot is looked at. -/
def RoutableIn (sockList : List (Option ℕ)) (calls : Random.Calls) (head : ProxyHead) : Prop :=
  let size := sockList.length
  match head.getTransferType with
  | .byId => True
  | .byHash => True
  | .byBroadcast => size < 2 ^ 32
  | .byRandom => size % 2 ^ 32 ≠ 0 ∧ (size < 2 ^ 32 ∨
      ∃ k ∈ probes size (Random.drawn calls size), occupied sockList k = true)
  | .byRandomExceptId => size % 2 ^ 32 ≠ 0 ∧
      ((size < 2 ^ 32 ∧ head.getDstExceptId.toNat < size) ∨
        ∃ k ∈ probes size (Random.drawn calls size),
          occupied sockList k = true ∧ k ≠ head.getDstExceptId.toNat)

/-- A message is routable if its mode can be applied to the list of its server type, if it names
one. -/
def Routable (s : AcceptServerMsgTransferService) (calls : Random.Calls)
    (proxyHead : Option ProxyHead) : Prop :=
  ∀ head ∈ proxyHead, ∀ sockList ∈ s.sockMap[head.getDstServerType.number]?,
    RoutableIn sockList calls head

/-- A loop finds a slot if there is one to find. -/
theorem firstOccupied_match (skip : ℕ → Bool) (rand : UInt32) (R : Prop) :
    (match firstOccupied sockList skip rand with
      | some _ => True
      | none => R) ↔
    R ∨ ∃ k ∈ probes sockList.length rand, occupied sockList k = true ∧ skip k = false := by
  cases hfirst : firstOccupied sockList skip rand with
  | some k =>
    obtain ⟨i, hi, hik, hk, -⟩ := firstOccupied_eq_some hfirst
    rw [Bool.and_eq_true, Bool.not_eq_true'] at hk
    exact iff_of_true trivial (.inr ⟨k, List.mem_map.mpr ⟨i, List.mem_range.mpr hi, hik⟩, hk⟩)
  | none =>
    refine (or_iff_left ?_).symm
    rintro ⟨k, hk, hocc, hskip⟩
    exact firstOccupied_eq_none.mp hfirst k hk (by rw [hocc, hskip]; rfl)

theorem handles_true_iff {head : ProxyHead} :
    Handles s sockList calls head message (fun _ => True) ↔ RoutableIn sockList calls head := by
  rw [Handles, RoutableIn]
  cases head.getTransferType with
  | byId => rfl
  | byHash => rfl
  | byBroadcast => exact and_iff_left trivial
  | byRandom =>
    refine and_congr_right fun _ => (firstOccupied_match _ _ _).trans ?_
    simp only [and_true]
  | byRandomExceptId =>
    refine and_congr_right fun _ => (firstOccupied_match _ _ _).trans ?_
    simp only [and_true, decide_eq_false_iff_not, ne_eq]

/-- **`HandleMessageTransfer` completes exactly if the message is routable.** -/
theorem handleMessageTransfer_completes_iff (s : AcceptServerMsgTransferService)
    (calls : Random.Calls) (proxyHead : Option ProxyHead) (message : String) :
    Ensures (handleMessageTransfer calls proxyHead message) s (fun _ _ => True) ↔
      Routable s calls proxyHead := by
  cases proxyHead with
  | none =>
    rw [ensures_handleMessageTransfer_none]
    exact iff_of_true trivial fun _ h => by cases h
  | some head =>
    cases hlist : s.sockMap[head.getDstServerType.number]? with
    | none =>
      rw [ensures_handleMessageTransfer_of_unknown hlist]
      refine iff_of_true trivial fun head' h sockList h' => ?_
      obtain rfl := Option.some.inj h
      rw [hlist] at h'
      cases h'
    | some sockList =>
      rw [ensures_handleMessageTransfer hlist, handles_true_iff]
      constructor
      · intro h head' hhead sockList' hlist'
        obtain rfl := Option.some.inj hhead
        obtain rfl := Option.some.inj (hlist.symm.trans hlist')
        exact h
      · exact fun h => h head rfl sockList hlist

/-- Lists of a usual size: an empty list must not be used with a random mode, and an excepted slot
that does not exist only with another server. -/
theorem routableIn_iff_of_length_le {head : ProxyHead} (hsize : sockList.length ≤ 2 ^ 31) :
    RoutableIn sockList calls head ↔
      (head.getTransferType = .byRandom → sockList ≠ []) ∧
      (head.getTransferType = .byRandomExceptId → sockList ≠ [] ∧
        (head.getDstExceptId.toNat < sockList.length ∨
          ∃ k < sockList.length, occupied sockList k = true ∧ k ≠ head.getDstExceptId.toNat)) := by
  have hmod : sockList.length % 2 ^ 32 ≠ 0 ↔ sockList ≠ [] := by
    rw [Nat.mod_eq_of_lt (by omega), Ne, List.length_eq_zero_iff]
  have hlt : sockList.length < 2 ^ 32 := by omega
  rw [RoutableIn]
  cases head.getTransferType with
  | byRandomExceptId =>
    simp only [hmod, hlt, true_and, reduceCtorEq, false_implies, true_implies]
    refine and_congr_right fun hne =>
      or_congr_right (exists_congr fun k => and_congr_left fun _ => ?_)
    exact mem_probes_iff hsize (Random.drawn_lt (List.length_pos_iff.mpr hne) hlt)
  | _ => simp only [hmod, hlt, true_or, and_true, reduceCtorEq, false_implies, true_implies]

/-- The configuration has one game server. A message for any connection server is then one for an
empty list, and drawing a random slot of it divides by zero. -/
theorem random_slot_of_empty_list : ¬ ∀ (s : AcceptServerMsgTransferService) (calls : Random.Calls)
    (proxyHead : Option ProxyHead) (message : String),
      Ensures (handleMessageTransfer calls proxyHead message) s fun _ _ => True := by
  intro hall
  let s : AcceptServerMsgTransferService :=
    ⟨initSocketMapFromServerConfig [⟨.gameServer, 0⟩], fun _ => false, fun _ => false, []⟩
  let head : ProxyHead := { transferType := some .byRandom, dstServerType := some .connServer }
  obtain ⟨_, s', hrun, -⟩ := hall s ⟨0, 0, 0⟩ (some head) ""
  have hnone : ((handleMessageTransfer ⟨0, 0, 0⟩ (some head) "").run s).isNone = true := by
    decide +kernel
  rw [hrun] at hnone
  cases hnone

/-! ### What the random modes deliver -/

/-- There is a connected socket in the slot. -/
def ConnectedAt (s : AcceptServerMsgTransferService) (serverType : ENServerType) (k : ℕ) : Prop :=
  ∃ sockfd, s.slot serverType k = some sockfd ∧ s.isConnect sockfd = true

/-- From `s` to `s'` the message was handed to the connected socket in the slot, and to no other. -/
def HandedTo (s s' : AcceptServerMsgTransferService) (serverType : ENServerType) (k : ℕ)
    (message : String) : Prop :=
  ∃ sockfd, s.slot serverType k = some sockfd ∧ s.isConnect sockfd = true ∧
    s'.sent = s.sent ++ [⟨serverType.number, k, sockfd, message⟩]

theorem handedTo_handOver_iff {j k : ℕ} :
    HandedTo s (s.handOver (s.transfers serverType j message)) serverType k message ↔
      j = k ∧ ConnectedAt s serverType k := by
  rw [HandedTo, ConnectedAt, handOver, transfers]
  simp only [List.append_cancel_left_eq]
  constructor
  · rintro ⟨sockfd, hslot, hconn, hsent⟩
    cases hj : s.slot serverType j with
    | none =>
      rw [hj] at hsent
      cases hsent
    | some other =>
      by_cases hother : s.isConnect other
      · simp only [hj, hother, if_true, List.cons.injEq, Transfer.mk.injEq] at hsent
        exact ⟨hsent.1.2.1, sockfd, hslot, hconn⟩
      · simp [hj, hother] at hsent
  · rintro ⟨rfl, sockfd, hslot, hconn⟩
    exact ⟨sockfd, hslot, hconn, by simp [hslot, hconn]⟩

theorem not_handedTo_self {k : ℕ} : ¬ HandedTo s s serverType k message := by
  rintro ⟨sockfd, -, -, hsent⟩
  exact absurd hsent (by simp)

/-- What a random mode is for: a message reaches one connected server of the type if there is one.
Where one is excepted, that one is used only if there is no other. -/
def Delivers (s : AcceptServerMsgTransferService) (sockList : List (Option ℕ))
    (calls : Random.Calls) (head : ProxyHead) (message : String) : Prop :=
  let handles := Ensures (handleMessageTransfer calls (some head) message) s
  let connected := ConnectedAt s head.getDstServerType
  let handedTo (s' : AcceptServerMsgTransferService) (k : ℕ) :=
    HandedTo s s' head.getDstServerType k message
  let exceptId := head.getDstExceptId.toNat
  match head.getTransferType with
  | .byRandom => (∃ k, connected k) → handles fun _ s' => ∃ k, handedTo s' k
  | .byRandomExceptId => exceptId < sockList.length →
    ((∃ k, k ≠ exceptId ∧ connected k) →
      handles fun _ s' => ∃ k, k ≠ exceptId ∧ handedTo s' k) ∧
    ((¬ ∃ k, k ≠ exceptId ∧ connected k) → connected exceptId →
      handles fun _ s' => handedTo s' exceptId)
  | _ => True

/-- The first socket in the order of the slots is a connected one if any is. Where one is excepted
and is the only connected one, no other slot may have a socket. -/
def FirstIsConnected (s : AcceptServerMsgTransferService) (sockList : List (Option ℕ))
    (calls : Random.Calls) (head : ProxyHead) : Prop :=
  let size := sockList.length
  let connected := ConnectedAt s head.getDstServerType
  let exceptId := head.getDstExceptId.toNat
  let first (skip : ℕ → Bool) := firstOccupied sockList skip (Random.drawn calls size)
  match head.getTransferType with
  | .byRandom => (∃ k, connected k) →
      size % 2 ^ 32 ≠ 0 ∧ ∃ k, first (fun _ => false) = some k ∧ connected k
  | .byRandomExceptId => exceptId < size →
    ((∃ k, k ≠ exceptId ∧ connected k) →
      size % 2 ^ 32 ≠ 0 ∧ ∃ k, first (fun k => k = exceptId) = some k ∧ connected k) ∧
    ((¬ ∃ k, k ≠ exceptId ∧ connected k) → connected exceptId →
      size < 2 ^ 32 ∧ first (fun k => k = exceptId) = none)
  | _ => True

/-- **The random modes deliver exactly if the first socket that they find is a connected one.** -/
theorem random_modes_deliver_iff {head : ProxyHead}
    (h : s.sockMap[head.getDstServerType.number]? = some sockList) :
    Delivers s sockList calls head message ↔ FirstIsConnected s sockList calls head := by
  rw [Delivers, FirstIsConnected]
  simp only [ensures_handleMessageTransfer h, Handles]
  cases head.getTransferType with
  | byId => rfl
  | byHash => rfl
  | byBroadcast => rfl
  | byRandom =>
    refine imp_congr_right fun _ => and_congr_right fun _ => ?_
    cases firstOccupied sockList (fun _ => false) (Random.drawn calls sockList.length) with
    | none => exact iff_of_false (fun h => not_handedTo_self h.2.choose_spec) (by simp)
    | some k =>
      simp only [handedTo_handOver_iff, Option.some.injEq]
  | byRandomExceptId =>
    have hskip : ∀ k, firstOccupied sockList (fun k => k = head.getDstExceptId.toNat)
        (Random.drawn calls sockList.length) = some k → k ≠ head.getDstExceptId.toNat := by
      intro k hfirst
      obtain ⟨-, -, -, hk, -⟩ := firstOccupied_eq_some hfirst
      simpa using (Bool.and_eq_true_iff.mp hk).2
    generalize firstOccupied sockList (fun k => k = head.getDstExceptId.toNat)
      (Random.drawn calls sockList.length) = first at hskip ⊢
    refine imp_congr_right fun hexcept => and_congr
      (imp_congr_right fun _ => and_congr_right fun _ => ?_)
      (imp_congr_right fun _ => imp_congr_right fun hconn => ?_)
    · cases first with
      | none =>
        simp only [handedTo_handOver_iff, reduceCtorEq, false_and, exists_false, iff_false]
        rintro ⟨-, -, k, hne, rfl, -⟩
        exact hne rfl
      | some j =>
        simp only [handedTo_handOver_iff, Option.some.injEq]
        constructor
        · rintro ⟨k, -, hk⟩
          exact ⟨k, hk⟩
        · rintro ⟨k, rfl, hk⟩
          exact ⟨j, hskip j rfl, rfl, hk⟩
    · cases first with
      | none =>
        have hmod : sockList.length < 2 ^ 32 → sockList.length % 2 ^ 32 ≠ 0 := by
          intro hlt
          rw [Nat.mod_eq_of_lt hlt]
          omega
        simp only [handedTo_handOver_iff]
        exact ⟨fun hall => ⟨hall.2.1, trivial⟩,
          fun hlt => ⟨hmod hlt.1, hlt.1, hexcept, trivial, hconn⟩⟩
      | some j =>
        simp only [handedTo_handOver_iff, reduceCtorEq, and_false, iff_false]
        exact fun hall => hskip j rfl hall.2.1

/-- Two game servers are registered, and the first of them has gone. -/
def oneServerGone : AcceptServerMsgTransferService where
  sockMap := [[], [], [], [], [], [some 4, some 5]]
  isConnect sockfd := sockfd = 5
  registered sockfd := sockfd = 5
  sent := []

/-- The message is for the game server that is left. -/
theorem random_modes_deliver_to_one_server :
    Delivers oneServerGone [some 4, some 5] ⟨1, 0, 0⟩
        { transferType := some .byRandom, dstServerType := some .gameServer } "hello" ↔
      FirstIsConnected oneServerGone [some 4, some 5] ⟨1, 0, 0⟩
        { transferType := some .byRandom, dstServerType := some .gameServer } :=
  random_modes_deliver_iff rfl

/-- The loop starts at the slot of the server that has gone, and the message is lost. -/
theorem message_to_gone_server_is_lost : ¬ ∀ (s : AcceptServerMsgTransferService)
    (sockList : List (Option ℕ)) (calls : Random.Calls) (head : ProxyHead) (message : String),
      s.sockMap[head.getDstServerType.number]? = some sockList → sockList ≠ [] →
        Delivers s sockList calls head message := by
  intro hall
  let head : ProxyHead := { transferType := some .byRandom, dstServerType := some .gameServer }
  have hconn : ConnectedAt oneServerGone .gameServer 1 := ⟨5, by decide, by decide⟩
  obtain ⟨_, s', hrun, k, sockfd, -, -, hsent⟩ :=
    hall oneServerGone [some 4, some 5] ⟨0, 0, 0⟩ head "hello" rfl (by decide) ⟨1, hconn⟩
  have hnothing : ((handleMessageTransfer ⟨0, 0, 0⟩ (some head) "hello").run oneServerGone).map
      (fun r => r.2.sent) = some [] := by decide +kernel
  rw [hrun, Option.map_some, hsent] at hnothing
  simp at hnothing

end Lsf.Proxy
