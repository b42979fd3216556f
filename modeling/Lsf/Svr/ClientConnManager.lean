import Lsf.Foundations.SecondaryIndex
import Mathlib.Tactic.SplitIfs

/-!
# The client connections of a game server

The manager maps the ids of connections to what is known of them, and next to that map it has a
multimap from the users to the ids of their connections. A connection that is created anew under an
id that is in use replaces the one that is stored, but the pair of that one stays in the multimap.

A multimap is a list of its pairs in the order in which they were put in. Which of several pairs of
a key a lookup finds is not specified; `MultimapFind` is any way to look that up.

## Main definitions

* `ConnHead`, `ClientConn`, `ClientConnManager` — the records
* `ClientConnManager.init`, `createClientConn`, `releaseClientConn`, `getClientConnByUid` — the
  source's functions
* `ConnOp.Overwrites` — a connection is created under an id that is in use

## Main results

* `index_in_step_iff_no_overwrite`, `index_keeps_overwritten_connection`
-/

namespace Lsf.Conn

/-! ### Records -/

/-- `ENPlatformType`. -/
inductive ENPlatformType
  | web
  | mobile
  deriving DecidableEq

/-- `msg::ConnHead`, with the fields that the servers set. -/
structure ConnHead where
  uid : Option ℕ := none
  uname : Option String := none
  clientVersion : Option ℕ := none
  platform : Option ENPlatformType := none
  connId : Option ℕ := none
  connIp : Option String := none
  connPort : Option ℕ := none
  isNewConn : Option Bool := none
  isCloseConn : Option Bool := none
  isLogin : Option Bool := none
  deriving DecidableEq

namespace ConnHead

/-- `uid()`. -/
def getUid (head : ConnHead) : ℕ := head.uid.getD 0

/-- `conn_id()`. -/
def getConnId (head : ConnHead) : ℕ := head.connId.getD 0

end ConnHead

/-- A connection of a client, as the game server stores it. -/
structure ClientConn where
  connHead : ConnHead := {}
  tableId : Option ℕ := none
  deriving DecidableEq

/-- `GetKey()`. -/
def ClientConn.getKey (conn : ClientConn) : ℕ := conn.connHead.getConnId

/-- The manager, with the map of its base class. -/
structure ClientConnManager where
  map : Table ℕ ClientConn
  maxSize : ℕ
  enableUidIndex : Bool
  /-- The pairs of `_uid_to_conn_id_index`. -/
  uidToConnIdIndex : List (ℕ × ℕ)

/-- `find` of a multimap, which gives any of the pairs of a key. -/
structure MultimapFind where
  find : List (ℕ × ℕ) → ℕ → Option (ℕ × ℕ)
  mem_of_find : ∀ {m u p}, find m u = some p → p ∈ m ∧ p.1 = u
  notMem_of_find : ∀ {m u}, find m u = none → ∀ p ∈ m, p.1 ≠ u

namespace ClientConnManager

/-! ### The functions -/

/-- `Init`, where the shared memory has the connections `recovered`. -/
def init (maxSize : ℕ) (enableUidIndex : Bool) (recovered : List ClientConn) :
    Option ClientConnManager :=
  if maxSize = 0 then none
  else
    let map : Table ℕ ClientConn :=
      (recovered.take maxSize).foldl (fun map conn => map.insert conn.getKey conn) ∅
    -- recovery uid index if needed
    some ⟨map, maxSize, enableUidIndex, if enableUidIndex then
      map.entries.map fun e => (e.2.connHead.getUid, e.2.connHead.getConnId) else []⟩

/-- The manager has no room. -/
def full (m : ClientConnManager) : Bool := m.maxSize ≤ m.map.entries.length

/-- `CreateClientConn` for a message with the head `head`. -/
def createClientConn (head : ConnHead) (m : ClientConnManager) :
    Option ClientConn × ClientConnManager :=
  if m.full then (none, m)
  else
    let conn : ClientConn := { (m.map.lookup head.getConnId).getD {} with connHead := head }
    (some conn, { m with
      map := m.map.insert head.getConnId conn
      uidToConnIdIndex := if m.enableUidIndex then
        m.uidToConnIdIndex ++ [(head.getUid, head.getConnId)] else m.uidToConnIdIndex })

/-- `ReleaseClientConn`. -/
def releaseClientConn (connId : ℕ) (m : ClientConnManager) : ClientConnManager :=
  match m.map.lookup connId with
  | none => m
  | some conn =>
    { m with
      map := m.map.erase connId
      -- the first pair of the user with the id of the connection
      uidToConnIdIndex := if m.enableUidIndex then
        m.uidToConnIdIndex.erase (conn.connHead.getUid, conn.connHead.getConnId)
        else m.uidToConnIdIndex }

/-- `GetClientConn`. -/
def getClientConn (connId : ℕ) (m : ClientConnManager) : Option ClientConn := m.map.lookup connId

/-- `GetClientConnByUid`. -/
def getClientConnByUid (find : MultimapFind) (playerUid : ℕ) (m : ClientConnManager) :
    Option ClientConn :=
  if m.enableUidIndex then
    (find.find m.uidToConnIdIndex playerUid).bind fun p => m.getClientConn p.2
  else none

end ClientConnManager

/-- A call that changes the manager. -/
inductive ConnOp
  | create (head : ConnHead)
  | release (connId : ℕ)

/-- A call of the manager. -/
def ConnOp.apply : ConnOp → ClientConnManager → ClientConnManager
  | .create head, m => (m.createClientConn head).2
  | .release connId, m => m.releaseClientConn connId

/-- Calls of the manager. -/
def runOps : List ConnOp → ClientConnManager → ClientConnManager
  | [], m => m
  | op :: ops, m => runOps ops (op.apply m)

/-! ### The index -/

/-- A connection is created, with room for one more, under an id that is in use. -/
def ConnOp.Overwrites : ConnOp → ClientConnManager → Prop
  | .create head, m => m.full = false ∧ head.getConnId ∈ m.map
  | .release _, _ => False

instance : ∀ (op : ConnOp) (m : ClientConnManager), Decidable (op.Overwrites m)
  | .create _, _ => inferInstanceAs (Decidable (_ ∧ _))
  | .release _, _ => inferInstanceAs (Decidable False)

/-- How many of the calls overwrite a connection. -/
def overwriteCount : List ConnOp → ClientConnManager → ℕ
  | [], _ => 0
  | op :: ops, m => (if op.Overwrites m then 1 else 0) + overwriteCount ops (op.apply m)

/-- None of the calls overwrites a connection. -/
def NoOverwrite : List ConnOp → ClientConnManager → Prop
  | [], _ => True
  | op :: ops, m => ¬ op.Overwrites m ∧ NoOverwrite ops (op.apply m)

instance decidableNoOverwrite : ∀ ops m, Decidable (NoOverwrite ops m)
  | [], _ => isTrue trivial
  | op :: ops, m =>
    have := decidableNoOverwrite ops (op.apply m)
    inferInstanceAs (Decidable (_ ∧ _))

theorem overwriteCount_eq_zero_iff {ops : List ConnOp} {m : ClientConnManager} :
    overwriteCount ops m = 0 ↔ NoOverwrite ops m := by
  induction ops generalizing m with
  | nil => exact iff_of_true rfl trivial
  | cons op ops ih =>
    rw [overwriteCount, Nat.add_eq_zero_iff, ih, NoOverwrite]
    refine and_congr_left fun _ => ?_
    split_ifs with hover
    · exact iff_of_false nofun (not_not.mpr hover)
    · exact iff_of_true rfl hover

/-- The pair of a connection in the index. -/
def uidPair (connId : ℕ) (conn : ClientConn) : ℕ × ℕ := (conn.connHead.getUid, connId)

namespace ClientConnManager

/-- The index has one pair for each stored connection and no other pair. -/
def InStep (m : ClientConnManager) : Prop := m.uidToConnIdIndex.Perm (entryTags uidPair m.map)

/-- A lookup by user finds a connection of the user if there is one. -/
def FindsByUid (find : MultimapFind) (m : ClientConnManager) : Prop :=
  ∀ uid, ((m.getClientConnByUid find uid).isSome = true ↔
      ∃ connId conn, m.getClientConn connId = some conn ∧ conn.connHead.getUid = uid) ∧
    ∀ conn, m.getClientConnByUid find uid = some conn → conn.connHead.getUid = uid

/-- Connections are stored under their ids, and the index has `n` pairs too many. -/
structure Inv (n : ℕ) (m : ClientConnManager) : Prop where
  enabled : m.enableUidIndex = true
  key : ∀ connId conn, m.map.lookup connId = some conn → conn.connHead.getConnId = connId
  index : Exceeds uidPair n m.uidToConnIdIndex m.map

variable {m : ClientConnManager} {n : ℕ}

theorem InStep.findsByUid (hm : m.Inv n) (hstep : m.InStep) (find : MultimapFind) :
    m.FindsByUid find := by
  have hmem : ∀ uid connId, (uid, connId) ∈ m.uidToConnIdIndex ↔
      ∃ conn, m.map.lookup connId = some conn ∧ conn.connHead.getUid = uid := by
    intro uid connId
    rw [hstep.mem_iff, entryTags, List.mem_map]
    constructor
    · rintro ⟨⟨connId', conn⟩, he, heq⟩
      obtain ⟨rfl, rfl⟩ := Prod.mk.inj heq
      exact ⟨conn, AList.mem_lookup_iff.mpr he, rfl⟩
    · rintro ⟨conn, hlookup, rfl⟩
      exact ⟨⟨connId, conn⟩, AList.mem_lookup_iff.mp hlookup, rfl⟩
  intro uid
  cases hfind : find.find m.uidToConnIdIndex uid with
  | none =>
    have hnone : m.getClientConnByUid find uid = none := by
      rw [getClientConnByUid, hm.enabled, if_pos rfl, hfind, Option.bind_none]
    rw [hnone]
    refine ⟨iff_of_false Bool.false_ne_true ?_, fun _ h => by cases h⟩
    rintro ⟨connId, conn, hget, huid⟩
    exact find.notMem_of_find hfind _ ((hmem uid connId).mpr ⟨conn, hget, huid⟩) rfl
  | some p =>
    obtain ⟨hp, rfl⟩ := find.mem_of_find hfind
    obtain ⟨conn, hlookup, huid⟩ := (hmem p.1 p.2).mp hp
    have hsome : m.getClientConnByUid find p.1 = some conn := by
      rw [getClientConnByUid, hm.enabled, if_pos rfl, hfind, Option.bind_some, getClientConn,
        hlookup]
    rw [hsome]
    exact ⟨iff_of_true rfl ⟨p.2, conn, hlookup, huid⟩, fun _ h => by cases h; exact huid⟩

/-! ### Calls -/

namespace Inv

theorem release (hm : m.Inv n) (connId : ℕ) : (m.releaseClientConn connId).Inv n := by
  rw [releaseClientConn]
  cases hlookup : m.map.lookup connId with
  | none => exact hm
  | some conn =>
    refine ⟨hm.enabled, fun id conn' h => ?_, ?_⟩
    · have hne : id ≠ connId := by
        rintro rfl
        rw [AList.lookup_erase] at h
        cases h
      rw [AList.lookup_erase_ne hne] at h
      exact hm.key id conn' h
    · simp only [hm.enabled, if_true, hm.key connId conn hlookup]
      exact hm.index.erase hlookup

/-- A creation adds one pair, and one stored connection unless it overwrites one. -/
theorem create (hm : m.Inv n) (head : ConnHead) : (m.createClientConn head).2.Inv
    (n + if (ConnOp.create head).Overwrites m then 1 else 0) := by
  rw [createClientConn]
  by_cases hfull : m.full
  · rw [if_pos hfull, if_neg fun h => absurd (h.1.symm.trans hfull) Bool.false_ne_true]
    exact hm
  rw [if_neg hfull]
  refine ⟨hm.enabled, fun id conn' h => ?_, ?_⟩
  · by_cases hid : id = head.getConnId
    · subst hid
      rw [AList.lookup_insert] at h
      cases h
      rfl
    · rw [AList.lookup_insert_ne hid] at h
      exact hm.key id conn' h
  · simp only [hm.enabled, if_true]
    cases hlookup : m.map.lookup head.getConnId with
    | none =>
      have hnot := AList.lookup_eq_none.mp hlookup
      rw [if_neg fun h => hnot h.2]
      exact hm.index.insert_of_notMem (b := ⟨head, none⟩) hnot
    | some conn =>
      have hmem : head.getConnId ∈ m.map := AList.lookup_isSome.mp (by rw [hlookup]; rfl)
      rw [if_pos ⟨Bool.not_eq_true _ ▸ hfull, hmem⟩]
      exact hm.index.insert_of_lookup (b := ⟨head, conn.tableId⟩) hlookup

/-- The run counts the overwritten connections in the pairs that are too many. -/
theorem runOps (hm : m.Inv n) (ops : List ConnOp) :
    (runOps ops m).Inv (n + overwriteCount ops m) := by
  induction ops generalizing m n with
  | nil => exact hm
  | cons op ops ih =>
    rw [Conn.runOps, overwriteCount, ← Nat.add_assoc]
    cases op with
    | create head => exact ih (hm.create head)
    | release connId =>
      rw [if_neg (show ¬ (ConnOp.release connId).Overwrites m from id)]
      exact ih (hm.release connId)

/-- After `Init` the index is right. -/
theorem init {maxSize : ℕ} {recovered : List ClientConn}
    (hinit : init maxSize true recovered = some m) : m.Inv 0 := by
  rw [ClientConnManager.init] at hinit
  by_cases hzero : maxSize = 0
  · rw [if_pos hzero] at hinit
    cases hinit
  rw [if_neg hzero] at hinit
  cases hinit
  have hkey : ∀ (conns : List ClientConn) (map : Table ℕ ClientConn),
      (∀ connId conn, map.lookup connId = some conn → conn.connHead.getConnId = connId) →
      ∀ connId conn, (conns.foldl (fun map conn => map.insert conn.getKey conn) map).lookup connId =
        some conn → conn.connHead.getConnId = connId := by
    intro conns
    induction conns with
    | nil => exact fun map h => h
    | cons c conns ih =>
      intro map h
      refine ih _ fun connId conn hlookup => ?_
      by_cases hid : connId = c.getKey
      · subst hid
        rw [AList.lookup_insert] at hlookup
        cases hlookup
        rfl
      · rw [AList.lookup_insert_ne hid] at hlookup
        exact h connId conn hlookup
  have hkeys := hkey (recovered.take maxSize) ∅ (by simp)
  refine ⟨rfl, hkeys, ?_⟩
  have hpairs : ((recovered.take maxSize).foldl (fun map conn => map.insert conn.getKey conn)
      (∅ : Table ℕ ClientConn)).entries.map
        (fun e => (e.2.connHead.getUid, e.2.connHead.getConnId)) =
      entryTags uidPair _ :=
    List.map_congr_left fun e he => by
      rw [hkeys e.1 e.2 (AList.mem_lookup_iff.mpr he)]
      rfl
  simp only [if_true]
  rw [hpairs]
  exact exceeds_zero

end Inv

end ClientConnManager

/-- **The index from users to connections is right after a sequence of calls if and only if none of
them created a connection under an id in use**, and then a lookup by user finds a connection of that
user exactly where there is one. The sequence starts with what `Init` recovered. -/
theorem index_in_step_iff_no_overwrite (find : MultimapFind) {maxSize : ℕ}
    {recovered : List ClientConn} {m : ClientConnManager}
    (hinit : ClientConnManager.init maxSize true recovered = some m) (ops : List ConnOp) :
    ((runOps ops m).InStep ∧ (runOps ops m).FindsByUid find) ↔ NoOverwrite ops m := by
  have hend := (ClientConnManager.Inv.init hinit).runOps ops
  rw [Nat.zero_add] at hend
  have hstep : (runOps ops m).InStep ↔ NoOverwrite ops m :=
    hend.index.perm_iff.trans overwriteCount_eq_zero_iff
  exact ⟨fun h => hstep.mp h.1, fun h =>
    ⟨hstep.mpr h, ClientConnManager.InStep.findsByUid hend (hstep.mpr h) find⟩⟩

/-- The lookup that finds the first pair. -/
def MultimapFind.first : MultimapFind where
  find m u := m.find? fun p => p.1 = u
  mem_of_find h := ⟨List.mem_of_find?_eq_some h, by simpa using List.find?_some h⟩
  notMem_of_find h p hp := by simpa using List.find?_eq_none.mp h p hp

/-- Two connections of a user, the first of which is released and its id used again. -/
theorem index_in_step_after_reuse :
    let ops := [ConnOp.create { uid := some 7, connId := some 1 },
      .create { uid := some 7, connId := some 2 }, .release 1,
      .create { uid := some 9, connId := some 1 }]
    let m : ClientConnManager := ⟨∅, 3, true, []⟩
    (runOps ops m).InStep ∧ (runOps ops m).FindsByUid .first :=
  (@index_in_step_iff_no_overwrite .first 3 [] _ rfl _).mpr
    (by decide +kernel)

/-- A connection that is announced again under the id of one that was never released: the user of
the first one is still found, as the connection of another user. -/
theorem index_keeps_overwritten_connection :
    ¬ ∀ (find : MultimapFind) (maxSize : ℕ) (recovered : List ClientConn) (m : ClientConnManager)
      (ops : List ConnOp), ClientConnManager.init maxSize true recovered = some m →
        (runOps ops m).InStep ∧ (runOps ops m).FindsByUid find := by
  intro hall
  obtain ⟨-, hfinds⟩ := hall .first 3 [] ⟨∅, 3, true, []⟩
    [.create { uid := some 7, connId := some 1 }, .create { uid := some 9, connId := some 1 }] rfl
  have hfound : (runOps [.create { uid := some 7, connId := some 1 },
      .create { uid := some 9, connId := some 1 }] ⟨∅, 3, true, []⟩).getClientConnByUid .first 7 =
      some { connHead := { uid := some 9, connId := some 1 } } := by
    decide +kernel
  exact absurd ((hfinds 7).2 _ hfound) (by decide)

end Lsf.Conn
