import Mathlib.Algebra.Group.Nat.Defs
import Mathlib.Data.Nat.Notation
import Mathlib.Logic.Function.Basic
import Std.Data.String.ToNat

/-!
# The data server

The five handlers of the data server on a key-value store. Under the key of a type and an id the
store has a control record, with a version and maybe a lock, and next to it the data itself.

Every handler runs to its end before the next message is looked at, and all the time it lasts
belongs to one reading of the clock. Optional fields of messages and records are `Option`s; reading
an absent field gives its default. What a run takes from the outside is an `Env`: the clock, the
random numbers and which calls of the store fail.

## Main definitions

* `LevelDB`, `DBControlInfo` — the store and the control records in it
* `queryDataHandler`, `updateDataHandler`, `deleteDataHandler`, `insertDataHandler`,
  `unlockDataHandler` — the source's functions
* `Request.handle` — the request that arrives decides which of them is called

## Main results

* `convertControlInfoKey_inj`, `convertDataKey_ne_convertControlInfoKey` — keys do not clash
-/

namespace Lsf.DataSvr

/-! ### Messages and records -/

/-- `ENDataType`. -/
inductive ENDataType
  | userData
  | gameLog
  | robotData
  deriving DecidableEq

/-- The numbers of the types. -/
def ENDataType.number : ENDataType → ℕ
  | userData => 1
  | gameLog => 2
  | robotData => 3

/-- `ENInternalError`, as far as the data server sends it. -/
inductive ENInternalError
  | ok
  | versionNotMatch
  | leveldb
  | alreadyLock
  | lockNotMatch
  | alreadyHasData
  deriving DecidableEq

/-- What is stored beside the data. -/
structure DBControlInfo where
  version : Option UInt64
  updateTime : Option UInt32
  lastLockId : Option UInt32
  lastLockTime : Option UInt64

/-- A record with no field set. -/
def DBControlInfo.default : DBControlInfo := ⟨none, none, none, none⟩

/-- `version()` of a control record. -/
def DBControlInfo.getVersion (c : DBControlInfo) : UInt64 := c.version.getD 0

/-- `last_lock_id()` of a control record. -/
def DBControlInfo.getLastLockId (c : DBControlInfo) : UInt32 := c.lastLockId.getD 0

/-- The type and the id that every request has. -/
structure DataKey where
  type : ENDataType
  id : UInt64
  deriving DecidableEq

/-- A request to query. -/
structure QueryDataReq where
  key : DataKey
  version : Option UInt32
  needLock : Option Bool

/-- A request to update. -/
structure UpdateDataReq (δ : Type) where
  key : DataKey
  version : Option UInt32
  data : Option δ
  lockId : Option UInt32

/-- A request to insert. -/
structure InsertDataReq (δ : Type) where
  key : DataKey
  data : Option δ

/-- A notice to unlock. -/
structure UnlockDataNotify where
  key : DataKey
  lockId : Option UInt32

/-- `QueryDataRsp` and the other responses, whose fields are some of its fields. -/
structure DataRsp (δ : Type) where
  key : DataKey
  result : Option ENInternalError := none
  version : Option UInt32 := none
  data : Option δ := none
  lockId : Option UInt32 := none

/-! ### Clock and random numbers -/

/-- `timespec`, after the epoch. The milliseconds are computed in a signed 64-bit type. -/
structure Timespec where
  tvSec : ℕ
  tvNsec : ℕ
  fits : tvSec * 1000 + tvNsec / 1000000 < 2 ^ 63

/-- `ClockTime`, in seconds. -/
def Timespec.clockTime (ts : Timespec) : UInt64 := UInt64.ofNat (ts.tvSec + ts.tvNsec / 1000000000)

/-- `ClockTimeMilli`, in milliseconds. -/
def Timespec.clockTimeMilli (ts : Timespec) : UInt64 :=
  UInt64.ofNat (ts.tvSec * 1000 + ts.tvNsec / 1000000)

/-- `GetRand(start, end)` where the generator gives `random`. -/
def getRand (random : ℕ) (first last : UInt32) : UInt32 :=
  if last ≤ first then first
  else first + UInt32.ofNat (random % (last - first + 1).toNat)

/-- The least lock id. -/
def MIN_LOCK_ID : UInt32 := 1

/-- The greatest lock id. -/
def MAX_LOCK_ID : UInt32 := 65536

/-! ### LevelDBManager -/

variable {δ : Type}

/-- What the store has under a key: a serialized record or data. -/
inductive Stored (δ : Type)
  | controlInfo (c : DBControlInfo)
  | data (d : δ)

/-- The stored values by their keys. -/
abbrev LevelDB (δ : Type) := String → Option (Stored δ)

/-- The calls of the store that a handler makes. -/
inductive DBCall
  | getControlInfo
  | getData
  | write
  | deleteControlInfo
  | deleteData
  deriving DecidableEq

/-- What the handling of a request takes from the outside. -/
structure Env where
  now : Timespec
  random : ℕ
  failed : DBCall → Bool

namespace LevelDB

/-- `Has`, which is false where the control info cannot be read. -/
def has (env : Env) (db : LevelDB δ) (key : String) : Bool :=
  !env.failed .getControlInfo && (db key).isSome

/-- `Query` of a control record. A record that is not found stays as it is, without a field. -/
def queryControlInfo (env : Env) (db : LevelDB δ) (key : String) : Option DBControlInfo :=
  if env.failed .getControlInfo then none
  else
    match db key with
    | none => some .default
    | some (.controlInfo c) => some c
    | some (.data _) => none

/-- `Query` of data. -/
def queryData [Inhabited δ] (env : Env) (db : LevelDB δ) (key : String) : Option δ :=
  if env.failed .getData then none
  else
    match db key with
    | none => some default
    | some (.data d) => some d
    | some (.controlInfo _) => none

/-- `Update` of a control record: the store afterwards, or none if it fails. -/
def update (env : Env) (db : LevelDB δ) (key : String) (c : DBControlInfo) : Option (LevelDB δ) :=
  if env.failed .write then none else some (Function.update db key (some (.controlInfo c)))

/-- `BatchUpdate` of a control record and data. -/
def batchUpdate (env : Env) (db : LevelDB δ) (controlInfoKey : String) (c : DBControlInfo)
    (dataKey : String) (d : δ) : Option (LevelDB δ) :=
  if env.failed .write then none
  else some (Function.update (Function.update db controlInfoKey (some (.controlInfo c))) dataKey
    (some (.data d)))

/-- `Delete`, which leaves the store as it is if it fails. -/
def delete (env : Env) (call : DBCall) (db : LevelDB δ) (key : String) : LevelDB δ :=
  if env.failed call then db else Function.update db key none

end LevelDB

/-! ### The handlers -/

/-- `ConvertDataKey`. -/
def convertDataKey (key : DataKey) : String :=
  key.type.number.repr ++ "." ++ key.id.toNat.repr ++ ".dt"

/-- `ConvertControlInfoKey`. -/
def convertControlInfoKey (key : DataKey) : String :=
  key.type.number.repr ++ "." ++ key.id.toNat.repr ++ ".ci"

/-- `UpdateTimeoutLock` on a copy of the record. `timeout` is `db_lock_timeout`. -/
def updateTimeoutLock (timeout : UInt32) (env : Env) (c : DBControlInfo) : DBControlInfo :=
  match c.lastLockId, c.lastLockTime with
  | some _, some lastLockTime =>
    if env.now.clockTimeMilli ≤ lastLockTime + timeout.toUInt64 then c
    else { c with lastLockTime := none, lastLockId := none }
  | _, _ => c

/-- The record with a lock. -/
def DBControlInfo.lock (c : DBControlInfo) (env : Env) : DBControlInfo :=
  { c with
    lastLockId := some (getRand env.random MIN_LOCK_ID MAX_LOCK_ID)
    lastLockTime := some env.now.clockTimeMilli }

/-- The end of `QueryDataHandler::OnServerRequest`, after the lock. -/
def queryVersionAndData [Inhabited δ] (req : QueryDataReq) (env : Env) (c : DBControlInfo)
    (response : DataRsp δ) (db : LevelDB δ) : DataRsp δ :=
  -- if has version, check already has newest data
  if req.version.any fun v => v.toUInt64 = c.getVersion then { response with result := some .ok }
  else
    match db.queryData env (convertDataKey req.key) with
    -- here we do not release lock, because this is rare
    | none => { response with result := some .leveldb, data := some default }
    | some d => { response with data := some d }

/-- `QueryDataHandler::OnServerRequest`. -/
def queryDataHandler [Inhabited δ] (timeout : UInt32) (req : QueryDataReq) (env : Env)
    (db : LevelDB δ) : DataRsp δ × LevelDB δ :=
  match db.queryControlInfo env (convertControlInfoKey req.key) with
  | none => ({ key := req.key, result := some .leveldb }, db)
  | some c =>
    let c := updateTimeoutLock timeout env c
    let response : DataRsp δ := { key := req.key, version := some c.getVersion.toUInt32 }
    -- if need lock, try lock first
    if req.needLock.getD false then
      if c.lastLockId.isSome then ({ response with result := some .alreadyLock }, db)
      else
        let c := c.lock env
        let response := { response with lockId := some c.getLastLockId }
        match db.update env (convertControlInfoKey req.key) c with
        | none => ({ response with result := some .leveldb }, db)
        | some db => (queryVersionAndData req env c response db, db)
    else (queryVersionAndData req env c response db, db)

/-- `UpdateDataHandler::OnServerRequest`. -/
def updateDataHandler [Inhabited δ] (timeout : UInt32) (req : UpdateDataReq δ) (env : Env)
    (db : LevelDB δ) : DataRsp δ × LevelDB δ :=
  match db.queryControlInfo env (convertControlInfoKey req.key) with
  | none => ({ key := req.key, result := some .leveldb }, db)
  | some c =>
    let c := updateTimeoutLock timeout env c
    let response : DataRsp δ := { key := req.key, version := some c.getVersion.toUInt32 }
    -- check version match
    if (req.version.getD 0).toUInt64 ≠ c.getVersion then
      ({ response with result := some .versionNotMatch }, db)
    -- check lock match
    else if req.lockId.getD 0 ≠ c.getLastLockId then
      ({ response with result := some .lockNotMatch }, db)
    else
      let c : DBControlInfo :=
        ⟨some (c.getVersion + 1), some env.now.clockTime.toUInt32, none, none⟩
      match db.batchUpdate env (convertControlInfoKey req.key) c (convertDataKey req.key)
          (req.data.getD default) with
      | none => ({ response with result := some .leveldb }, db)
      | some db => (response, db)

/-- `DeleteDataHandler::OnServerRequest`. -/
def deleteDataHandler (key : DataKey) (env : Env) (db : LevelDB δ) : DataRsp δ × LevelDB δ :=
  let db := db.delete env .deleteControlInfo (convertControlInfoKey key)
  let db := db.delete env .deleteData (convertDataKey key)
  ({ key }, db)

/-- `InsertDataHandler::OnServerRequest`. -/
def insertDataHandler [Inhabited δ] (req : InsertDataReq δ) (env : Env) (db : LevelDB δ) :
    DataRsp δ × LevelDB δ :=
  if db.has env (convertControlInfoKey req.key) then
    ({ key := req.key, result := some .alreadyHasData }, db)
  else
    let c : DBControlInfo := { DBControlInfo.default with
      version := some 1, updateTime := some env.now.clockTime.toUInt32 }
    match db.batchUpdate env (convertControlInfoKey req.key) c (convertDataKey req.key)
        (req.data.getD default) with
    | none => ({ key := req.key, result := some .leveldb }, db)
    | some db => ({ key := req.key }, db)

/-- `UnlockDataHandler::OnServerRequest`, which sends no response. -/
def unlockDataHandler (timeout : UInt32) (req : UnlockDataNotify) (env : Env) (db : LevelDB δ) :
    LevelDB δ :=
  match db.queryControlInfo env (convertControlInfoKey req.key) with
  | none => db
  | some c =>
    let c := updateTimeoutLock timeout env c
    -- check own lock
    if c.getLastLockId ≠ req.lockId.getD 0 then db
    else
      (db.update env (convertControlInfoKey req.key)
        { c with lastLockId := none, lastLockTime := none }).getD db

/-- A request to the data server. -/
inductive Request (δ : Type)
  | queryData (req : QueryDataReq)
  | updateData (req : UpdateDataReq δ)
  | deleteData (key : DataKey)
  | insertData (req : InsertDataReq δ)
  | unlockData (req : UnlockDataNotify)

/-- What the request is about. -/
def Request.key : Request δ → DataKey
  | .queryData req => req.key
  | .updateData req => req.key
  | .deleteData key => key
  | .insertData req => req.key
  | .unlockData req => req.key

/-- The response to a request, if there is one, and the store afterwards. -/
def Request.handle [Inhabited δ] (timeout : UInt32) (req : Request δ) (env : Env)
    (db : LevelDB δ) : Option (DataRsp δ) × LevelDB δ :=
  match req with
  | .queryData req => (queryDataHandler timeout req env db).map some id
  | .updateData req => (updateDataHandler timeout req env db).map some id
  | .deleteData key => (deleteDataHandler key env db).map some id
  | .insertData req => (insertDataHandler req env db).map some id
  | .unlockData req => (none, unlockDataHandler timeout req env db)

/-! ### Keys -/

theorem toDigits_ten_injective {m n : ℕ} (h : Nat.toDigits 10 m = Nat.toDigits 10 n) : m = n := by
  rw [← Nat.ofDigitChars_ten_toDigits (n := m), h, Nat.ofDigitChars_ten_toDigits]

theorem dot_notMem_toDigits (n : ℕ) : '.' ∉ Nat.toDigits 10 n := fun h =>
  absurd (Nat.isDigit_of_mem_toDigits (by decide) (by decide) h) (by decide)

theorem ENDataType.number_injective {t t' : ENDataType} (h : t.number = t'.number) : t = t' := by
  cases t <;> cases t' <;> first | rfl | cases h

/-- A list is cut in one way only before the first `x` in it. -/
theorem append_cons_cut {α : Type} {x : α} {a a' b b' : List α} (ha : x ∉ a) (ha' : x ∉ a')
    (h : a ++ x :: b = a' ++ x :: b') : a = a' ∧ b = b' := by
  induction a generalizing a' with
  | nil =>
    cases a' with
    | nil => exact ⟨rfl, (List.cons.inj h).2⟩
    | cons y a' => exact absurd (List.mem_cons.mpr (.inl (List.cons.inj h).1)) ha'
  | cons y a ih =>
    cases a' with
    | nil => exact absurd (List.mem_cons.mpr (.inl (List.cons.inj h).1.symm)) ha
    | cons y' a' =>
      obtain ⟨rfl, htail⟩ := List.cons.inj h
      obtain ⟨rfl, rfl⟩ := ih (fun hx => ha (List.mem_cons_of_mem _ hx))
        (fun hx => ha' (List.mem_cons_of_mem _ hx)) htail
      exact ⟨rfl, rfl⟩

/-- Two numbers with a dot behind each can be read off a text. -/
theorem toDigits_dot_inj {m n m' n' : ℕ} {suffix suffix' : List Char}
    (h : Nat.toDigits 10 m ++ '.' :: (Nat.toDigits 10 n ++ '.' :: suffix) =
      Nat.toDigits 10 m' ++ '.' :: (Nat.toDigits 10 n' ++ '.' :: suffix')) :
    m = m' ∧ n = n' ∧ suffix = suffix' := by
  obtain ⟨hm, h⟩ := append_cons_cut (dot_notMem_toDigits _) (dot_notMem_toDigits _) h
  obtain ⟨hn, hsuffix⟩ := append_cons_cut (dot_notMem_toDigits _) (dot_notMem_toDigits _) h
  exact ⟨toDigits_ten_injective hm, toDigits_ten_injective hn, hsuffix⟩

/-- The parts of a key can be read off it. -/
theorem convertKey_inj {key key' : DataKey} {suffix suffix' : List Char}
    (h : Nat.toDigits 10 key.type.number ++ '.' :: (Nat.toDigits 10 key.id.toNat ++ '.' :: suffix) =
      Nat.toDigits 10 key'.type.number ++
        '.' :: (Nat.toDigits 10 key'.id.toNat ++ '.' :: suffix')) :
    key = key' ∧ suffix = suffix' := by
  obtain ⟨htype, hid, hsuffix⟩ := toDigits_dot_inj h
  have htype := ENDataType.number_injective htype
  have hid := UInt64.toNat.inj hid
  cases key
  cases key'
  subst htype hid
  exact ⟨rfl, hsuffix⟩

theorem toList_convertDataKey (key : DataKey) : (convertDataKey key).toList =
    Nat.toDigits 10 key.type.number ++
      '.' :: (Nat.toDigits 10 key.id.toNat ++ '.' :: ['d', 't']) := by
  simp [convertDataKey, String.toList_append]

theorem toList_convertControlInfoKey (key : DataKey) : (convertControlInfoKey key).toList =
    Nat.toDigits 10 key.type.number ++
      '.' :: (Nat.toDigits 10 key.id.toNat ++ '.' :: ['c', 'i']) := by
  simp [convertControlInfoKey, String.toList_append]

@[simp] theorem convertControlInfoKey_inj {key key' : DataKey} :
    convertControlInfoKey key = convertControlInfoKey key' ↔ key = key' := by
  refine ⟨fun h => ?_, congrArg _⟩
  have hlist := congrArg String.toList h
  rw [toList_convertControlInfoKey, toList_convertControlInfoKey] at hlist
  exact (convertKey_inj hlist).1

@[simp] theorem convertDataKey_inj {key key' : DataKey} :
    convertDataKey key = convertDataKey key' ↔ key = key' := by
  refine ⟨fun h => ?_, congrArg _⟩
  have hlist := congrArg String.toList h
  rw [toList_convertDataKey, toList_convertDataKey] at hlist
  exact (convertKey_inj hlist).1

@[simp] theorem convertDataKey_ne_convertControlInfoKey (key key' : DataKey) :
    convertDataKey key ≠ convertControlInfoKey key' := by
  intro h
  have hlist := congrArg String.toList h
  rw [toList_convertDataKey, toList_convertControlInfoKey] at hlist
  exact absurd (convertKey_inj hlist).2 (by decide)

end Lsf.DataSvr
