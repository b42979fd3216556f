import Lsf.Svr.DataServer
import Mathlib.Tactic.SplitIfs

/-!
# What requests do to the records of the data server

For each handler one lemma says what it can do to the store, and under which conditions. The store
is assumed to find what was last written whenever it is asked for a control record; writing may
fail.

## Main definitions

* `Arrival`, `serve` — requests handled one after the other
* `LevelDB.record` — what the store has for a type and an id
* `Arrival.Writes`, `writeCount` — the accepted writes to a key

## Main results

* `queryDataHandler_cases`, `updateDataHandler_cases`, `insertDataHandler_cases`,
  `unlockDataHandler_cases`
* `record_handle_of_ne` — requests do not touch the records of other keys
-/

namespace Lsf.DataSvr

variable {δ : Type}

/-- A store with nothing in it. -/
def LevelDB.empty : LevelDB δ := fun _ => none

/-- The control record and the data under a key. -/
def LevelDB.record (db : LevelDB δ) (key : DataKey) : Option (Stored δ) × Option (Stored δ) :=
  (db (convertControlInfoKey key), db (convertDataKey key))

/-- The control record that a handler reads, with no field set if there is none. -/
def LevelDB.controlInfo (db : LevelDB δ) (key : DataKey) : Option DBControlInfo :=
  match db (convertControlInfoKey key) with
  | none => some .default
  | some (.controlInfo c) => some c
  | some (.data _) => none

/-- The request was not refused. -/
def DataRsp.Accepted (response : DataRsp δ) : Prop :=
  response.result = none ∨ response.result = some .ok

instance (response : DataRsp δ) : Decidable response.Accepted :=
  inferInstanceAs (Decidable (_ ∨ _))

/-! ### Writing to the store -/

section Store

variable {db : LevelDB δ} {key key' : DataKey} {c : DBControlInfo} {d : δ}

/-- The store with another control record. -/
def LevelDB.setControlInfo (db : LevelDB δ) (key : DataKey) (c : DBControlInfo) : LevelDB δ :=
  Function.update db (convertControlInfoKey key) (some (.controlInfo c))

/-- The store with another control record and other data. -/
def LevelDB.setBoth (db : LevelDB δ) (key : DataKey) (c : DBControlInfo) (d : δ) : LevelDB δ :=
  Function.update (db.setControlInfo key c) (convertDataKey key) (some (.data d))

@[simp] theorem LevelDB.setControlInfo_record_self :
    (db.setControlInfo key c).record key = (some (.controlInfo c), (db.record key).2) := by
  simp [LevelDB.record, LevelDB.setControlInfo]

theorem LevelDB.setControlInfo_record_of_ne (hne : key' ≠ key) :
    (db.setControlInfo key c).record key' = db.record key' := by
  simp [LevelDB.record, LevelDB.setControlInfo, hne]

@[simp] theorem LevelDB.setBoth_record_self :
    (db.setBoth key c d).record key = (some (.controlInfo c), some (.data d)) := by
  simp [LevelDB.record, LevelDB.setBoth, LevelDB.setControlInfo,
    (convertDataKey_ne_convertControlInfoKey _ _).symm]

theorem LevelDB.setBoth_record_of_ne (hne : key' ≠ key) :
    (db.setBoth key c d).record key' = db.record key' := by
  simp [LevelDB.record, LevelDB.setBoth, LevelDB.setControlInfo, hne,
    (convertDataKey_ne_convertControlInfoKey _ _).symm]

theorem LevelDB.delete_record_of_ne {env : Env} {call : DBCall} {k : String}
    (hc : convertControlInfoKey key ≠ k) (hd : convertDataKey key ≠ k) :
    (db.delete env call k).record key = db.record key := by
  rw [LevelDB.delete]
  split_ifs <;> simp [LevelDB.record, hc, hd]

theorem LevelDB.controlInfo_of_record {db' : LevelDB δ} (h : db'.record key = db.record key) :
    db'.controlInfo key = db.controlInfo key := by
  have hfst := congrArg Prod.fst h
  simp only [LevelDB.record] at hfst
  rw [LevelDB.controlInfo, LevelDB.controlInfo, hfst]

theorem LevelDB.controlInfo_of_fst (h : (db.record key).1 = some (.controlInfo c)) :
    db.controlInfo key = some c := by
  have hstored : db (convertControlInfoKey key) = some (.controlInfo c) := h
  rw [controlInfo, hstored]

theorem LevelDB.queryControlInfo_eq {env : Env} (hget : env.failed .getControlInfo = false) :
    db.queryControlInfo env (convertControlInfoKey key) = db.controlInfo key := by
  rw [LevelDB.queryControlInfo, hget, if_neg Bool.false_ne_true]
  rfl

end Store

/-! ### The handlers -/

section Handlers

variable {timeout : UInt32} {env : Env} {db : LevelDB δ}

@[simp] theorem updateTimeoutLock_getVersion {c : DBControlInfo} :
    (updateTimeoutLock timeout env c).getVersion = c.getVersion := by
  rw [updateTimeoutLock]
  split
  · split_ifs <;> rfl
  · rfl

theorem queryVersionAndData_version [Inhabited δ] {req : QueryDataReq} {c : DBControlInfo}
    {response : DataRsp δ} :
    (queryVersionAndData req env c response db).version = response.version := by
  rw [queryVersionAndData]
  split_ifs
  · rfl
  · split <;> rfl

theorem queryVersionAndData_lockId [Inhabited δ] {req : QueryDataReq} {c : DBControlInfo}
    {response : DataRsp δ} :
    (queryVersionAndData req env c response db).lockId = response.lockId := by
  rw [queryVersionAndData]
  split_ifs
  · rfl
  · split <;> rfl

/-- What a query does: it fails, finds a lock, or changes nothing but the lock. -/
theorem queryDataHandler_cases [Inhabited δ] {req : QueryDataReq} {response : DataRsp δ}
    {db' : LevelDB δ} (hget : env.failed .getControlInfo = false)
    (h : queryDataHandler timeout req env db = (response, db')) :
    (db.controlInfo req.key = none ∧ response.version = none ∧ response.lockId = none ∧
      db' = db) ∨
    ∃ c, db.controlInfo req.key = some c ∧ response.version = some c.getVersion.toUInt32 ∧
      ((req.needLock.getD false = false ∧ response.lockId = none ∧ db' = db) ∨
        (req.needLock.getD false = true ∧
          (updateTimeoutLock timeout env c).lastLockId.isSome = true ∧
          response.result = some .alreadyLock ∧ response.lockId = none ∧ db' = db) ∨
        (req.needLock.getD false = true ∧
          (updateTimeoutLock timeout env c).lastLockId.isSome = false ∧
          response.lockId = some (getRand env.random MIN_LOCK_ID MAX_LOCK_ID) ∧
          db' = if env.failed .write then db else
            db.setControlInfo req.key ((updateTimeoutLock timeout env c).lock env))) := by
  rw [queryDataHandler, LevelDB.queryControlInfo_eq hget] at h
  cases hc : db.controlInfo req.key with
  | none =>
    rw [hc] at h
    cases h
    exact .inl ⟨rfl, rfl, rfl, rfl⟩
  | some c =>
    refine .inr ⟨c, rfl, ?_⟩
    rw [hc] at h
    simp only [updateTimeoutLock_getVersion] at h
    split_ifs at h with hneed hlock
    · cases h
      exact ⟨rfl, .inr (.inl ⟨hneed, hlock, rfl, rfl, rfl⟩)⟩
    · rw [LevelDB.update] at h
      by_cases hwrite : env.failed .write
      · rw [if_pos hwrite] at h
        cases h
        exact ⟨rfl, .inr (.inr ⟨hneed, Bool.not_eq_true _ ▸ hlock, rfl, (if_pos hwrite).symm⟩)⟩
      · rw [if_neg hwrite] at h
        cases h
        exact ⟨queryVersionAndData_version, .inr (.inr ⟨hneed, Bool.not_eq_true _ ▸ hlock,
          queryVersionAndData_lockId, (if_neg hwrite).symm⟩)⟩
    · cases h
      exact ⟨queryVersionAndData_version, .inl ⟨Bool.not_eq_true _ ▸ hneed,
        queryVersionAndData_lockId, rfl⟩⟩

/-- The record that an accepted update saves. -/
def DBControlInfo.updated (c : DBControlInfo) (env : Env) : DBControlInfo :=
  ⟨some (c.getVersion + 1), some env.now.clockTime.toUInt32, none, none⟩

/-- What an update does: it is refused, or its version and its lock match and it is saved. -/
theorem updateDataHandler_cases [Inhabited δ] {req : UpdateDataReq δ} {response : DataRsp δ}
    {db' : LevelDB δ} (hget : env.failed .getControlInfo = false)
    (h : updateDataHandler timeout req env db = (response, db')) :
    (¬ response.Accepted ∧ db' = db) ∨
    ∃ c, db.controlInfo req.key = some c ∧ response.Accepted ∧
      (req.version.getD 0).toUInt64 = c.getVersion ∧
      req.lockId.getD 0 = (updateTimeoutLock timeout env c).getLastLockId ∧
      db' = db.setBoth req.key (c.updated env) (req.data.getD default) := by
  rw [updateDataHandler, LevelDB.queryControlInfo_eq hget] at h
  cases hc : db.controlInfo req.key with
  | none =>
    rw [hc] at h
    cases h
    exact .inl ⟨by simp [DataRsp.Accepted], rfl⟩
  | some c =>
    rw [hc] at h
    simp only [updateTimeoutLock_getVersion] at h
    split_ifs at h with hversion hlock
    · cases h
      exact .inl ⟨by simp [DataRsp.Accepted], rfl⟩
    · cases h
      exact .inl ⟨by simp [DataRsp.Accepted], rfl⟩
    · rw [LevelDB.batchUpdate] at h
      by_cases hwrite : env.failed .write
      · rw [if_pos hwrite] at h
        cases h
        exact .inl ⟨by simp [DataRsp.Accepted], rfl⟩
      · rw [if_neg hwrite] at h
        cases h
        exact .inr ⟨c, rfl, .inl rfl, not_not.mp hversion, not_not.mp hlock, rfl⟩

/-- What an insertion does: it is refused, or there is no record and one of version 1 is saved. -/
theorem insertDataHandler_cases [Inhabited δ] {req : InsertDataReq δ} {response : DataRsp δ}
    {db' : LevelDB δ} (hget : env.failed .getControlInfo = false)
    (h : insertDataHandler req env db = (response, db')) :
    (¬ response.Accepted ∧ db' = db) ∨
    (response.Accepted ∧ db.controlInfo req.key = some .default ∧
      (db.record req.key).1 = none ∧
      db' = db.setBoth req.key (DBControlInfo.default.updated env) (req.data.getD default)) := by
  rw [insertDataHandler, LevelDB.has, hget] at h
  simp only [Bool.not_false, Bool.true_and] at h
  split_ifs at h with hsome
  · cases h
    exact .inl ⟨by simp [DataRsp.Accepted], rfl⟩
  · have hnone : db (convertControlInfoKey req.key) = none := by simpa using hsome
    rw [LevelDB.batchUpdate] at h
    by_cases hwrite : env.failed .write
    · rw [if_pos hwrite] at h
      cases h
      exact .inl ⟨by simp [DataRsp.Accepted], rfl⟩
    · rw [if_neg hwrite] at h
      cases h
      refine .inr ⟨.inl rfl, ?_, hnone, rfl⟩
      rw [LevelDB.controlInfo, hnone]

/-- What an unlock does: nothing, or the lock matches and is taken away. -/
theorem unlockDataHandler_cases {req : UnlockDataNotify}
    (hget : env.failed .getControlInfo = false) :
    unlockDataHandler timeout req env db = db ∨
    ∃ c, db.controlInfo req.key = some c ∧
      req.lockId.getD 0 = (updateTimeoutLock timeout env c).getLastLockId ∧
      unlockDataHandler timeout req env db = db.setControlInfo req.key
        { updateTimeoutLock timeout env c with lastLockId := none, lastLockTime := none } := by
  rw [unlockDataHandler, LevelDB.queryControlInfo_eq hget]
  cases hc : db.controlInfo req.key with
  | none => exact .inl rfl
  | some c =>
    simp only
    split_ifs with hlock
    · exact .inl rfl
    · rw [LevelDB.update]
      split_ifs
      · exact .inl rfl
      · exact .inr ⟨c, rfl, (not_not.mp hlock).symm, rfl⟩

theorem deleteDataHandler_record_of_ne {key key' : DataKey} (hne : key' ≠ key) :
    (deleteDataHandler key env db).2.record key' = db.record key' := by
  rw [deleteDataHandler,
    LevelDB.delete_record_of_ne (convertDataKey_ne_convertControlInfoKey _ _).symm
    (by simpa using hne), LevelDB.delete_record_of_ne (by simpa using hne)
      (convertDataKey_ne_convertControlInfoKey _ _)]

end Handlers

/-! ### Requests one after the other -/

/-- A request that changes data, whatever else it does. -/
def Request.isWrite : Request δ → Bool
  | .updateData _ | .deleteData _ | .insertData _ => true
  | .queryData _ | .unlockData _ => false

/-- A request that is handled, and what its handling takes from the outside. -/
structure Arrival (δ : Type) where
  req : Request δ
  env : Env

/-- The clock stands at 0 and no call of the store fails. -/
def Env.still : Env := ⟨⟨0, 0, by decide⟩, 0, fun _ => false⟩

namespace Arrival

variable [Inhabited δ] {timeout : UInt32} {key : DataKey} {a : Arrival δ} {db : LevelDB δ}

/-- The response and the store afterwards. -/
def handle (timeout : UInt32) (a : Arrival δ) (db : LevelDB δ) :
    Option (DataRsp δ) × LevelDB δ :=
  a.req.handle timeout a.env db

/-- The store finds what was last written. -/
def Finds (a : Arrival δ) : Prop := a.env.failed .getControlInfo = false

/-- An accepted update, insertion or deletion of a key. -/
def Writes (timeout : UInt32) (key : DataKey) (a : Arrival δ) (db : LevelDB δ) : Prop :=
  a.req.key = key ∧ a.req.isWrite = true ∧ ∃ r ∈ (a.handle timeout db).1, r.Accepted

instance : Decidable (a.Writes timeout key db) :=
  inferInstanceAs (Decidable (_ ∧ _ ∧ _))

theorem writes_iff {response : DataRsp δ} {db' : LevelDB δ}
    (h : a.handle timeout db = (some response, db')) :
    a.Writes timeout key db ↔ a.req.key = key ∧ a.req.isWrite = true ∧ response.Accepted := by
  rw [Writes, h]
  simp

/-- **An insertion or an update** is refused and saves nothing, or it is accepted and saves both
records, the control record with the next version. -/
theorem write_cases (timeout : UInt32) (db : LevelDB δ) (hfinds : a.Finds)
    (hwrite : a.req.isWrite = true) (hdelete : a.req ≠ .deleteData a.req.key) :
    (¬ a.Writes timeout a.req.key db ∧ (a.handle timeout db).2 = db) ∨
      (a.Writes timeout a.req.key db ∧ ∃ c d, db.controlInfo a.req.key = some c ∧
        (a.handle timeout db).2 = db.setBoth a.req.key (c.updated a.env) d) := by
  obtain ⟨req, env⟩ := a
  cases req with
  | queryData req => cases hwrite
  | updateData req =>
    cases h : updateDataHandler timeout req env db with
    | mk response db' =>
      have hhandle : handle timeout ⟨.updateData req, env⟩ db = (some response, db') := by
        rw [handle, Request.handle, h]
        rfl
      rw [writes_iff hhandle, hhandle]
      obtain ⟨hrefused, rfl⟩ | ⟨c, hc, haccepted, -, -, rfl⟩ := updateDataHandler_cases hfinds h
      · exact .inl ⟨fun hw => hrefused hw.2.2, rfl⟩
      · exact .inr ⟨⟨rfl, rfl, haccepted⟩, c, _, hc, rfl⟩
  | deleteData key' => exact absurd rfl hdelete
  | insertData req =>
    cases h : insertDataHandler req env db with
    | mk response db' =>
      have hhandle : handle timeout ⟨.insertData req, env⟩ db = (some response, db') := by
        rw [handle, Request.handle, h]
        rfl
      rw [writes_iff hhandle, hhandle]
      obtain ⟨hrefused, rfl⟩ | ⟨haccepted, hc, -, rfl⟩ := insertDataHandler_cases hfinds h
      · exact .inl ⟨fun hw => hrefused hw.2.2, rfl⟩
      · exact .inr ⟨⟨rfl, rfl, haccepted⟩, _, _, hc, rfl⟩
  | unlockData req => cases hwrite

theorem record_write_of_ne (hfinds : a.Finds) (hwrite : a.req.isWrite = true)
    (hdelete : a.req ≠ .deleteData a.req.key) (hne : key ≠ a.req.key) :
    (a.handle timeout db).2.record key = db.record key := by
  obtain ⟨-, hdb⟩ | ⟨-, c, d, -, hdb⟩ := write_cases timeout db hfinds hwrite hdelete
  · rw [hdb]
  · rw [hdb]
    exact LevelDB.setBoth_record_of_ne hne

/-- **A request does not touch the records of other keys.** -/
theorem record_handle_of_ne (hfinds : a.Finds) (hne : key ≠ a.req.key) :
    (a.handle timeout db).2.record key = db.record key := by
  obtain ⟨req, env⟩ := a
  cases req with
  | queryData req =>
    cases h : queryDataHandler timeout req env db with
    | mk response db' =>
      rw [handle, Request.handle, h]
      obtain ⟨-, -, -, rfl⟩ | ⟨c, -, -, ⟨-, -, rfl⟩ | ⟨-, -, -, -, rfl⟩ | ⟨-, -, -, rfl⟩⟩ :=
        queryDataHandler_cases hfinds h
      · rfl
      · rfl
      · rfl
      · show LevelDB.record (if _ then _ else _) key = _
        split_ifs
        · rfl
        · exact LevelDB.setControlInfo_record_of_ne hne
  | updateData req => exact record_write_of_ne hfinds rfl (fun h => by cases h) hne
  | deleteData key' => exact deleteDataHandler_record_of_ne hne
  | insertData req => exact record_write_of_ne hfinds rfl (fun h => by cases h) hne
  | unlockData req =>
    rw [handle, Request.handle]
    obtain h | ⟨c, -, -, h⟩ := (@unlockDataHandler_cases _ timeout _ db) hfinds
    · rw [h]
    · rw [h]
      exact LevelDB.setControlInfo_record_of_ne hne

end Arrival

/-- The store after requests that were handled one after the other. -/
def serve [Inhabited δ] (timeout : UInt32) : List (Arrival δ) → LevelDB δ → LevelDB δ
  | [], db => db
  | a :: as, db => serve timeout as (a.handle timeout db).2

/-- How many of the requests are accepted writes to a key. -/
def writeCount [Inhabited δ] (timeout : UInt32) (key : DataKey) :
    List (Arrival δ) → LevelDB δ → ℕ
  | [], _ => 0
  | a :: as, db => (if a.Writes timeout key db then 1 else 0) +
      writeCount timeout key as (a.handle timeout db).2

section Serve

variable [Inhabited δ] {timeout : UInt32} {key : DataKey} {db : LevelDB δ}

theorem writeCount_append (as bs : List (Arrival δ)) : writeCount timeout key (as ++ bs) db =
    writeCount timeout key as db + writeCount timeout key bs (serve timeout as db) := by
  induction as generalizing db with
  | nil => exact (Nat.zero_add _).symm
  | cons a as ih => rw [List.cons_append, writeCount, writeCount, serve, ih, Nat.add_assoc]

end Serve

end Lsf.DataSvr
