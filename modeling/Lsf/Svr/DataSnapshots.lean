import Lsf.Foundations.VersionedValue
import Lsf.Svr.DataPresence
import Lsf.Svr.DataVersions

/-!
# The data server as a store of versioned values

What the data server has under a key is a value with a version: a request changes the data only if
it raises the version, as long as the data is not deleted, and a query that succeeds reads both.

## Main definitions

* `LevelDB.dataOf`, `LevelDB.versionOf` — the data and the version that a query for a key reads

## Main results

* `advances_handle` — what a request does to the data and the version of a key
* `query_snapshot` — what a query without a version responds
-/

namespace Lsf.DataSvr

section Store

variable {δ : Type} [Inhabited δ] {db db' : LevelDB δ} {key : DataKey} {timeout : UInt32}

/-- The data under a key, with the default where there is none. -/
def LevelDB.dataOf (key : DataKey) (db : LevelDB δ) : δ :=
  match db (convertDataKey key) with
  | some (.data d) => d
  | _ => default

/-- The version of a key as a number. -/
def LevelDB.versionOf (key : DataKey) (db : LevelDB δ) : ℕ := (db.version key).toNat

theorem dataOf_of_record (h : (db'.record key).2 = (db.record key).2) :
    db'.dataOf key = db.dataOf key := by
  have hsame : db' (convertDataKey key) = db (convertDataKey key) := h
  rw [LevelDB.dataOf, LevelDB.dataOf, hsame]

theorem dataOf_setControlInfo (key' : DataKey) (c : DBControlInfo) :
    (db.setControlInfo key' c).dataOf key = db.dataOf key := by
  refine dataOf_of_record ?_
  obtain rfl | hne := eq_or_ne key key'
  · rw [LevelDB.setControlInfo_record_self]
  · rw [LevelDB.setControlInfo_record_of_ne hne]

/-- A request that is not an accepted write leaves the data of a key as it is. -/
theorem dataOf_handle {a : Arrival δ} (hfinds : a.Finds)
    (hdelete : a.req.isDelete = true → a.req.key ≠ key) (hwrites : ¬a.Writes timeout key db) :
    (a.handle timeout db).2.dataOf key = db.dataOf key := by
  obtain hne | hkey := ne_or_eq key a.req.key
  · exact dataOf_of_record (by rw [Arrival.record_handle_of_ne hfinds hne])
  subst hkey
  have hwrite : a.req.isWrite = true → a.req ≠ .deleteData a.req.key →
      (a.handle timeout db).2.dataOf a.req.key = db.dataOf a.req.key := by
    intro hwrite hne
    obtain ⟨-, hsame⟩ | ⟨haccepted, -⟩ := Arrival.write_cases timeout db hfinds hwrite hne
    · rw [hsame]
    · exact absurd haccepted hwrites
  obtain ⟨req, env⟩ := a
  cases req with
  | queryData req =>
    cases h : queryDataHandler timeout req env db with
    | mk response db' =>
      rw [Arrival.handle, Request.handle, h]
      obtain ⟨-, -, -, rfl⟩ | ⟨c, -, -, ⟨-, -, rfl⟩ | ⟨-, -, -, -, rfl⟩ | ⟨-, -, -, rfl⟩⟩ :=
        queryDataHandler_cases hfinds h
      · rfl
      · rfl
      · rfl
      · show LevelDB.dataOf _ (if _ then _ else _) = _
        split_ifs
        · rfl
        · exact dataOf_setControlInfo _ _
  | updateData req => exact hwrite rfl (fun h => by cases h)
  | deleteData key' => exact absurd rfl (hdelete rfl)
  | insertData req => exact hwrite rfl (fun h => by cases h)
  | unlockData req =>
    rw [Arrival.handle, Request.handle]
    obtain h | ⟨c, -, -, h⟩ := (@unlockDataHandler_cases _ timeout _ db) hfinds
    · rw [h]
    · rw [h]
      exact dataOf_setControlInfo _ _

/-- **The data server changes data only if it raises the version**, as long as the data is not
deleted and the versions do not run out. -/
theorem advances_handle {a : Arrival δ} (hfinds : a.Finds)
    (hdelete : a.req.isDelete = true → a.req.key ≠ key) (hlt : db.versionOf key + 1 < 2 ^ 64) :
    Advances (LevelDB.versionOf key) (LevelDB.dataOf key) db (a.handle timeout db).2 := by
  have hne : a.req ≠ .deleteData key := by
    intro heq
    rw [heq] at hdelete
    exact hdelete rfl rfl
  have hversion := (@version_handle _ _ timeout key db) hfinds hne
  by_cases hwrites : a.Writes timeout key db
  · refine .inr ?_
    rw [if_pos hwrites] at hversion
    rw [LevelDB.versionOf] at hlt ⊢
    rw [LevelDB.versionOf, hversion, UInt64.toNat_add, UInt64.toNat_one, Nat.mod_eq_of_lt hlt]
    exact Nat.lt_succ_self _
  · refine .inl ⟨?_, dataOf_handle hfinds hdelete hwrites⟩
    rw [if_neg hwrites, UInt64.add_zero] at hversion
    rw [LevelDB.versionOf, LevelDB.versionOf, hversion]

theorem dataOf_queryData {env : Env} {d : δ} (h : db.queryData env (convertDataKey key) = some d) :
    d = db.dataOf key := by
  rw [LevelDB.queryData] at h
  rw [LevelDB.dataOf]
  split_ifs at h
  split at h <;> simp_all

theorem queryDataHandler_key (timeout : UInt32) (req : QueryDataReq) (env : Env)
    (db : LevelDB δ) : (queryDataHandler timeout req env db).1.key = req.key := by
  have hread : ∀ (c : DBControlInfo) (response : DataRsp δ) (db' : LevelDB δ),
      (queryVersionAndData req env c response db').key = response.key := by
    intro c response db'
    rw [queryVersionAndData]
    split_ifs
    · rfl
    · split <;> rfl
  rw [queryDataHandler]
  split
  · rfl
  · dsimp only
    split_ifs
    · rfl
    · split
      · rfl
      · exact hread _ _ _
    · exact hread _ _ _

/-- A query without a version that succeeds gives a snapshot. -/
theorem query_snapshot {req : QueryDataReq} {env : Env} (hget : env.failed .getControlInfo = false)
    (hversion : req.version = none)
    (hok : (queryDataHandler timeout req env db).1.result.getD .ok = .ok) :
    (queryDataHandler timeout req env db).1.version = some (db.version req.key).toUInt32 ∧
      (queryDataHandler timeout req env db).1.data = some (db.dataOf req.key) := by
  rw [queryDataHandler, LevelDB.queryControlInfo_eq hget] at hok ⊢
  cases hc : db.controlInfo req.key with
  | none =>
    rw [hc] at hok
    cases hok
  | some c =>
    have hread : ∀ (c' : DBControlInfo) (response : DataRsp δ) (db' : LevelDB δ),
        db'.dataOf req.key = db.dataOf req.key →
        (queryVersionAndData req env c' response db').result.getD .ok = .ok →
        (queryVersionAndData req env c' response db').data = some (db.dataOf req.key) := by
      intro c' response db' hsame hok
      rw [queryVersionAndData, hversion] at hok ⊢
      simp only [Option.any_none, Bool.false_eq_true, if_false] at hok ⊢
      cases hdata : db'.queryData env (convertDataKey req.key) with
      | none =>
        rw [hdata] at hok
        cases hok
      | some d => exact congrArg some ((dataOf_queryData hdata).trans hsame)
    rw [LevelDB.version_of_controlInfo hc]
    rw [hc] at hok
    simp only [updateTimeoutLock_getVersion] at hok ⊢
    split_ifs at hok ⊢ with hneed hlock
    · cases hok
    · rw [LevelDB.update] at hok ⊢
      split_ifs at hok ⊢ with hwrite
      · cases hok
      · exact ⟨queryVersionAndData_version, hread _ _ _ (dataOf_setControlInfo _ _) hok⟩
    · exact ⟨queryVersionAndData_version, hread _ _ _ rfl hok⟩

end Store

end Lsf.DataSvr
