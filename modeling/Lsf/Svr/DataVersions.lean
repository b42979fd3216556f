import Lsf.Svr.DataRecords
import Mathlib.Logic.Basic

/-!
# Versions of the data server

An update carries the version that its client has seen and is refused if the data has another one by
now. Accepted updates and insertions count the version up. A deletion takes the version away with
the record, and the count starts again.

## Main definitions

* `LevelDB.version` — the version that a query for a key reads

## Main results

* `version_serve_eq` — without deletions the version counts the accepted writes
* `no_write_since_query_iff_no_delete`, `update_lost_by_delete`
-/

namespace Lsf.DataSvr

variable {δ : Type}

namespace LevelDB

variable {db db' : LevelDB δ} {key : DataKey} {c : DBControlInfo} {d : δ}

/-- The version of a key, which is 0 where there is no record. -/
def version (db : LevelDB δ) (key : DataKey) : UInt64 :=
  ((db.controlInfo key).map DBControlInfo.getVersion).getD 0

theorem version_of_record (h : db'.record key = db.record key) :
    db'.version key = db.version key := by
  rw [version, version, controlInfo_of_record h]

theorem version_of_controlInfo (h : db.controlInfo key = some c) :
    db.version key = c.getVersion := by
  rw [version, h]
  rfl

@[simp] theorem setControlInfo_version : (db.setControlInfo key c).version key = c.getVersion :=
  version_of_controlInfo (controlInfo_of_fst (by rw [setControlInfo_record_self]))

@[simp] theorem setBoth_version : (db.setBoth key c d).version key = c.getVersion :=
  version_of_controlInfo (controlInfo_of_fst (by rw [setBoth_record_self]))

@[simp] theorem empty_version : (empty : LevelDB δ).version key = 0 := rfl

end LevelDB

section Steps

variable [Inhabited δ] {timeout : UInt32} {key : DataKey} {db : LevelDB δ} {a : Arrival δ}
  {as : List (Arrival δ)}

theorem version_write (hfinds : a.Finds) (hwrite : a.req.isWrite = true)
    (hdelete : a.req ≠ .deleteData a.req.key) :
    (a.handle timeout db).2.version a.req.key =
      db.version a.req.key + if a.Writes timeout a.req.key db then 1 else 0 := by
  obtain ⟨hrefused, hdb⟩ | ⟨haccepted, c, d, hc, hdb⟩ :=
    Arrival.write_cases timeout db hfinds hwrite hdelete
  · rw [if_neg hrefused, hdb, UInt64.add_zero]
  · rw [if_pos haccepted, hdb, LevelDB.setBoth_version, LevelDB.version_of_controlInfo hc]
    rfl

/-- **A request counts the version up if it is an accepted write**, unless it is a deletion. -/
theorem version_handle (hfinds : a.Finds) (hdelete : a.req ≠ .deleteData key) :
    (a.handle timeout db).2.version key =
      db.version key + if a.Writes timeout key db then 1 else 0 := by
  obtain hkey | hkey := ne_or_eq a.req.key key
  · rw [if_neg fun h => hkey h.1, LevelDB.version_of_record
      (Arrival.record_handle_of_ne hfinds hkey.symm), UInt64.add_zero]
  obtain ⟨req, env⟩ := a
  cases req with
  | queryData req =>
    obtain rfl : req.key = key := hkey
    rw [if_neg fun h => absurd h.2.1 Bool.false_ne_true, UInt64.add_zero]
    cases h : queryDataHandler timeout req env db with
    | mk response db' =>
      rw [Arrival.handle, Request.handle, h]
      obtain ⟨-, -, -, rfl⟩ | ⟨c, hc, -, ⟨-, -, rfl⟩ | ⟨-, -, -, -, rfl⟩ | ⟨-, -, -, rfl⟩⟩ :=
        queryDataHandler_cases hfinds h
      · rfl
      · rfl
      · rfl
      · show LevelDB.version (if _ then _ else _) _ = _
        split_ifs
        · rfl
        · rw [LevelDB.setControlInfo_version, LevelDB.version_of_controlInfo hc]
          exact updateTimeoutLock_getVersion (c := c)
  | updateData req =>
    obtain rfl : req.key = key := hkey
    exact version_write hfinds rfl hdelete
  | deleteData key' =>
    obtain rfl : key' = key := hkey
    exact absurd rfl hdelete
  | insertData req =>
    obtain rfl : req.key = key := hkey
    exact version_write hfinds rfl hdelete
  | unlockData req =>
    obtain rfl : req.key = key := hkey
    rw [if_neg fun h => absurd h.2.1 Bool.false_ne_true, UInt64.add_zero, Arrival.handle,
      Request.handle]
    obtain h | ⟨c, hc, -, h⟩ := (@unlockDataHandler_cases _ timeout _ db) hfinds
    · rw [h]
    · rw [h, LevelDB.setControlInfo_version, LevelDB.version_of_controlInfo hc]
      exact updateTimeoutLock_getVersion (c := c)

omit [Inhabited δ] in
/-- A deletion takes the version away, if the store can do it. -/
theorem version_delete {env : Env} :
    (deleteDataHandler key env db).2.version key = 0 ∨
      (deleteDataHandler key env db).2.version key = db.version key := by
  have hdata : ∀ db : LevelDB δ, (db.delete env .deleteData (convertDataKey key)).version key =
      db.version key := by
    intro db
    have hsame : (db.delete env .deleteData (convertDataKey key)) (convertControlInfoKey key) =
        db (convertControlInfoKey key) := by
      rw [LevelDB.delete]
      split_ifs
      · rfl
      · rw [Function.update_of_ne (convertDataKey_ne_convertControlInfoKey _ _).symm]
    rw [LevelDB.version, LevelDB.controlInfo, hsame, LevelDB.version, LevelDB.controlInfo]
  rw [deleteDataHandler, hdata, LevelDB.delete]
  split_ifs
  · exact .inr rfl
  · refine .inl ?_
    rw [LevelDB.version, LevelDB.controlInfo, Function.update_self]
    rfl

theorem version_handle_le (hfinds : a.Finds) : ((a.handle timeout db).2.version key).toNat ≤
    (db.version key).toNat + if a.Writes timeout key db then 1 else 0 := by
  by_cases hdelete : a.req = .deleteData key
  · obtain ⟨req, env⟩ := a
    subst hdelete
    have hle : ((deleteDataHandler key env db).2.version key).toNat ≤ (db.version key).toNat := by
      obtain h | h := @version_delete _ key db env
      · rw [h]
        exact Nat.zero_le _
      · exact Nat.le_of_eq (congrArg UInt64.toNat h)
    exact Nat.le_trans hle (Nat.le_add_right _ _)
  · rw [version_handle hfinds hdelete, UInt64.toNat_add]
    refine Nat.le_trans (Nat.mod_le _ _) (Nat.add_le_add_left ?_ _)
    split_ifs <;> exact Nat.le_refl _

/-- The version of a key is at most the number of the accepted writes to it. -/
theorem version_serve_le (hfinds : ∀ a ∈ as, a.Finds) :
    ((serve timeout as db).version key).toNat ≤
      (db.version key).toNat + writeCount timeout key as db := by
  induction as generalizing db with
  | nil => exact Nat.le_refl _
  | cons a as ih =>
    have hhead := @version_handle_le _ _ timeout key db _ (hfinds a List.mem_cons_self)
    have htail := @ih (a.handle timeout db).2 fun b hb => hfinds b (List.mem_cons_of_mem _ hb)
    rw [serve, writeCount]
    omega

/-- **Without deletions the version counts the accepted writes.** -/
theorem version_serve_eq (hfinds : ∀ a ∈ as, a.Finds) (hdelete : ∀ a ∈ as, a.req ≠ .deleteData key)
    (hlt : (db.version key).toNat + writeCount timeout key as db < 2 ^ 64) :
    ((serve timeout as db).version key).toNat =
      (db.version key).toNat + writeCount timeout key as db := by
  induction as generalizing db with
  | nil => rfl
  | cons a as ih =>
    have hhead : ((a.handle timeout db).2.version key).toNat =
        (db.version key).toNat + if a.Writes timeout key db then 1 else 0 := by
      rw [version_handle (hfinds a List.mem_cons_self) (hdelete a List.mem_cons_self),
        UInt64.toNat_add]
      rw [writeCount] at hlt
      split_ifs at hlt ⊢
      · exact Nat.mod_eq_of_lt (by simp only [UInt64.toNat_one]; omega)
      · exact Nat.mod_eq_of_lt (by simp only [UInt64.toNat_zero]; omega)
    have htail := @ih (a.handle timeout db).2
      (fun b hb => hfinds b (List.mem_cons_of_mem _ hb))
      (fun b hb => hdelete b (List.mem_cons_of_mem _ hb))
      (by rw [hhead]; rw [writeCount] at hlt; omega)
    rw [serve, writeCount]
    omega

/-- A deletion is an accepted write. -/
theorem writeCount_pos_of_delete (hmem : ∃ a ∈ as, a.req = .deleteData key) :
    0 < writeCount timeout key as db := by
  induction as generalizing db with
  | nil =>
    obtain ⟨a, ha, -⟩ := hmem
    cases ha
  | cons a as ih =>
    rw [writeCount]
    obtain ⟨b, hb, hreq⟩ := hmem
    obtain rfl | hb := List.mem_cons.mp hb
    · have hwrites : b.Writes timeout key db := by
        obtain ⟨req, env⟩ := b
        subst hreq
        exact ⟨rfl, rfl, _, rfl, .inl rfl⟩
      rw [if_pos hwrites]
      omega
    · exact Nat.add_pos_right _ (ih ⟨b, hb, hreq⟩)

end Steps

/-! ### Lost updates -/

/-- The version that a query answers with is the one it read, cut to 32 bits. -/
theorem version_of_query [Inhabited δ] {timeout : UInt32} {req : QueryDataReq} {env : Env}
    {db : LevelDB δ} {v : UInt32} (hget : env.failed .getControlInfo = false)
    (hv : (queryDataHandler timeout req env db).1.version = some v) :
    v = (db.version req.key).toUInt32 := by
  cases h : queryDataHandler timeout req env db with
  | mk response db' =>
    rw [h] at hv
    obtain ⟨-, hnone, -, -⟩ | ⟨c, hc, hversion, -⟩ := queryDataHandler_cases hget h
    · rw [hnone] at hv
      cases hv
    · rw [hversion] at hv
      rw [LevelDB.version_of_controlInfo hc]
      exact (Option.some.inj hv).symm

/-- An accepted update carries the version that the data has. -/
theorem version_of_accepted [Inhabited δ] {timeout : UInt32} {req : UpdateDataReq δ} {env : Env}
    {db : LevelDB δ} (hget : env.failed .getControlInfo = false)
    (haccepted : (updateDataHandler timeout req env db).1.Accepted) :
    (req.version.getD 0).toUInt64 = db.version req.key := by
  cases h : updateDataHandler timeout req env db with
  | mk response db' =>
    rw [h] at haccepted
    obtain ⟨hrefused, -⟩ | ⟨c, hc, -, hversion, -⟩ := updateDataHandler_cases hget h
    · exact absurd haccepted hrefused
    · rw [hversion, LevelDB.version_of_controlInfo hc]

/-- **An update is accepted with the version of an earlier query only if no write was accepted since
then, as long as none of the requests between them deletes the data**, in every run of requests on
an empty store with fewer than `2 ^ 32` accepted writes to the key. A deletion is itself an accepted
write. -/
theorem no_write_since_query_iff_no_delete [Inhabited δ] {timeout : UInt32} {key : DataKey}
    {before between : List (Arrival δ)} {query : QueryDataReq} {update : UpdateDataReq δ}
    {envQuery envUpdate : Env} {v : UInt32} {db₁ db₂ : LevelDB δ}
    (hfinds : ∀ a ∈ before ++ ⟨.queryData query, envQuery⟩ :: between ++
      [⟨.updateData update, envUpdate⟩], a.Finds)
    (hcount : writeCount timeout key (before ++ ⟨.queryData query, envQuery⟩ :: between ++
      [⟨.updateData update, envUpdate⟩]) .empty < 2 ^ 32)
    (hdb₁ : serve timeout before .empty = db₁)
    (hdb₂ : (queryDataHandler timeout query envQuery db₁).2 = db₂)
    (hquery : query.key = key)
    (hv : (queryDataHandler timeout query envQuery db₁).1.version = some v)
    (hupdate : update.key = key) (hcarries : update.version.getD 0 = v)
    (haccepted : (updateDataHandler timeout update envUpdate
      (serve timeout between db₂)).1.Accepted) :
    writeCount timeout key between db₂ = 0 ↔ ∀ a ∈ between, a.req ≠ .deleteData key := by
  refine ⟨fun hzero a ha hdelete => ?_, fun hdelete => ?_⟩
  · have hpos := (@writeCount_pos_of_delete _ _ timeout _ db₂) ⟨a, ha, hdelete⟩
    omega
  -- the versions before and after the query, and at the update
  have hfindsQuery : Arrival.Finds ⟨.queryData query, envQuery⟩ := hfinds _ (by simp)
  have hfindsUpdate : Arrival.Finds ⟨.updateData update, envUpdate⟩ := hfinds _ (by simp)
  have hle := @version_serve_le _ _ timeout key .empty before
    fun a ha => hfinds a (by simp [ha])
  rw [hdb₁, LevelDB.empty_version] at hle
  have hsame : db₂.version key = db₁.version key := by
    have h := (@version_handle _ _ timeout key db₁) hfindsQuery nofun
    rw [if_neg fun hw => absurd hw.2.1 Bool.false_ne_true, UInt64.add_zero] at h
    rw [← h, ← hdb₂]
    rfl
  have hseen := version_of_query hfindsQuery hv
  have hcarried := version_of_accepted hfindsUpdate haccepted
  rw [hcarries, hseen, hquery, hupdate] at hcarried
  -- the writes of the whole run bound those up to the update
  rw [List.append_assoc, writeCount_append, hdb₁, List.cons_append, writeCount,
    writeCount_append] at hcount
  have hhandle : (Arrival.handle timeout ⟨.queryData query, envQuery⟩ db₁).2 = db₂ := hdb₂
  rw [hhandle] at hcount
  have hlt : (db₁.version key).toNat < 2 ^ 32 := by
    simp only [UInt64.toNat_zero] at hle
    omega
  have heq := @version_serve_eq _ _ timeout key db₂ between
    (fun a ha => hfinds a (by simp [ha])) hdelete (by
      rw [hsame]
      simp only [UInt64.toNat_zero] at hle
      omega)
  have hnat := congrArg UInt64.toNat hcarried
  rw [heq, hsame, UInt32.toNat_toUInt64, UInt64.toNat_toUInt32, Nat.mod_eq_of_lt hlt] at hnat
  omega

/-- Between the query and the update of a client another client takes a look at the data. -/
theorem no_write_since_query_of_two_clients :
    writeCount 0 ⟨.userData, 7⟩ [⟨.queryData ⟨⟨.userData, 7⟩, none, none⟩, .still⟩]
      (queryDataHandler 0 ⟨⟨.userData, 7⟩, none, none⟩ .still
        (serve 0 [⟨.insertData ⟨⟨.userData, 7⟩, some 1⟩, .still⟩] (.empty : LevelDB ℕ))).2 = 0 := by
  refine (@no_write_since_query_iff_no_delete _ _ _ _
    [⟨.insertData ⟨⟨.userData, 7⟩, some 1⟩, .still⟩]
    _ ⟨⟨.userData, 7⟩, none, none⟩ ⟨⟨.userData, 7⟩, some 1, some 3, none⟩ .still .still 1 _ _ ?_
    (by decide +kernel) rfl rfl rfl (by decide +kernel) rfl rfl (by decide +kernel)).mpr (by simp)
  simp [Arrival.Finds, Env.still]

/-- A write is lost where the data was deleted and inserted again since the query: the update is
accepted, because the version of the query has come back. -/
theorem update_lost_by_delete : ¬ ∀ (timeout : UInt32) (key : DataKey)
    (before between : List (Arrival ℕ)) (query : QueryDataReq) (update : UpdateDataReq ℕ)
    (envQuery envUpdate : Env) (v : UInt32) (db₁ db₂ : LevelDB ℕ),
    (∀ a ∈ before ++ ⟨.queryData query, envQuery⟩ :: between ++
      [⟨.updateData update, envUpdate⟩], a.Finds) →
    writeCount timeout key (before ++ ⟨.queryData query, envQuery⟩ :: between ++
      [⟨.updateData update, envUpdate⟩]) .empty < 2 ^ 32 →
    serve timeout before .empty = db₁ → (queryDataHandler timeout query envQuery db₁).2 = db₂ →
    query.key = key → (queryDataHandler timeout query envQuery db₁).1.Accepted →
    (queryDataHandler timeout query envQuery db₁).1.version = some v →
    update.key = key → update.version = some v →
    (updateDataHandler timeout update envUpdate (serve timeout between db₂)).1.Accepted →
      writeCount timeout key between db₂ = 0 := by
  intro hall
  have hzero := hall 0 ⟨.userData, 7⟩ [⟨.insertData ⟨⟨.userData, 7⟩, some 1⟩, .still⟩]
    [⟨.deleteData ⟨.userData, 7⟩, .still⟩, ⟨.insertData ⟨⟨.userData, 7⟩, some 2⟩, .still⟩]
    ⟨⟨.userData, 7⟩, none, none⟩ ⟨⟨.userData, 7⟩, some 1, some 3, none⟩ .still .still 1 _ _
    (by simp [Arrival.Finds, Env.still]) (by decide +kernel) rfl rfl rfl (by decide +kernel)
    (by decide +kernel) rfl rfl (by decide +kernel)
  exact absurd hzero (by decide +kernel)

end Lsf.DataSvr
