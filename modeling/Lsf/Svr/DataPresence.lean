import Lsf.Foundations.Reachability
import Lsf.Svr.DataRecords

/-!
# Whether the data server has data for a key

An insertion is refused if there is a control record for its key. Control records are saved together
with data by updates and insertions and go with it in deletions. But a query that asks for the lock
and an unlocking also save the record that they have read, and where there was none that is a new
one, for which there is no data.

## Main definitions

* `SoundArrival`, `Presence`, `Presence.step` — requests, the store, and whether data was stored
* `InsertTellsStored` — what the answer to an insertion should say
* `SavesNoNewRecord` — the requests that save no control record without data

## Main results

* `Presence.step_spec` — one request
* `insertTellsStored_iff_savesNoNewRecord`
-/

namespace Lsf.DataSvr

variable {δ : Type}

/-- No call of the store fails. -/
def Env.Succeeds (env : Env) : Prop := ∀ call, env.failed call = false

/-- A request for which the calls of the store succeed. -/
abbrev SoundArrival (δ : Type) := { a : Arrival δ // a.env.Succeeds }

/-- The store, and whether data for a key was stored and not deleted since. -/
structure Presence (δ : Type) where
  db : LevelDB δ
  stored : Bool

/-- The request is one to delete. -/
def Request.isDelete : Request δ → Bool
  | .deleteData _ => true
  | _ => false

namespace Presence

/-- A request is handled. Accepted updates and insertions of the key store data, deletions take it
away. -/
def step [Inhabited δ] (timeout : UInt32) (key : DataKey) (a : SoundArrival δ) (s : Presence δ) :
    Option (Presence δ) :=
  some {
    db := (a.1.handle timeout s.db).2
    stored := if a.1.Writes timeout key s.db then !a.1.req.isDelete else s.stored }

/-- There is no data in the beginning. -/
def empty : Presence δ := ⟨LevelDB.empty, false⟩

/-- There is a control record for the key. -/
def HasRecord (key : DataKey) (s : Presence δ) : Prop :=
  (s.db (convertControlInfoKey key)).isSome = true

end Presence

/-- An insertion of the key is refused for data that is there already exactly if there is some. -/
def InsertTellsStored [Inhabited δ] (key : DataKey) (s : Presence δ) : Prop :=
  ∀ (req : InsertDataReq δ) (env : Env), req.key = key → env.Succeeds →
    ((insertDataHandler req env s.db).1.result = some .alreadyHasData ↔ s.stored = true)

/-- While there is no data for the key, no query asks for its lock and no unlocking comes with the
lock id 0. -/
def SavesNoNewRecord (key : DataKey) (a : SoundArrival δ) (s : Presence δ) : Prop :=
  a.1.req.key = key → s.stored = false →
    match a.1.req with
    | .queryData req => req.needLock.getD false = false
    | .unlockData req => req.lockId.getD 0 ≠ 0
    | _ => True

section Steps

variable [Inhabited δ] {timeout : UInt32} {key : DataKey} {env : Env} {db : LevelDB δ}
  {s s' : Presence δ} {a : SoundArrival δ}

/-- An insertion looks for the control record. -/
theorem insertDataHandler_result {req : InsertDataReq δ} (henv : env.Succeeds) :
    (insertDataHandler req env db).1.result = some .alreadyHasData ↔
      (db (convertControlInfoKey req.key)).isSome = true := by
  have hwrite : env.failed .write = false := henv _
  rw [insertDataHandler, LevelDB.has, henv, Bool.not_false, Bool.true_and]
  split_ifs with hsome
  · exact iff_of_true rfl hsome
  · simp only [LevelDB.batchUpdate, hwrite, Bool.false_eq_true, if_false]
    refine iff_of_false (fun h => ?_) hsome
    cases h

theorem insertTellsStored_iff : InsertTellsStored key s ↔ (s.HasRecord key ↔ s.stored = true) := by
  constructor
  · intro h
    rw [← h ⟨key, none⟩ Env.still rfl fun _ => rfl, insertDataHandler_result fun _ => rfl]
    rfl
  · rintro h req env rfl henv
    rw [insertDataHandler_result henv, ← h]
    rfl

omit [Inhabited δ] in
/-- An unlocking saves the record that it has read if the lock is its own. -/
theorem unlockDataHandler_eq {req : UnlockDataNotify} {c : DBControlInfo} (henv : env.Succeeds)
    (hc : db.controlInfo req.key = some c) : unlockDataHandler timeout req env db =
      if (updateTimeoutLock timeout env c).getLastLockId ≠ req.lockId.getD 0 then db
      else db.setControlInfo req.key
        { updateTimeoutLock timeout env c with lastLockId := none, lastLockTime := none } := by
  have hwrite : env.failed .write = false := henv _
  rw [unlockDataHandler, LevelDB.queryControlInfo_eq (henv _), hc]
  simp only [LevelDB.update, hwrite, Bool.false_eq_true, if_false]
  rfl

omit [Inhabited δ] in
/-- A deletion leaves no record. -/
theorem deleteDataHandler_record (henv : env.Succeeds) :
    ((deleteDataHandler key env db).2.record key).1 = none := by
  have hrecord : env.failed .deleteControlInfo = false := henv _
  have hdata : env.failed .deleteData = false := henv _
  simp [deleteDataHandler, LevelDB.delete, LevelDB.record, hrecord, hdata,
    (convertDataKey_ne_convertControlInfoKey _ _).symm]

namespace Presence

/-- What is stored under the key of the control record is one. -/
def WellFormed (key : DataKey) (s : Presence δ) : Prop := ∃ c, s.db.controlInfo key = some c

omit [Inhabited δ] in
theorem controlInfo_of_not_hasRecord (h : ¬ s.HasRecord key) :
    s.db.controlInfo key = some .default := by
  rw [HasRecord, Bool.not_eq_true, Option.isSome_eq_false_iff, Option.isNone_iff_eq_none] at h
  rw [LevelDB.controlInfo, h]

omit [Inhabited δ] in
theorem unchanged (hform : s.WellFormed key) (hrecord : s.HasRecord key ↔ s.stored = true)
    (hdb : s'.db = s.db) (hstored : s'.stored = s.stored) :
    s'.WellFormed key ∧ (s'.HasRecord key ↔ s'.stored = true) := by
  rw [WellFormed, HasRecord, hdb, hstored]
  exact ⟨hform, hrecord⟩

omit [Inhabited δ] in
theorem saved (s' : Presence δ) (key : DataKey) {c : DBControlInfo}
    (h : (s'.db.record key).1 = some (.controlInfo c)) :
    s'.WellFormed key ∧ ((s'.HasRecord key ↔ s'.stored = true) ↔ s'.stored = true) := by
  have hhas : s'.HasRecord key := congrArg Option.isSome h
  exact ⟨⟨c, LevelDB.controlInfo_of_fst h⟩, iff_true_left hhas⟩

omit [Inhabited δ] in
theorem empty_hasRecord_iff : (empty : Presence δ).HasRecord key ↔
    (empty : Presence δ).stored = true :=
  iff_of_false Bool.false_ne_true Bool.false_ne_true

/-- A query saves a record if it gets the lock, and where there is no record there is none. -/
theorem query_spec {req : QueryDataReq} (henv : env.Succeeds) (hform : s.WellFormed req.key)
    (hrecord : s.HasRecord req.key ↔ s.stored = true)
    (hdb : s'.db = (queryDataHandler timeout req env s.db).2) (hstored : s'.stored = s.stored) :
    s'.WellFormed req.key ∧ ((s'.HasRecord req.key ↔ s'.stored = true) ↔
      (s.stored = false → req.needLock.getD false = false)) := by
  cases h : queryDataHandler timeout req env s.db with
  | mk response db' =>
    rw [h] at hdb
    obtain ⟨hnone, -⟩ | ⟨c, hc, -, hcases⟩ := queryDataHandler_cases (henv _) h
    · obtain ⟨c, hc⟩ := hform
      exact absurd (hc.symm.trans hnone) (Option.some_ne_none c)
    obtain ⟨hneed, -, rfl⟩ | ⟨-, hlocked, -, -, rfl⟩ | ⟨hneed, -, -, rfl⟩ := hcases
    · obtain ⟨hform', hrecord'⟩ := unchanged hform hrecord hdb hstored
      exact ⟨hform', iff_of_true hrecord' fun _ => hneed⟩
    · obtain ⟨hform', hrecord'⟩ := unchanged hform hrecord hdb hstored
      refine ⟨hform', iff_of_true hrecord' fun hnot => ?_⟩
      -- it is a record that has the lock
      have hdefault := controlInfo_of_not_hasRecord fun hhas =>
        Bool.false_ne_true (hnot.symm.trans (hrecord.mp hhas))
      obtain rfl : c = .default := Option.some.inj (hc.symm.trans hdefault)
      cases hlocked
    · rw [henv, if_neg Bool.false_ne_true] at hdb
      obtain ⟨hform', hrecord'⟩ := saved s' req.key
        (by rw [hdb]; exact congrArg Prod.fst LevelDB.setControlInfo_record_self)
      refine ⟨hform', hrecord'.trans ?_⟩
      rw [hstored, hneed]
      cases s.stored <;> simp

omit [Inhabited δ] in
/-- An unlocking with the lock id 0 saves a record where there is none. -/
theorem unlock_spec {req : UnlockDataNotify} (henv : env.Succeeds) (hform : s.WellFormed req.key)
    (hrecord : s.HasRecord req.key ↔ s.stored = true)
    (hdb : s'.db = unlockDataHandler timeout req env s.db) (hstored : s'.stored = s.stored) :
    s'.WellFormed req.key ∧ ((s'.HasRecord req.key ↔ s'.stored = true) ↔
      (s.stored = false → req.lockId.getD 0 ≠ 0)) := by
  obtain ⟨c, hc⟩ := hform
  have hdefault : s.stored = false → c = .default := fun hnot =>
    Option.some.inj (hc.symm.trans (controlInfo_of_not_hasRecord fun hhas =>
      Bool.false_ne_true (hnot.symm.trans (hrecord.mp hhas))))
  rw [unlockDataHandler_eq henv hc] at hdb
  split_ifs at hdb with hlock
  · obtain ⟨hform', hrecord'⟩ := unchanged ⟨c, hc⟩ hrecord hdb hstored
    refine ⟨hform', iff_of_true hrecord' fun hnot hzero => hlock ?_⟩
    rw [hdefault hnot, hzero]
    rfl
  · obtain ⟨hform', hrecord'⟩ := saved s' req.key
      (by rw [hdb]; exact congrArg Prod.fst LevelDB.setControlInfo_record_self)
    refine ⟨hform', hrecord'.trans ?_⟩
    rw [hstored]
    constructor
    · intro hyes hnot
      exact absurd (hnot.symm.trans hyes) Bool.false_ne_true
    · intro hnonzero
      by_contra hnot
      rw [Bool.not_eq_true] at hnot
      rw [hdefault hnot] at hlock
      exact hnonzero hnot (not_not.mp hlock).symm

/-- An insertion or an update saves both records if it is accepted, and none otherwise. -/
theorem write_spec (x : Arrival δ) (hfinds : x.Finds) (hwrite : x.req.isWrite = true)
    (hdelete : x.req.isDelete = false) (hform : s.WellFormed x.req.key)
    (hrecord : s.HasRecord x.req.key ↔ s.stored = true)
    (hdb : s'.db = (x.handle timeout s.db).2)
    (hstored : s'.stored =
      if x.Writes timeout x.req.key s.db then !x.req.isDelete else s.stored) :
    s'.WellFormed x.req.key ∧ (s'.HasRecord x.req.key ↔ s'.stored = true) := by
  have hnot : x.req ≠ .deleteData x.req.key := fun h => by
    rw [h] at hdelete
    cases hdelete
  obtain ⟨hrefused, hsame⟩ | ⟨haccepted, c, d, -, hboth⟩ :=
    Arrival.write_cases timeout s.db hfinds hwrite hnot
  · rw [if_neg hrefused] at hstored
    exact unchanged hform hrecord (hdb.trans hsame) hstored
  · rw [if_pos haccepted, hdelete] at hstored
    have hsaved : (s'.db.record x.req.key).1 = some (.controlInfo (c.updated x.env)) := by
      rw [hdb, hboth]
      exact congrArg Prod.fst LevelDB.setBoth_record_self
    exact (saved s' x.req.key hsaved).imp_right fun h => h.mpr hstored

omit [Inhabited δ] in
/-- A deletion removes both records. -/
theorem delete_spec (henv : env.Succeeds) (hdb : s'.db = (deleteDataHandler key env s.db).2)
    (hstored : s'.stored = false) :
    s'.WellFormed key ∧ (s'.HasRecord key ↔ s'.stored = true) := by
  have hgone : s'.db (convertControlInfoKey key) = none := by
    rw [hdb]
    exact deleteDataHandler_record henv
  refine ⟨⟨.default, by rw [LevelDB.controlInfo, hgone]⟩, ?_⟩
  rw [HasRecord, hgone, hstored]
  exact Iff.rfl

/-- A request of another key saves no record of this one. -/
theorem other_spec {x : Arrival δ} (hfinds : x.Finds) (hkey : x.req.key ≠ key)
    (hform : s.WellFormed key) (hrecord : s.HasRecord key ↔ s.stored = true)
    (hdb : s'.db = (x.handle timeout s.db).2)
    (hstored : s'.stored = if x.Writes timeout key s.db then !x.req.isDelete else s.stored) :
    s'.WellFormed key ∧ (s'.HasRecord key ↔ s'.stored = true) := by
  have hsame : (x.handle timeout s.db).2.record key = s.db.record key :=
    Arrival.record_handle_of_ne hfinds hkey.symm
  rw [← hdb] at hsame
  rw [if_neg fun h => hkey h.1] at hstored
  have hci : s'.db (convertControlInfoKey key) = s.db (convertControlInfoKey key) :=
    congrArg Prod.fst hsame
  rw [WellFormed, LevelDB.controlInfo_of_record hsame, HasRecord, hci, hstored]
  exact ⟨hform, hrecord⟩

/-- **One request.** It keeps the record in step with the data exactly if it saves no new one
without data. -/
theorem step_spec (hform : s.WellFormed key) (hrecord : s.HasRecord key ↔ s.stored = true)
    (hstep : step timeout key a s = some s') :
    s'.WellFormed key ∧ ((s'.HasRecord key ↔ s'.stored = true) ↔ SavesNoNewRecord key a s) := by
  obtain ⟨⟨req, env⟩, henv⟩ := a
  have hfinds : Arrival.Finds ⟨req, env⟩ := henv _
  have hdb : s'.db = (Arrival.handle timeout ⟨req, env⟩ s.db).2 := by cases hstep; rfl
  have hstored : s'.stored =
      if Arrival.Writes timeout key ⟨req, env⟩ s.db then !req.isDelete else s.stored := by
    cases hstep; rfl
  clear hstep
  obtain hkey | hkey := ne_or_eq req.key key
  · obtain ⟨hform', hrecord'⟩ := other_spec hfinds hkey hform hrecord hdb hstored
    exact ⟨hform', iff_of_true hrecord' fun h => absurd h hkey⟩
  cases req with
  | queryData req =>
    obtain rfl : req.key = key := hkey
    rw [if_neg fun h => Bool.false_ne_true h.2.1] at hstored
    obtain ⟨hform', hiff⟩ := query_spec henv hform hrecord hdb hstored
    exact ⟨hform', hiff.trans (imp_iff_right rfl).symm⟩
  | updateData req =>
    obtain rfl : req.key = key := hkey
    obtain ⟨hform', hrecord'⟩ :=
      write_spec ⟨.updateData req, env⟩ hfinds rfl rfl hform hrecord hdb hstored
    exact ⟨hform', iff_of_true hrecord' fun _ _ => trivial⟩
  | insertData req =>
    obtain rfl : req.key = key := hkey
    obtain ⟨hform', hrecord'⟩ :=
      write_spec ⟨.insertData req, env⟩ hfinds rfl rfl hform hrecord hdb hstored
    exact ⟨hform', iff_of_true hrecord' fun _ _ => trivial⟩
  | deleteData key' =>
    obtain rfl : key' = key := hkey
    rw [if_pos ⟨rfl, rfl, _, rfl, .inl rfl⟩] at hstored
    obtain ⟨hform', hrecord'⟩ := delete_spec henv hdb hstored
    exact ⟨hform', iff_of_true hrecord' fun _ _ => trivial⟩
  | unlockData req =>
    obtain rfl : req.key = key := hkey
    rw [if_neg fun h => Bool.false_ne_true h.2.1] at hstored
    obtain ⟨hform', hiff⟩ := unlock_spec henv hform hrecord hdb hstored
    exact ⟨hform', hiff.trans (imp_iff_right rfl).symm⟩

end Presence

/-- **An insertion is refused for data that is there exactly if there is some**, all through a run
of requests of any keys, exactly if none of them saves a control record for which there is no data.
-/
theorem insertTellsStored_iff_savesNoNewRecord (timeout : UInt32) (key : DataKey)
    (as : List (SoundArrival δ)) :
    HoldsAlong (Presence.step timeout key) (InsertTellsStored key) as Presence.empty ↔
      GuardedSteps (Presence.step timeout key) (SavesNoNewRecord key) as Presence.empty := by
  refine holdsAlong_iff_guardedSteps (I := Presence.WellFormed key) ?_ ?_ ⟨.default, rfl⟩
    (insertTellsStored_iff.mpr Presence.empty_hasRecord_iff)
  · intro a s s' hform htells hstep
    rw [insertTellsStored_iff] at htells ⊢
    exact Presence.step_spec hform htells hstep
  · intro a s hnone
    cases hnone

end Steps

/-- A client asks for the lock of a user for whom there is no data. -/
def lockOfNewUser : SoundArrival Unit :=
  ⟨⟨.queryData ⟨⟨.userData, 1⟩, none, some true⟩, Env.still⟩, fun _ => rfl⟩

/-- After that, data for the user is refused although nothing was stored. -/
theorem insert_refused_after_lock :
    ¬ HoldsAlong (Presence.step 0 ⟨.userData, 1⟩) (InsertTellsStored ⟨.userData, 1⟩) [lockOfNewUser]
      Presence.empty := by
  intro h
  have htells := insertTellsStored_iff.mp (h.2 _ rfl)
  have hsaves := (Presence.step_spec ⟨.default, rfl⟩ Presence.empty_hasRecord_iff rfl).2.mp htells
  cases hsaves rfl rfl

end Lsf.DataSvr
