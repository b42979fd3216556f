import Lsf.Svr.DataRecords
import Mathlib.Logic.Basic

/-!
# Locks of the data server

A query may take the lock of a key: it saves a random lock id and the time in the control record. A
handler forgets a lock that is too old in its own copy of the record only, and what it does then
decides whether the record is saved without it.

## Main definitions

* `LevelDB.Locked` — the control record of a key has a lock
* `Arrival.Ends`, `Held` — the requests that can end a lock, and requests without one

## Main results

* `LevelDB.Locked.record_handle` — a request that does not end the lock leaves the record as it is
* `lock_excludes`
-/

namespace Lsf.DataSvr

variable {δ : Type}

/-- The control record of a key has the lock `r` of the time `t`, a time that the clock can show. -/
structure LevelDB.Locked (db : LevelDB δ) (key : DataKey) (r : UInt32) (t : UInt64) : Prop where
  stored : ∃ c, (db.record key).1 = some (.controlInfo c) ∧ c.lastLockId = some r ∧
    c.lastLockTime = some t
  id_ne_zero : r ≠ 0
  time_lt : t.toNat < 2 ^ 63

/-- The request is handled after the lock of the time `t` has run out. -/
def Arrival.Late (timeout : UInt32) (t : UInt64) (a : Arrival δ) : Prop :=
  t.toNat + timeout.toNat < a.env.now.clockTimeMilli.toNat

/-- What ends the lock `r` of the time `t`: an accepted update or an unlock with its id, a deletion,
or any request for the key that is late. -/
def Arrival.Ends [Inhabited δ] (timeout : UInt32) (key : DataKey) (r : UInt32) (t : UInt64)
    (a : Arrival δ) (db : LevelDB δ) : Prop :=
  a.req.key = key ∧ (a.Late timeout t ∨
    match a.req with
    | .updateData req =>
      req.lockId = some r ∧ (updateDataHandler timeout req a.env db).1.Accepted
    | .unlockData req => req.lockId = some r
    | .deleteData _ => True
    | _ => False)

/-- None of the requests ends the lock. -/
def Held [Inhabited δ] (timeout : UInt32) (key : DataKey) (r : UInt32) (t : UInt64) :
    List (Arrival δ) → LevelDB δ → Prop
  | [], _ => True
  | a :: as, db => ¬ a.Ends timeout key r t db ∧ Held timeout key r t as (a.handle timeout db).2

/-! ### Taking a lock -/

theorem Timespec.clockTimeMilli_lt (ts : Timespec) : ts.clockTimeMilli.toNat < 2 ^ 63 := by
  rw [clockTimeMilli, UInt64.toNat_ofNat']
  exact Nat.lt_of_le_of_lt (Nat.mod_le _ _) ts.fits

theorem getRand_ne_zero (random : ℕ) : getRand random MIN_LOCK_ID MAX_LOCK_ID ≠ 0 := by
  intro hzero
  have hoff : (getRand random MIN_LOCK_ID MAX_LOCK_ID).toNat = 1 + random % 65536 := by
    show (1 + UInt32.ofNat (random % 65536)).toNat = _
    rw [UInt32.toNat_add, UInt32.toNat_ofNat', UInt32.toNat_one]
    omega
  rw [hzero, UInt32.toNat_zero] at hoff
  omega

/-- The query takes the lock `r`: it answers with it, and saving it does not fail. -/
def QueryDataReq.StoresLock [Inhabited δ] (req : QueryDataReq) (timeout : UInt32) (env : Env)
    (db : LevelDB δ) (r : UInt32) : Prop :=
  req.needLock.getD false = true ∧ (queryDataHandler timeout req env db).1.lockId = some r ∧
    env.failed .write = false

theorem QueryDataReq.StoresLock.locked [Inhabited δ] {req : QueryDataReq} {timeout : UInt32}
    {env : Env} {db : LevelDB δ} {r : UInt32} (hget : env.failed .getControlInfo = false)
    (hstores : req.StoresLock timeout env db r) :
    (queryDataHandler timeout req env db).2.Locked req.key r env.now.clockTimeMilli := by
  obtain ⟨hneed, hlockId, hwrite⟩ := hstores
  cases h : queryDataHandler timeout req env db with
  | mk response db' =>
    rw [h] at hlockId
    obtain ⟨-, -, hnone, -⟩ | ⟨c, -, -, ⟨-, hnone, -⟩ | ⟨-, -, -, hnone, -⟩ | ⟨-, -, hid, rfl⟩⟩ :=
      queryDataHandler_cases hget h
    · rw [hnone] at hlockId
      cases hlockId
    · rw [hnone] at hlockId
      cases hlockId
    · rw [hnone] at hlockId
      cases hlockId
    · rw [hid] at hlockId
      cases hlockId
      rw [hwrite, if_neg Bool.false_ne_true]
      exact ⟨⟨_, by rw [LevelDB.setControlInfo_record_self], rfl, rfl⟩, getRand_ne_zero _,
        Timespec.clockTimeMilli_lt _⟩

/-! ### While it is held -/

/-- An absent lock id is read as 0, which is no lock's id. -/
theorem carried_of_getD {lockId : Option UInt32} {r : UInt32} (h : lockId.getD 0 = r)
    (hr : r ≠ 0) : lockId = some r :=
  (Option.getD_eq_iff.mp h).resolve_right fun hnone => hr hnone.2.symm

namespace LevelDB.Locked

variable {db db' : LevelDB δ} {key : DataKey} {r : UInt32} {t : UInt64} {timeout : UInt32}
  {a : Arrival δ}

theorem of_record (h : db.Locked key r t) (heq : db'.record key = db.record key) :
    db'.Locked key r t :=
  ⟨heq ▸ h.stored, h.id_ne_zero, h.time_lt⟩

/-- A handler that is not late finds the lock. -/
theorem controlInfo (h : db.Locked key r t) {env : Env}
    (hlate : ¬ t.toNat + timeout.toNat < env.now.clockTimeMilli.toNat) :
    ∃ c, db.controlInfo key = some c ∧ updateTimeoutLock timeout env c = c ∧
      c.lastLockId = some r := by
  obtain ⟨c, hc, hid, htime⟩ := h.stored
  refine ⟨c, LevelDB.controlInfo_of_fst hc, ?_, hid⟩
  have hlt := h.time_lt
  have htimeout := timeout.toNat_lt
  have hle : env.now.clockTimeMilli ≤ t + timeout.toUInt64 := by
    rw [UInt64.le_iff_toNat_le, UInt64.toNat_add, UInt32.toNat_toUInt64,
      Nat.mod_eq_of_lt (by omega)]
    omega
  rw [updateTimeoutLock, hid, htime]
  exact if_pos hle

variable [Inhabited δ]

/-- **A request that does not end the lock leaves the record as it is.** -/
theorem record_handle (h : db.Locked key r t) (hfinds : a.Finds)
    (hends : ¬ a.Ends timeout key r t db) :
    (a.handle timeout db).2.record key = db.record key := by
  obtain hkey | hkey := ne_or_eq a.req.key key
  · exact Arrival.record_handle_of_ne hfinds hkey.symm
  have hlate : ¬ a.Late timeout t := fun hlate => hends ⟨hkey, .inl hlate⟩
  obtain ⟨req, env⟩ := a
  obtain ⟨c, hc, hkept, hid⟩ := @controlInfo _ _ _ _ _ timeout h env hlate
  cases req with
  | queryData req =>
    obtain rfl : req.key = key := hkey
    cases hq : queryDataHandler timeout req env db with
    | mk response db' =>
      rw [Arrival.handle, Request.handle, hq]
      obtain ⟨-, -, -, rfl⟩ | ⟨c', hc', -, ⟨-, -, rfl⟩ | ⟨-, -, -, -, rfl⟩ | ⟨-, hnone, -, -⟩⟩ :=
        queryDataHandler_cases hfinds hq
      · rfl
      · rfl
      · rfl
      · rw [hc] at hc'
        cases hc'
        rw [hkept, hid] at hnone
        cases hnone
  | updateData req =>
    obtain rfl : req.key = key := hkey
    cases hu : updateDataHandler timeout req env db with
    | mk response db' =>
      rw [Arrival.handle, Request.handle, hu]
      obtain ⟨-, rfl⟩ | ⟨c', hc', haccepted, -, hlock, -⟩ := updateDataHandler_cases hfinds hu
      · rfl
      · rw [hc] at hc'
        cases hc'
        rw [hkept, DBControlInfo.getLastLockId, hid] at hlock
        refine absurd ⟨rfl, .inr ⟨?_, ?_⟩⟩ hends
        · exact carried_of_getD hlock h.id_ne_zero
        · show (updateDataHandler timeout req env db).1.Accepted
          rw [hu]
          exact haccepted
  | deleteData key' => exact absurd ⟨hkey, .inr trivial⟩ hends
  | insertData req =>
    obtain rfl : req.key = key := hkey
    cases hi : insertDataHandler req env db with
    | mk response db' =>
      rw [Arrival.handle, Request.handle, hi]
      obtain ⟨-, rfl⟩ | ⟨-, -, hnone, -⟩ := insertDataHandler_cases hfinds hi
      · rfl
      · obtain ⟨_, hstored, -⟩ := h.stored
        rw [hnone] at hstored
        cases hstored
  | unlockData req =>
    obtain rfl : req.key = key := hkey
    rw [Arrival.handle, Request.handle]
    obtain hu | ⟨c', hc', hlock, -⟩ :=
      @unlockDataHandler_cases _ timeout _ db req hfinds
    · rw [hu]
    · rw [hc] at hc'
      cases hc'
      rw [hkept, DBControlInfo.getLastLockId, hid] at hlock
      exact absurd ⟨rfl, .inr (carried_of_getD hlock h.id_ne_zero)⟩ hends

/-- A query for the lock that is not late is refused. -/
theorem query_refused (h : db.Locked key r t) {req : QueryDataReq} {env : Env}
    (hget : env.failed .getControlInfo = false) (hkey : req.key = key)
    (hneed : req.needLock.getD false = true)
    (hlate : ¬ t.toNat + timeout.toNat < env.now.clockTimeMilli.toNat) :
    (queryDataHandler timeout req env db).1.result = some .alreadyLock ∧
      (queryDataHandler timeout req env db).2 = db := by
  obtain ⟨c, hc, hkept, hid⟩ := @controlInfo _ _ _ _ _ timeout h env hlate
  subst hkey
  cases hq : queryDataHandler timeout req env db with
  | mk response db' =>
    obtain ⟨hnone, -⟩ | ⟨c', hc', -, ⟨hnot, -, -⟩ | ⟨-, -, hresult, -, heq⟩ | ⟨-, hnone, -, -⟩⟩ :=
      queryDataHandler_cases hget hq
    · rw [hc] at hnone
      cases hnone
    · rw [hneed] at hnot
      cases hnot
    · exact ⟨hresult, heq⟩
    · rw [hc] at hc'
      cases hc'
      rw [hkept, hid] at hnone
      cases hnone

/-- While none of the requests ends the lock, the record stays as it is. -/
theorem record_serve (h : db.Locked key r t) {as : List (Arrival δ)} (hfinds : ∀ a ∈ as, a.Finds)
    (hheld : Held timeout key r t as db) : (serve timeout as db).record key = db.record key := by
  induction as generalizing db with
  | nil => rfl
  | cons a as ih =>
    have hstep := h.record_handle (hfinds a List.mem_cons_self) hheld.1
    exact (ih (h.of_record hstep) (fun b hb => hfinds b (List.mem_cons_of_mem _ hb))
      hheld.2).trans hstep

end LevelDB.Locked

/-- **A lock keeps others out.** Once a query has stored the lock id `r` of a key, and as long as no
accepted update and no unlock carries `r`, the data is not deleted and no request for the key is
late, what the store has for the key stays as it is; any other query for the lock is refused and
stores nothing; and updates and unlocks that carry another lock id, or none, leave data, version,
lock id and lock time alone. -/
theorem lock_excludes [Inhabited δ] {timeout : UInt32} {key : DataKey} {db db₁ db₂ : LevelDB δ}
    {query : QueryDataReq} {env : Env} {r : UInt32} {between : List (Arrival δ)} {a : Arrival δ}
    (hfinds : ∀ b ∈ ⟨.queryData query, env⟩ :: (between ++ [a]), b.Finds)
    (hquery : query.key = key) (hstores : query.StoresLock timeout env db r)
    (hdb₁ : (queryDataHandler timeout query env db).2 = db₁)
    (hheld : Held timeout key r env.now.clockTimeMilli between db₁)
    (hdb₂ : serve timeout between db₁ = db₂) (hlate : ¬ a.Late timeout env.now.clockTimeMilli) :
    db₂.record key = db₁.record key ∧
    (∀ req, a.req = .queryData req → req.key = key → req.needLock.getD false = true →
      (queryDataHandler timeout req a.env db₂).1.result = some .alreadyLock ∧
        (a.handle timeout db₂).2 = db₂) ∧
    (∀ req, a.req = .updateData req → req.lockId ≠ some r →
      (a.handle timeout db₂).2.record key = db₂.record key) ∧
    (∀ req, a.req = .unlockData req → req.lockId ≠ some r →
      (a.handle timeout db₂).2.record key = db₂.record key) := by
  have hlock₁ : db₁.Locked key r env.now.clockTimeMilli := by
    have hget : @Arrival.Finds δ ⟨.queryData query, env⟩ := hfinds _ List.mem_cons_self
    have hlocked := hstores.locked hget
    rwa [hquery, hdb₁] at hlocked
  have hsame : db₂.record key = db₁.record key := by
    rw [← hdb₂]
    exact hlock₁.record_serve (fun b hb => hfinds b (by simp [hb])) hheld
  have hlock₂ := hlock₁.of_record hsame
  have hfindsLast : a.Finds := hfinds a (by simp)
  obtain ⟨req, env'⟩ := a
  refine ⟨hsame, ?_, ?_, ?_⟩
  · rintro req rfl hkey hneed
    exact hlock₂.query_refused hfindsLast hkey hneed hlate
  · rintro req rfl hother
    exact hlock₂.record_handle hfindsLast fun hends =>
      hends.2.elim hlate fun hcarries => hother hcarries.1
  · rintro req rfl hother
    exact hlock₂.record_handle hfindsLast fun hends => hends.2.elim hlate hother

/-- One client takes the lock of a key without data, a second one tries to save without it, and a
third one asks for it. -/
theorem lock_excludes_two_clients :
    (queryDataHandler 100 ⟨⟨.userData, 7⟩, none, some true⟩ .still
      (serve 100 [⟨.updateData ⟨⟨.userData, 7⟩, some 0, some 5, none⟩, .still⟩]
        (queryDataHandler 100 ⟨⟨.userData, 7⟩, none, some true⟩ .still
          (.empty : LevelDB ℕ)).2)).1.result = some .alreadyLock := by
  have hfinds : ∀ b ∈ [⟨.queryData ⟨⟨.userData, 7⟩, none, some true⟩, .still⟩,
      ⟨.updateData ⟨⟨.userData, 7⟩, some 0, some 5, none⟩, .still⟩,
      (⟨.queryData ⟨⟨.userData, 7⟩, none, some true⟩, .still⟩ : Arrival ℕ)], b.Finds := by
    simp [Arrival.Finds, Env.still]
  have hlate : ∀ req : Request ℕ, ¬ Arrival.Late 100 Env.still.now.clockTimeMilli ⟨req, .still⟩ :=
    fun req => Nat.not_lt.mpr (Nat.le_add_right _ _)
  exact ((@lock_excludes _ _ _ _ _ _ _ _ _ 1
    [⟨.updateData ⟨⟨.userData, 7⟩, some 0, some 5, none⟩, .still⟩]
    ⟨.queryData ⟨⟨.userData, 7⟩, none, some true⟩, .still⟩ hfinds rfl
    ⟨rfl, by decide +kernel, rfl⟩ rfl ⟨fun hends => hends.2.elim (hlate _) nofun, trivial⟩ rfl
    (hlate _)).2.1 _ rfl rfl rfl).1

end Lsf.DataSvr
