import Lsf.Foundations.Reachability
import Lsf.Svr.SessionMachine
import Mathlib.Logic.Basic
import Mathlib.Tactic.SplitIfs

/-!
# The locks of a session

A session stores the lock ids that its queries bring in its db handles. An update takes the lock id
of its handle into its request, and when the session ends, the lock ids that are left are sent back
in unlock notifications.

`OnDBSvrUpdate` takes the lock id out of the handle before it finds that there is nothing to save;
then no message is sent and the lock id is gone.

## Main definitions

* `Carried` — a message with a lock id is among those that were sent
* `SessionEvent.KeepsLocks` — no lock id is dropped or overwritten before it was sent

## Main results

* `all_locks_carried_when_kept`, `lock_dropped_with_nothing_to_save`
-/

namespace Lsf.BasicHandler

open DataSvr

/-- The lock id that a message gives back to the data server. -/
def carriedLockId : Request DB → Option UInt32
  | .updateData req => req.lockId
  | .unlockData req => req.lockId
  | _ => none

/-- A message gives the lock id of a key back. -/
def Carried (p : DataKey × UInt32) (sent : List (Request DB)) : Prop :=
  ∃ msg ∈ sent, msg.key = p.1 ∧ carriedLockId msg = some p.2

theorem Carried.append_left {p : DataKey × UInt32} {sent : List (Request DB)} (h : Carried p sent)
    (more : List (Request DB)) : Carried p (sent ++ more) := by
  obtain ⟨msg, hmem, hcarries⟩ := h
  exact ⟨msg, List.mem_append_left _ hmem, hcarries⟩

theorem Carried.append_right {p : DataKey × UInt32} {more : List (Request DB)} (h : Carried p more)
    (sent : List (Request DB)) : Carried p (sent ++ more) := by
  obtain ⟨msg, hmem, hcarries⟩ := h
  exact ⟨msg, List.mem_append_right _ hmem, hcarries⟩

/-- The handle is one to be locked and has the lock id of its key. -/
def DBHandle.Holds (h : DBHandle) (p : DataKey × UInt32) : Prop :=
  h.key = p.1 ∧ h.needLock.getD false = true ∧ h.lockId = some p.2

/-- One of the handles has the lock id. -/
def Held (p : DataKey × UInt32) (handles : List DBHandle) : Prop := ∃ h ∈ handles, h.Holds p

/-- The handle that the query response in a session is for. -/
def answeredHandle (s : Session) : Option DBHandle :=
  s.dbHandles.find? fun h => h.key = (s.svrResponse.queryDataRsp.getD defaultRsp).key

/-- No lock id is lost in the event: an update is not called for a handle that has one and nothing
to save, and a query response does not bring another one for a handle that has one. -/
def SessionEvent.KeepsLocks : SessionEvent → Machine → Prop
  | .round, m =>
    (m.session.state = .dbsvrUpdate → ∀ h ∈ m.session.dbHandles[m.session.dbProcessIndex.toNat]?,
      h.needLock.getD false = true → h.lockId.isSome = true →
        h.key.type = .robotData ∧ h.robotData.byteSize ≠ 0) ∧
    (m.session.state = .dbsvrQueryMessage →
      getResult (m.session.svrResponse.queryDataRsp.getD defaultRsp) = .ok →
      ∀ h ∈ answeredHandle m.session, h.needLock.getD false = true →
        ∀ r ∈ h.lockId, ∀ r' ∈ (m.session.svrResponse.queryDataRsp.getD defaultRsp).lockId, r' = r)
  | _, _ => True

instance : ∀ (e : SessionEvent) (m : Machine), Decidable (e.KeepsLocks m)
  | .round, _ =>
    -- an instance that tries all numbers would be found otherwise
    have {P : UInt32 → Prop} [DecidablePred P] (o : Option UInt32) : Decidable (∀ r ∈ o, P r) :=
      Option.decidableForallMem o
    inferInstanceAs (Decidable (_ ∧ _))
  | .overridden .., _ | .serverResponse _, _ | .timeout, _ | .curlResult, _ => isTrue trivial

/-! ### Handles keep their locks -/

section Handles

variable {p : DataKey × UInt32} {hs : List DBHandle} {h : DBHandle}

/-- Changing one handle in a way that keeps its lock id keeps all lock ids. -/
theorem Held.modify (hheld : Held p hs) (i : ℕ) {f : DBHandle → DBHandle}
    (hf : ∀ h : DBHandle, h.Holds p → (f h).Holds p) : Held p (hs.modify i f) := by
  obtain ⟨h, hmem, hholds⟩ := hheld
  obtain ⟨j, hj⟩ := List.mem_iff_getElem?.mp hmem
  have hget : (hs.modify i f)[j]? = some (if i = j then f h else h) := by
    rw [List.getElem?_modify, hj]
    rfl
  refine ⟨_, List.mem_iff_getElem?.mpr ⟨j, hget⟩, ?_⟩
  split_ifs
  · exact hf h hholds
  · exact hholds

theorem Held.addHandle {s : Session} (hheld : Held p s.dbHandles) (h : DBHandle) :
    Held p (s.addHandle h).dbHandles := by
  rw [Session.addHandle]
  split_ifs
  · exact hheld
  · obtain ⟨h', hmem, hholds⟩ := hheld
    exact ⟨h', List.mem_append_left _ hmem, hholds⟩

theorem Held.edit {s : Session} (hheld : Held p s.dbHandles) (e : Edit) :
    Held p (e.apply s).dbHandles := by
  cases e with
  | setData i data => exact hheld.modify i fun h hholds => hholds
  | addQueryData key => exact hheld.addHandle _
  | addQueryDataAndLock key =>
    exact (hheld.addHandle _).modify _ fun h hholds => ⟨hholds.1, rfl, hholds.2.2⟩
  | addDeleteData key => exact hheld.addHandle _
  | addInsertData key =>
    obtain ⟨h, hmem, hholds⟩ := hheld.addHandle { key }
    refine ⟨_, List.mem_map.mpr ⟨h, hmem, rfl⟩, ?_⟩
    split_ifs
    · exact hholds
    · exact hholds

theorem Held.edits {s : Session} (hheld : Held p s.dbHandles) (edits : List Edit) :
    Held p (edits.foldl (fun s e => e.apply s) s).dbHandles := by
  induction edits generalizing s with
  | nil => exact hheld
  | cons e edits ih => exact ih (hheld.edit e)

/-! ### The query response -/

variable {response : DataRsp DB}

@[simp] theorem DBHandle.assign_key : (h.assign response).1.key = h.key := by
  rw [assign]
  split <;> rfl

@[simp] theorem DBHandle.assign_needLock : (h.assign response).1.needLock = h.needLock := by
  rw [assign]
  split <;> rfl

@[simp] theorem DBHandle.assign_lockId :
    (h.assign response).1.lockId = (response.lockId <|> h.lockId) := by
  rw [assign]
  split <;> rfl

/-- The handle that matches the response gets what it says. -/
theorem assign_mem_assignData (hfind : (hs.find? fun h => h.key = response.key) = some h) :
    (h.assign response).1 ∈ (assignData response hs).1 := by
  induction hs with
  | nil => cases hfind
  | cons h' hs ih =>
    rw [assignData]
    by_cases hkey : h'.key = response.key
    · rw [List.find?_cons_of_pos (by simpa using hkey)] at hfind
      cases hfind
      rw [if_neg (not_not.mpr hkey)]
      exact List.mem_cons_self
    · rw [List.find?_cons_of_neg (by simpa using hkey)] at hfind
      rw [if_pos hkey]
      exact List.mem_cons_of_mem _ (ih hfind)

/-- The other handles stay as they are. -/
theorem mem_assignData (hmem : h ∈ hs)
    (hne : (hs.find? fun h => h.key = response.key) ≠ some h) :
    h ∈ (assignData response hs).1 := by
  induction hs with
  | nil => cases hmem
  | cons h' hs ih =>
    rw [assignData]
    by_cases hkey : h'.key = response.key
    · rw [List.find?_cons_of_pos (by simpa using hkey)] at hne
      rw [if_neg (not_not.mpr hkey)]
      obtain rfl | hmem := List.mem_cons.mp hmem
      · exact absurd rfl hne
      · exact List.mem_cons_of_mem _ hmem
    · rw [List.find?_cons_of_neg (by simpa using hkey)] at hne
      rw [if_pos hkey]
      obtain rfl | hmem := List.mem_cons.mp hmem
      · exact List.mem_cons_self
      · exact List.mem_cons_of_mem _ (ih hmem hne)

theorem Held.assignData (hheld : Held p hs)
    (hkeeps : ∀ h, (hs.find? fun h => h.key = response.key) = some h →
      h.needLock.getD false = true → ∀ r ∈ h.lockId, ∀ r' ∈ response.lockId, r' = r) :
    Held p (assignData response hs).1 := by
  obtain ⟨h, hmem, hkey, hneed, hlock⟩ := hheld
  by_cases hfind : (hs.find? fun h => h.key = response.key) = some h
  · refine ⟨_, assign_mem_assignData hfind, by rw [DBHandle.assign_key, hkey],
      by rw [DBHandle.assign_needLock, hneed], ?_⟩
    rw [DBHandle.assign_lockId]
    cases hr : response.lockId with
    | none => exact hlock
    | some r' => exact congrArg some (hkeeps h hfind hneed _ hlock _ hr)
  · exact ⟨h, mem_assignData hmem hfind, hkey, hneed, hlock⟩

end Handles

/-! ### One round -/

section Rounds

variable {p : DataKey × UInt32} {s : Session} {o : Outcome}

theorem onDBSvrQueryMessage_dbHandles
    (hok : getResult (s.svrResponse.queryDataRsp.getD defaultRsp) = .ok) :
    (onDBSvrQueryMessage s).session.dbHandles =
      (assignData (s.svrResponse.queryDataRsp.getD defaultRsp) s.dbHandles).1 := by
  rw [onDBSvrQueryMessage]
  simp only [hok, ne_eq, not_true_eq_false, if_false]
  split_ifs <;> rfl

theorem onDBSvrQueryMessage_of_not_ok
    (hok : getResult (s.svrResponse.queryDataRsp.getD defaultRsp) ≠ .ok) :
    (onDBSvrQueryMessage s).session.dbHandles = s.dbHandles := by
  rw [onDBSvrQueryMessage]
  simp only [hok, ne_eq, not_false_eq_true, if_true]
  rfl

theorem onDBSvrMessage_dbHandles {response : DataRsp DB} {error : ENError}
    {success : ENSessionState} (h : onDBSvrMessage response error success s = some o) :
    o.session.dbHandles = s.dbHandles := by
  obtain ⟨h', -, rfl⟩ := Option.map_eq_some_iff.mp h
  split_ifs <;> rfl

theorem onDBSvrQuery_dbHandles : (onDBSvrQuery s).session.dbHandles = s.dbHandles := by
  rw [onDBSvrQuery]
  split_ifs <;> rfl

theorem onDBSvrInsert_dbHandles : (onDBSvrInsert s).session.dbHandles = s.dbHandles := by
  rw [onDBSvrInsert]
  split <;> rfl

theorem onDBSvrDelete_dbHandles : (onDBSvrDelete s).session.dbHandles = s.dbHandles := by
  rw [onDBSvrDelete]
  split <;> rfl

/-- Only updates and query responses touch the handles. -/
theorem runStateMachine_dbHandles (h : runStateMachine s = some o)
    (hupdate : s.state ≠ .dbsvrUpdate)
    (hquery : s.state ≠ .dbsvrQueryMessage) : o.session.dbHandles = s.dbHandles := by
  rw [runStateMachine] at h
  cases hstate : s.state with
  | dbsvrUpdate => exact absurd hstate hupdate
  | dbsvrQueryMessage => exact absurd hstate hquery
  | dbsvrQuery =>
    rw [hstate] at h
    cases h
    exact onDBSvrQuery_dbHandles
  | dbsvrInsert =>
    rw [hstate] at h
    cases h
    exact onDBSvrInsert_dbHandles
  | dbsvrDelete =>
    rw [hstate] at h
    cases h
    exact onDBSvrDelete_dbHandles
  | dbsvrUpdateMessage | dbsvrInsertMessage | dbsvrDeleteMessage =>
    rw [hstate] at h
    exact onDBSvrMessage_dbHandles h
  | _ =>
    rw [hstate] at h
    first
    | cases h; rfl
    | cases h

/-- An update sends the lock id that it takes out of its handle if it sends anything. -/
theorem onDBSvrUpdate_accounts (hheld : Held p s.dbHandles)
    (hkeeps : ∀ h, s.dbHandles[s.dbProcessIndex.toNat]? = some h → h.needLock.getD false = true →
      h.lockId.isSome = true → h.key.type = .robotData ∧ h.robotData.byteSize ≠ 0) :
    Held p (onDBSvrUpdate s).session.dbHandles ∨ Carried p (onDBSvrUpdate s).sent := by
  obtain ⟨h, hmem, hholds⟩ := hheld
  obtain ⟨j, hj⟩ := List.mem_iff_getElem?.mp hmem
  rw [onDBSvrUpdate]
  by_cases hindex : j = s.dbProcessIndex.toNat
  · subst hindex
    obtain ⟨hkey, hneed, hlock⟩ := hholds
    obtain ⟨htype, hsize⟩ := hkeeps h hj hneed (by rw [hlock]; rfl)
    rw [hj]
    simp only [htype, if_neg hsize]
    refine .inr ⟨_, List.mem_singleton_self _, hkey, ?_⟩
    show some (h.lockId.getD 0) = some p.2
    rw [hlock]
    rfl
  · refine .inl ?_
    have hleft : Held p (s.dbHandles.modify s.dbProcessIndex.toNat fun h =>
        { h with lockId := none }) := by
      refine ⟨h, List.mem_iff_getElem?.mpr ⟨j, ?_⟩, hholds⟩
      rw [List.getElem?_modify, hj]
      simp [Ne.symm hindex]
    split
    · exact ⟨h, hmem, hholds⟩
    · split
      · split_ifs <;> exact hleft
      · exact hleft

/-- The lock id that a query response stores is in its handle afterwards. -/
theorem held_of_lockToStore (hp : p ∈ lockToStore s) :
    s.state = .dbsvrQueryMessage ∧ getResult (s.svrResponse.queryDataRsp.getD defaultRsp) = .ok ∧
      Held p (assignData (s.svrResponse.queryDataRsp.getD defaultRsp) s.dbHandles).1 := by
  rw [lockToStore] at hp
  split_ifs at hp with hcond
  · obtain ⟨h, hfound, hp⟩ := List.mem_flatMap.mp hp
    obtain ⟨r, hr, rfl⟩ := List.mem_map.mp hp
    rw [Option.mem_toList] at hfound hr
    obtain ⟨hfind, hneed⟩ := Option.filter_eq_some_iff.mp hfound
    refine ⟨hcond.1, hcond.2, _, assign_mem_assignData hfind, DBHandle.assign_key,
      by rw [DBHandle.assign_needLock, hneed], ?_⟩
    rw [DBHandle.assign_lockId, hr]
    rfl
  · cases hp

/-- **A round accounts for every lock id**, those of the handles and the one that it stores: the
lock id is in a handle afterwards, or a message carries it. -/
theorem round_accounts {m : Machine} (hkeeps : SessionEvent.KeepsLocks .round m)
    (h : runStateMachine m.session = some o)
    (hheld : Held p m.session.dbHandles ∨ p ∈ lockToStore m.session) :
    Held p o.session.dbHandles ∨ Carried p o.sent := by
  by_cases hupdate : m.session.state = .dbsvrUpdate
  · rw [runStateMachine, hupdate] at h
    cases h
    obtain hheld | hp := hheld
    · exact onDBSvrUpdate_accounts hheld (hkeeps.1 hupdate)
    · have hquery := (held_of_lockToStore hp).1
      rw [hupdate] at hquery
      cases hquery
  by_cases hquery : m.session.state = .dbsvrQueryMessage
  · rw [runStateMachine, hquery] at h
    cases h
    refine .inl ?_
    obtain hheld | hp := hheld
    · by_cases hok : getResult (m.session.svrResponse.queryDataRsp.getD defaultRsp) = .ok
      · rw [onDBSvrQueryMessage_dbHandles hok]
        exact hheld.assignData (hkeeps.2 hquery hok)
      · rw [onDBSvrQueryMessage_of_not_ok hok]
        exact hheld
    · obtain ⟨-, hok, hstored⟩ := held_of_lockToStore hp
      rw [onDBSvrQueryMessage_dbHandles hok]
      exact hstored
  · obtain hheld | hp := hheld
    · rw [runStateMachine_dbHandles h hupdate hquery]
      exact .inl hheld
    · exact absurd (held_of_lockToStore hp).1 hquery

/-- The end of a session sends back all lock ids that are left. -/
theorem carried_onSessionFinish (hheld : Held p s.dbHandles) : Carried p (onSessionFinish s) := by
  obtain ⟨h, hmem, hkey, hneed, hlock⟩ := hheld
  refine ⟨_, List.mem_map.mpr ⟨h, List.mem_filter.mpr ⟨hmem, ?_⟩, rfl⟩, hkey, ?_⟩
  · rw [hneed, hlock]
    rfl
  · show some (h.lockId.getD 0) = some p.2
    rw [hlock]
    rfl

end Rounds

/-! ### Runs -/

/-- Every lock id that was stored is still in its handle or was sent back, and the latter once the
session has ended. -/
structure Machine.Inv (m : Machine) : Prop where
  accounted : ∀ p ∈ m.stored, Held p m.session.dbHandles ∨ Carried p m.sent
  released : m.released = true → ∀ p ∈ m.stored, Carried p m.sent

namespace Machine.Inv

variable {m m' : Machine}

theorem initial (request : ENSessionState) : (Machine.initial request).Inv :=
  ⟨fun _ hp => absurd hp List.not_mem_nil, fun h => absurd h Bool.false_ne_true⟩

/-- What happens between two rounds keeps all lock ids. -/
theorem of_handles (hi : m.Inv) {session : Session} (hreleased : m.released = false)
    (hkeep : ∀ p, Held p m.session.dbHandles → Held p session.dbHandles) :
    Machine.Inv { m with session } where
  accounted p hp := (hi.accounted p hp).imp_left (hkeep p)
  released h := absurd (hreleased.symm.trans h) Bool.false_ne_true

theorem round (hi : m.Inv) (hkeeps : SessionEvent.KeepsLocks .round m)
    (hstep : Machine.step .round m = some m') : m'.Inv := by
  simp only [Machine.step] at hstep
  split_ifs at hstep with hreleased hfinish
  · cases hstep
    have hall : ∀ p ∈ m.stored, Carried p (m.sent ++ onSessionFinish m.session) := by
      intro p hp
      obtain hheld | hcarried := hi.accounted p hp
      · exact (carried_onSessionFinish hheld).append_right _
      · exact hcarried.append_left _
    exact ⟨fun p hp => .inr (hall p hp), fun _ => hall⟩
  · obtain ⟨o, hround, rfl⟩ := Option.map_eq_some_iff.mp hstep
    refine ⟨fun p hp => ?_, fun h => absurd h hreleased⟩
    have hcases : (Held p m.session.dbHandles ∨ p ∈ lockToStore m.session) ∨ Carried p m.sent := by
      obtain hp | hp := List.mem_append.mp hp
      · exact (hi.accounted p hp).imp_left .inl
      · exact .inl (.inr hp)
    obtain hheld | hcarried := hcases
    · exact (round_accounts hkeeps hround hheld).imp_right fun h => h.append_right _
    · exact .inr (hcarried.append_left _)

theorem getServerResponse_dbHandles (message : SvrResponse) (s : Session) :
    (getServerResponse message s).dbHandles = s.dbHandles := by
  simp only [getServerResponse]
  split
  · rfl
  · split_ifs <;> rfl

theorem waitResponseTimeout_dbHandles (s : Session) :
    (waitResponseTimeout s).dbHandles = s.dbHandles := by
  rw [waitResponseTimeout]
  split <;> rfl

theorem step {e : SessionEvent} (hi : m.Inv) (hkeeps : e.KeepsLocks m)
    (hstep : Machine.step e m = some m') : m'.Inv := by
  cases e with
  | round => exact hi.round hkeeps hstep
  | overridden edits dbProcessIndex next =>
    simp only [Machine.step] at hstep
    split_ifs at hstep with hcond
    cases hstep
    exact hi.of_handles hcond.1 fun p hheld => hheld.edits edits
  | serverResponse message =>
    simp only [Machine.step] at hstep
    split_ifs at hstep with hcond
    cases hstep
    exact hi.of_handles hcond.1 fun p hheld => by rwa [getServerResponse_dbHandles]
  | timeout =>
    simp only [Machine.step] at hstep
    split_ifs at hstep with hcond
    cases hstep
    exact hi.of_handles hcond.1 fun p hheld => by rwa [waitResponseTimeout_dbHandles]
  | curlResult =>
    simp only [Machine.step] at hstep
    split_ifs at hstep with hcond
    cases hstep
    exact hi.of_handles hcond.1 fun p hheld => hheld

end Machine.Inv

/-- **Every lock id that a session stored is sent back before the session ends**, in every run in
which no update takes a lock id out of a handle with nothing to save and no query response
overwrites one. -/
theorem all_locks_carried_when_kept {request : ENSessionState} {m : Machine}
    (hreach : Reachable Machine.step SessionEvent.KeepsLocks (Machine.initial request) m)
    (hreleased : m.released = true) : ∀ p ∈ m.stored, Carried p m.sent :=
  (hreach.invariant (Machine.Inv.initial request) fun _ _ _ hkeeps (hi : Machine.Inv _) hstep =>
    hi.step hkeeps hstep).released hreleased

/-- A session that locks and queries data, updates it with the lock id and locks other data, whose
update times out. -/
def lockedTwice : List SessionEvent :=
  [.overridden [.addQueryDataAndLock ⟨.robotData, 7⟩, .addQueryDataAndLock ⟨.robotData, 8⟩] 0
      .dbsvrQuery, .round,
    .serverResponse { srcServerType := .dataServer
                      queryDataRsp := some { key := ⟨.robotData, 8⟩, lockId := some 3 } }, .round,
    .serverResponse { srcServerType := .dataServer
                      queryDataRsp := some { key := ⟨.robotData, 7⟩, lockId := some 9 } }, .round,
    .overridden [] 0 .dbsvrUpdate, .round, .timeout, .round, .round]

theorem all_locks_carried_of_lockedTwice :
    ∃ m, runSteps Machine.step lockedTwice (Machine.initial .clientRequest) = some m ∧
      m.stored = [(⟨.robotData, 8⟩, 3), (⟨.robotData, 7⟩, 9)] ∧
        ∀ p ∈ m.stored, Carried p m.sent := by
  have hguard : GuardedSteps Machine.step SessionEvent.KeepsLocks lockedTwice
      (Machine.initial .clientRequest) := by
    decide +kernel
  obtain ⟨m, hrun, hend⟩ := (Option.any_eq_true (fun m : Machine => decide (m.released = true ∧
    m.stored = [(⟨.robotData, 8⟩, 3), (⟨.robotData, 7⟩, 9)]))
      (runSteps Machine.step lockedTwice (Machine.initial .clientRequest))).mp (by decide +kernel)
  obtain ⟨hreleased, hstored⟩ := of_decide_eq_true hend
  exact ⟨m, hrun, hstored,
    all_locks_carried_when_kept (reachable_of_runSteps hguard hrun) hreleased⟩

/-- A session that queries and locks data and then has nothing to save. -/
def nothingToSave : List SessionEvent :=
  [.overridden [.addQueryDataAndLock ⟨.robotData, 7⟩] 0 .dbsvrQuery, .round,
    .serverResponse { srcServerType := .dataServer
                      queryDataRsp := some { key := ⟨.robotData, 7⟩, lockId := some 9 } }, .round,
    .overridden [.setData 0 none] 0 .dbsvrUpdate, .round, .round, .round, .round]

/-- A lock id is lost where an update finds nothing to save: no message of the whole session carries
it. -/
theorem lock_dropped_with_nothing_to_save :
    ¬ ∀ m, Reachable Machine.step (fun _ _ => True) (Machine.initial .clientRequest) m →
      m.released = true → ∀ p ∈ m.stored, ∃ msg ∈ m.sent, carriedLockId msg = some p.2 := by
  intro hall
  obtain ⟨m, hrun, hend⟩ := (Option.any_eq_true (fun m : Machine => decide (m.released = true ∧
    ¬ ∀ p ∈ m.stored, ∃ msg ∈ m.sent, carriedLockId msg = some p.2))
      (runSteps Machine.step nothingToSave (Machine.initial .clientRequest))).mp (by decide +kernel)
  obtain ⟨hreleased, hlost⟩ := of_decide_eq_true hend
  exact hlost (hall m (reachable_of_runSteps (guardedSteps_true _ _) hrun) hreleased)

end Lsf.BasicHandler
