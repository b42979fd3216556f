import Lsf.Foundations.Reachability
import Lsf.Svr.SessionLocks
import Mathlib.Data.List.Induction

/-!
# The queries of a session

A session asks for its data by handles, one for each type and id. `AddQueryDataAndLock` adds a
handle if there is none yet, and asks for the lock in the last handle, which is another one where
the handle was there before.

The responses to the queries come back in any order, some of them more than once. Each is assigned
to the handle that it is for, and the session goes on when no handle is left without its response.
As the handles have different keys and the same response is assigned twice with no more effect than
once, only the set of the responses matters.

## Main definitions

* `LocksOnly`, `Session.LastOrLocked` — what the lock of a handle should change, and when it does
* `handling`, `Answered`, `AllAnswered` — responses handled one after the other
* `QueryProgress` — what a session is after some of its responses

## Main results

* `addQueryDataAndLock_locksOnly_iff`
* `QueryProgress.handle` — one more response
* `responses_in_any_order`
-/

namespace Lsf.BasicHandler

open DataSvr

/-! ### Asking for a lock -/

/-- `s'` has one handle for the key, which asks for its lock, and otherwise the handles of `s`. -/
structure LocksOnly (key : DataKey) (s s' : Session) : Prop where
  one : (s'.dbHandles.filter fun h => h.key = key).length = 1
  locked : ∀ h ∈ s'.dbHandles, h.key = key → h.needLock = some true
  others : (s'.dbHandles.filter fun h => h.key ≠ key) = s.dbHandles.filter fun h => h.key ≠ key

/-- There is at most one handle for the key. If there is one it is the last handle, or both ask for
their locks already. -/
def Session.LastOrLocked (s : Session) (key : DataKey) : Prop :=
  (s.dbHandles.filter fun h => h.key = key).length ≤ 1 ∧
    ∀ h ∈ s.dbHandles, h.key = key → ∀ last ∈ s.dbHandles.getLast?,
      last.key = key ∨ h.needLock = some true ∧ last.needLock = some true

section AskForLock

variable {s : Session} {key : DataKey} {hs : List DBHandle} {last : DBHandle}

/-- The handle asks for its lock. -/
def DBHandle.lock (h : DBHandle) : DBHandle := { h with needLock := some true }

theorem DBHandle.lock_eq_self_iff {h : DBHandle} : h.lock = h ↔ h.needLock = some true := by
  constructor
  · intro heq
    exact (congrArg DBHandle.needLock heq).symm
  · intro hneed
    obtain ⟨_, _, _, _, _, _⟩ := h
    cases hneed
    rfl

theorem modify_last (f : DBHandle → DBHandle) :
    (hs ++ [last]).modify ((hs ++ [last]).length - 1) f = hs ++ [f last] := by
  rw [List.length_append, List.length_singleton, Nat.add_sub_cancel]
  induction hs with
  | nil => rfl
  | cons h hs ih =>
    rw [List.cons_append, List.length_cons, List.modify_succ_cons, ih]
    rfl

/-- A handle that is not there yet is added, and asks for its lock. -/
theorem addQueryDataAndLock_of_absent (habsent : ∀ h ∈ s.dbHandles, h.key ≠ key) :
    (s.addQueryDataAndLock key).dbHandles =
      s.dbHandles ++ [{ key := key, needLock := some true }] := by
  have hany : (s.dbHandles.any fun h => h.key = key) = false := by
    rw [List.any_eq_false]
    intro h hmem
    simpa using habsent h hmem
  have hadded : (s.addQueryData key).dbHandles = s.dbHandles ++ [{ key := key }] := by
    rw [Session.addQueryData, Session.addHandle, hany]
    rfl
  show (s.addQueryData key).dbHandles.modify _ DBHandle.lock = _
  rw [hadded, modify_last]
  rfl

/-- Where there is a handle for the key, the last handle asks for its lock, whichever it is for. -/
theorem addQueryDataAndLock_of_present {h : DBHandle} (hmem : h ∈ s.dbHandles) (hkey : h.key = key)
    (hlast : s.dbHandles = hs ++ [last]) :
    (s.addQueryDataAndLock key).dbHandles = hs ++ [last.lock] := by
  have hany : (s.dbHandles.any fun h => h.key = key) = true :=
    List.any_eq_true.mpr ⟨h, hmem, by simpa using hkey⟩
  have hadded : s.addQueryData key = s := by
    rw [Session.addQueryData, Session.addHandle, hany, if_pos rfl]
  show (s.addQueryData key).dbHandles.modify _ DBHandle.lock = _
  rw [hadded, hlast, modify_last]

theorem locksOnly_of_absent (habsent : ∀ h ∈ s.dbHandles, h.key ≠ key) :
    LocksOnly key s (s.addQueryDataAndLock key) := by
  refine ⟨?_, ?_, ?_⟩
  · rw [addQueryDataAndLock_of_absent habsent, List.filter_append,
      List.filter_eq_nil_iff.mpr fun h hmem => by simpa using habsent h hmem]
    simp
  · rw [addQueryDataAndLock_of_absent habsent]
    intro h hmem hkey
    obtain hmem | hmem := List.mem_append.mp hmem
    · exact absurd hkey (habsent h hmem)
    · rw [List.mem_singleton.mp hmem]
  · rw [addQueryDataAndLock_of_absent habsent, List.filter_append]
    simp

/-- The handles for the key are as many as before, and the others are the same unless the last
handle is one of them and gets its lock only now. -/
theorem locksOnly_iff_of_present {h : DBHandle} (hmem : h ∈ s.dbHandles) (hkey : h.key = key)
    (hlast : s.dbHandles = hs ++ [last]) :
    LocksOnly key s (s.addQueryDataAndLock key) ↔
      (s.dbHandles.filter fun h => h.key = key).length = 1 ∧
      (∀ h ∈ hs, h.key = key → h.needLock = some true) ∧
      (last.key = key ∨ last.needLock = some true) := by
  have hlocked := addQueryDataAndLock_of_present hmem hkey hlast
  have hone : ((s.addQueryDataAndLock key).dbHandles.filter fun h => h.key = key).length =
      (s.dbHandles.filter fun h => h.key = key).length := by
    rw [hlocked, hlast, List.filter_append, List.filter_append, List.length_append,
      List.length_append]
    by_cases hk : last.key = key <;> simp [DBHandle.lock, hk]
  have hneed : (∀ h ∈ (s.addQueryDataAndLock key).dbHandles, h.key = key → h.needLock = some true) ↔
      ∀ h ∈ hs, h.key = key → h.needLock = some true := by
    rw [hlocked]
    simp only [List.forall_mem_append, List.forall_mem_singleton]
    exact and_iff_left fun _ => rfl
  have hothers : ((s.addQueryDataAndLock key).dbHandles.filter fun h => h.key ≠ key) =
      (s.dbHandles.filter fun h => h.key ≠ key) ↔ last.key = key ∨ last.needLock = some true := by
    rw [hlocked, hlast, List.filter_append, List.filter_append, List.append_cancel_left_eq,
      ← DBHandle.lock_eq_self_iff]
    by_cases hk : last.key = key <;> simp [DBHandle.lock, hk]
  rw [← hone, ← hneed, ← hothers]
  exact ⟨fun h => ⟨h.one, h.locked, h.others⟩, fun h => ⟨h.1, h.2.1, h.2.2⟩⟩

/-- **`AddQueryDataAndLock` locks the handle for the key and no other** exactly when that is the
last handle or the locks are asked for already. -/
theorem addQueryDataAndLock_locksOnly_iff (s : Session) (key : DataKey) :
    LocksOnly key s (s.addQueryDataAndLock key) ↔ s.LastOrLocked key := by
  by_cases habsent : ∀ h ∈ s.dbHandles, h.key ≠ key
  · refine iff_of_true (locksOnly_of_absent habsent)
      ⟨?_, fun h hmem hkey => absurd hkey (habsent h hmem)⟩
    rw [List.filter_eq_nil_iff.mpr fun h hmem => by simpa using habsent h hmem]
    exact Nat.zero_le 1
  simp only [not_forall, not_not] at habsent
  obtain ⟨h, hmem, hkey⟩ := habsent
  obtain ⟨hs, last, hlast⟩ : ∃ hs last, s.dbHandles = hs ++ [last] :=
    ⟨_, _, (List.dropLast_concat_getLast (List.ne_nil_of_mem hmem)).symm⟩
  have hgetLast : s.dbHandles.getLast? = some last := by rw [hlast, List.getLast?_concat]
  rw [locksOnly_iff_of_present hmem hkey hlast]
  constructor
  · rintro ⟨hone, hneed, hothers⟩
    refine ⟨Nat.le_of_eq hone, fun h hmem hkey last' hlast' => ?_⟩
    obtain rfl : last = last' := Option.some.inj (hgetLast.symm.trans hlast')
    by_cases hk : last.key = key
    · exact .inl hk
    · refine .inr ⟨?_, hothers.resolve_left hk⟩
      rw [hlast] at hmem
      obtain hmem | hmem := List.mem_append.mp hmem
      · exact hneed h hmem hkey
      · rw [List.mem_singleton.mp hmem] at hkey
        exact absurd hkey hk
  · rintro ⟨hone, hlocked⟩
    have hpos : 0 < (s.dbHandles.filter fun h => h.key = key).length :=
      List.length_pos_of_mem (List.mem_filter.mpr ⟨hmem, by simpa using hkey⟩)
    refine ⟨by omega, fun h' hmem' hkey' => ?_,
      (hlocked h hmem hkey last hgetLast).imp_right And.right⟩
    have hmem'' : h' ∈ s.dbHandles := hlast ▸ List.mem_append_left _ hmem'
    obtain hk | hneed := hlocked h' hmem'' hkey' last hgetLast
    · -- the handle and the last one would be two for the key
      have htwo : 2 ≤ (s.dbHandles.filter fun h => h.key = key).length := by
        rw [hlast, List.filter_append, List.length_append]
        have hfront : 0 < (hs.filter fun h => h.key = key).length :=
          List.length_pos_of_mem (List.mem_filter.mpr ⟨hmem', by simpa using hkey'⟩)
        simp only [List.filter_cons, hk, decide_true, if_true, List.length_cons]
        omega
      omega
    · exact hneed.1

/-- The user's data was asked for first. Asking for its lock after another handle was added locks
the other handle. -/
theorem addQueryDataAndLock_locks_other :
    ¬ LocksOnly ⟨.userData, 7⟩
        { state := .clientRequest
          dbHandles := [{ key := ⟨.userData, 7⟩ }, { key := ⟨.gameLog, 7⟩ }] }
        (Session.addQueryDataAndLock
          { state := .clientRequest
            dbHandles := [{ key := ⟨.userData, 7⟩ }, { key := ⟨.gameLog, 7⟩ }] }
          ⟨.userData, 7⟩) := by
  intro h
  have hneed := h.locked { key := ⟨.userData, 7⟩ } List.mem_cons_self rfl
  cases hneed

end AskForLock

/-! ### Responses in any order -/

/-- The response to a query that a message brings. -/
def SvrResponse.queried (r : SvrResponse) : DataRsp DB := r.queryDataRsp.getD defaultRsp

/-- The messages are received and handled one after the other. -/
def handling (rs : List SvrResponse) : List SessionEvent :=
  rs.flatMap fun r => [.serverResponse r, .round]

/-- One of the responses is for the handle. -/
def Answered (rs : List SvrResponse) (h : DBHandle) : Prop := ∃ r ∈ rs, r.queried.key = h.key

instance (rs : List SvrResponse) (h : DBHandle) : Decidable (Answered rs h) :=
  inferInstanceAs (Decidable (∃ _ ∈ _, _))

/-- Every handle that was without its response is answered. -/
def AllAnswered (rs : List SvrResponse) (s : Session) : Prop :=
  ∀ h ∈ s.dbHandles, h.queryFinish.getD false = false → Answered rs h

instance (rs : List SvrResponse) (s : Session) : Decidable (AllAnswered rs s) :=
  inferInstanceAs (Decidable (∀ _ ∈ _, _))

/-- The session waits for the responses to its queries of robot data. -/
structure QueryWaits (m : Machine) : Prop where
  released : m.released = false
  state : m.session.state = .dbsvrQueryWait
  robotData : ∀ h ∈ m.session.dbHandles, h.key.type = .robotData
  distinct : (m.session.dbHandles.map DBHandle.key).Nodup

/-- The data server found what was asked for, and its response is the one for its handle, if it is
for one. -/
structure SvrResponse.Fits (f : DataKey → DataRsp DB) (s : Session) (r : SvrResponse) : Prop where
  server : r.srcServerType = .dataServer
  ok : getResult r.queried = .ok
  fixed : ∀ h ∈ s.dbHandles, r.queried.key = h.key → r.queried = f h.key

section AnyOrder

variable {f : DataKey → DataRsp DB} {rs : List SvrResponse} {r : SvrResponse} {m m₁ m₂ : Machine}
  {s : Session} {h : DBHandle} {hs : List DBHandle}

/-- The handle, with the response for it if it is among the responses. -/
def DBHandle.after (f : DataKey → DataRsp DB) (rs : List SvrResponse) (h : DBHandle) : DBHandle :=
  if Answered rs h then (h.assign (f h.key)).1 else h

theorem answered_append {rs' : List SvrResponse} :
    Answered (rs ++ rs') h ↔ Answered rs h ∨ Answered rs' h := by
  simp only [Answered, List.mem_append, or_and_right, exists_or]

theorem answered_singleton : Answered [r] h ↔ r.queried.key = h.key := by
  simp only [Answered, List.mem_singleton, exists_eq_left]

theorem DBHandle.assign_queryFinish {response : DataRsp DB} :
    (h.assign response).1.queryFinish = some true := by
  rw [assign]
  split <;> rfl

theorem DBHandle.assign_known {response : DataRsp DB} (hrobot : h.key.type = .robotData) :
    (h.assign response).2 = true := by
  simp [assign, hrobot]

/-- The second time a response says nothing new. -/
theorem DBHandle.assign_assign {response : DataRsp DB} (hrobot : h.key.type = .robotData) :
    ((h.assign response).1.assign response).1 = (h.assign response).1 := by
  simp [assign, hrobot, ← Option.or_assoc]

@[simp] theorem DBHandle.after_key : (h.after f rs).key = h.key := by
  rw [after]
  split_ifs
  · exact assign_key
  · rfl

theorem DBHandle.after_nil : h.after f [] = h := if_neg fun ⟨_, hmem, _⟩ => by cases hmem

theorem DBHandle.after_queryFinish : (h.after f rs).queryFinish.getD false = true ↔
    h.queryFinish.getD false = true ∨ Answered rs h := by
  rw [after]
  split_ifs with hanswered
  · rw [assign_queryFinish]
    exact iff_of_true rfl (.inr hanswered)
  · exact (or_iff_left hanswered).symm

/-- One more response after the others. -/
theorem DBHandle.after_concat (hrobot : h.key.type = .robotData) :
    h.after f (rs ++ [r]) =
      if r.queried.key = h.key then ((h.after f rs).assign (f h.key)).1 else h.after f rs := by
  rw [after, after]
  simp only [answered_append, answered_singleton]
  by_cases hr : r.queried.key = h.key
  · rw [if_pos (.inr hr), if_pos hr]
    split_ifs
    · rw [assign_assign hrobot]
    · rfl
  · simp only [hr, or_false, if_false]

/-- A response is assigned to the handle that has its key, and all types are known. -/
theorem assignData_eq_map {response : DataRsp DB} (hrobot : ∀ h ∈ hs, h.key.type = .robotData)
    (hdistinct : (hs.map DBHandle.key).Nodup) : assignData response hs =
      (hs.map fun h => if response.key = h.key then (h.assign response).1 else h, true) := by
  induction hs with
  | nil => rfl
  | cons h hs ih =>
    obtain ⟨hnew, hdistinct⟩ := List.nodup_cons.mp hdistinct
    rw [assignData, List.map_cons]
    by_cases hkey : h.key = response.key
    · have hrest :
          (hs.map fun h => if response.key = h.key then (h.assign response).1 else h) = hs := by
        refine (List.map_congr_left fun h' hmem => if_neg fun hkey' => hnew ?_).trans
          (List.map_id _)
        rw [hkey, hkey']
        exact List.mem_map_of_mem hmem
      rw [if_neg (not_not.mpr hkey), if_pos hkey.symm, hrest,
        DBHandle.assign_known (hrobot h List.mem_cons_self)]
    · rw [if_pos hkey, if_neg (Ne.symm hkey),
        ih (fun h hmem => hrobot h (List.mem_cons_of_mem _ hmem)) hdistinct]

/-- What the session `m` is after the responses `rs`: the handles that they are for have them, and
the state tells whether there are handles without a response. -/
structure QueryProgress (f : DataKey → DataRsp DB) (m : Machine) (rs : List SvrResponse)
    (m₁ : Machine) : Prop where
  released : m₁.released = false
  dbHandles : m₁.session.dbHandles = m.session.dbHandles.map (DBHandle.after f rs)
  waits : rs = [] ∨ ¬ AllAnswered rs m.session → m₁.session.state = .dbsvrQueryWait
  succeeds : rs ≠ [] → AllAnswered rs m.session →
    m₁.session.state = .dbsvrQuerySuccess ∧ m₁.session.dbProcessIndex = 0

theorem QueryWaits.progress (hm : QueryWaits m) : QueryProgress f m [] m := by
  refine ⟨hm.released, ?_, fun _ => hm.state, fun hne => absurd rfl hne⟩
  exact ((List.map_congr_left fun h _ => DBHandle.after_nil).trans (List.map_id _)).symm

/-- The loop over the handles finds out whether all are answered. -/
theorem isQueryReady_iff (hhandles : s.dbHandles = m.session.dbHandles.map (DBHandle.after f rs)) :
    isQueryReady s = true ↔ AllAnswered rs m.session := by
  rw [isQueryReady, List.all_eq_true, hhandles, List.forall_mem_map]
  refine forall₂_congr fun h _ => ?_
  rw [DBHandle.after_queryFinish, or_iff_not_imp_left, Bool.not_eq_true]

/-- The response is assigned to its handle, and then the handles are looked through. -/
theorem onDBSvrQueryMessage_of_assigned (hok : getResult s.svrResponse.queried = .ok)
    (hassign : assignData s.svrResponse.queried s.dbHandles = (hs, true)) :
    onDBSvrQueryMessage s =
      if isQueryReady { s with dbHandles := hs } then
        { session := { s with dbHandles := hs, dbProcessIndex := 0 }, next := .dbsvrQuerySuccess }
      else { session := { s with dbHandles := hs }, next := .dbsvrQueryWait } := by
  rw [SvrResponse.queried] at hok hassign
  simp only [onDBSvrQueryMessage, hok, hassign, ne_eq, not_true_eq_false, if_false,
    Bool.true_eq_false]

/-- **One more response** is assigned to its handle. If it was the last that was missing, the
session goes on with the first of its handles. -/
theorem QueryProgress.handle (hm : QueryWaits m) (hr : r.Fits f m.session)
    (hprogress : QueryProgress f m rs m₁) (hmissing : rs = [] ∨ ¬ AllAnswered rs m.session) :
    ∃ m₂, runSteps Machine.step (handling [r]) m₁ = some m₂ ∧ QueryProgress f m (rs ++ [r]) m₂ := by
  have hwait := hprogress.waits hmissing
  have hstep : Machine.step (.serverResponse r) m₁ = some { m₁ with session :=
      { m₁.session with svrResponse := r, state := .dbsvrQueryMessage } } := by
    simp [Machine.step, hprogress.released, hwait, ENSessionState.isWait, getServerResponse,
      awaited, hr.server]
  have hhandles : assignData r.queried m₁.session.dbHandles =
      (m.session.dbHandles.map (DBHandle.after f (rs ++ [r])), true) := by
    rw [hprogress.dbHandles, assignData_eq_map, List.map_map]
    · refine congrArg (·, true) (List.map_congr_left fun h hmem => ?_)
      rw [DBHandle.after_concat (hm.robotData h hmem)]
      simp only [Function.comp, DBHandle.after_key]
      split_ifs with hkey
      · rw [hr.fixed h hmem hkey]
      · rfl
    · simpa only [List.forall_mem_map, DBHandle.after_key] using hm.robotData
    · rw [List.map_map]
      exact (List.map_congr_left fun h _ => DBHandle.after_key).symm ▸ hm.distinct
  have hround := onDBSvrQueryMessage_of_assigned
    (s := { m₁.session with svrResponse := r, state := .dbsvrQueryMessage }) hr.ok hhandles
  have hready : isQueryReady { m₁.session with
      svrResponse := r
      state := .dbsvrQueryMessage
      dbHandles := m.session.dbHandles.map (DBHandle.after f (rs ++ [r])) } = true ↔
      AllAnswered (rs ++ [r]) m.session := isQueryReady_iff rfl
  have hne : rs ++ [r] ≠ [] := List.append_ne_nil_of_right_ne_nil _ (List.cons_ne_nil _ _)
  rw [handling, List.flatMap_singleton, runSteps, hstep, Option.bind_some, runSteps]
  simp only [Machine.step, runStateMachine, hprogress.released, hround]
  by_cases hall : AllAnswered (rs ++ [r]) m.session
  · rw [if_pos (hready.mpr hall)]
    refine ⟨_, rfl, rfl, rfl, ?_, fun _ _ => ⟨rfl, rfl⟩⟩
    rintro (hnil | hnot)
    · exact absurd hnil hne
    · exact absurd hall hnot
  · rw [if_neg fun h => hall (hready.mp h)]
    exact ⟨_, rfl, rfl, rfl, fun _ => rfl, fun _ h => absurd h hall⟩

/-- No response is handled when the session has gone on. -/
theorem QueryProgress.handle_none (hprogress : QueryProgress f m rs m₁) (hne : rs ≠ [])
    (hall : AllAnswered rs m.session) : runSteps Machine.step (handling [r]) m₁ = none := by
  rw [handling, List.flatMap_singleton, runSteps, Machine.step,
    (hprogress.succeeds hne hall).1, if_neg]
  · rfl
  · rintro ⟨-, hwait⟩
    cases hwait

theorem handling_concat : handling (rs ++ [r]) = handling rs ++ handling [r] :=
  List.flatMap_append

/-- The non-empty proper prefixes of a list and one more element. -/
theorem forall_prefix_concat {P : List SvrResponse → Prop} :
    (∀ p, p <+: rs ++ [r] → p ≠ rs ++ [r] → p ≠ [] → P p) ↔
      (∀ p, p <+: rs → p ≠ rs → p ≠ [] → P p) ∧ (rs = [] ∨ P rs) := by
  simp only [List.prefix_concat_iff]
  have hshort : ∀ p, p <+: rs → p ≠ rs ++ [r] := fun p hp heq => by
    have hlen := hp.length_le
    rw [heq, List.length_append, List.length_singleton] at hlen
    omega
  constructor
  · intro h
    refine ⟨fun p hp _ => h p (.inr hp) (hshort p hp), ?_⟩
    by_cases hnil : rs = []
    · exact .inl hnil
    · exact .inr (h rs (.inr List.prefix_rfl) (hshort rs List.prefix_rfl) hnil)
  · rintro ⟨hbefore, hlast⟩ p hp hne hnil
    obtain rfl | hp := hp
    · exact absurd rfl hne
    · by_cases hrs : p = rs
      · subst hrs
        exact hlast.resolve_left hnil
      · exact hbefore p hp hrs hnil

/-- Responses are handled one after the other until none is missing. -/
theorem QueryWaits.run (hm : QueryWaits m) (hfits : ∀ r ∈ rs, r.Fits f m.session) :
    (∀ m₁, runSteps Machine.step (handling rs) m = some m₁ → QueryProgress f m rs m₁) ∧
    ((runSteps Machine.step (handling rs) m).isSome = true ↔
      ∀ p, p <+: rs → p ≠ rs → p ≠ [] → ¬ AllAnswered p m.session) := by
  induction rs using List.reverseRecOn with
  | nil =>
    refine ⟨?_, ?_⟩
    · rintro m₁ ⟨⟩
      exact hm.progress
    · exact iff_of_true rfl fun p hp hne => absurd (List.prefix_nil.mp hp) hne
  | append_singleton rs r ih =>
    obtain ⟨hprogress, hrun⟩ := ih fun r hmem => hfits r (List.mem_append_left _ hmem)
    have hr := hfits r (List.mem_append_right _ (List.mem_singleton_self r))
    rw [handling_concat, runSteps_append, forall_prefix_concat, ← hrun]
    cases hrs : runSteps Machine.step (handling rs) m with
    | none =>
      rw [Option.bind_none]
      refine ⟨fun m₁ h => absurd h (Option.some_ne_none m₁).symm, ?_⟩
      exact iff_of_false Bool.false_ne_true fun h => Bool.false_ne_true h.1
    | some m₁ =>
      have hm₁ := hprogress m₁ hrs
      rw [Option.bind_some]
      by_cases hmissing : rs = [] ∨ ¬ AllAnswered rs m.session
      · obtain ⟨m₂, hm₂, hnext⟩ := hm₁.handle hm hr hmissing
        rw [hm₂]
        refine ⟨?_, iff_of_true rfl ⟨rfl, hmissing⟩⟩
        rintro _ ⟨⟩
        exact hnext
      · have hdone := not_or.mp hmissing
        rw [hm₁.handle_none hdone.1 (not_not.mp hdone.2)]
        refine ⟨fun m₁ h => absurd h (Option.some_ne_none m₁).symm, ?_⟩
        exact iff_of_false Bool.false_ne_true fun h => hmissing h.2

/-- **The responses may come in any order.** For responses that all find the session waiting: it
goes on with its first handle as soon as every handle that was missing is answered, and not before;
which handles were answered, and nothing else about the responses, decides what the handles are
then. -/
theorem responses_in_any_order (hm : QueryWaits m) (hfits : ∀ r ∈ rs, r.Fits f m.session) :
    ((runSteps Machine.step (handling rs) m).isSome = true ↔
      ∀ p, p <+: rs → p ≠ rs → p ≠ [] → ¬ AllAnswered p m.session) ∧
    ∀ m₁, runSteps Machine.step (handling rs) m = some m₁ → rs ≠ [] →
      (m₁.session.state = .dbsvrQuerySuccess ↔ AllAnswered rs m.session) ∧
      (¬ AllAnswered rs m.session → m₁.session.state = .dbsvrQueryWait) ∧
      (m₁.session.state = .dbsvrQuerySuccess → m₁.session.dbProcessIndex = 0 ∧
        ((∀ h ∈ m.session.dbHandles, h.queryFinish.getD false = true → (h.assign (f h.key)).1 = h) →
          m₁.session.dbHandles = m.session.dbHandles.map fun h => (h.assign (f h.key)).1)) ∧
      ∀ rs' m₂, (∀ r ∈ rs', r.Fits f m.session) →
        (∀ h ∈ m.session.dbHandles, Answered rs h ↔ Answered rs' h) →
        runSteps Machine.step (handling rs') m = some m₂ →
        m₁.session.dbHandles = m₂.session.dbHandles := by
  refine ⟨(hm.run hfits).2, fun m₁ hrun hne => ?_⟩
  have hm₁ := (hm.run hfits).1 m₁ hrun
  have hsuccess : m₁.session.state = .dbsvrQuerySuccess ↔ AllAnswered rs m.session := by
    refine ⟨fun hstate => ?_, fun hall => (hm₁.succeeds hne hall).1⟩
    by_contra hnot
    rw [hm₁.waits (.inr hnot)] at hstate
    cases hstate
  refine ⟨hsuccess, fun hnot => hm₁.waits (.inr hnot), fun hstate => ?_, ?_⟩
  · have hall := hsuccess.mp hstate
    refine ⟨(hm₁.succeeds hne hall).2, fun hfinished => ?_⟩
    rw [hm₁.dbHandles]
    refine List.map_congr_left fun h hmem => ?_
    rw [DBHandle.after]
    split_ifs with hanswered
    · rfl
    · refine (hfinished h hmem ?_).symm
      by_contra hnot
      exact hanswered (hall h hmem (Bool.not_eq_true _ ▸ hnot))
  · intro rs' m₂ hfits' hsame hrun'
    rw [hm₁.dbHandles, ((hm.run hfits').1 m₂ hrun').dbHandles]
    refine List.map_congr_left fun h hmem => ?_
    rw [DBHandle.after, DBHandle.after, if_congr (hsame h hmem) rfl rfl]

end AnyOrder

/-- A session that waits for the data of two robots. -/
def twoRobots : Machine :=
  ⟨{ state := .dbsvrQueryWait
     dbHandles := [{ key := ⟨.robotData, 1⟩ }, { key := ⟨.robotData, 2⟩ }] }, [], [], false⟩

/-- The data of a robot. -/
def robotResponse (key : DataKey) : DataRsp DB := { key, version := some 5, lockId := some 9 }

/-- The second robot's data comes first and twice, and that of a robot that was not asked for. -/
theorem two_robots_in_any_order :
    let rs := [2, 3, 2, 1].map fun id => ({
      srcServerType := .dataServer
      queryDataRsp := some (robotResponse ⟨.robotData, id⟩) } : SvrResponse)
    ∃ m₁, runSteps Machine.step (handling rs) twoRobots = some m₁ ∧
      m₁.session.state = .dbsvrQuerySuccess := by
  intro rs
  have hwaits : QueryWaits twoRobots := ⟨rfl, rfl, by decide, by decide⟩
  have hfits : ∀ r ∈ rs, r.Fits robotResponse twoRobots.session := by
    rw [List.forall_mem_map]
    exact fun id _ => ⟨rfl, rfl, fun h _ hkey => congrArg robotResponse hkey⟩
  exact ⟨_, rfl, ((responses_in_any_order hwaits hfits).2 _ rfl (by decide)).1.mpr (by decide)⟩

end Lsf.BasicHandler
