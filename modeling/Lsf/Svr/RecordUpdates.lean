import Lsf.Foundations.Reachability
import Lsf.Svr.DataSnapshots
import Lsf.Svr.SessionLocks

/-!
# Updates of the sessions

Any number of sessions query, change and update the data of a data server. Their requests and the
responses to them are delayed, overtake each other and get lost. A session updates data with the
version of the last response that it assigned, and the data server refuses the update if it has
another version by now: so what an accepted update replaces is just what the session was given.

This goes wrong if a session queries data again that it has a version of. The response is without
data if the version is still the same, and the session assigns the empty data.

## Main definitions

* `Records`, `RecordsEvent`, `Records.step` — the sessions and the data server
* `RecordsEvent.Careful` — the condition on the events
* `Records.Sound` — the invariant

## Main results

* `Machine.step_has`, `Records.Sound.step` — what the steps keep
* `updates_replace_what_was_given`, `requeried_data_is_replaced`
-/

namespace Lsf.BasicHandler

open DataSvr

/-! ### Sessions and the data server -/

/-- A request on its way, with what its session was last given for its key. -/
structure SentRequest where
  session : ℕ
  req : Request DB
  given : Snapshot DB

/-- A response on its way. -/
structure SentResponse where
  session : ℕ
  message : SvrResponse

/-- An update that was accepted, with what it replaced. -/
structure Update where
  key : DataKey
  given : Snapshot DB
  replaced : DB

/-- All sessions that there ever are, and the data server. -/
structure Records where
  db : LevelDB DB := .empty
  machines : ℕ → Machine
  /-- What a session was last given for a key. -/
  given : ℕ → DataKey → Snapshot DB := fun _ _ => ⟨0, default⟩
  requests : List SentRequest := []
  responses : List SentResponse := []
  updates : List Update := []

/-- What the sessions and the data server do. -/
inductive RecordsEvent
  /-- A session takes a step that is not a response from the data server. -/
  | session (i : ℕ) (e : SessionEvent)
  /-- A session gets one of the responses. -/
  | response (j : ℕ)
  /-- The data server handles one of the requests. -/
  | request (j : ℕ) (env : Env)
  | loseResponse (j : ℕ)
  | loseRequest (j : ℕ)

/-- The message with the response to a request. -/
def replyTo (response : DataRsp DB) : Request DB → SvrResponse
  | .queryData _ => { srcServerType := .dataServer, queryDataRsp := some response }
  | .updateData _ => { srcServerType := .dataServer, updateDataRsp := some response }
  | .deleteData _ => { srcServerType := .dataServer, deleteDataRsp := some response }
  | .insertData _ => { srcServerType := .dataServer, insertDataRsp := some response }
  | .unlockData _ => { srcServerType := .dataServer }

/-- What a session has been given after a round of its loop. -/
def givenAfter (s : Session) (given : DataKey → Snapshot DB) : DataKey → Snapshot DB :=
  let response := s.svrResponse.queryDataRsp.getD defaultRsp
  if s.state = .dbsvrQueryMessage ∧ getResult response = .ok ∧
      s.dbHandles.any (fun h => h.key = response.key) = true then
    Function.update given response.key
      ⟨(response.version.map UInt32.toNat).getD (given response.key).version,
        response.data.getD {}⟩
  else given

/-- What a session has been given after a step. -/
def Machine.givenBy (e : SessionEvent) (m : Machine) (given : DataKey → Snapshot DB) :
    DataKey → Snapshot DB :=
  match e with
  | .round => givenAfter m.session given
  | _ => given

/-- Nothing of the data server is in an event, which has responses of its own. -/
def SessionEvent.isOwn : SessionEvent → Bool
  | .serverResponse message =>
    message.srcServerType ≠ .dataServer && message.queryDataRsp.isNone
  | _ => true

namespace Records

/-- Sessions for these requests. -/
def initial (request : ℕ → ENSessionState) : Records where
  machines i := .initial (request i)

/-- A session takes a step, and what it sends is on its way. -/
def stepSession (i : ℕ) (e : SessionEvent) (r : Records) : Option Records :=
  let m := r.machines i
  (m.step e).map fun m' =>
    let given := m.givenBy e (r.given i)
    { r with
      machines := Function.update r.machines i m'
      given := Function.update r.given i given
      requests := r.requests ++ (m'.sent.drop m.sent.length).map fun req =>
        ⟨i, req, given req.key⟩ }

/-- The data server handles a request. -/
def handleRequest (timeout : UInt32) (x : SentRequest) (env : Env) (r : Records) : Records :=
  let handled := x.req.handle timeout env r.db
  { r with
    db := handled.2
    responses := r.responses ++ handled.1.toList.map fun response =>
      ⟨x.session, replyTo response x.req⟩
    updates := r.updates ++ match x.req with
      | .updateData req => (handled.1.filter fun response => response.Accepted).toList.map fun _ =>
        ⟨req.key, x.given, r.db.dataOf req.key⟩
      | _ => [] }

/-- An event, none where it is not possible. -/
def step (timeout : UInt32) : RecordsEvent → Records → Option Records
  | .session i e, r => if e.isOwn then r.stepSession i e else none
  | .response j, r =>
    r.responses[j]?.bind fun x =>
      stepSession x.session (.serverResponse x.message)
        { r with responses := r.responses.eraseIdx j }
  | .request j env, r =>
    r.requests[j]?.map fun x =>
      handleRequest timeout x env { r with requests := r.requests.eraseIdx j }
  | .loseResponse j, r => some { r with responses := r.responses.eraseIdx j }
  | .loseRequest j, r => some { r with requests := r.requests.eraseIdx j }

end Records

/-- The control records are found, the data is not deleted and its versions do not run out, and no
session queries it again when it has a version of it. -/
def RecordsEvent.Careful (key : DataKey) : RecordsEvent → Records → Prop
  | .request j env, r => env.failed .getControlInfo = false ∧
      r.db.versionOf key + 1 < 2 ^ 64 ∧
      ∀ x ∈ r.requests[j]?, x.req.isDelete = true → x.req.key ≠ key
  | .session i .round, r => (r.machines i).session.state = .dbsvrQuery →
      ∀ h ∈ (r.machines i).session.dbHandles, h.key = key → h.version = none
  | _, _ => True

/-! ### The invariant -/

/-- What a query response for the key gives is a snapshot. -/
def SvrResponse.Gives (key : DataKey) (db : LevelDB DB) (message : SvrResponse) : Prop :=
  ∀ r, message.queryDataRsp = some r → r.key = key → getResult r = .ok →
    ∃ v d, r.version = some v ∧ r.data = some d ∧
      Snapshot.Of (LevelDB.versionOf key) (LevelDB.dataOf key) ⟨v.toNat, d⟩ db

/-- The handles of a session have different keys, and the one for the key has the version that the
session was last given. -/
structure Session.Has (key : DataKey) (given : Snapshot DB) (s : Session) : Prop where
  nodup : (s.dbHandles.map DBHandle.key).Nodup
  version : ∀ h ∈ s.dbHandles, h.key = key → (h.version.getD 0).toNat = given.version
  absent : (∀ h ∈ s.dbHandles, h.key ≠ key) → given.version = 0

/-- A request carries the version that its session was given, and a query carries none. -/
def SentRequest.Carries (key : DataKey) (x : SentRequest) : Prop :=
  x.req.key = key → (∀ u, x.req = .updateData u → (u.version.getD 0).toNat = x.given.version) ∧
    ∀ q, x.req = .queryData q → q.version = none

/-- What holds of a record in every state. -/
structure Records.Sound (key : DataKey) (r : Records) : Prop where
  given : ∀ i, Snapshot.Of (LevelDB.versionOf key) (LevelDB.dataOf key) (r.given i key) r.db
  session : ∀ i, (r.machines i).session.Has key (r.given i key)
  svrResponse : ∀ i, (r.machines i).session.svrResponse.Gives key r.db
  request : ∀ x ∈ r.requests, x.req.key = key →
    Snapshot.Of (LevelDB.versionOf key) (LevelDB.dataOf key) x.given r.db
  carries : ∀ x ∈ r.requests, x.Carries key
  response : ∀ x ∈ r.responses, x.message.Gives key r.db
  update : ∀ u ∈ r.updates, u.key = key → u.given.value = u.replaced

/-! ### What a session keeps and sends -/

section Sessions

variable {key : DataKey} {given : Snapshot DB} {s s' : Session} {hs : List DBHandle}
  {response : DataRsp DB} {o : Outcome}

/-- What of a handle decides the version of an update. -/
def DBHandle.tag (h : DBHandle) : DataKey × Option UInt32 := (h.key, h.version)

theorem map_tag_modify {f : DBHandle → DBHandle} (hf : ∀ h, (f h).tag = h.tag) (i : ℕ) :
    (hs.modify i f).map DBHandle.tag = hs.map DBHandle.tag := by
  refine List.ext_getElem? fun j => ?_
  rw [List.getElem?_map, List.getElem?_map, List.getElem?_modify]
  cases hs[j]? with
  | none => rfl
  | some h => split_ifs <;> simp [hf]

namespace Session.Has

theorem of_tags (h : s.Has key given)
    (htags : s'.dbHandles.map DBHandle.tag = s.dbHandles.map DBHandle.tag) :
    s'.Has key given := by
  have hkeys : s'.dbHandles.map DBHandle.key = s.dbHandles.map DBHandle.key := by
    have hfst := congrArg (List.map Prod.fst) htags
    rwa [List.map_map, List.map_map] at hfst
  have hmem : ∀ h' ∈ s'.dbHandles, ∃ h ∈ s.dbHandles, h.tag = h'.tag := by
    intro h' hh'
    exact List.mem_map.mp (htags ▸ List.mem_map_of_mem hh')
  refine ⟨hkeys ▸ h.nodup, fun h' hh' hkey => ?_, fun habsent => h.absent fun h₀ hh₀ => ?_⟩
  · obtain ⟨h₀, hh₀, htag⟩ := hmem h' hh'
    obtain ⟨hkey₀, hversion₀⟩ := Prod.mk.inj htag
    rw [← hversion₀]
    exact h.version h₀ hh₀ (hkey₀.trans hkey)
  · obtain ⟨h', hh', hkey⟩ := List.mem_map.mp (hkeys ▸ List.mem_map_of_mem hh₀)
    rw [← hkey]
    exact habsent h' hh'

/-- A handle that is added has no version, and nothing has been given for its key. -/
theorem addHandle (h : s.Has key given) {h' : DBHandle} (hversion : h'.version = none) :
    (s.addHandle h').Has key given := by
  rw [Session.addHandle]
  split_ifs with hany
  · exact h
  have hnew : ∀ h₀ ∈ s.dbHandles, h₀.key ≠ h'.key := by
    simpa using hany
  refine ⟨?_, fun h₀ hh₀ hkey => ?_, fun habsent => ?_⟩
  · rw [List.map_append, List.nodup_append]
    refine ⟨h.nodup, List.pairwise_singleton _ _, fun k hk k' hk' => ?_⟩
    obtain ⟨h₀, hh₀, rfl⟩ := List.mem_map.mp hk
    rw [List.mem_singleton.mp hk']
    exact hnew h₀ hh₀
  · obtain hh₀ | hh₀ := List.mem_append.mp hh₀
    · exact h.version h₀ hh₀ hkey
    · rw [List.mem_singleton.mp hh₀] at hkey ⊢
      rw [hversion, h.absent fun h₁ hh₁ => hkey ▸ hnew h₁ hh₁]
      rfl
  · exact h.absent fun h₀ hh₀ => habsent h₀ (List.mem_append_left _ hh₀)

theorem addQueryData (h : s.Has key given) (k : DataKey) : (s.addQueryData k).Has key given :=
  h.addHandle rfl

theorem edit (h : s.Has key given) (e : Edit) : (e.apply s).Has key given := by
  cases e with
  | setData i data =>
    refine h.of_tags (map_tag_modify ?_ i)
    exact fun _ => rfl
  | addQueryData k => exact h.addHandle rfl
  | addQueryDataAndLock k =>
    refine (h.addQueryData k).of_tags (map_tag_modify ?_ _)
    exact fun _ => rfl
  | addDeleteData k => exact h.addHandle rfl
  | addInsertData k =>
    refine (h.addQueryData k).of_tags ?_
    refine (List.map_map).trans (List.map_congr_left fun h₀ _ => ?_)
    show DBHandle.tag (if h₀.key = k then _ else _) = _
    split_ifs <;> rfl

theorem edits (h : s.Has key given) (edits : List Edit) :
    (edits.foldl (fun s e => e.apply s) s).Has key given := by
  induction edits generalizing s with
  | nil => exact h
  | cons e edits ih => exact ih (h.edit e)

end Session.Has

theorem svrResponse_edits (edits : List Edit) :
    (edits.foldl (fun s e => e.apply s) s).svrResponse = s.svrResponse := by
  induction edits generalizing s with
  | nil => rfl
  | cons e edits ih =>
    have hadd : ∀ (s : Session) (h : DBHandle), (s.addHandle h).svrResponse = s.svrResponse := by
      intro s h
      rw [Session.addHandle]
      split_ifs <;> rfl
    rw [List.foldl_cons, ih]
    cases e with
    | setData i data => rfl
    | addQueryData k => exact hadd _ _
    | addQueryDataAndLock k => exact hadd _ _
    | addDeleteData k => exact hadd _ _
    | addInsertData k => exact hadd _ _

theorem map_key_assignData : (assignData response hs).1.map DBHandle.key = hs.map DBHandle.key := by
  induction hs with
  | nil => rfl
  | cons h hs ih =>
    rw [assignData]
    split_ifs
    · rw [List.map_cons, List.map_cons, ih]
    · rw [List.map_cons, List.map_cons, DBHandle.assign_key]

@[simp] theorem DBHandle.assign_version {h : DBHandle} :
    (h.assign response).1.version = (response.version <|> h.version) := by
  rw [assign]
  split <;> rfl

/-- A handle after the assignment was there before, or it is the one that the response is for. -/
theorem of_mem_assignData (hnodup : (hs.map DBHandle.key).Nodup) {h : DBHandle}
    (hmem : h ∈ (assignData response hs).1) :
    h.key ≠ response.key ∧ h ∈ hs ∨
      ∃ h₀ ∈ hs, h₀.key = response.key ∧ h = (h₀.assign response).1 := by
  induction hs with
  | nil => cases hmem
  | cons h' hs ih =>
    obtain ⟨hnew, hnodup⟩ := List.nodup_cons.mp hnodup
    rw [assignData] at hmem
    split_ifs at hmem with hkey
    · obtain rfl | hmem := List.mem_cons.mp hmem
      · exact .inl ⟨hkey, List.mem_cons_self⟩
      · obtain ⟨hne, hold⟩ | ⟨h₀, hold, hfor, rfl⟩ := ih hnodup hmem
        · exact .inl ⟨hne, List.mem_cons_of_mem _ hold⟩
        · exact .inr ⟨h₀, List.mem_cons_of_mem _ hold, hfor, rfl⟩
    · obtain rfl | hmem := List.mem_cons.mp hmem
      · exact .inr ⟨h', List.mem_cons_self, not_not.mp hkey, rfl⟩
      · refine .inl ⟨fun heq => hnew ?_, List.mem_cons_of_mem _ hmem⟩
        rw [not_not.mp hkey, ← heq]
        exact List.mem_map_of_mem hmem

namespace Session.Has

/-- The handles after an assignment, for what the response gives. -/
theorem assign (h : s.Has key given) (hhandles : s'.dbHandles = (assignData response s.dbHandles).1)
    {given' : Snapshot DB}
    (hother : response.key ≠ key → given'.version = given.version)
    (hnone : (∀ h₀ ∈ s.dbHandles, h₀.key ≠ response.key) → given'.version = given.version)
    (hsome : response.key = key → (∃ h₀ ∈ s.dbHandles, h₀.key = response.key) →
      given'.version = (response.version.map UInt32.toNat).getD given.version) :
    s'.Has key given' := by
  have hkeys : s'.dbHandles.map DBHandle.key = s.dbHandles.map DBHandle.key := by
    rw [hhandles, map_key_assignData]
  refine ⟨hkeys ▸ h.nodup, fun h' hh' hkey => ?_, fun habsent => ?_⟩
  · rw [hhandles] at hh'
    obtain ⟨hne, hold⟩ | ⟨h₀, hold, hfor, rfl⟩ := of_mem_assignData h.nodup hh'
    · rw [hother (hkey ▸ hne.symm)]
      exact h.version h' hold hkey
    · rw [DBHandle.assign_key] at hkey
      rw [hsome (hfor.symm.trans hkey) ⟨h₀, hold, hfor⟩, DBHandle.assign_version]
      cases response.version with
      | none => exact h.version h₀ hold hkey
      | some v => rfl
  · have habsent₀ : ∀ h₀ ∈ s.dbHandles, h₀.key ≠ key := by
      intro h₀ hh₀ hkey
      obtain ⟨h', hh', hkey'⟩ := List.mem_map.mp (hkeys ▸ List.mem_map_of_mem hh₀)
      exact habsent h' hh' (hkey'.trans hkey)
    rw [← h.absent habsent₀]
    by_cases hkey : response.key = key
    · exact hnone (hkey ▸ habsent₀)
    · exact hother hkey

/-- **A round keeps the handle of the key in step** with what the session has been given. -/
theorem round {given : DataKey → Snapshot DB} (h : s.Has key (given key))
    (hround : runStateMachine s = some o) : o.session.Has key (givenAfter s given key) := by
  have hsame : s.state ≠ .dbsvrQueryMessage → givenAfter s given = given := by
    intro hstate
    rw [givenAfter, if_neg fun hcond => hstate hcond.1]
  by_cases hupdate : s.state = .dbsvrUpdate
  · rw [hsame (by rw [hupdate]; exact ENSessionState.noConfusion)]
    rw [runStateMachine, hupdate] at hround
    cases hround
    refine h.of_tags ?_
    have hmodify : ∀ i, (s.dbHandles.modify i fun h => { h with lockId := none }).map
        DBHandle.tag = s.dbHandles.map DBHandle.tag := map_tag_modify fun _ => rfl
    rw [onDBSvrUpdate]
    split
    · rfl
    · split
      · split_ifs <;> exact hmodify _
      · exact hmodify _
  by_cases hquery : s.state = .dbsvrQueryMessage
  · rw [runStateMachine, hquery] at hround
    cases hround
    rw [givenAfter]
    generalize hresponse : s.svrResponse.queryDataRsp.getD defaultRsp = response
    by_cases hok : getResult response = .ok
    · have hhandles := onDBSvrQueryMessage_dbHandles (hresponse ▸ hok)
      rw [hresponse] at hhandles
      refine h.assign hhandles (fun hne => ?_) (fun hnone => ?_) fun hkey hsome => ?_
      · split_ifs
        · rw [Function.update_of_ne hne.symm]
        · rfl
      · rw [if_neg]
        rintro ⟨-, -, hany⟩
        obtain ⟨h₀, hh₀, hkey⟩ := List.any_eq_true.mp hany
        exact hnone h₀ hh₀ (of_decide_eq_true hkey)
      · obtain ⟨h₀, hh₀, hfor⟩ := hsome
        rw [if_pos ⟨hquery, hok, List.any_eq_true.mpr ⟨h₀, hh₀, decide_eq_true hfor⟩⟩, ← hkey,
          Function.update_self]
    · rw [if_neg fun hcond => hok hcond.2.1]
      refine h.of_tags ?_
      rw [onDBSvrQueryMessage_of_not_ok (hresponse ▸ hok)]
  · rw [hsame hquery]
    refine h.of_tags ?_
    rw [runStateMachine_dbHandles hround hupdate hquery]

end Session.Has

/-- A round does not touch the response that it reads. -/
theorem runStateMachine_svrResponse (hround : runStateMachine s = some o) :
    o.session.svrResponse = s.svrResponse := by
  have hmessage : ∀ {response error success}, onDBSvrMessage response error success s = some o →
      o.session.svrResponse = s.svrResponse := by
    intro response error success h
    obtain ⟨h', -, rfl⟩ := Option.map_eq_some_iff.mp h
    split_ifs <;> rfl
  rw [runStateMachine] at hround
  cases hstate : s.state with
  | dbsvrQuery =>
    rw [hstate] at hround
    cases hround
    rw [onDBSvrQuery]
    split_ifs <;> rfl
  | dbsvrQueryMessage =>
    rw [hstate] at hround
    cases hround
    simp only [onDBSvrQueryMessage]
    split_ifs <;> rfl
  | dbsvrUpdate =>
    rw [hstate] at hround
    cases hround
    rw [onDBSvrUpdate]
    split
    · rfl
    · split
      · split_ifs <;> rfl
      · rfl
  | dbsvrInsert =>
    rw [hstate] at hround
    cases hround
    rw [onDBSvrInsert]
    split <;> rfl
  | dbsvrDelete =>
    rw [hstate] at hround
    cases hround
    rw [onDBSvrDelete]
    split <;> rfl
  | dbsvrUpdateMessage | dbsvrInsertMessage | dbsvrDeleteMessage =>
    rw [hstate] at hround
    exact hmessage hround
  | _ =>
    rw [hstate] at hround
    first
    | cases hround; rfl
    | cases hround

/-- What a round sends: queries for the handles, or an update with the version of its handle, or
neither a query nor an update. -/
theorem runStateMachine_sent (hround : runStateMachine s = some o) {req : Request DB}
    (hreq : req ∈ o.sent) :
    (s.state = .dbsvrQuery ∧ ∃ h ∈ s.dbHandles, req = queryData h) ∨
      (s.state = .dbsvrUpdate ∧ ∃ h ∈ s.dbHandles, ∃ u, req = .updateData u ∧ u.key = h.key ∧
        u.version.getD 0 = h.version.getD 0) ∨
      (∀ q, req ≠ .queryData q) ∧ ∀ u, req ≠ .updateData u := by
  have hmessage : ∀ {response error success}, onDBSvrMessage response error success s = some o →
      o.sent = [] := by
    intro response error success h
    obtain ⟨h', -, rfl⟩ := Option.map_eq_some_iff.mp h
    split_ifs <;> rfl
  have hnone : o.sent ≠ [] := List.ne_nil_of_mem hreq
  rw [runStateMachine] at hround
  cases hstate : s.state with
  | dbsvrQuery =>
    rw [hstate] at hround
    cases hround
    refine .inl ⟨rfl, ?_⟩
    have hsent : (onDBSvrQuery s).sent = [] ∨
        (onDBSvrQuery s).sent = s.dbHandles.map queryData := by
      rw [onDBSvrQuery]
      split_ifs <;> simp [Session.fail]
    obtain hsent | hsent := hsent
    · exact absurd hsent hnone
    · rw [hsent] at hreq
      obtain ⟨h, hmem, rfl⟩ := List.mem_map.mp hreq
      exact ⟨h, hmem, rfl⟩
  | dbsvrUpdate =>
    rw [hstate] at hround
    cases hround
    refine .inr (.inl ⟨rfl, ?_⟩)
    rw [onDBSvrUpdate] at hreq hnone
    split at hreq
    · exact absurd hreq List.not_mem_nil
    · rename_i h hget
      refine ⟨h, List.mem_of_getElem? hget, ?_⟩
      split at hreq
      · split_ifs at hreq
        · exact absurd hreq List.not_mem_nil
        · exact ⟨_, List.mem_singleton.mp hreq, rfl, rfl⟩
      · exact absurd hreq List.not_mem_nil
  | dbsvrQueryMessage =>
    rw [hstate] at hround
    cases hround
    refine absurd ?_ hnone
    simp only [onDBSvrQueryMessage]
    split_ifs <;> rfl
  | dbsvrInsert =>
    rw [hstate] at hround
    cases hround
    rw [onDBSvrInsert] at hreq
    split at hreq
    · exact absurd hreq List.not_mem_nil
    · rw [List.mem_singleton.mp hreq]
      exact .inr (.inr ⟨fun q hq => (by cases hq), fun u hu => (by cases hu)⟩)
  | dbsvrDelete =>
    rw [hstate] at hround
    cases hround
    rw [onDBSvrDelete] at hreq
    split at hreq
    · exact absurd hreq List.not_mem_nil
    · rw [List.mem_singleton.mp hreq]
      exact .inr (.inr ⟨fun q hq => (by cases hq), fun u hu => (by cases hu)⟩)
  | dbsvrUpdateMessage | dbsvrInsertMessage | dbsvrDeleteMessage =>
    rw [hstate] at hround
    exact absurd (hmessage hround) hnone
  | _ =>
    rw [hstate] at hround
    first
    | cases hround; exact absurd hreq List.not_mem_nil
    | cases hround

end Sessions

/-! ### The steps -/

section Steps

variable {key : DataKey} {timeout : UInt32} {r r' : Records} {s : Session} {m m' : Machine}
  {db : LevelDB DB} {given : DataKey → Snapshot DB}

/-- What a session is given is a snapshot if the response that it reads has one. -/
theorem givenAfter_of (hkey : key ≠ defaultRsp.key) (hgives : s.svrResponse.Gives key db)
    (hgiven : (given key).Of (LevelDB.versionOf key) (LevelDB.dataOf key) db) :
    (givenAfter s given key).Of (LevelDB.versionOf key) (LevelDB.dataOf key) db := by
  rw [givenAfter]
  split_ifs with hcond
  · cases hrsp : s.svrResponse.queryDataRsp with
    | none =>
      rw [Option.getD_none, Function.update_of_ne hkey]
      exact hgiven
    | some response =>
      rw [hrsp, Option.getD_some] at hcond
      rw [Option.getD_some]
      by_cases hfor : response.key = key
      · obtain ⟨v, d, hversion, hdata, hsnapshot⟩ := hgives response hrsp hfor hcond.2.1
        rw [hfor, Function.update_self, hversion, hdata]
        exact hsnapshot
      · rw [Function.update_of_ne (Ne.symm hfor)]
        exact hgiven
  · exact hgiven

/-- **A step of a session** keeps the handle of the key in step with what the session has been
given, reads nothing but snapshots, and sends nothing but what carries the version given. -/
theorem Machine.step_has {e : SessionEvent} {i : ℕ}
    (hhas : m.session.Has key (given key)) (hgives : m.session.svrResponse.Gives key db)
    (he : ∀ message, e = .serverResponse message → message.Gives key db)
    (hcareful : e = .round → m.session.state = .dbsvrQuery →
      ∀ h ∈ m.session.dbHandles, h.key = key → h.version = none)
    (hstep : m.step e = some m') :
    m'.session.Has key (m.givenBy e given key) ∧ m'.session.svrResponse.Gives key db ∧
      ∀ req ∈ m'.sent.drop m.sent.length,
        SentRequest.Carries key ⟨i, req, m.givenBy e given req.key⟩ := by
  have hquiet : ∀ {P : Request DB → Prop}, m'.sent = m.sent →
      ∀ req ∈ m'.sent.drop m.sent.length, P req := by
    intro P hsent req hreq
    rw [hsent, List.drop_length] at hreq
    exact absurd hreq List.not_mem_nil
  cases e with
  | overridden edits dbProcessIndex next =>
    simp only [Machine.step] at hstep
    split_ifs at hstep
    cases hstep
    refine ⟨(hhas.edits edits).of_tags rfl, ?_, hquiet rfl⟩
    show SvrResponse.Gives key db (edits.foldl (fun s e => e.apply s) m.session).svrResponse
    rw [svrResponse_edits]
    exact hgives
  | round =>
    simp only [Machine.step] at hstep
    split_ifs at hstep with hreleased hfinish
    · cases hstep
      have hsame : givenAfter m.session given = given := by
        rw [givenAfter, if_neg]
        rintro ⟨hstate, -⟩
        rw [hfinish] at hstate
        cases hstate
      refine ⟨?_, hgives, fun req hreq => ?_⟩
      · rw [givenBy, hsame]
        exact hhas
      · simp only [List.drop_left] at hreq
        obtain ⟨h, -, rfl⟩ := List.mem_map.mp hreq
        exact fun _ => ⟨fun u hu => (by cases hu), fun q hq => (by cases hq)⟩
    · obtain ⟨o, hround, rfl⟩ := Option.map_eq_some_iff.mp hstep
      refine ⟨(hhas.round hround).of_tags rfl, ?_, fun req hreq hfor => ?_⟩
      · show SvrResponse.Gives key db o.session.svrResponse
        rw [runStateMachine_svrResponse hround]
        exact hgives
      · simp only [List.drop_left] at hreq
        obtain ⟨hstate, h, hmem, rfl⟩ | ⟨hstate, h, hmem, u, rfl, hu, hversion⟩ |
          ⟨hquery, hupdate⟩ := runStateMachine_sent hround hreq
        · refine ⟨fun u hu => (by cases hu), fun q hq => ?_⟩
          obtain rfl := Request.queryData.inj hq
          exact hcareful rfl hstate h hmem hfor
        · refine ⟨fun u' hu' => ?_, fun q hq => (by cases hq)⟩
          obtain rfl := Request.updateData.inj hu'
          have hsame : m.givenBy .round given = given := by
            rw [givenBy, givenAfter, if_neg]
            rintro ⟨hquery, -⟩
            rw [hstate] at hquery
            cases hquery
          have hfor : u.key = key := hfor
          rw [hsame, hversion, hhas.version h hmem (hu.symm.trans hfor), ← hfor]
          rfl
        · exact ⟨fun u hu => absurd hu (hupdate u), fun q hq => absurd hq (hquery q)⟩
  | serverResponse message =>
    simp only [Machine.step] at hstep
    split_ifs at hstep
    cases hstep
    have hsvr : (getServerResponse message m.session).svrResponse = message := by
      simp only [getServerResponse]
      split
      · rfl
      · split_ifs <;> rfl
    refine ⟨hhas.of_tags (by rw [Machine.Inv.getServerResponse_dbHandles]), ?_, hquiet rfl⟩
    show SvrResponse.Gives key db (getServerResponse message m.session).svrResponse
    rw [hsvr]
    exact he message rfl
  | timeout =>
    simp only [Machine.step] at hstep
    split_ifs at hstep
    cases hstep
    have hsvr : (waitResponseTimeout m.session).svrResponse = m.session.svrResponse := by
      rw [waitResponseTimeout]
      split <;> rfl
    refine ⟨hhas.of_tags (by rw [Machine.Inv.waitResponseTimeout_dbHandles]), ?_, hquiet rfl⟩
    show SvrResponse.Gives key db (waitResponseTimeout m.session).svrResponse
    rw [hsvr]
    exact hgives
  | curlResult =>
    simp only [Machine.step] at hstep
    split_ifs at hstep
    cases hstep
    exact ⟨hhas.of_tags rfl, hgives, hquiet rfl⟩

theorem givenBy_of {e : SessionEvent} (hkey : key ≠ defaultRsp.key)
    (hgives : m.session.svrResponse.Gives key db)
    (hgiven : (given key).Of (LevelDB.versionOf key) (LevelDB.dataOf key) db) :
    (m.givenBy e given key).Of (LevelDB.versionOf key) (LevelDB.dataOf key) db := by
  cases e with
  | round => exact givenAfter_of hkey hgives hgiven
  | _ => exact hgiven

theorem SvrResponse.Gives.step {db' : LevelDB DB} {message : SvrResponse}
    (h : message.Gives key db)
    (hstep : Advances (LevelDB.versionOf key) (LevelDB.dataOf key) db db') :
    message.Gives key db' := by
  intro response hrsp hfor hok
  obtain ⟨v, d, hversion, hdata, hsnapshot⟩ := h response hrsp hfor hok
  exact ⟨v, d, hversion, hdata, hsnapshot.step hstep⟩

namespace Records.Sound

/-- Messages get lost. -/
theorem mono (hi : r.Sound key) {requests : List SentRequest} {responses : List SentResponse}
    (hrequests : requests ⊆ r.requests) (hresponses : responses ⊆ r.responses) :
    ({ r with requests, responses } : Records).Sound key :=
  ⟨hi.given, hi.session, hi.svrResponse, fun x hx => hi.request x (hrequests hx),
    fun x hx => hi.carries x (hrequests hx), fun x hx => hi.response x (hresponses hx), hi.update⟩

theorem stepSession (hi : r.Sound key) (hkey : key ≠ defaultRsp.key) {i : ℕ} {e : SessionEvent}
    (he : ∀ message, e = .serverResponse message → message.Gives key r.db)
    (hcareful : e = .round → (r.machines i).session.state = .dbsvrQuery →
      ∀ h ∈ (r.machines i).session.dbHandles, h.key = key → h.version = none)
    (hstep : r.stepSession i e = some r') : r'.Sound key := by
  obtain ⟨m', hm, rfl⟩ := Option.map_eq_some_iff.mp hstep
  obtain ⟨hhas, hgives, hsent⟩ := Machine.step_has (i := i) (hi.session i) (hi.svrResponse i) he
    hcareful hm
  have hgiven := givenBy_of (e := e) hkey (hi.svrResponse i) (hi.given i)
  refine ⟨fun k => ?_, fun k => ?_, fun k => ?_, fun x hx hfor => ?_, fun x hx => ?_, hi.response,
    hi.update⟩
  · dsimp only
    obtain rfl | hk := eq_or_ne k i
    · rw [Function.update_self]
      exact hgiven
    · rw [Function.update_of_ne hk]
      exact hi.given k
  · dsimp only
    obtain rfl | hk := eq_or_ne k i
    · rw [Function.update_self, Function.update_self]
      exact hhas
    · rw [Function.update_of_ne hk, Function.update_of_ne hk]
      exact hi.session k
  · dsimp only
    obtain rfl | hk := eq_or_ne k i
    · rw [Function.update_self]
      exact hgives
    · rw [Function.update_of_ne hk]
      exact hi.svrResponse k
  · obtain hx | hx := List.mem_append.mp hx
    · exact hi.request x hx hfor
    · obtain ⟨req, -, rfl⟩ := List.mem_map.mp hx
      have hfor : req.key = key := hfor
      rw [hfor]
      exact hgiven
  · obtain hx | hx := List.mem_append.mp hx
    · exact hi.carries x hx
    · obtain ⟨req, hreq, rfl⟩ := List.mem_map.mp hx
      exact hsent req hreq

/-- The response to a query is a snapshot. -/
theorem gives_replyTo {x : SentRequest} {env : Env} {response : DataRsp DB}
    (hget : env.failed .getControlInfo = false) (hcarries : x.Carries key)
    (hkeeps : Advances (LevelDB.versionOf key) (LevelDB.dataOf key) db
      (x.req.handle timeout env db).2)
    (hresponse : (x.req.handle timeout env db).1 = some response) :
    (replyTo response x.req).Gives key (x.req.handle timeout env db).2 := by
  obtain ⟨session, req, given⟩ := x
  cases req with
  | queryData q =>
    intro response' hrsp hfor hok
    obtain rfl : response = response' := Option.some.inj hrsp
    obtain rfl : (queryDataHandler timeout q env db).1 = response := Option.some.inj hresponse
    have hq : q.key = key := by
      rw [← hfor]
      exact (queryDataHandler_key timeout q env db).symm
    obtain ⟨hversion, hdata⟩ := query_snapshot hget ((hcarries hq).2 q rfl) hok
    refine ⟨_, _, hversion, hdata, ?_⟩
    rw [hq]
    refine Snapshot.Of.step (.take ?_) hkeeps
    rw [UInt64.toNat_toUInt32]
    exact Nat.mod_le _ _
  | updateData u =>
    intro response' hrsp
    cases hrsp
  | deleteData k =>
    intro response' hrsp
    cases hrsp
  | insertData req =>
    intro response' hrsp
    cases hrsp
  | unlockData req => cases hresponse

/-- **An accepted update replaces what its session was given.** -/
theorem value_of_accepted {x : SentRequest} {u : UpdateDataReq DB} {env : Env}
    (hget : env.failed .getControlInfo = false) (hcarries : x.Carries key)
    (hsnapshot : x.given.Of (LevelDB.versionOf key) (LevelDB.dataOf key) db)
    (hreq : x.req = .updateData u) (hfor : u.key = key)
    (haccepted : (updateDataHandler timeout u env db).1.Accepted) :
    x.given.value = db.dataOf key := by
  have hversion := version_of_accepted hget haccepted
  have hnat := congrArg UInt64.toNat hversion
  rw [UInt32.toNat_toUInt64, hfor] at hnat
  have hcarried := (hcarries (hreq ▸ hfor)).1 u hreq
  exact hsnapshot.current (hcarried.symm.trans hnat)

theorem handleRequest (hi : r.Sound key) {x : SentRequest} {env : Env}
    (hget : env.failed .getControlInfo = false) (hlt : r.db.versionOf key + 1 < 2 ^ 64)
    (hdelete : x.req.isDelete = true → x.req.key ≠ key)
    (hsnapshot : x.req.key = key →
      x.given.Of (LevelDB.versionOf key) (LevelDB.dataOf key) r.db)
    (hcarries : x.Carries key) : (r.handleRequest timeout x env).Sound key := by
  have hkeeps : Advances (LevelDB.versionOf key) (LevelDB.dataOf key) r.db
      (x.req.handle timeout env r.db).2 :=
    (@advances_handle _ _ r.db key timeout ⟨x.req, env⟩) hget hdelete hlt
  refine ⟨fun i => (hi.given i).step hkeeps, hi.session, fun i => (hi.svrResponse i).step hkeeps,
    fun y hy hfor => (hi.request y hy hfor).step hkeeps, hi.carries, fun y hy => ?_,
    fun u hu hfor => ?_⟩
  · obtain hy | hy := List.mem_append.mp hy
    · exact (hi.response y hy).step hkeeps
    · obtain ⟨response, hmem, rfl⟩ := List.mem_map.mp hy
      exact gives_replyTo hget hcarries hkeeps (Option.mem_toList.mp hmem)
  · obtain hu | hu := List.mem_append.mp hu
    · exact hi.update u hu hfor
    · cases hreq : x.req with
      | updateData req =>
        simp only [hreq] at hu
        obtain ⟨response, hmem, rfl⟩ := List.mem_map.mp hu
        obtain ⟨hresponse, haccepted⟩ := Option.filter_eq_some_iff.mp (Option.mem_toList.mp hmem)
        obtain rfl : (updateDataHandler timeout req env r.db).1 = response :=
          Option.some.inj hresponse
        have hfor : req.key = key := hfor
        show x.given.value = r.db.dataOf req.key
        rw [hfor]
        exact value_of_accepted hget hcarries (hsnapshot (hreq ▸ hfor)) hreq hfor
          (of_decide_eq_true haccepted)
      | _ =>
        simp only [hreq] at hu
        exact absurd hu List.not_mem_nil

/-- **Every careful event keeps the invariant.** -/
theorem step (hi : r.Sound key) (hkey : key ≠ defaultRsp.key) {e : RecordsEvent}
    (hcareful : e.Careful key r) (hstep : Records.step timeout e r = some r') : r'.Sound key := by
  cases e with
  | session i e =>
    simp only [Records.step] at hstep
    split_ifs at hstep with hown
    refine hi.stepSession hkey (fun message he => ?_) (fun he => ?_) hstep
    · subst he
      intro response hrsp
      rw [SessionEvent.isOwn, hrsp] at hown
      simp at hown
    · subst he
      exact hcareful
  | response j =>
    obtain ⟨x, hget, hstep⟩ := Option.bind_eq_some_iff.mp hstep
    have hmono := hi.mono (List.Subset.refl _) (List.eraseIdx_sublist r.responses j).subset
    refine hmono.stepSession hkey (fun message he => ?_) (fun he => by cases he) hstep
    obtain rfl := SessionEvent.serverResponse.inj he
    exact hi.response x (List.mem_of_getElem? hget)
  | request j env =>
    obtain ⟨x, hget, rfl⟩ := Option.map_eq_some_iff.mp hstep
    have hmem := List.mem_of_getElem? hget
    have hmono := hi.mono (List.eraseIdx_sublist r.requests j).subset (List.Subset.refl _)
    obtain ⟨hfinds, hlt, hdelete⟩ := hcareful
    exact hmono.handleRequest hfinds hlt (hdelete x hget) (hi.request x hmem) (hi.carries x hmem)
  | loseResponse j =>
    cases hstep
    exact hi.mono (List.Subset.refl _) (List.eraseIdx_sublist r.responses j).subset
  | loseRequest j =>
    cases hstep
    exact hi.mono (List.eraseIdx_sublist r.requests j).subset (List.Subset.refl _)

theorem initial (request : ℕ → ENSessionState) : (Records.initial request).Sound key where
  given i := .take (s := (.empty : LevelDB DB)) (Nat.zero_le _)
  session i := ⟨List.nodup_nil, fun h hh => absurd hh List.not_mem_nil, fun _ => rfl⟩
  svrResponse i response hrsp := by cases hrsp
  request x hx := absurd hx List.not_mem_nil
  carries x hx := absurd hx List.not_mem_nil
  response x hx := absurd hx List.not_mem_nil
  update u hu := absurd hu List.not_mem_nil

end Records.Sound

end Steps

/-! ### Accepted updates -/

instance decidableCareful (key : DataKey) :
    ∀ (e : RecordsEvent) (r : Records), Decidable (e.Careful key r)
  | .request .., _ => inferInstanceAs (Decidable (_ ∧ _ ∧ _))
  | .session _ .round, _ => inferInstanceAs (Decidable (_ → _))
  | .session _ (.overridden ..), _ | .session _ (.serverResponse _), _ | .session _ .timeout, _
  | .session _ .curlResult, _ | .response _, _ | .loseResponse _, _ | .loseRequest _, _ =>
    isTrue trivial

/-- **An accepted update replaces just the data that its session was given**, in every run of any
number of sessions in which the data is not deleted and no session queries it again when it has a
version of it. Robot data is the only data that sessions update. -/
theorem updates_replace_what_was_given {timeout : UInt32} {request : ℕ → ENSessionState}
    {key : DataKey} {events : List RecordsEvent} {r : Records} (hrobot : key.type = .robotData)
    (hcareful : GuardedSteps (Records.step timeout) (RecordsEvent.Careful key) events
      (.initial request))
    (hrun : runSteps (Records.step timeout) events (.initial request) = some r) :
    ∀ u ∈ r.updates, u.key = key → u.given.value = u.replaced := by
  have hkey : key ≠ defaultRsp.key := by
    rintro rfl
    cases hrobot
  have hsound : r.Sound key := (reachable_of_runSteps hcareful hrun).invariant (.initial request)
    fun _ _ _ hg hi hstep => hi.step hkey hg hstep
  exact hsound.update

/-- A robot. -/
def robotKey : DataKey := ⟨.robotData, 7⟩

/-- A session queries the robot and gets the response. -/
def queryRobot (i : ℕ) : List RecordsEvent :=
  [.session i (.overridden [.addQueryData robotKey] 0 .dbsvrQuery), .session i .round,
    .request 0 .still, .response 0, .session i .round]

/-- A session updates the robot. -/
def updateRobot (i : ℕ) (lastInitChipsTime : UInt32) : List RecordsEvent :=
  [.session i (.overridden
      [.setData 0 (some ⟨some ⟨some 7, some lastInitChipsTime⟩⟩)] 0 .dbsvrUpdate),
    .session i .round, .request 0 .still, .response 0, .session i .round]

/-- Two sessions query the robot, and of their updates the first is accepted. -/
theorem updates_replace_what_was_given_two_sessions :
    ∃ r, runSteps (Records.step 0)
        (queryRobot 0 ++ queryRobot 1 ++ updateRobot 1 5 ++ updateRobot 0 6)
        (.initial fun _ => .clientRequest) = some r ∧
      r.updates.length = 1 ∧ ∀ u ∈ r.updates, u.key = robotKey → u.given.value = u.replaced := by
  have hcareful : GuardedSteps (Records.step 0) (RecordsEvent.Careful robotKey)
      (queryRobot 0 ++ queryRobot 1 ++ updateRobot 1 5 ++ updateRobot 0 6)
      (.initial fun _ => .clientRequest) := by decide +kernel
  have hupdates : (runSteps (Records.step 0)
      (queryRobot 0 ++ queryRobot 1 ++ updateRobot 1 5 ++ updateRobot 0 6)
      (.initial fun _ => .clientRequest)).map (fun r => r.updates.length) = some 1 := by
    decide +kernel
  obtain ⟨r, hrun, hlength⟩ := Option.map_eq_some_iff.mp hupdates
  exact ⟨r, hrun, hlength, updates_replace_what_was_given rfl hcareful hrun⟩

/-- A session that has queried the robot adds another query, and then updates the robot without
changing it. -/
def queryAgain (i : ℕ) : List RecordsEvent :=
  [.session i (.overridden [.addQueryData ⟨.robotData, 8⟩] 0 .dbsvrQuery), .session i .round,
    .request 0 .still, .response 0, .session i .round,
    .request 0 .still, .response 0, .session i .round,
    .session i (.overridden [] 0 .dbsvrUpdate), .session i .round, .request 0 .still]

/-- The second query for the robot is answered without data, because the session has the version,
and the update replaces the robot by an empty one. -/
theorem requeried_data_is_replaced :
    ¬ ∀ (events : List RecordsEvent) (r : Records),
      runSteps (Records.step 0) events (.initial fun _ => .clientRequest) = some r →
        ∀ u ∈ r.updates, u.key = robotKey → u.given.value = u.replaced := by
  intro hall
  have hupdates : (runSteps (Records.step 0)
      (queryRobot 0 ++ updateRobot 0 5 ++ queryRobot 1 ++ queryAgain 1)
      (.initial fun _ => .clientRequest)).map (fun r => r.updates.map fun u =>
        (u.key, u.given.value.robotData.isSome, u.replaced.robotData.isSome)) =
      some [(robotKey, false, false), (robotKey, false, true)] := by decide +kernel
  obtain ⟨r, hrun, hmap⟩ := Option.map_eq_some_iff.mp hupdates
  obtain ⟨u, hu, heq⟩ := List.mem_map.mp
    (hmap ▸ List.mem_cons_of_mem _ (List.mem_singleton.mpr rfl))
  obtain ⟨hkey, hgiven, hreplaced⟩ := (Prod.mk.inj heq).imp_right Prod.mk.inj
  rw [hall _ r hrun u hu hkey, hreplaced] at hgiven
  cases hgiven

end Lsf.BasicHandler
