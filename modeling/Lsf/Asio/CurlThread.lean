import Mathlib.Data.List.Basic
import Mathlib.Logic.Function.Basic
import Lsf.Foundations.Reachability

/-!
# Transfers on a pool of threads

`CurlThread` performs transfers on detached threads and calls the callbacks on the main thread, when
this ticks. The main thread and the workers share two lists, each with its mutex. A worker waits on
the condition variable of the first, and it keeps this mutex while it performs the transfer that it
took from the list, until it has put the result into the second. So only one of the threads performs
a transfer at a time, and nothing overtakes.

The threads take their steps in any order, and a step is what a thread does between two points where
another can come between.

## Main definitions

* `Curl`, `Curl.perform` — a handle with its output, and a transfer
* `CurlThread`, `CurlThread.step` — the lists, the mutexes and the threads
* `CurlThread.Pending` — which transfers are on their way, and where

## Main results

* `CurlThread.Pending.step` — every step keeps their order
* `callbacks_in_order` — every callback is called once, in order, with the output of its transfer
-/

namespace Lsf.Asio

/-! ### The handles -/

/-- What `curl_easy_perform` does: the data that it writes and the code that it returns. -/
structure Transfer where
  data : List (List UInt8)
  code : ℕ
deriving DecidableEq

/-- A `Curl` object. The code `0` is `CURLE_OK`. -/
structure Curl where
  output : List UInt8 := []
  error : ℕ := 0
deriving DecidableEq

namespace Curl

/-- `WriteToStringCallback`, which appends what the transfer has received. -/
def writeToStringCallback (c : Curl) (data : List UInt8) : Curl :=
  { c with output := c.output ++ data }

/-- `Perform`, where the transfer runs like `t`. -/
def perform (t : Transfer) (c : Curl) : Curl :=
  { t.data.foldl writeToStringCallback { c with output := [] } with error := t.code }

/-- The object after nothing but the transfer. -/
def ofTransfer (t : Transfer) : Curl := ⟨t.data.flatten, t.code⟩

theorem foldl_writeToStringCallback (data : List (List UInt8)) (c : Curl) :
    data.foldl writeToStringCallback c = { c with output := c.output ++ data.flatten } := by
  induction data generalizing c with
  | nil => simp
  | cons d data ih => simp [ih, writeToStringCallback]

/-- A transfer leaves nothing of what the object had before. -/
theorem perform_eq (t : Transfer) (c : Curl) : c.perform t = ofTransfer t := by
  simp [perform, ofTransfer, foldl_writeToStringCallback]

end Curl

/-! ### The threads -/

/-- Where a worker is in `ProcessWorker`. -/
inductive Worker
  | starting
  | waiting
  | notified
  /-- It has taken the handle from the list and has the input mutex, as in the cases that follow. -/
  | performing (curl : ℕ)
  | performed (curl : ℕ)
  /-- The handle is in the output list, and both mutexes are still locked. -/
  | leaving
deriving DecidableEq

namespace Worker

/-- The handle that the worker has between the two lists. -/
def carries : Worker → List ℕ
  | performing curl => [curl]
  | performed curl => [curl]
  | _ => []

/-- The handle, once its transfer is over. -/
def carriesDone : Worker → List ℕ
  | performed curl => [curl]
  | _ => []

/-- The worker has the input mutex. -/
def locksInput : Worker → Bool
  | performing _ => true
  | performed _ => true
  | leaving => true
  | _ => false

end Worker

/-- Where the main thread is in `ProcessOnTick`. -/
inductive MainThread
  /-- In no tick. -/
  | away
  /-- It found the input list not empty. -/
  | notifying
  /-- It comes to the output list. -/
  | checking
  /-- It has these handles of the copied list before it. -/
  | walking (list : List ℕ)
  /-- The callback of a handle runs. -/
  | calling (curl : ℕ) (list : List ℕ)
deriving DecidableEq

namespace MainThread

/-- The transfers of `list_` that `ProcessOnTick` has still to look at. -/
def list : MainThread → List ℕ
  | walking list => list
  | calling _ list => list
  | _ => []

/-- The handle whose callback runs. -/
def callback : MainThread → List ℕ
  | calling curl _ => [curl]
  | _ => []

end MainThread

/-- A handle that the main thread came to, with the callback that it found and the object as the
callback got it. -/
structure Finished (κ : Type) where
  curl : ℕ
  handler : Option κ
  object : Curl
deriving DecidableEq

/-- The state of all threads. A handle stands for the `SharedCurl` that owns it, and a callback may
be null. -/
structure CurlThread (κ : Type) where
  curls : ℕ → Curl := fun _ => {}
  inputMtx : Option ℕ := none
  outputMtx : Option ℕ := none
  inputList : List ℕ := []
  outputList : List ℕ := []
  funcMap : ℕ → Option (Option κ) := fun _ => none
  workers : ℕ → Worker := fun _ => .starting
  main : MainThread := .away
  /-- `AddCurl` has the handle in `_func_map` and comes to the input list. -/
  adding : Option ℕ := none
  /-- All calls of `AddCurl`. -/
  added : List (ℕ × Option κ) := []
  /-- All transfers. -/
  transfers : List (ℕ × Transfer) := []
  finished : List (Finished κ) := []

/-- What the main thread and the workers do, from one lock of a mutex to the next. -/
inductive CurlThreadEvent (κ : Type)
  /-- `AddCurl` is called. The last of its `SetOpt` has this code. -/
  | addCurl (curl : ℕ) (handler : Option κ) (code : ℕ)
  /-- `AddCurl` locks the input mutex and returns. -/
  | pushInput
  /-- `ProcessOnTick` is called. -/
  | tick
  /-- It locks the input mutex and notifies a worker, if one waits. -/
  | notifyOne (worker : Option ℕ)
  /-- It looks at the output list. `try_lock` may fail on a mutex that is not locked. -/
  | takeOutput (fails : Bool)
  /-- It comes to the next handle. -/
  | next
  /-- The callback returns. -/
  | callbackReturns
  /-- A worker comes to its first wait. -/
  | start (worker : ℕ)
  /-- A worker wakes up though nobody notified it. -/
  | wake (worker : ℕ)
  /-- A worker that was woken gets the input mutex. -/
  | popInput (worker : ℕ)
  | perform (worker : ℕ) (t : Transfer)
  /-- A worker locks the output mutex and puts its handle into the list. -/
  | pushOutput (worker : ℕ)
  /-- A worker comes to the end of its loop and waits again. -/
  | wait (worker : ℕ)

namespace CurlThread

variable {κ : Type}

/-- A worker is in another place of its loop. -/
def setWorker (i : ℕ) (w : Worker) (s : CurlThread κ) : CurlThread κ :=
  { s with workers := Function.update s.workers i w }

/-- `AddCurl`, up to the lock. -/
def addCurl (curl : ℕ) (handler : Option κ) (code : ℕ) (s : CurlThread κ) : CurlThread κ :=
  { s with
    curls := Function.update s.curls curl { s.curls curl with error := code }
    funcMap := Function.update s.funcMap curl (some handler)
    adding := some curl
    added := s.added ++ [(curl, handler)] }

/-- The loop of `ProcessOnTick` at a handle: without an entry it goes on, and without a callback it
erases the entry at once. -/
def next (curl : ℕ) (list : List ℕ) (s : CurlThread κ) : CurlThread κ :=
  match s.funcMap curl with
  | none => { s with main := .walking list }
  | some handler =>
    let finished := s.finished ++ [⟨curl, handler, s.curls curl⟩]
    match handler with
    | some _ => { s with finished, main := .calling curl list }
    | none =>
      { s with finished, main := .walking list, funcMap := Function.update s.funcMap curl none }

/-- The main thread ends a tick when it has come to the end of the list. -/
def step (threadCount : ℕ) : CurlThreadEvent κ → CurlThread κ → Option (CurlThread κ)
  | .addCurl curl handler code, s =>
    if s.adding = none ∧ (s.main = .away ∨ s.main.callback ≠ []) then
      some (s.addCurl curl handler code)
    else none
  | .pushInput, s =>
    match s.adding, s.inputMtx with
    | some curl, none => some { s with inputList := s.inputList ++ [curl], adding := none }
    | _, _ => none
  | .tick, s =>
    if s.adding = none ∧ s.main = .away then
      some { s with main := if s.inputList.isEmpty then .checking else .notifying }
    else none
  | .notifyOne worker, s =>
    if s.main = .notifying ∧ s.inputMtx = none then
      match worker with
      | some i =>
        if s.workers i = .waiting then some { s.setWorker i .notified with main := .checking }
        else none
      | none =>
        if ∀ i < threadCount, s.workers i ≠ .waiting then some { s with main := .checking }
        else none
    else none
  | .takeOutput fails, s =>
    if s.main = .checking then
      if s.outputList.isEmpty ∨ fails ∨ s.outputMtx ≠ none then some { s with main := .away }
      else some { s with main := .walking s.outputList, outputList := [] }
    else none
  | .next, s =>
    match s.main with
    | .walking (curl :: list) => some (s.next curl list)
    | .walking [] => some { s with main := .away }
    | _ => none
  | .callbackReturns, s =>
    match s.main, s.adding with
    | .calling curl list, none =>
      some { s with main := .walking list, funcMap := Function.update s.funcMap curl none }
    | _, _ => none
  | .start i, s =>
    if i < threadCount ∧ s.workers i = .starting ∧ s.inputMtx = none then
      some (s.setWorker i .waiting)
    else none
  | .wake i, s => if s.workers i = .waiting then some (s.setWorker i .notified) else none
  | .popInput i, s =>
    if s.workers i = .notified ∧ s.inputMtx = none then
      match s.inputList with
      | [] => some (s.setWorker i .waiting)
      | curl :: list =>
        some { s.setWorker i (.performing curl) with inputMtx := some i, inputList := list }
    else none
  | .perform i t, s =>
    match s.workers i with
    | .performing curl =>
      some { s.setWorker i (.performed curl) with
        curls := Function.update s.curls curl ((s.curls curl).perform t)
        transfers := s.transfers ++ [(curl, t)] }
    | _ => none
  | .pushOutput i, s =>
    match s.workers i, s.outputMtx with
    | .performed curl, none =>
      some { s.setWorker i .leaving with
        outputMtx := some i, outputList := s.outputList ++ [curl] }
    | _, _ => none
  | .wait i, s =>
    match s.workers i with
    | .leaving => some { s.setWorker i .waiting with inputMtx := none, outputMtx := none }
    | _ => none

/-! ### The handles on their way -/

variable {s s' : CurlThread κ}

/-- The handles that the worker with the input mutex has. -/
def carried (s : CurlThread κ) : List ℕ := s.inputMtx.toList.flatMap fun i => (s.workers i).carries

/-- The transfers that the holder of the input mutex carries and that are done. -/
def carriedDone (s : CurlThread κ) : List ℕ :=
  s.inputMtx.toList.flatMap fun i => (s.workers i).carriesDone

/-- The handles whose callback is still to be called, in the order in which it will be. -/
def onTheWay (s : CurlThread κ) : List ℕ :=
  s.main.list ++ s.outputList ++ s.carried ++ s.inputList ++ s.adding.toList

/-- Those of them whose transfer is over. -/
def onTheWayDone (s : CurlThread κ) : List ℕ := s.main.list ++ s.outputList ++ s.carriedDone

/-- A worker has the mutexes that it says it has. -/
structure Locked (s : CurlThread κ) : Prop where
  input : ∀ i, (s.workers i).locksInput ↔ s.inputMtx = some i
  output : ∀ i, s.workers i = .leaving ↔ s.outputMtx = some i

/-- The calls `rest` of `AddCurl` and the objects `done` are those of the handles on their way. -/
structure Pending (s : CurlThread κ) (rest : List (ℕ × Option κ)) (done : List (ℕ × Curl)) :
    Prop where
  added_eq : s.added = s.finished.map (fun f => (f.curl, f.handler)) ++ rest
  rest_eq : rest.map Prod.fst = s.onTheWay
  transfers_eq : s.transfers.map (fun t => (t.1, Curl.ofTransfer t.2)) =
    s.finished.map (fun f => (f.curl, f.object)) ++ done
  done_eq : done.map Prod.fst = s.onTheWayDone
  objects : ∀ d ∈ done, s.curls d.1 = d.2
  funcMap : ∀ r ∈ rest, s.funcMap r.1 = some r.2
  callback : ∀ curl ∈ s.main.callback, s.funcMap curl ≠ none
  others : ∀ curl, s.funcMap curl ≠ none → curl ∈ s.main.callback ++ s.onTheWay
  nodup : (s.main.callback ++ s.onTheWay).Nodup

/-- Threads and handles move, and nothing else happens. -/
structure Moves (s s' : CurlThread κ) : Prop where
  curls : s'.curls = s.curls
  funcMap : s'.funcMap = s.funcMap
  added : s'.added = s.added
  transfers : s'.transfers = s.transfers
  finished : s'.finished = s.finished
  callback : s'.main.callback = s.main.callback
  onTheWay : s'.onTheWay = s.onTheWay
  onTheWayDone : s'.onTheWayDone = s.onTheWayDone

section Carried

theorem carried_of_none (h : s.inputMtx = none) : s.carried = [] := by
  rw [carried, h]
  rfl

theorem carriedDone_of_none (h : s.inputMtx = none) : s.carriedDone = [] := by
  rw [carriedDone, h]
  rfl

theorem carried_of_some {i : ℕ} (h : s.inputMtx = some i) : s.carried = (s.workers i).carries := by
  simp [carried, h]

theorem carriedDone_of_some {i : ℕ} (h : s.inputMtx = some i) :
    s.carriedDone = (s.workers i).carriesDone := by
  simp [carriedDone, h]

/-- What a worker without the input mutex does has nothing to do with the handle of the one that
has it. -/
theorem carried_setWorker {i : ℕ} {w : Worker} (h : s.inputMtx ≠ some i) :
    (s.setWorker i w).carried = s.carried ∧ (s.setWorker i w).carriedDone = s.carriedDone := by
  rcases hm : s.inputMtx with - | j
  · rw [carried_of_none hm, carriedDone_of_none hm]
    exact ⟨carried_of_none hm, carriedDone_of_none hm⟩
  · have hj : j ≠ i := fun hj => h (hj ▸ hm)
    rw [carried_of_some hm, carriedDone_of_some hm,
      carried_of_some (s := s.setWorker i w) hm, carriedDone_of_some (s := s.setWorker i w) hm]
    simp [setWorker, hj]

/-- The transfers that are over are those of the first handles on their way. -/
theorem onTheWayDone_prefix : s.onTheWayDone <+: s.onTheWay := by
  have hcarried : s.carriedDone <+: s.carried := by
    rcases hm : s.inputMtx with - | j
    · rw [carriedDone_of_none hm]
      exact List.nil_prefix
    · rw [carriedDone_of_some hm, carried_of_some hm]
      cases s.workers j <;> first | exact List.nil_prefix | exact List.prefix_rfl
  rw [onTheWay, List.append_assoc, List.append_assoc]
  exact ((List.prefix_append_right_inj _).mpr (hcarried.trans (List.prefix_append ..)))

end Carried

namespace Locked

variable {i : ℕ} {w : Worker}

theorem input_ne (h : s.Locked) (hw : (s.workers i).locksInput = false) : s.inputMtx ≠ some i :=
  fun hm => absurd ((h.input i).mpr hm) (by simp [hw])

/-- A worker goes on, and the mutexes change by what it locks and unlocks. -/
theorem of_worker (h : s.Locked) (hworkers : s'.workers = Function.update s.workers i w)
    (hinput : w.locksInput ↔ s'.inputMtx = some i) (houtput : w = .leaving ↔ s'.outputMtx = some i)
    (hinput' : ∀ j ≠ i, (s'.inputMtx = some j ↔ s.inputMtx = some j))
    (houtput' : ∀ j ≠ i, (s'.outputMtx = some j ↔ s.outputMtx = some j)) : s'.Locked where
  input j := by
    rw [hworkers]
    rcases eq_or_ne j i with rfl | hj
    · simpa using hinput
    · rw [Function.update_of_ne hj, hinput' j hj]
      exact h.input j
  output j := by
    rw [hworkers]
    rcases eq_or_ne j i with rfl | hj
    · simpa using houtput
    · rw [Function.update_of_ne hj, houtput' j hj]
      exact h.output j

theorem output_ne (h : s.Locked) (hw : s.workers i ≠ .leaving) : s.outputMtx ≠ some i :=
  mt (h.output i).mpr hw

/-- A worker goes on that has no mutex, and gets none. -/
theorem setWorker (h : s.Locked) (hs : (s.workers i).locksInput = false)
    (hw : w.locksInput = false) : (s.setWorker i w).Locked := by
  have hleaving : ∀ {w : Worker}, w.locksInput = false → w ≠ .leaving := by
    rintro _ hw rfl
    cases hw
  exact h.of_worker rfl (iff_of_false (by simp [hw]) (h.input_ne hs))
    (iff_of_false (hleaving hw) (h.output_ne (hleaving hs))) (fun _ _ => Iff.rfl)
    fun _ _ => Iff.rfl

/-- A worker has the input mutex alone. -/
theorem eq_of_locksInput (h : s.Locked) {j : ℕ} (hi : (s.workers i).locksInput)
    (hj : (s.workers j).locksInput) : i = j :=
  Option.some.inj (((h.input i).mp hi).symm.trans ((h.input j).mp hj))

theorem next {curl : ℕ} {list : List ℕ} (h : s.Locked) : (s.next curl list).Locked := by
  unfold CurlThread.next
  split
  · exact ⟨h.input, h.output⟩
  · split
    · exact ⟨h.input, h.output⟩
    · exact ⟨h.input, h.output⟩

theorem step {threadCount : ℕ} {e : CurlThreadEvent κ} (h : s.Locked)
    (hstep : step threadCount e s = some s') : s'.Locked := by
  cases e with
  | addCurl curl handler code =>
    obtain ⟨-, hs⟩ := Option.ite_none_right_eq_some.mp hstep
    cases hs
    exact ⟨h.input, h.output⟩
  | pushInput =>
    simp only [CurlThread.step] at hstep
    split at hstep
    · cases hstep
      exact ⟨h.input, h.output⟩
    · cases hstep
  | tick =>
    obtain ⟨-, hs⟩ := Option.ite_none_right_eq_some.mp hstep
    cases hs
    exact ⟨h.input, h.output⟩
  | notifyOne worker =>
    obtain ⟨-, hs⟩ := Option.ite_none_right_eq_some.mp hstep
    cases worker with
    | some i =>
      obtain ⟨hw, hs⟩ := Option.ite_none_right_eq_some.mp hs
      cases hs
      have h' := h.setWorker (i := i) (w := .notified) (by rw [hw]; rfl) rfl
      exact ⟨h'.input, h'.output⟩
    | none =>
      obtain ⟨-, hs⟩ := Option.ite_none_right_eq_some.mp hs
      cases hs
      exact ⟨h.input, h.output⟩
  | takeOutput fails =>
    obtain ⟨-, hs⟩ := Option.ite_none_right_eq_some.mp hstep
    split at hs
    · cases hs
      exact ⟨h.input, h.output⟩
    · cases hs
      exact ⟨h.input, h.output⟩
  | next =>
    simp only [CurlThread.step] at hstep
    split at hstep
    · cases hstep
      exact h.next
    · cases hstep
      exact ⟨h.input, h.output⟩
    · cases hstep
  | callbackReturns =>
    simp only [CurlThread.step] at hstep
    split at hstep
    · cases hstep
      exact ⟨h.input, h.output⟩
    · cases hstep
  | start i =>
    obtain ⟨⟨-, hw, -⟩, hs⟩ := Option.ite_none_right_eq_some.mp hstep
    cases hs
    exact h.setWorker (by rw [hw]; rfl) rfl
  | wake i =>
    obtain ⟨hw, hs⟩ := Option.ite_none_right_eq_some.mp hstep
    cases hs
    exact h.setWorker (by rw [hw]; rfl) rfl
  | popInput i =>
    obtain ⟨⟨hw, hm⟩, hs⟩ := Option.ite_none_right_eq_some.mp hstep
    split at hs
    · cases hs
      exact h.setWorker (by rw [hw]; rfl) rfl
    · cases hs
      refine h.of_worker rfl (by simp [Worker.locksInput]) ?_ (fun j hj => ?_) fun _ _ => Iff.rfl
      · exact iff_of_false nofun (h.output_ne (by rw [hw]; nofun))
      · rw [hm]
        exact iff_of_false (fun h => hj (Option.some.inj h).symm) nofun
  | perform i t =>
    simp only [CurlThread.step] at hstep
    split at hstep
    · rename_i curl hw
      cases hstep
      refine h.of_worker rfl ?_ ?_ (fun _ _ => Iff.rfl) fun _ _ => Iff.rfl
      · exact iff_of_true rfl ((h.input i).mp (by rw [hw]; rfl))
      · exact iff_of_false nofun (h.output_ne (by rw [hw]; nofun))
    · cases hstep
  | pushOutput i =>
    simp only [CurlThread.step] at hstep
    split at hstep
    · rename_i curl hw hm
      cases hstep
      refine h.of_worker rfl ?_ (iff_of_true rfl rfl) (fun _ _ => Iff.rfl) fun j hj => ?_
      · exact iff_of_true rfl ((h.input i).mp (by rw [hw]; rfl))
      · rw [hm]
        exact iff_of_false (fun h => hj (Option.some.inj h).symm) nofun
    · cases hstep
  | wait i =>
    simp only [CurlThread.step] at hstep
    split at hstep
    · rename_i hw
      cases hstep
      have hinput := (h.input i).mp (by rw [hw]; rfl)
      have houtput := (h.output i).mp hw
      refine h.of_worker rfl (iff_of_false nofun nofun) (iff_of_false nofun nofun)
        (fun j hj => ?_) fun j hj => ?_
      · rw [hinput]
        exact iff_of_false nofun fun h => hj (Option.some.inj h).symm
      · rw [houtput]
        exact iff_of_false nofun fun h => hj (Option.some.inj h).symm
    · cases hstep

end Locked

section Moves

theorem Moves.setWorker {i : ℕ} {w : Worker} (h : s.inputMtx ≠ some i) :
    Moves s (s.setWorker i w) where
  curls := rfl
  funcMap := rfl
  added := rfl
  transfers := rfl
  finished := rfl
  callback := rfl
  onTheWay := by rw [CurlThread.onTheWay, (carried_setWorker h).1]; rfl
  onTheWayDone := by rw [CurlThread.onTheWayDone, (carried_setWorker h).2]; rfl

/-- The main thread goes on, with the lists `list` and `outputList` before it. -/
theorem Moves.setMain {main : MainThread} {outputList : List ℕ}
    (hcallback : main.callback = s.main.callback)
    (hlist : main.list ++ outputList = s.main.list ++ s.outputList) :
    Moves s { s with main, outputList } where
  curls := rfl
  funcMap := rfl
  added := rfl
  transfers := rfl
  finished := rfl
  callback := hcallback
  onTheWay := by
    change main.list ++ outputList ++ s.carried ++ s.inputList ++ s.adding.toList = s.onTheWay
    rw [hlist]
    rfl
  onTheWayDone := by
    change main.list ++ outputList ++ s.carriedDone = s.onTheWayDone
    rw [hlist]
    rfl

theorem Moves.trans {s'' : CurlThread κ} (h : Moves s s') (h' : Moves s' s'') : Moves s s'' where
  curls := h'.curls.trans h.curls
  funcMap := h'.funcMap.trans h.funcMap
  added := h'.added.trans h.added
  transfers := h'.transfers.trans h.transfers
  finished := h'.finished.trans h.finished
  callback := h'.callback.trans h.callback
  onTheWay := h'.onTheWay.trans h.onTheWay
  onTheWayDone := h'.onTheWayDone.trans h.onTheWayDone

/-- A worker takes the first handle from the input list. -/
theorem Moves.popInput {i curl : ℕ} {list : List ℕ} (hm : s.inputMtx = none)
    (hlist : s.inputList = curl :: list) :
    Moves s { s.setWorker i (.performing curl) with inputMtx := some i, inputList := list } where
  curls := rfl
  funcMap := rfl
  added := rfl
  transfers := rfl
  finished := rfl
  callback := rfl
  onTheWay := by
    simp [CurlThread.onTheWay, carried, CurlThread.setWorker, Worker.carries, hm, hlist]
  onTheWayDone := by
    simp [CurlThread.onTheWayDone, carriedDone, CurlThread.setWorker, Worker.carriesDone, hm]

/-- A worker puts its handle into the output list. -/
theorem Moves.pushOutput {i curl : ℕ} (hm : s.inputMtx = some i)
    (hw : s.workers i = .performed curl) :
    Moves s { s.setWorker i .leaving with
      outputMtx := some i, outputList := s.outputList ++ [curl] } where
  curls := rfl
  funcMap := rfl
  added := rfl
  transfers := rfl
  finished := rfl
  callback := rfl
  onTheWay := by
    simp [CurlThread.onTheWay, carried, CurlThread.setWorker, Worker.carries, hm, hw]
  onTheWayDone := by
    simp [CurlThread.onTheWayDone, carriedDone, CurlThread.setWorker, Worker.carriesDone, hm, hw]

/-- A worker unlocks the mutexes. -/
theorem Moves.wait {i : ℕ} (hm : s.inputMtx = some i) (hw : s.workers i = .leaving) :
    Moves s { s.setWorker i .waiting with inputMtx := none, outputMtx := none } where
  curls := rfl
  funcMap := rfl
  added := rfl
  transfers := rfl
  finished := rfl
  callback := rfl
  onTheWay := by
    simp [CurlThread.onTheWay, carried, CurlThread.setWorker, Worker.carries, hm, hw]
  onTheWayDone := by
    simp [CurlThread.onTheWayDone, carriedDone, CurlThread.setWorker, Worker.carriesDone, hm, hw]

theorem Moves.pushInput {curl : ℕ} (hadding : s.adding = some curl) :
    Moves s { s with inputList := s.inputList ++ [curl], adding := none } where
  curls := rfl
  funcMap := rfl
  added := rfl
  transfers := rfl
  finished := rfl
  callback := rfl
  onTheWay := by simp [CurlThread.onTheWay, carried, hadding]
  onTheWayDone := rfl

end Moves

namespace Pending

variable {rest : List (ℕ × Option κ)} {done : List (ℕ × Curl)}

theorem moves (h : s.Pending rest done) (hm : Moves s s') : s'.Pending rest done where
  added_eq := by rw [hm.added, hm.finished, h.added_eq]
  rest_eq := by rw [hm.onTheWay, h.rest_eq]
  transfers_eq := by rw [hm.transfers, hm.finished, h.transfers_eq]
  done_eq := by rw [hm.onTheWayDone, h.done_eq]
  objects := by rw [hm.curls]; exact h.objects
  funcMap := by rw [hm.funcMap]; exact h.funcMap
  callback := by rw [hm.funcMap, hm.callback]; exact h.callback
  others := by rw [hm.funcMap, hm.callback, hm.onTheWay]; exact h.others
  nodup := by rw [hm.callback, hm.onTheWay]; exact h.nodup

/-- A handle without an entry in `_func_map` is not in use. -/
theorem notMem_of_funcMap {curl : ℕ} (h : s.Pending rest done) (hc : s.funcMap curl = none) :
    curl ∉ s.main.callback ++ s.onTheWay := by
  rw [List.mem_append]
  rintro (hmem | hmem)
  · exact h.callback curl hmem hc
  · rw [← h.rest_eq, List.mem_map] at hmem
    obtain ⟨r, hr, rfl⟩ := hmem
    rw [h.funcMap r hr] at hc
    cases hc

theorem mem_of_done (h : s.Pending rest done) {d : ℕ × Curl} (hd : d ∈ done) :
    d.1 ∈ s.onTheWay :=
  onTheWayDone_prefix.subset (h.done_eq ▸ List.mem_map_of_mem hd)

theorem mem_of_rest (h : s.Pending rest done) {r : ℕ × Option κ} (hr : r ∈ rest) :
    r.1 ∈ s.onTheWay :=
  h.rest_eq ▸ List.mem_map_of_mem hr

theorem addCurl {curl : ℕ} {handler : Option κ} {code : ℕ} (h : s.Pending rest done)
    (hadding : s.adding = none) (hfresh : s.funcMap curl = none) :
    (s.addCurl curl handler code).Pending (rest ++ [(curl, handler)]) done := by
  have hway : (s.addCurl curl handler code).onTheWay = s.onTheWay ++ [curl] := by
    simp [CurlThread.addCurl, onTheWay, carried, hadding]
  have hnot := h.notMem_of_funcMap hfresh
  have hne : ∀ c ∈ s.main.callback ++ s.onTheWay, c ≠ curl := fun c hc heq => hnot (heq ▸ hc)
  refine ⟨?_, ?_, h.transfers_eq, h.done_eq, fun d hd => ?_, fun r hr => ?_, fun c hc => ?_,
    fun c hc => ?_, ?_⟩
  · change s.added ++ _ = _
    rw [h.added_eq, List.append_assoc]
    rfl
  · rw [hway, List.map_append, h.rest_eq]
    rfl
  · rw [← h.objects d hd]
    exact Function.update_of_ne (hne _ (List.mem_append_right _ (h.mem_of_done hd))) _ _
  · obtain hr | hr := List.mem_append.mp hr
    · rw [← h.funcMap r hr]
      exact Function.update_of_ne (hne _ (List.mem_append_right _ (h.mem_of_rest hr))) _ _
    · obtain rfl := List.mem_singleton.mp hr
      exact Function.update_self ..
  · change Function.update s.funcMap curl (some handler) c ≠ none
    rw [Function.update_of_ne (hne c (List.mem_append_left _ hc))]
    exact h.callback c hc
  · rw [hway, ← List.append_assoc]
    rcases eq_or_ne c curl with rfl | hc'
    · exact List.mem_append_right _ (List.mem_singleton_self c)
    · refine List.mem_append_left _ (h.others c ?_)
      rwa [← Function.update_of_ne hc' (some handler) s.funcMap]
  · rw [hway, ← List.append_assoc]
    exact List.nodup_append.mpr ⟨h.nodup, by simp, fun c hc d hd => by
      rw [List.mem_singleton.mp hd]
      exact hne c hc⟩

/-- A transfer is over. -/
theorem perform {i curl : ℕ} {t : Transfer} (h : s.Pending rest done)
    (hm : s.inputMtx = some i) (hw : s.workers i = .performing curl) :
    Pending { s.setWorker i (.performed curl) with
        curls := Function.update s.curls curl ((s.curls curl).perform t)
        transfers := s.transfers ++ [(curl, t)] } rest (done ++ [(curl, Curl.ofTransfer t)]) := by
  have hcarried : s.carried = [curl] := by rw [carried_of_some hm, hw]; rfl
  have hdone : s.onTheWayDone = s.main.list ++ s.outputList := by
    rw [onTheWayDone, carriedDone_of_some hm, hw]
    exact List.append_nil _
  have hne : ∀ d ∈ done, d.1 ≠ curl := by
    intro d hd heq
    have hmem : d.1 ∈ s.main.list ++ s.outputList := by
      rw [← hdone, ← h.done_eq]
      exact List.mem_map_of_mem hd
    have hnodup := (List.nodup_append.mp h.nodup).2.1
    rw [onTheWay, hcarried] at hnodup
    have hnodup := (List.nodup_append.mp (List.nodup_append.mp hnodup).1).1
    exact (List.nodup_append.mp hnodup).2.2 _ hmem curl (List.mem_singleton_self curl) heq
  have hway : ∀ {curls transfers}, onTheWay { s.setWorker i (.performed curl) with
      curls, transfers } = s.onTheWay := by
    simp [onTheWay, carried, setWorker, hm, hw, Worker.carries]
  refine ⟨h.added_eq, ?_, ?_, ?_, fun d hd => ?_, h.funcMap, h.callback, ?_, ?_⟩
  · rw [hway, h.rest_eq]
  · change List.map _ (s.transfers ++ [(curl, t)]) = _
    rw [List.map_append, h.transfers_eq, List.append_assoc]
    rfl
  · rw [List.map_append, h.done_eq, hdone]
    simp [onTheWayDone, carriedDone, setWorker, hm, Worker.carriesDone]
  · obtain hd | hd := List.mem_append.mp hd
    · rw [← h.objects d hd]
      exact Function.update_of_ne (hne d hd) _ _
    · obtain rfl := List.mem_singleton.mp hd
      exact (Function.update_self ..).trans (Curl.perform_eq t _)
  · rw [hway]
    exact h.others
  · rw [hway]
    exact h.nodup

/-- The main thread comes to a handle. Its entry is there, and the object has the output of its
transfer. -/
theorem next {curl : ℕ} {list : List ℕ} (h : s.Pending rest done)
    (hmain : s.main = .walking (curl :: list)) :
    ∃ rest' done', (s.next curl list).Pending rest' done' := by
  have hway : s.onTheWay =
      curl :: (list ++ s.outputList ++ s.carried ++ s.inputList ++ s.adding.toList) := by
    rw [onTheWay, hmain]
    rfl
  have hwayDone : s.onTheWayDone = curl :: (list ++ s.outputList ++ s.carriedDone) := by
    rw [onTheWayDone, hmain]
    rfl
  have hcallback : s.main.callback = [] := by rw [hmain]; rfl
  obtain ⟨⟨c, handler⟩, rest, rfl, rfl, hrest⟩ := List.map_eq_cons_iff.mp (h.rest_eq.trans hway)
  obtain ⟨⟨c', object⟩, done, rfl, rfl, hdone⟩ := List.map_eq_cons_iff.mp (h.done_eq.trans hwayDone)
  have hentry : s.funcMap c' = some handler := h.funcMap _ List.mem_cons_self
  have hobject : s.curls c' = object := h.objects _ List.mem_cons_self
  have hnodup := h.nodup
  rw [hcallback, hway, List.nil_append, List.nodup_cons] at hnodup
  have hadded : s.added = (s.finished ++ [Finished.mk c' handler (s.curls c')]).map
      (fun f => (f.curl, f.handler)) ++ rest := by
    rw [h.added_eq, List.map_append, List.append_assoc]
    rfl
  have htransfers : s.transfers.map (fun t => (t.1, Curl.ofTransfer t.2)) =
      (s.finished ++ [Finished.mk c' handler (s.curls c')]).map (fun f => (f.curl, f.object)) ++
        done := by
    rw [h.transfers_eq, List.map_append, List.append_assoc, hobject]
    rfl
  have hothers : ∀ curl, s.funcMap curl ≠ none →
      curl ∈ c' :: (list ++ s.outputList ++ s.carried ++ s.inputList ++ s.adding.toList) := by
    intro curl hc
    have hmem := h.others curl hc
    rwa [hcallback, hway] at hmem
  refine ⟨rest, done, ?_⟩
  cases handler with
  | some k =>
    simp only [CurlThread.next, hentry]
    exact ⟨hadded, hrest, htransfers, hdone, fun d hd => h.objects d (List.mem_cons_of_mem _ hd),
      fun r hr => h.funcMap r (List.mem_cons_of_mem _ hr),
      fun curl hc => by rw [List.mem_singleton.mp hc, hentry]; nofun, hothers,
      List.nodup_cons.mpr hnodup⟩
  | none =>
    simp only [CurlThread.next, hentry]
    refine ⟨hadded, hrest, htransfers, hdone, fun d hd => h.objects d (List.mem_cons_of_mem _ hd),
      fun r hr => ?_, fun curl hc => absurd hc (by simp [MainThread.callback]), fun curl hc => ?_,
      hnodup.2⟩
    · have hr' : r.1 ∈ rest.map Prod.fst := List.mem_map_of_mem hr
      have hne : r.1 ≠ c' := fun heq => hnodup.1 (hrest ▸ heq ▸ hr')
      exact (Function.update_of_ne hne _ _).trans (h.funcMap r (List.mem_cons_of_mem _ hr))
    · have hne : curl ≠ c' := fun heq => hc (heq ▸ Function.update_self ..)
      have hc' : s.funcMap curl ≠ none := by
        rwa [← Function.update_of_ne hne none s.funcMap]
      exact (List.mem_cons.mp (hothers curl hc')).resolve_left hne

/-- The callback returns, and its entry is erased. -/
theorem callbackReturns {curl : ℕ} {list : List ℕ} (h : s.Pending rest done)
    (hmain : s.main = .calling curl list) :
    Pending { s with main := .walking list, funcMap := Function.update s.funcMap curl none }
      rest done := by
  have hway : s.onTheWay =
      list ++ s.outputList ++ s.carried ++ s.inputList ++ s.adding.toList := by
    rw [onTheWay, hmain]
    rfl
  have hdone : s.onTheWayDone = list ++ s.outputList ++ s.carriedDone := by
    rw [onTheWayDone, hmain]
    rfl
  have hcallback : s.main.callback = [curl] := by rw [hmain]; rfl
  have hnodup := h.nodup
  rw [hcallback, List.singleton_append, List.nodup_cons] at hnodup
  refine ⟨h.added_eq, h.rest_eq.trans hway, h.transfers_eq, h.done_eq.trans hdone, h.objects,
    fun r hr => ?_, fun c hc => absurd hc (by simp [MainThread.callback]), fun c hc => ?_, ?_⟩
  · have hne : r.1 ≠ curl := fun heq => hnodup.1 (heq ▸ h.mem_of_rest hr)
    exact (Function.update_of_ne hne _ _).trans (h.funcMap r hr)
  · have hne : c ≠ curl := fun heq => hc (heq ▸ Function.update_self ..)
    have hc' : s.funcMap c ≠ none := by
      rwa [← Function.update_of_ne hne none s.funcMap]
    have hmem := h.others c hc'
    rw [hcallback, List.singleton_append, List.mem_cons] at hmem
    exact hway ▸ hmem.resolve_left hne
  · exact hway ▸ hnodup.2

end Pending

/-! ### Runs -/

/-- No handle is added again while it has an entry in `_func_map`, which it has until its callback
has returned. -/
def Fresh : CurlThreadEvent κ → CurlThread κ → Prop
  | .addCurl curl _ _, s => s.funcMap curl = none
  | _, _ => True

instance (e : CurlThreadEvent κ) (s : CurlThread κ) [DecidableEq κ] : Decidable (Fresh e s) := by
  unfold Fresh
  split <;> infer_instance

/-- **The order of the handles.** Every step of every thread keeps it. -/
theorem Pending.step {threadCount : ℕ} {e : CurlThreadEvent κ} {rest : List (ℕ × Option κ)}
    {done : List (ℕ × Curl)} (hlocked : s.Locked) (h : s.Pending rest done) (hfresh : Fresh e s)
    (hstep : step threadCount e s = some s') : ∃ rest' done', s'.Pending rest' done' := by
  cases e with
  | addCurl curl handler code =>
    obtain ⟨⟨hadding, -⟩, hs⟩ := Option.ite_none_right_eq_some.mp hstep
    cases hs
    exact ⟨_, _, h.addCurl hadding hfresh⟩
  | pushInput =>
    simp only [CurlThread.step] at hstep
    split at hstep
    · rename_i curl hadding _
      cases hstep
      exact ⟨_, _, h.moves (.pushInput hadding)⟩
    · cases hstep
  | tick =>
    obtain ⟨⟨-, hmain⟩, hs⟩ := Option.ite_none_right_eq_some.mp hstep
    cases hs
    refine ⟨_, _, h.moves (.setMain ?_ ?_)⟩
    · rw [hmain]
      split <;> rfl
    · rw [hmain]
      split <;> rfl
  | notifyOne worker =>
    obtain ⟨⟨hmain, hm⟩, hs⟩ := Option.ite_none_right_eq_some.mp hstep
    cases worker with
    | some i =>
      obtain ⟨-, hs⟩ := Option.ite_none_right_eq_some.mp hs
      cases hs
      have hmoves := Moves.setWorker (s := s) (i := i) (w := .notified) (by rw [hm]; nofun)
      exact ⟨_, _, h.moves (hmoves.trans (.setMain (hmain ▸ rfl) (hmain ▸ rfl)))⟩
    | none =>
      obtain ⟨-, hs⟩ := Option.ite_none_right_eq_some.mp hs
      cases hs
      exact ⟨_, _, h.moves (.setMain (hmain ▸ rfl) (hmain ▸ rfl))⟩
  | takeOutput fails =>
    obtain ⟨hmain, hs⟩ := Option.ite_none_right_eq_some.mp hstep
    split at hs
    · cases hs
      exact ⟨_, _, h.moves (.setMain (hmain ▸ rfl) (hmain ▸ rfl))⟩
    · cases hs
      refine ⟨_, _, h.moves (.setMain (hmain ▸ rfl) ?_)⟩
      rw [hmain]
      exact List.append_nil _
  | next =>
    simp only [CurlThread.step] at hstep
    split at hstep
    · rename_i curl list hmain
      cases hstep
      exact h.next hmain
    · rename_i hmain
      cases hstep
      exact ⟨_, _, h.moves (.setMain (hmain ▸ rfl) (hmain ▸ rfl))⟩
    · cases hstep
  | callbackReturns =>
    simp only [CurlThread.step] at hstep
    split at hstep
    · rename_i curl list hmain _
      cases hstep
      exact ⟨_, _, h.callbackReturns hmain⟩
    · cases hstep
  | start i =>
    obtain ⟨⟨-, hw, -⟩, hs⟩ := Option.ite_none_right_eq_some.mp hstep
    cases hs
    exact ⟨_, _, h.moves (.setWorker (hlocked.input_ne (by rw [hw]; rfl)))⟩
  | wake i =>
    obtain ⟨hw, hs⟩ := Option.ite_none_right_eq_some.mp hstep
    cases hs
    exact ⟨_, _, h.moves (.setWorker (hlocked.input_ne (by rw [hw]; rfl)))⟩
  | popInput i =>
    obtain ⟨⟨hw, hm⟩, hs⟩ := Option.ite_none_right_eq_some.mp hstep
    split at hs
    · cases hs
      exact ⟨_, _, h.moves (.setWorker (hlocked.input_ne (by rw [hw]; rfl)))⟩
    · rename_i curl list hlist
      cases hs
      exact ⟨_, _, h.moves (.popInput hm hlist)⟩
  | perform i t =>
    simp only [CurlThread.step] at hstep
    split at hstep
    · rename_i curl hw
      cases hstep
      exact ⟨_, _, h.perform ((hlocked.input i).mp (by rw [hw]; rfl)) hw⟩
    · cases hstep
  | pushOutput i =>
    simp only [CurlThread.step] at hstep
    split at hstep
    · rename_i curl hw _
      cases hstep
      exact ⟨_, _, h.moves (.pushOutput ((hlocked.input i).mp (by rw [hw]; rfl)) hw)⟩
    · cases hstep
  | wait i =>
    simp only [CurlThread.step] at hstep
    split at hstep
    · rename_i hw
      cases hstep
      exact ⟨_, _, h.moves (.wait ((hlocked.input i).mp (by rw [hw]; rfl)) hw)⟩
    · cases hstep

theorem locked_initial : Locked ({} : CurlThread κ) :=
  ⟨fun _ => iff_of_false nofun nofun, fun _ => iff_of_false nofun nofun⟩

theorem pending_initial : Pending ({} : CurlThread κ) [] [] :=
  ⟨rfl, rfl, rfl, rfl, nofun, nofun, nofun, fun _ h => absurd rfl h, List.nodup_nil⟩

theorem pending_of_run {threadCount : ℕ} {events : List (CurlThreadEvent κ)}
    (hfresh : GuardedSteps (step threadCount) Fresh events {})
    (hrun : runSteps (step threadCount) events {} = some s) :
    s.Locked ∧ ∃ rest done, s.Pending rest done := by
  refine (reachable_of_runSteps hfresh hrun).invariant
    (I := fun s => s.Locked ∧ ∃ rest done, s.Pending rest done)
    ⟨locked_initial, [], [], pending_initial⟩ ?_
  rintro e s s' hf ⟨hl, rest, done, hp⟩ hs
  exact ⟨hl.step hs, hp.step hl hf hs⟩

/-- With no entry left in `_func_map`, nothing is on its way. -/
theorem Pending.rest_eq_nil {rest : List (ℕ × Option κ)} {done : List (ℕ × Curl)}
    (h : s.Pending rest done) (hempty : ∀ curl, s.funcMap curl = none) : rest = [] := by
  cases rest with
  | nil => rfl
  | cons r rest =>
    have hentry := h.funcMap r List.mem_cons_self
    rw [hempty] at hentry
    cases hentry

end CurlThread

/-- **Every callback is called once and in order.** Whatever the threads do and in whichever order,
as long as no handle is added while it has an entry in `_func_map`: the callbacks are called in the
order in which `AddCurl` was called, each for its own handle and no more often than this was added,
with the output and the code of the handle's own transfer and nothing from an earlier one. The
transfers run in this order too, and one at a time. When `_func_map` is empty, everything that was
added has been called back. -/
theorem callbacks_in_order {κ : Type} (threadCount : ℕ) (events : List (CurlThreadEvent κ))
    (s : CurlThread κ)
    (hfresh : GuardedSteps (CurlThread.step threadCount) CurlThread.Fresh events {})
    (hrun : runSteps (CurlThread.step threadCount) events {} = some s) :
    s.finished.map (fun f => (f.curl, f.handler)) <+: s.added ∧
      s.finished.map (fun f => (f.curl, f.object)) <+:
        s.transfers.map (fun t => (t.1, Curl.ofTransfer t.2)) ∧
      s.transfers.map Prod.fst <+: s.added.map Prod.fst ∧
      (∀ i j, (s.workers i).carries ≠ [] → (s.workers j).carries ≠ [] → i = j) ∧
      ((∀ curl, s.funcMap curl = none) →
        s.finished.map (fun f => (f.curl, f.handler)) = s.added) := by
  obtain ⟨hlocked, rest, done, h⟩ := CurlThread.pending_of_run hfresh hrun
  have hcarries : ∀ {w : Worker}, w.carries ≠ [] → w.locksInput := by
    rintro (_ | _) hw <;> first | rfl | exact absurd rfl hw
  refine ⟨⟨rest, h.added_eq.symm⟩, ⟨done, h.transfers_eq.symm⟩, ?_,
    fun i j hi hj => hlocked.eq_of_locksInput (hcarries hi) (hcarries hj), fun hempty => ?_⟩
  · have htransfers := congrArg (List.map Prod.fst) h.transfers_eq
    simp only [List.map_map, List.map_append, Function.comp_def, h.done_eq] at htransfers
    simp only [h.added_eq, List.map_map, List.map_append, Function.comp_def, h.rest_eq]
    refine (show s.transfers.map Prod.fst = _ from htransfers) ▸ ?_
    exact (List.prefix_append_right_inj _).mpr CurlThread.onTheWayDone_prefix
  · rw [h.added_eq, h.rest_eq_nil hempty, List.append_nil]

/-- Two handles and two workers: the first callback runs while the second transfer does. -/
def twoTransfers : List (CurlThreadEvent ℕ) :=
  [.start 0, .start 1, .addCurl 7 (some 1) 0, .pushInput, .addCurl 8 (some 2) 0, .pushInput,
    .tick, .notifyOne (some 0), .popInput 0, .takeOutput false, .perform 0 ⟨[[104], [105]], 0⟩,
    .pushOutput 0, .wait 0, .tick, .notifyOne (some 1), .popInput 1, .takeOutput false, .next,
    .perform 1 ⟨[], 28⟩, .callbackReturns, .next, .pushOutput 1, .wait 1, .tick,
    .takeOutput false, .next, .callbackReturns, .next]

theorem callbacks_in_order_two_transfers :
    ∃ s, runSteps (CurlThread.step 2) twoTransfers {} = some s ∧
      s.finished = [⟨7, some 1, ⟨[104, 105], 0⟩⟩, ⟨8, some 2, ⟨[], 28⟩⟩] ∧
      s.finished.map (fun f => (f.curl, f.handler)) <+: s.added := by
  have hfresh : GuardedSteps (CurlThread.step 2) CurlThread.Fresh twoTransfers {} := by
    decide +kernel
  have hfinished : (runSteps (CurlThread.step 2) twoTransfers {}).map CurlThread.finished =
      some [⟨7, some 1, ⟨[104, 105], 0⟩⟩, ⟨8, some 2, ⟨[], 28⟩⟩] := by decide +kernel
  obtain ⟨s, hrun, hs⟩ := Option.map_eq_some_iff.mp hfinished
  exact ⟨s, hrun, hs, (callbacks_in_order 2 twoTransfers s hfresh hrun).1⟩

/-- A handle is added again before its first transfer. The first callback to be called erases the
entry of both. -/
theorem callback_lost_when_added_twice :
    ¬ ∀ (events : List (CurlThreadEvent ℕ)) (s : CurlThread ℕ),
      runSteps (CurlThread.step 1) events {} = some s → s.onTheWay = [] →
      s.finished.length = s.added.length := by
  intro hall
  have hlost : (runSteps (CurlThread.step 1) [.start 0, .addCurl 7 (some 1) 0, .pushInput,
      .addCurl 7 (some 2) 0, .pushInput, .tick, .notifyOne (some 0), .popInput 0,
      .takeOutput false, .perform 0 ⟨[], 0⟩, .pushOutput 0, .wait 0, .wake 0, .popInput 0,
      .perform 0 ⟨[], 0⟩, .pushOutput 0, .wait 0, .tick, .takeOutput false, .next,
      .callbackReturns, .next, .next] {}).map
        (fun s => (s.onTheWay, s.finished.length, s.added.length)) = some ([], 1, 2) := by
    decide +kernel
  obtain ⟨s, hrun, hs⟩ := Option.map_eq_some_iff.mp hlost
  simp only [Prod.mk.injEq] at hs
  have hlength := hall _ s hrun hs.1
  rw [hs.2.1, hs.2.2] at hlength
  exact absurd hlength (by decide)

end Lsf.Asio
