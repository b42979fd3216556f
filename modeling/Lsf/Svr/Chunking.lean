import Lsf.Foundations.Refinement
import Lsf.Svr.ReadPath

/-!
# A stream in chunks

A connection that stays connected receives its stream in the chunks of its read events, with events
of other connections between them. What its handler is given and what is kept for it do not depend
on the chunks.

## Main definitions

* `ReadEvent` — a call of `OnReadEvent`
* `Service.delivered`, `Service.kept` — what a connection sees of the process

## Main results

* `delivered_and_kept_do_not_depend_on_chunks`
-/

namespace Lsf.Svr

variable {β : Type}

/-- A call of `OnReadEvent` with what the world does in it. -/
structure ReadEvent (β : Type) where
  fd : ℕ
  recvs : List (Recv β)
  ending : Ending
  /-- Whether the handler of the `i`-th message closes the connection. -/
  closes : ℕ → Bool

/-- The service handles a read event. -/
def ReadEvent.perform (val : β → UInt8) (e : ReadEvent β) : Prog β (Option (List β)) :=
  onReadEvent val e.closes e.fd e.recvs e.ending

/-- The connection stays open. -/
def ReadEvent.Quiet (e : ReadEvent β) : Prop :=
  e.ending = .wouldBlock ∧ ∀ i, e.closes i = false

/-- The chunks that a descriptor receives. -/
def chunksOf (fd : ℕ) (events : List (ReadEvent β)) : List (List β) :=
  (events.filter fun e => e.fd = fd).map fun e => received e.recvs

namespace Service

/-- The contents that `OnConnectionMessage` was given for a descriptor. -/
def delivered (s : Service β) (fd : ℕ) : List (List β) :=
  (s.messages.filter fun m => m.1 = fd).map Prod.snd

/-- The bytes that `ReadDataBuffer` has for a descriptor. -/
def kept (s : Service β) (fd : ℕ) : List β := (s.dataMap fd).getD []

/-- What a descriptor sees is the same in both states. -/
structure SameFor (fd : ℕ) (s s' : Service β) : Prop where
  kept : s'.kept fd = s.kept fd
  isConnect : s'.isConnect fd = s.isConnect fd
  readFunc : s'.readFunc fd = s.readFunc fd
  delivered : s'.delivered fd = s.delivered fd

variable {s s' s'' : Service β} {fd other : ℕ} {closes : ℕ → Bool}

theorem SameFor.trans (h : SameFor fd s s') (h' : SameFor fd s' s'') : SameFor fd s s'' :=
  ⟨h'.kept.trans h.kept, h'.isConnect.trans h.isConnect, h'.readFunc.trans h.readFunc,
    h'.delivered.trans h.delivered⟩

/-! ### Other descriptors -/

theorem sameFor_withData (hne : fd ≠ other) {data : Option (List β)} :
    SameFor fd s (s.withData other data) where
  kept := by rw [Service.kept, withData_dataMap_of_ne hne, Service.kept]
  isConnect := rfl
  readFunc := rfl
  delivered := rfl

theorem sameFor_closed (hne : fd ≠ other) : SameFor fd s (s.closed other) where
  kept := by rw [Service.kept, closed_dataMap_of_ne hne, Service.kept]
  isConnect := closed_isConnect_of_ne hne
  readFunc := Function.update_of_ne hne _ _
  delivered := rfl

theorem sameFor_passed (hne : fd ≠ other) {b : Bool} {message : List β} :
    SameFor fd s (s.passed other b message) := by
  have hsent : SameFor fd s { s with messages := s.messages ++ [(other, message)] } := by
    refine ⟨rfl, rfl, rfl, ?_⟩
    rw [Service.delivered, List.filter_append, List.filter_cons_of_neg (by simpa using hne.symm),
      List.filter_nil, List.append_nil, Service.delivered]
  rw [passed]
  split_ifs
  · exact hsent.trans (sameFor_closed hne)
  · exact hsent
  · exact ⟨rfl, rfl, rfl, rfl⟩

theorem sameFor_passedAll (hne : fd ≠ other) {i : ℕ} {messages : List (List β)} :
    SameFor fd s (passedAll other closes i messages s) := by
  induction messages generalizing s i with
  | nil => exact ⟨rfl, rfl, rfl, rfl⟩
  | cons message messages ih => exact (sameFor_passed hne).trans ih

theorem sameFor_saved (hne : fd ≠ other) {rest : List β} : SameFor fd s (s.saved other rest) := by
  rw [saved]
  split_ifs
  · exact ⟨rfl, rfl, rfl, rfl⟩
  · exact sameFor_withData hne

/-- A read event leaves what another descriptor sees as it is. -/
theorem sameFor_afterRead (hne : fd ≠ other) {val : β → UInt8} {buffer : List β}
    {ending : Ending} : SameFor fd s (s.afterRead val closes other buffer ending) := by
  have hwith : SameFor fd s (s.withData other none) := sameFor_withData hne
  have hpassed : SameFor fd (s.withData other none) (passedAll other closes 0
      ((frames val).parse buffer).1 (s.withData other none)) := sameFor_passedAll hne
  have hread := hwith.trans (hpassed.trans
    (@sameFor_saved _ _ _ _ hne ((frames val).parse buffer).2))
  rw [afterRead]
  split_ifs
  · exact hread
  · exact hread.trans (sameFor_closed hne)

/-! ### The descriptor of the event -/

/-- All messages of an open connection go to a handler that does not close it. -/
theorem passedAll_of_quiet (hconn : s.isConnect fd = true) (hc : ∀ i, closes i = false) {i : ℕ}
    {messages : List (List β)} : passedAll fd closes i messages s =
      { s with messages := s.messages ++ messages.map (fd, ·) } := by
  induction messages generalizing s i with
  | nil => rw [passedAll, List.map_nil, List.append_nil]
  | cons message messages ih =>
    rw [passedAll, passed, if_pos hconn, hc, if_neg Bool.false_ne_true, ih (by exact hconn),
      List.append_assoc, List.map_cons, List.singleton_append]

theorem kept_saved {rest : List β} : (s.saved fd rest).kept fd = s.kept fd ++ rest := by
  rw [saved]
  split_ifs with hrest
  · rw [hrest, List.append_nil]
  · rw [kept, withData_dataMap_self, Option.getD_some, kept]

theorem kept_passedAll (hnone : s.kept fd = []) {i : ℕ} {messages : List (List β)} :
    (passedAll fd closes i messages s).kept fd = [] := by
  induction messages generalizing s i with
  | nil => exact hnone
  | cons message messages ih =>
    refine ih ?_
    rw [passed]
    split_ifs
    · rw [kept, closed_dataMap_self, Option.getD_none]
    · exact hnone
    · exact hnone

/-- What a read event that finds no end of the stream keeps, whatever its handlers do. -/
theorem kept_afterRead {val : β → UInt8} {buffer : List β} :
    (s.afterRead val closes fd buffer .wouldBlock).kept fd = ((frames val).parse buffer).2 := by
  have hnone : (s.withData fd none).kept fd = [] := by
    rw [kept, withData_dataMap_self, Option.getD_none]
  rw [afterRead, if_pos rfl, kept_saved, kept_passedAll hnone, List.nil_append]

theorem saved_delivered {rest : List β} : (s.saved fd rest).delivered fd = s.delivered fd := by
  rw [saved]
  split_ifs <;> rfl

theorem saved_isConnect {rest : List β} : (s.saved fd rest).isConnect = s.isConnect := by
  rw [saved]
  split_ifs <;> rfl

/-- **A read event of a connection that stays open** hands on what is parsed and keeps the rest. -/
theorem afterRead_of_quiet {val : β → UInt8} {buffer : List β} (hconn : s.isConnect fd = true)
    (hc : ∀ i, closes i = false) :
    (s.afterRead val closes fd buffer .wouldBlock).kept fd = ((frames val).parse buffer).2 ∧
    (s.afterRead val closes fd buffer .wouldBlock).delivered fd =
      s.delivered fd ++ ((frames val).parse buffer).1 ∧
    (s.afterRead val closes fd buffer .wouldBlock).isConnect fd = true := by
  have hpass := @passedAll_of_quiet _ (s.withData fd none) fd _ hconn hc 0
    ((frames val).parse buffer).1
  refine ⟨kept_afterRead, ?_⟩
  rw [afterRead, if_pos rfl, hpass, saved_delivered, saved_isConnect]
  refine ⟨?_, hconn⟩
  have hown : (((frames val).parse buffer).1.map (fd, ·)).filter (fun m => m.1 = fd) =
      ((frames val).parse buffer).1.map (fd, ·) := List.filter_eq_self.mpr (by simp)
  rw [delivered, List.filter_append, hown, List.map_append, List.map_map, delivered]
  exact congrArg _ (List.map_id _)

end Service

/-! ### Runs -/

section Runs

variable {s : Service β} {fd : ℕ} {val : β → UInt8} {events : List (ReadEvent β)}

theorem ensures_perform {e : ReadEvent β} : Ensures (e.perform val) s fun _ s' =>
    s' = s.afterRead val e.closes e.fd (s.bufferOf e.fd e.recvs) e.ending :=
  ensures_onReadEvent.mpr rfl

/-- **A run feeds the chunks of a connection to `frames`** while the connection stays open. -/
theorem runAll_feed (hconn : s.isConnect fd = true)
    (hquiet : ∀ e ∈ events, e.fd = fd → e.Quiet) :
    Ensures (runAll (ReadEvent.perform val) events) s fun _ s' =>
      s'.delivered fd = s.delivered fd ++ ((frames val).feed (s.kept fd) (chunksOf fd events)).1 ∧
        s'.kept fd = ((frames val).feed (s.kept fd) (chunksOf fd events)).2 := by
  induction events generalizing s with
  | nil =>
    rw [runAll, ensures_pure]
    exact ⟨(List.append_nil _).symm, rfl⟩
  | cons e events ih =>
    have hquiet' : ∀ e ∈ events, e.fd = fd → e.Quiet := fun e he =>
      hquiet e (List.mem_cons_of_mem _ he)
    rw [runAll]
    refine ensures_perform.bind ?_
    rintro _ _ rfl
    simp only [ensures_bind, ensures_pure]
    by_cases hfd : e.fd = fd
    · obtain ⟨hending, hc⟩ := hquiet e List.mem_cons_self hfd
      subst hfd
      obtain ⟨hkept, hdel, hconn'⟩ := @Service.afterRead_of_quiet _ s _ _ val
        (s.bufferOf e.fd e.recvs) hconn hc
      rw [hending]
      refine (ih hconn' hquiet').mono ?_
      rintro _ s' ⟨hd, hk⟩
      rw [hkept, hdel] at hd
      rw [hkept] at hk
      have hchunks : chunksOf e.fd (e :: events) = received e.recvs :: chunksOf e.fd events := by
        rw [chunksOf, List.filter_cons_of_pos (by simp), List.map_cons, chunksOf]
      rw [hchunks, Splitter.feed, ← List.append_assoc]
      exact ⟨hd, hk⟩
    · have hsame : Service.SameFor fd s (s.afterRead val e.closes e.fd (s.bufferOf e.fd e.recvs)
          e.ending) := Service.sameFor_afterRead (Ne.symm hfd)
      refine (ih (hsame.isConnect.trans hconn) hquiet').mono ?_
      rintro _ s' ⟨hd, hk⟩
      rw [hsame.delivered, hsame.kept] at hd
      rw [hsame.kept] at hk
      have hchunks : chunksOf fd (e :: events) = chunksOf fd events := by
        rw [chunksOf, List.filter_cons_of_neg (by simpa using hfd), chunksOf]
      rw [hchunks]
      exact ⟨hd, hk⟩

end Runs

/-- **What a connection sees does not depend on how its stream is cut.** In every run in which it
stays connected and its handler does not close it, with any events of other connections between its
own, the contents that its handler is given and the bytes that are kept for it are those of one read
event with the whole stream. Contents that were put into the stream are given once each and in
order, and nothing is kept. -/
theorem delivered_and_kept_do_not_depend_on_chunks {s : Service UInt8} {fd : ℕ}
    {events : List (ReadEvent UInt8)} {recvs : List (Recv UInt8)} (hconn : s.isConnect fd = true)
    (hkept : (frames id).split (s.kept fd) = none)
    (hquiet : ∀ e ∈ events, e.fd = fd → e.Quiet)
    (hrecvs : received recvs = (chunksOf fd events).flatten) :
    Ensures (runAll (ReadEvent.perform id) events) s fun _ s₁ =>
      Ensures (onReadEvent id (fun _ => false) fd recvs .wouldBlock) s (fun _ s₂ =>
        s₁.delivered fd = s₂.delivered fd ∧ s₁.kept fd = s₂.kept fd) ∧
      ∀ contents : List (List UInt8),
        (∀ content ∈ contents, content ≠ [] ∧ content.length < 2 ^ 32 - 6) → s.kept fd = [] →
        received recvs = (contents.map putSingleMessageIntoStream).flatten →
          s₁.delivered fd = s.delivered fd ++ contents ∧ s₁.kept fd = [] := by
  refine ((@runAll_feed _ _ _ id) hconn hquiet).mono ?_
  rintro _ s₁ ⟨hdel, hk⟩
  rw [Splitter.feed_eq_parse hkept, ← hrecvs] at hdel hk
  refine ⟨?_, ?_⟩
  · obtain ⟨hkept', hdel', -⟩ := @Service.afterRead_of_quiet _ s _ (fun _ => false) id
      (s.bufferOf fd recvs) hconn fun _ => rfl
    exact ensures_onReadEvent.mpr ⟨hdel.trans hdel'.symm, hk.trans hkept'.symm⟩
  · intro contents hcontents hnone hput
    rw [hnone, List.nil_append, hput, parse_put hcontents] at hdel hk
    exact ⟨hdel, hk⟩

/-- A message that arrives in two chunks, the first of which ends inside the header. Another
connection is closed between them. -/
def messageInTwoChunks : List (ReadEvent UInt8) :=
  [⟨5, [.data [0xf8, 0x8f, 0]], .wouldBlock, fun _ => false⟩,
    ⟨6, [.data [0xf8]], .peerClose, fun _ => true⟩,
    ⟨5, [.interrupted, .data [0, 0, 8], .data [1, 2]], .wouldBlock, fun _ => false⟩]

theorem delivered_of_messageInTwoChunks :
    Ensures (runAll (ReadEvent.perform id) messageInTwoChunks)
      { Service.initial with isConnect := fun _ => true } fun _ s =>
        s.delivered 5 = [[1, 2]] ∧ s.kept 5 = [] := by
  have hquiet : ∀ e ∈ messageInTwoChunks, e.fd = 5 → e.Quiet := by
    simp [messageInTwoChunks, ReadEvent.Quiet]
  refine (@delivered_and_kept_do_not_depend_on_chunks _ 5 _
    [.data [0xf8, 0x8f, 0, 0, 0, 8, 1, 2]] rfl rfl hquiet rfl).mono ?_
  rintro _ s ⟨-, hput⟩
  exact hput [[1, 2]] (by simp) rfl rfl

end Lsf.Svr
