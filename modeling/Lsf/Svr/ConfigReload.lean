import Lsf.Svr.ConfigCenter

/-!
# The config of a connected server

A connection that the center still has open was accepted after the last time that the config was
loaded, since all connections that it had were closed then. So what a server got over it is what the
center has now. A server merges a new config into its own, where a field without elements does not
count: a server that is left without any tables keeps those that it had.

## Main definitions

* `Game.Merged` — a config into which another one was merged
* `Net.Inv` — what is on its way, and what the servers have

## Main results

* `Inv.step` — every event keeps the invariant
* `config_is_current`
-/

namespace Lsf.ConfSvr

open Proxy (ENServerType)
open ServerNet (ServerAddr)

variable {τ δ σ : Type}

/-! ### Merged configs -/

/-- The fields of `new` that have elements are in `config`. -/
structure Game.Merged (new config : Game τ δ) : Prop where
  tables : new.tables ≠ [] → config.tables = new.tables
  dirtyWords : new.dirtyWords ≠ [] → config.dirtyWords = new.dirtyWords

/-- Every field of a config is as a server gets it from one of `games`, or empty. -/
structure Game.FromSome (games : List (Game τ δ)) (addr : ServerAddr) (config : Game τ δ) :
    Prop where
  tables : config.tables = [] ∨ ∃ game ∈ games, config.tables = (game.getGameConfig addr).tables
  dirtyWords : config.dirtyWords = [] ∨
    ∃ game ∈ games, config.dirtyWords = (game.getGameConfig addr).dirtyWords

theorem Game.mergeField_of_ne_nil {α : Type} {old new : List α} (h : new ≠ []) :
    Game.mergeField old new = new :=
  if_neg fun hempty => h (List.isEmpty_iff.mp hempty)

theorem Game.mergeField_cases {α : Type} (old new : List α) :
    Game.mergeField old new = old ∨ Game.mergeField old new = new := by
  rw [Game.mergeField]
  exact ite_eq_or_eq _ _ _

theorem Game.merged_gameConfigMerge (old new : Game τ δ) : new.Merged (old.gameConfigMerge new) :=
  ⟨Game.mergeField_of_ne_nil, Game.mergeField_of_ne_nil⟩

namespace Game.FromSome

variable {games : List (Game τ δ)} {addr : ServerAddr} {config : Game τ δ}

theorem merge {game : Game τ δ} (h : config.FromSome games addr) (hgame : game ∈ games) :
    (config.gameConfigMerge (game.getGameConfig addr)).FromSome games addr := by
  constructor
  · rcases mergeField_cases config.tables (game.getGameConfig addr).tables with heq | heq
    · exact h.tables.imp heq.trans fun ⟨g, hg, hold⟩ => ⟨g, hg, heq.trans hold⟩
    · exact .inr ⟨game, hgame, heq⟩
  · rcases mergeField_cases config.dirtyWords (game.getGameConfig addr).dirtyWords with heq | heq
    · exact h.dirtyWords.imp heq.trans fun ⟨g, hg, hold⟩ => ⟨g, hg, heq.trans hold⟩
    · exact .inr ⟨game, hgame, heq⟩

theorem mono {games' : List (Game τ δ)} (h : config.FromSome games addr)
    (hsub : games ⊆ games') : config.FromSome games' addr :=
  ⟨h.tables.imp_right fun ⟨g, hg, heq⟩ => ⟨g, hsub hg, heq⟩,
    h.dirtyWords.imp_right fun ⟨g, hg, heq⟩ => ⟨g, hsub hg, heq⟩⟩

end Game.FromSome

/-! ### The invariant -/

/-- A request of a server with this address. -/
def Request.IsFrom (addr : ServerAddr) : Request → Prop
  | .getServerConfigReq addr' | .getGameConfigReq addr' => addr' = addr
  | .getAllServerConfigReq => True

/-- The server is in `OnConnectionCreate` for a socket. -/
def Node.InCreation (node : Node τ δ σ) (c : ℕ) : Prop :=
  node.waiting.bind Waiting.socket = some c

namespace Net

variable (addrs : ℕ → ServerAddr)

/-- A response that is on its way, where the center may have closed the connection since. -/
def Answers (s : Net τ δ σ) (addr : ServerAddr) (isOpen : Bool) : Response τ δ σ → Prop
  | .getServerConfigRsp result config => s.deploy.getServerConfig addr = (config, result)
  | .getAllServerConfigRsp _ => True
  | .getGameConfigRsp config => (∃ game ∈ s.games, config = game.getGameConfig addr) ∧
    (isOpen = true → config = s.game.getGameConfig addr)

theorem Answers.of_closed {s : Net τ δ σ} {addr : ServerAddr} {isOpen : Bool}
    {response : Response τ δ σ} (h : s.Answers addr isOpen response) :
    s.Answers addr false response := by
  cases response with
  | getServerConfigRsp result config => exact h
  | getAllServerConfigRsp configs => trivial
  | getGameConfigRsp config => exact ⟨h.1, fun hopen => nomatch hopen⟩

/-- What holds of a connection. -/
structure LinkFine (s : Net τ δ σ) (c : ℕ) (link : Link τ δ σ) : Prop where
  fresh : s.made ≤ c → link.accepted = false ∧ link.requests = []
  unaccepted : link.accepted = false → link.isOpen = false ∧ link.responses = []
  /-- The center knows all connections that it has open. -/
  known : link.isOpen = true → ∃ fd, s.sockMap.lookup fd = some c
  requests : ∀ request ∈ link.requests, request.IsFrom (addrs link.server)
  responses : ∀ response ∈ link.responses, s.Answers (addrs link.server) link.isOpen response

/-- A server got its config over a connection. -/
structure Configured (s : Net τ δ σ) (node : Node τ δ σ) (c : ℕ) : Prop where
  accepted : (s.links c).accepted = true
  isFor : ∃ config, node.serverConfig = some config ∧ config.IsFor node.addr
  merged : (s.links c).isOpen = true → (s.game.getGameConfig node.addr).Merged node.gameConfig

/-- What holds of a server, whose connection `except` was not dealt with yet. -/
structure NodeFine (s : Net τ δ σ) (except : Option ℕ) (i : ℕ) (node : Node τ δ σ) : Prop where
  addr : node.addr = addrs i
  slot : ∀ c, node.connScok = some c → c < s.made ∧ (s.links c).server = i
  serverConfig : ∀ config, node.serverConfig = some config →
    s.deploy.getServerConfig node.addr = (config, true)
  gameConfig : node.gameConfig.FromSome s.games node.addr
  configured : ∀ c, node.connScok = some c → (s.links c).socket = .connected → except ≠ some c →
    ¬ node.InCreation c → s.Configured node c

/-- What holds in every state, but for the server that is at work. -/
structure Inv (except : Option ℕ) (s : Net τ δ σ) : Prop where
  game : s.game ∈ s.games
  links : ∀ c, s.LinkFine addrs c (s.links c)
  nodes : ∀ i, s.NodeFine addrs except i (s.nodes i)

namespace Inv

variable {addrs} {except except' : Option ℕ} {s s' : Net τ δ σ}

/-- A connection that is not made anew, or only where no server has its config over it. -/
theorem setLink {c : ℕ} {f : Link τ δ σ → Link τ δ σ} (hs : s.Inv addrs except)
    (hfine : s.LinkFine addrs c (f (s.links c)))
    (hserver : (f (s.links c)).server = (s.links c).server)
    (hsocket : except ≠ some c → (f (s.links c)).socket = .connected →
      (s.links c).socket = .connected)
    (haccepted : (s.links c).accepted = true → (f (s.links c)).accepted = true)
    (hopen : (f (s.links c)).isOpen = true → (s.links c).accepted = true →
      (s.links c).isOpen = true) : (s.setLink c f).Inv addrs except where
  game := hs.game
  links c' := by
    rw [setLink_links]
    split_ifs with hc
    · subst hc
      exact { hfine with }
    · exact { hs.links c' with }
  nodes i := by
    have hnode := hs.nodes i
    refine { hnode with slot := fun c' hslot => ?_, configured := fun c' hslot => ?_ }
    · rw [setLink_links]
      split_ifs with hc
      · rw [hserver, ← hc]
        exact hnode.slot c' hslot
      · exact hnode.slot c' hslot
    · intro hconnected hexcept hcreation
      rw [setLink_links] at hconnected
      by_cases hc : c' = c
      · subst hc
        rw [if_pos rfl] at hconnected
        have hold := hnode.configured c' hslot (hsocket hexcept hconnected) hexcept hcreation
        refine ⟨?_, hold.isFor, ?_⟩ <;> rw [setLink_links, if_pos rfl]
        · exact haccepted hold.accepted
        · exact fun hnew => hold.merged (hopen hnew hold.accepted)
      · rw [if_neg hc] at hconnected
        have hold := hnode.configured c' hslot hconnected hexcept hcreation
        refine ⟨?_, hold.isFor, ?_⟩ <;> rw [setLink_links, if_neg hc]
        · exact hold.accepted
        · exact hold.merged

/-- A change of one server. -/
theorem setNode {i : ℕ} {f : Node τ δ σ → Node τ δ σ} (hs : s.Inv addrs except)
    (hfine : s.NodeFine addrs except' i (f (s.nodes i)))
    (hexcept : ∀ c, except = some c → except' = some c ∨ (s.links c).server = i) :
    (s.setNode i f).Inv addrs except' where
  game := hs.game
  links c := { hs.links c with }
  nodes j := by
    rw [setNode_nodes]
    split_ifs with hj
    · subst hj
      exact { hfine with configured := fun c hslot hconnected hc hcreation =>
        { hfine.configured c hslot hconnected hc hcreation with } }
    · have hnode := hs.nodes j
      refine { hnode with configured := fun c hslot hconnected hc hcreation => ?_ }
      have hold : except ≠ some c := by
        intro heq
        rcases hexcept c heq with hstill | hserver
        · exact hc hstill
        · exact hj ((hnode.slot c hslot).2.symm.trans hserver)
      exact { hnode.configured c hslot hconnected hold hcreation with }

/-- A connection that the server closes needs no exception. -/
theorem connectionClose {c : ℕ} (hs : s.Inv addrs except)
    (hexcept : ∀ c', except = some c' → c' = c) : (s.connectionClose c).Inv addrs none := by
  have hclosed : (s.connectionClose c).Inv addrs except := by
    refine hs.setLink { hs.links c with } rfl ?_ id fun hnew _ => hnew
    intro _ hnew
    cases hnew
  refine { hclosed with nodes := fun i => { hclosed.nodes i with configured := ?_ } }
  intro c' hslot hconnected _ hcreation
  refine (hclosed.nodes i).configured c' hslot hconnected ?_ hcreation
  intro heq
  obtain rfl := hexcept c' heq
  rw [Net.connectionClose, setLink_links, if_pos rfl] at hconnected
  cases hconnected

/-- A server that sends a request waits for a response. -/
theorem sendAndWait {i : ℕ} {request : Request} {waiting : Waiting} (hs : s.Inv addrs except)
    (hrequest : request.IsFrom (addrs i))
    (hserver : ∀ c, except = some c → except' = some c ∨ (s.links c).server = i)
    (hcreation : ∀ c, except = some c ∨ (s.nodes i).InCreation c →
      except' = some c ∨ waiting.socket = some c)
    (hsend : s.sendAndWait i request waiting = some s') : s'.Inv addrs except' := by
  obtain ⟨c, hslot, hsome⟩ := Option.bind_eq_some_iff.mp hsend
  obtain ⟨-, hsome⟩ := Option.ite_none_right_eq_some.mp hsome
  obtain rfl := Option.some.inj hsome
  have hlink := hs.links c
  obtain ⟨hmade, hi⟩ := (hs.nodes i).slot c hslot
  have hpush : (s.setLink c fun link => { link with requests := link.requests ++ [request] }).Inv
      addrs except := by
    refine hs.setLink { hlink with fresh := ?_, requests := ?_ } rfl (fun _ => id) id
      fun hnew _ => hnew
    · exact fun hfresh => absurd hmade (Nat.not_lt.mpr hfresh)
    · intro r hr
      rcases List.mem_append.mp hr with hr | hr
      · exact hlink.requests r hr
      · rw [List.mem_singleton.mp hr]
        show request.IsFrom (addrs (s.links c).server)
        rwa [hi]
  have hnode := hpush.nodes i
  refine hpush.setNode { hnode with configured := ?_ } ?_
  · intro c' hslot' hconnected hexcept' hnot
    refine { hnode.configured c' hslot' hconnected ?_ ?_ with }
    · exact fun heq => (hcreation c' (.inl heq)).elim hexcept' hnot
    · exact fun hold => (hcreation c' (.inr hold)).elim hexcept' hnot
  · intro c' heq
    rw [setLink_links]
    split_ifs with hc
    · exact hc ▸ hserver c' heq
    · exact hserver c' heq

/-- A server that leaves `OnConnectionCreate` closes the socket. -/
theorem giveUp {i socket : ℕ} (hs : s.Inv addrs except)
    (hexcept : ∀ c, except = some c → c = socket ∧ (s.links c).server = i)
    (hcreation : ∀ c, (s.nodes i).InCreation c → c = socket) :
    (s.giveUp i socket).Inv addrs none := by
  have hnode := hs.nodes i
  have hidle : (s.setNode i fun node => { node with waiting := none }).Inv addrs (some socket) := by
    refine hs.setNode { hnode with configured := ?_ } fun c hc => .inr (hexcept c hc).2
    intro c hslot hconnected hnot _
    refine { hnode.configured c hslot hconnected ?_ ?_ with }
    · exact fun heq => hnot (congrArg some (hexcept c heq).1.symm)
    · exact fun hold => hnot (congrArg some (hcreation c hold).symm)
  exact hidle.connectionClose fun c hc => (Option.some.inj hc).symm

/-- `OnConnectionCreate`, for a socket that was just connected. -/
theorem onConnectionCreate {i socket : ℕ} (hs : s.Inv addrs (some socket))
    (hserver : (s.links socket).server = i) (hidle : (s.nodes i).waiting = none) :
    (s.onConnectionCreate i socket).Inv addrs none := by
  have hcreation : ∀ c, ¬ (s.nodes i).InCreation c := by
    intro c hc
    rw [Node.InCreation, hidle] at hc
    cases hc
  have hexcept : ∀ c, some socket = some c → c = socket ∧ (s.links c).server = i := by
    intro c hc
    obtain rfl := Option.some.inj hc
    exact ⟨rfl, hserver⟩
  rw [Net.onConnectionCreate]
  cases hsend : s.sendAndWait i (.getServerConfigReq (s.nodes i).addr)
      (.initServerConfig socket) with
  | none => exact hs.giveUp hexcept fun c hc => absurd hc (hcreation c)
  | some s' =>
    have hrequest : (Request.getServerConfigReq (s.nodes i).addr).IsFrom (addrs i) :=
      (hs.nodes i).addr
    refine hs.sendAndWait hrequest (fun c hc => .inr (hexcept c hc).2) ?_ hsend
    rintro c (hc | hc)
    · exact .inr hc
    · exact absurd hc (hcreation c)

variable {i socket : ℕ} {response : Response τ δ σ}

/-- The server was in `OnConnectionCreate` for one socket. -/
theorem giveUp_of_waiting {waiting : Waiting} (hs : s.Inv addrs none)
    (hwaiting : (s.nodes i).waiting = some waiting) (hsocket : waiting.socket = some socket) :
    (s.giveUp i socket).Inv addrs none := by
  refine hs.giveUp (fun c hc => by cases hc) fun c hc => ?_
  rw [Node.InCreation, hwaiting] at hc
  exact Option.some.inj (hc.symm.trans hsocket)

theorem endInitServerConfig (hs : s.Inv addrs none)
    (hwaiting : (s.nodes i).waiting = some (.initServerConfig socket)) {isOpen : Bool}
    (hresponse : s.Answers (addrs i) isOpen response) :
    (s.endInitServerConfig i socket response).Inv addrs none := by
  have hgiveUp : (s.giveUp i socket).Inv addrs none := hs.giveUp_of_waiting hwaiting rfl
  cases response with
  | getAllServerConfigRsp configs => exact hgiveUp
  | getGameConfigRsp config => exact hgiveUp
  | getServerConfigRsp result config =>
    cases result with
    | false => exact hgiveUp
    | true =>
      have hnode := hs.nodes i
      have hset : (s.setNode i fun node => { node with serverConfig := some config }).Inv addrs
          none := by
        refine hs.setNode { hnode with serverConfig := ?_, configured := ?_ } fun c hc => .inl hc
        · rintro _ ⟨rfl⟩
          rw [hnode.addr]
          exact hresponse
        · intro c hslot hconnected hexcept hnot
          have hold := hnode.configured c hslot hconnected hexcept hnot
          obtain ⟨config', hconfig', hfor⟩ := hold.isFor
          refine { hold with isFor := ⟨config, rfl, ?_⟩ }
          -- the config that the server has is the same
          have hsame := (hnode.serverConfig config' hconfig').symm.trans (hnode.addr ▸ hresponse)
          cases hsame
          exact hfor
      rw [Net.endInitServerConfig]
      generalize hs' : (s.setNode i fun node => { node with serverConfig := some config }) = s'
        at hset
      have hwaiting' : (s'.nodes i).waiting = some (.initServerConfig socket) := by
        rw [← hs', setNode_nodes, if_pos rfl]
        exact hwaiting
      cases hsend : s'.sendAndWait i (.getGameConfigReq (s'.nodes i).addr)
          (.initGameConfig socket) with
      | none => exact hset.giveUp_of_waiting hwaiting' rfl
      | some s'' =>
        have hrequest : (Request.getGameConfigReq (s'.nodes i).addr).IsFrom (addrs i) :=
          (hset.nodes i).addr
        refine hset.sendAndWait hrequest (fun c hc => .inl hc) ?_ hsend
        rintro c (hc | hc)
        · exact .inl hc
        · rw [Node.InCreation, hwaiting'] at hc
          exact .inr hc

theorem endInitGameConfig (hs : s.Inv addrs none)
    (hwaiting : (s.nodes i).waiting = some (.initGameConfig socket)) {c : ℕ}
    (hslot : (s.nodes i).connScok = some c) (haccepted : (s.links c).accepted = true)
    (hresponse : s.Answers (addrs i) (s.links c).isOpen response) :
    (s.endInitGameConfig i socket response).Inv addrs none := by
  have hgiveUp : (s.giveUp i socket).Inv addrs none := hs.giveUp_of_waiting hwaiting rfl
  cases response with
  | getAllServerConfigRsp configs => exact hgiveUp
  | getServerConfigRsp result config => exact hgiveUp
  | getGameConfigRsp config =>
    obtain ⟨⟨game, hgame, rfl⟩, hcurrent⟩ := hresponse
    have hnode := hs.nodes i
    have haddr := hnode.addr
    have hmerged : (s.links c).isOpen = true → (s.game.getGameConfig (s.nodes i).addr).Merged
        ((s.nodes i).gameConfig.gameConfigMerge (game.getGameConfig (addrs i))) := by
      intro hopen
      rw [haddr, ← hcurrent hopen]
      exact Game.merged_gameConfigMerge ..
    have hhistory : ((s.nodes i).gameConfig.gameConfigMerge
        (game.getGameConfig (addrs i))).FromSome s.games (s.nodes i).addr := by
      rw [haddr]
      exact (haddr ▸ hnode.gameConfig).merge hgame
    simp only [Net.endInitGameConfig, setNode_nodes, if_true]
    split_ifs with hcheck
    · refine hs.setNode { hnode with gameConfig := hhistory, configured := ?_ } fun _ hc => .inl hc
      intro c' hslot' _ _ _
      obtain rfl := Option.some.inj (hslot.symm.trans hslot')
      refine ⟨haccepted, ?_, hmerged⟩
      cases hconfig : (s.nodes i).serverConfig with
      | none =>
        rw [hconfig] at hcheck
        cases hcheck
      | some config =>
        rw [hconfig, Option.any_some, decide_eq_true_eq] at hcheck
        exact ⟨config, rfl, hcheck⟩
    · have hset : (s.setNode i fun node =>
          { node with
            gameConfig := node.gameConfig.gameConfigMerge (game.getGameConfig (addrs i))
            waiting := none }).Inv addrs (some socket) := by
        refine hs.setNode { hnode with gameConfig := hhistory, configured := ?_ }
          fun _ hc => by cases hc
        intro c' hslot' hconnected hexcept _
        obtain rfl := Option.some.inj (hslot.symm.trans hslot')
        have hold := hnode.configured c hslot hconnected (by simp) ?_
        · exact { hold with merged := hmerged }
        · rw [Node.InCreation, hwaiting]
          exact hexcept
      exact hset.connectionClose fun c' hc => (Option.some.inj hc).symm

/-- A server that waited for nothing in `OnConnectionCreate` waits no more. -/
theorem stopWaiting (hs : s.Inv addrs none)
    (hwaiting : (s.nodes i).waiting = some .getAllServerConfig) :
    (s.setNode i fun node => { node with waiting := none }).Inv addrs none := by
  have hnode := hs.nodes i
  refine hs.setNode { hnode with configured := ?_ } fun _ hc => .inl hc
  intro c hslot hconnected hexcept _
  refine { hnode.configured c hslot hconnected hexcept ?_ with }
  rw [Node.InCreation, hwaiting]
  exact fun hc => by cases hc

theorem receive {waiting : Waiting} (hs : s.Inv addrs none)
    (hwaiting : (s.nodes i).waiting = some waiting) {c : ℕ}
    (hslot : (s.nodes i).connScok = some c) (haccepted : (s.links c).accepted = true)
    (hresponse : s.Answers (addrs i) (s.links c).isOpen response) :
    (s.receive i response waiting).Inv addrs none := by
  cases waiting with
  | initServerConfig socket => exact hs.endInitServerConfig hwaiting hresponse
  | initGameConfig socket => exact hs.endInitGameConfig hwaiting hslot haccepted hresponse
  | getAllServerConfig => exact hs.stopWaiting hwaiting

theorem fail {waiting : Waiting} (hs : s.Inv addrs none)
    (hwaiting : (s.nodes i).waiting = some waiting) : (s.fail i waiting).Inv addrs none := by
  cases waiting with
  | initServerConfig socket => exact hs.giveUp_of_waiting hwaiting rfl
  | initGameConfig socket => exact hs.giveUp_of_waiting hwaiting rfl
  | getAllServerConfig => exact hs.stopWaiting hwaiting

theorem asyncConnect (hs : s.Inv addrs none) : (s.asyncConnect i).Inv addrs none := by
  refine ⟨hs.game, fun c => ?_, fun j => ?_⟩
  · have hlink := hs.links c
    rw [asyncConnect_links]
    split_ifs with hc
    · exact {
        fresh := fun _ => ⟨rfl, rfl⟩
        unaccepted := fun _ => ⟨rfl, rfl⟩
        known := fun h => nomatch h
        requests := fun _ h => nomatch h
        responses := fun _ h => nomatch h }
    · exact { hlink with fresh := fun hc => hlink.fresh (Nat.le_of_succ_le hc) }
  · have hnode := hs.nodes j
    rw [asyncConnect_nodes]
    split_ifs with hj
    · subst hj
      refine { hnode with slot := ?_, configured := ?_ }
      · rintro c ⟨rfl⟩
        refine ⟨Nat.lt_succ_self _, ?_⟩
        rw [asyncConnect_links, if_pos rfl]
      · rintro c ⟨rfl⟩ hconnected
        -- the new socket is not connected yet
        rw [asyncConnect_links, if_pos rfl] at hconnected
        cases hconnected
    · have hsame : ∀ c, (s.nodes j).connScok = some c →
          (s.asyncConnect i).links c = s.links c := by
        intro c hslot
        rw [asyncConnect_links, if_neg (Nat.ne_of_lt (hnode.slot c hslot).1)]
      refine { hnode with slot := fun c hslot => ?_, configured := fun c hslot hconnected => ?_ }
      · rw [hsame c hslot]
        exact ⟨(hnode.slot c hslot).1.trans (Nat.lt_succ_self _), (hnode.slot c hslot).2⟩
      · intro hexcept hnot
        rw [hsame c hslot] at hconnected
        have hold := hnode.configured c hslot hconnected hexcept hnot
        refine ⟨?_, hold.isFor, ?_⟩ <;> rw [hsame c hslot]
        · exact hold.accepted
        · exact hold.merged

/-- The center answers a request. -/
theorem answers_respond (hs : s.Inv addrs except) {addr : ServerAddr} {request : Request}
    (hrequest : request.IsFrom addr) (isOpen : Bool) :
    s.Answers addr isOpen (s.respond request) := by
  cases request with
  | getServerConfigReq addr' =>
    obtain rfl : addr' = addr := hrequest
    exact rfl
  | getAllServerConfigReq => trivial
  | getGameConfigReq addr' =>
    obtain rfl : addr' = addr := hrequest
    exact ⟨⟨s.game, hs.game, rfl⟩, fun _ => rfl⟩

/-- No connection of the center is open after `ReleaseAllConnections`. -/
theorem isOpen_releaseAllConnections (hs : s.Inv addrs except) (c : ℕ) :
    (s.releaseAllConnections.links c).isOpen = false := by
  show (ite _ _ _ : Link τ δ σ).isOpen = false
  split_ifs with hmem
  · rfl
  · by_contra hopen
    obtain ⟨fd, hfd⟩ := (hs.links c).known (Bool.not_eq_false _ ▸ hopen)
    exact hmem (List.mem_map.mpr ⟨⟨fd, c⟩, AList.mem_lookup_iff.mp hfd, rfl⟩)

/-- `ReleaseAllConnections` changes nothing else. -/
theorem releaseAllConnections_links (c : ℕ) : ∃ isOpen, s.releaseAllConnections.links c =
    { s.links c with isOpen } := by
  show ∃ isOpen, (ite _ _ _ : Link τ δ σ) = _
  split_ifs
  · exact ⟨_, rfl⟩
  · exact ⟨(s.links c).isOpen, rfl⟩

theorem reloadGameConfig (hs : s.Inv addrs none) (game : Option (Game τ δ)) :
    (s.reloadGameConfig game).Inv addrs none := by
  cases game with
  | none => exact hs
  | some game =>
    have hsub : s.games ⊆ game :: s.games := List.subset_cons_self _ _
    have hclosed : ∀ c, (s.reloadGameConfig (some game)).links c =
        { s.links c with isOpen := false } := by
      intro c
      obtain ⟨isOpen, heq⟩ := releaseAllConnections_links (s := s) c
      have hopen := hs.isOpen_releaseAllConnections c
      rw [heq] at hopen
      exact heq.trans (congrArg (fun isOpen => ({ s.links c with isOpen } : Link τ δ σ)) hopen)
    refine ⟨List.mem_cons_self, fun c => ?_, fun i => ?_⟩
    · have hlink := hs.links c
      rw [hclosed]
      refine { hlink with unaccepted := fun h => ⟨rfl, (hlink.unaccepted h).2⟩, known := ?_,
                          responses := ?_ }
      · exact fun h => nomatch h
      · intro response hresponse
        have hold := hlink.responses response hresponse
        cases response with
        | getServerConfigRsp result config => exact hold
        | getAllServerConfigRsp configs => exact hold
        | getGameConfigRsp config =>
          obtain ⟨g, hg, heq⟩ := hold.1
          exact ⟨⟨g, hsub hg, heq⟩, fun h => nomatch h⟩
    · have hnode := hs.nodes i
      refine { hnode with slot := fun c hslot => ?_, gameConfig := hnode.gameConfig.mono hsub,
                          configured := fun c hslot hconnected hexcept hnot => ?_ }
      · rw [hclosed]
        exact hnode.slot c hslot
      · rw [hclosed] at hconnected
        have hold := hnode.configured c hslot hconnected hexcept hnot
        refine ⟨?_, hold.isFor, fun hopen => ?_⟩
        · rw [hclosed]
          exact hold.accepted
        · rw [hclosed] at hopen
          cases hopen

theorem socketConnect {c : ℕ} (hs : s.Inv addrs none)
    (hidle : (s.nodes (s.links c).server).waiting = none) :
    ((s.setLink c fun link => { link with socket := .connected }).onConnectionCreate
      (s.links c).server c).Inv addrs none := by
  have hset : (s.setLink c fun link => { link with socket := .connected }).Inv addrs
      (some c) := by
    have hsome : s.Inv addrs (some c) :=
      { hs with nodes := fun i => { hs.nodes i with
          configured := fun c' hslot hconnected _ => (hs.nodes i).configured c' hslot hconnected
            (by simp) } }
    exact hsome.setLink { hs.links c with } rfl (fun h => absurd rfl h) id fun hnew _ => hnew
  refine hset.onConnectionCreate ?_ hidle
  rw [setLink_links, if_pos rfl]

theorem socketAccept {c fd : ℕ} (hs : s.Inv addrs none) (hmade : c < s.made)
    (hnew : (s.links c).accepted = false) (hfd : fd ∉ s.sockMap) :
    Net.Inv addrs none { s.setLink c fun link => { link with accepted := true, isOpen := true } with
      sockMap := s.sockMap.insert fd c } := by
  have hknown : ∀ {c' fd'}, s.sockMap.lookup fd' = some c' →
      (s.sockMap.insert fd c).lookup fd' = some c' := by
    intro c' fd' hfd'
    rw [Table.lookup_insert, if_neg, hfd']
    rintro rfl
    exact hfd (AList.lookup_isSome.mp (hfd' ▸ rfl))
  -- the center knows the connection first
  have hmap : Net.Inv addrs none { s with sockMap := s.sockMap.insert fd c } :=
    { game := hs.game
      links := fun c' => { hs.links c' with
        known := fun hopen => ((hs.links c').known hopen).imp fun _ => hknown }
      nodes := fun i => { hs.nodes i with
        configured := fun c' hslot hconnected hexcept hnot =>
          { (hs.nodes i).configured c' hslot hconnected hexcept hnot with } } }
  have hlink := hs.links c
  obtain ⟨-, hresponses⟩ := hlink.unaccepted hnew
  refine hmap.setLink (f := fun link => { link with accepted := true, isOpen := true }) ?_ rfl
    (fun _ => id) (fun _ => rfl) fun _ haccepted => ?_
  · refine { hlink with
      fresh := fun hfresh => absurd hmade (Nat.not_lt.mpr hfresh)
      unaccepted := fun h => nomatch h
      known := fun _ => ⟨fd, AList.lookup_insert _⟩
      responses := fun response hresponse => ?_ }
    replace hresponse : response ∈ (s.links c).responses := hresponse
    rw [hresponses] at hresponse
    cases hresponse
  · cases haccepted.symm.trans hnew

theorem serve {c : ℕ} {sent : Bool} {request : Request} {requests : List Request}
    (hs : s.Inv addrs none) (hopen : (s.links c).isOpen = true)
    (hrequests : (s.links c).requests = request :: requests) :
    (s.setLink c fun link =>
      { link with
        requests
        responses := if sent then link.responses ++ [s.respond request]
          else link.responses }).Inv addrs none := by
  have hlink := hs.links c
  have hfrom := hlink.requests
  rw [hrequests] at hfrom
  refine hs.setLink { hlink with
    fresh := fun h => ?_
    unaccepted := fun h => ?_
    requests := fun r hr => hfrom r (List.mem_cons_of_mem _ hr)
    responses := fun r hr => ?_ } rfl (fun _ => id) id fun hnew _ => hnew
  · cases hrequests.symm.trans (hlink.fresh h).2
  · cases hopen.symm.trans (hlink.unaccepted h).1
  · replace hr : r ∈ if sent then (s.links c).responses ++ [s.respond request]
      else (s.links c).responses := hr
    split_ifs at hr
    · rcases List.mem_append.mp hr with hr | hr
      · exact hlink.responses r hr
      · rw [List.mem_singleton.mp hr]
        exact hs.answers_respond (hfrom request List.mem_cons_self) _
    · exact hlink.responses r hr

/-- Some responses are taken from a connection. -/
theorem takeResponses {c : ℕ} {responses : List (Response τ δ σ)} (hs : s.Inv addrs none)
    (hsub : responses ⊆ (s.links c).responses) :
    (s.setLink c fun link => { link with responses }).Inv addrs none := by
  have hlink := hs.links c
  refine hs.setLink { hlink with
    unaccepted := fun h => ⟨(hlink.unaccepted h).1, ?_⟩
    responses := fun r hr => hlink.responses r (hsub hr) } rfl (fun _ => id) id fun hnew _ => hnew
  exact List.eq_nil_iff_forall_not_mem.mpr fun r hr =>
    List.not_mem_nil ((hlink.unaccepted h).2 ▸ hsub hr)

/-- **Every event keeps the invariant.** -/
theorem step {event : Event τ δ} (hs : s.Inv addrs none) (hstep : step event s = some s') :
    s'.Inv addrs none := by
  cases event with
  | connectionCheck i =>
    obtain ⟨-, hsome⟩ := Option.ite_none_right_eq_some.mp hstep
    cases hsome
    rw [Net.onConnectionCheck]
    split_ifs
    · exact hs
    · exact hs.asyncConnect
  | socketConnect c read =>
    obtain ⟨⟨-, -, hidle⟩, hsome⟩ := Option.ite_none_right_eq_some.mp hstep
    split_ifs at hsome
    · cases hsome
      exact hs.socketConnect hidle
    · cases hsome
      exact hs.connectionClose fun _ hc => by cases hc
  | getAllServerConfig i =>
    obtain ⟨hidle, hsome⟩ := Option.ite_none_right_eq_some.mp hstep
    cases hsome
    cases hsend : s.sendAndWait i .getAllServerConfigReq .getAllServerConfig with
    | none => exact hs
    | some s' =>
      have hrequest : Request.getAllServerConfigReq.IsFrom (addrs i) := trivial
      refine hs.sendAndWait hrequest (fun c hc => .inl hc) ?_ hsend
      rintro c (hc | hc)
      · exact .inl hc
      · rw [Node.InCreation, hidle] at hc
        cases hc
  | socketAccept c fd read =>
    obtain ⟨⟨hmade, hnew, hfd⟩, hsome⟩ := Option.ite_none_right_eq_some.mp hstep
    split_ifs at hsome
    · cases hsome
      exact hs.socketAccept hmade hnew hfd
    · cases hsome
      have hlink := hs.links c
      refine hs.setLink { hlink with
        fresh := fun hfresh => absurd hmade (Nat.not_lt.mpr hfresh)
        unaccepted := fun h => nomatch h } rfl (fun _ => id) (fun _ => rfl) fun hnew _ => hnew
  | serve c sent =>
    rw [ConfSvr.step] at hstep
    split at hstep
    · cases hstep
      exact hs.serve ‹_› ‹_›
    · cases hstep
  | reload game =>
    cases hstep
    exact hs.reloadGameConfig game
  | loseAtCenter c =>
    cases hstep
    have hlink := hs.links c
    refine hs.setLink { hlink with
      unaccepted := fun h => ⟨rfl, (hlink.unaccepted h).2⟩
      known := fun h => nomatch h
      responses := fun r hr => (hlink.responses r hr).of_closed } rfl (fun _ => id) id
      fun h => nomatch h
  | loseAtServer c =>
    cases hstep
    exact hs.connectionClose fun _ hc => by cases hc
  | receive i =>
    obtain ⟨waiting, hwaiting, hrest⟩ := Option.bind_eq_some_iff.mp hstep
    obtain ⟨c, hslot, hmatch⟩ := Option.bind_eq_some_iff.mp hrest
    split at hmatch
    · rename_i response responses hconnected hresponses
      cases hmatch
      have hlink := hs.links c
      have haccepted : (s.links c).accepted = true := by
        by_contra hnot
        have hnil := (hlink.unaccepted (Bool.not_eq_true _ ▸ hnot)).2
        cases hresponses.symm.trans hnil
      have hanswer := hlink.responses response (hresponses ▸ List.mem_cons_self)
      rw [((hs.nodes i).slot c hslot).2] at hanswer
      have htaken := hs.takeResponses (hresponses ▸ List.subset_cons_self response responses)
      refine htaken.receive hwaiting hslot ?_ ?_ <;> rw [setLink_links, if_pos rfl]
      · exact haccepted
      · exact hanswer
    · cases hmatch
  | fail i =>
    obtain ⟨waiting, hwaiting, rfl⟩ := Option.map_eq_some_iff.mp hstep
    exact hs.fail hwaiting
  | ignore c =>
    cases hstep
    exact hs.takeResponses fun _ => List.mem_of_mem_tail

theorem init (deploy : Deploy σ) (game : Game τ δ) :
    (Net.init deploy game addrs).Inv addrs none where
  game := List.mem_cons_self
  links _ :=
    { fresh := fun _ => ⟨rfl, rfl⟩
      unaccepted := fun _ => ⟨rfl, rfl⟩
      known := fun h => nomatch h
      requests := fun _ h => nomatch h
      responses := fun _ h => nomatch h }
  nodes _ :=
    { addr := rfl
      slot := fun _ h => nomatch h
      serverConfig := fun _ h => nomatch h
      gameConfig := ⟨.inl rfl, .inl rfl⟩
      configured := fun _ h => nomatch h }

end Inv

/-! ### Connected servers -/

/-- The server is connected, and not about to ask for its config over the connection. -/
structure Settled (s : Net τ δ σ) (i c : ℕ) : Prop where
  slot : (s.nodes i).connScok = some c
  connected : (s.links c).socket = .connected
  notInCreation : ¬ (s.nodes i).InCreation c

/-- The server has the config that the center has for it. -/
structure HasConfig (s : Net τ δ σ) (i c : ℕ) : Prop where
  serverConfig : ∃ config, (s.nodes i).serverConfig = some config ∧
    s.deploy.getServerConfig (s.nodes i).addr = (config, true) ∧ config.IsFor (s.nodes i).addr
  gameConfig : (s.links c).isOpen = true →
    (s.game.getGameConfig (s.nodes i).addr).Merged (s.nodes i).gameConfig

end Net

/-- **The config of a connected server is that of the center.** In any order of reloads, connection
attempts, requests, responses and losses, a connected server that is through with
`OnConnectionCreate` has the server config that the center has for it. While the center has not
closed the connection, every field of the game config that the center has elements of for it is the
same with both, and every field is always empty or as it was for the server at some time. -/
theorem config_is_current {deploy : Deploy σ} {game : Game τ δ} {addrs : ℕ → ServerAddr}
    {events : List (Event τ δ)} {s : Net τ δ σ}
    (hrun : runSteps step events (Net.init deploy game addrs) = some s) (i : ℕ) :
    (s.nodes i).addr = addrs i ∧ (∀ c, s.Settled i c → s.HasConfig i c) ∧
      (s.nodes i).gameConfig.FromSome s.games (addrs i) := by
  have hs : s.Inv addrs none := (reachable_of_runSteps (guardedSteps_true events _) hrun).invariant
    (Net.Inv.init deploy game) fun _ _ _ _ hs hstep => hs.step hstep
  have hnode := hs.nodes i
  refine ⟨hnode.addr, fun c hc => ?_, hnode.addr ▸ hnode.gameConfig⟩
  have hconfigured := hnode.configured c hc.slot hc.connected (by simp) hc.notInCreation
  obtain ⟨config, hconfig, hfor⟩ := hconfigured.isFor
  exact ⟨⟨config, hconfig, hnode.serverConfig config hconfig, hfor⟩, hconfigured.merged⟩

/-- A deploy config of two servers. -/
def sampleDeploy : Deploy Unit where
  defaultConfig := ⟨none, none, ()⟩
  serverConfigs := [⟨some .dataServer, some 1, ()⟩, ⟨some .gameServer, some 1, ()⟩]
  merge _ _ := ()

/-- A server connects and is configured over connection `c`, with descriptor 5 at the center. -/
def sampleConnect (c : ℕ) : List (Event ℕ String) :=
  [.connectionCheck 0, .socketConnect c true, .socketAccept c 5 true, .serve c true, .receive 0,
    .serve c true, .receive 0]

/-- A game server connects twice, with a reload between, which leaves it without tables. -/
theorem config_is_current_after_reload :
    ∃ s : Net ℕ String Unit, runSteps step
        (sampleConnect 0 ++ [.reload (some ⟨[⟨some 2, 30⟩], ["b"]⟩), .loseAtServer 0] ++
          sampleConnect 1)
        (Net.init sampleDeploy ⟨[⟨some 1, 10⟩, ⟨some 2, 20⟩], ["a"]⟩ fun _ => ⟨.gameServer, 1⟩) =
          some s ∧
      (s.nodes 0).gameConfig = ⟨[⟨some 1, 10⟩], ["b"]⟩ ∧ s.Settled 0 1 ∧ s.HasConfig 0 1 := by
  have hfinal : (runSteps step
        (sampleConnect 0 ++ [.reload (some ⟨[⟨some 2, 30⟩], ["b"]⟩), .loseAtServer 0] ++
          sampleConnect 1)
        (Net.init sampleDeploy ⟨[⟨some 1, 10⟩, ⟨some 2, 20⟩], ["a"]⟩
          fun _ => ⟨.gameServer, 1⟩)).map (fun s => ((s.nodes 0).gameConfig,
            (s.nodes 0).connScok, (s.links 1).socket, (s.nodes 0).waiting)) =
      some (⟨[⟨some 1, 10⟩], ["b"]⟩, some 1, .connected, none) := by decide +kernel
  obtain ⟨s, hrun, hfinal⟩ := Option.map_eq_some_iff.mp hfinal
  obtain ⟨hgame, hslot, hconnected, hwaiting⟩ : _ ∧ _ ∧ _ ∧ _ := by simpa using hfinal
  have hsettled : s.Settled 0 1 := by
    refine ⟨hslot, hconnected, ?_⟩
    rw [Node.InCreation, hwaiting]
    exact fun h => nomatch h
  exact ⟨s, hrun, hgame, hsettled, (config_is_current hrun 0).2.1 1 hsettled⟩

end Lsf.ConfSvr
