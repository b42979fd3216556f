import Lsf.Foundations.Reachability
import Lsf.Foundations.SecondaryIndex
import Lsf.Svr.ServerTransfer

/-!
# The config center and its servers

A server asks the config center for its config when it connects, and then keeps the connection. When
the config is loaded again the center closes all its connections, and the servers connect and ask
once more. A server that waits for a response does nothing else meanwhile; everything else comes in
any order: the center accepts, answers and loses connections, and a server may find that a
connection is lost, give up waiting, and begin a new connection while an old one has not come about
yet.

The tables and words of a game and the other fields of a server's config are of any types, and what
`MergeFrom` does with those fields is taken from the outside.

## Main definitions

* `Game`, `Server`, `Deploy` — the records of the config
* `getServerConfig`, `getGameConfig`, `gameConfigMerge` — the source's functions
* `Net`, `Event`, `step` — the center, its servers and their connections
-/

namespace Lsf.ConfSvr

open Proxy (ENServerType)
open ServerNet (ServerAddr)

variable {τ δ σ : Type}

/-! ### Records -/

/-- `conf::Table`. -/
structure ConfTable (τ : Type) where
  serverId : Option UInt32
  rest : τ
  deriving DecidableEq

/-- `server_id()`. -/
def ConfTable.getServerId (table : ConfTable τ) : UInt32 := table.serverId.getD 0

/-- The game config, as far as it is merged. -/
structure Game (τ δ : Type) where
  tables : List (ConfTable τ) := []
  dirtyWords : List δ := []
  deriving DecidableEq

/-- `conf::Server`. -/
structure Server (σ : Type) where
  serverType : Option ENServerType
  serverId : Option UInt32
  rest : σ
  deriving DecidableEq

namespace Server

/-- `server_type()`. -/
def getServerType (config : Server σ) : ENServerType := config.serverType.getD .configCenter

/-- `server_id()`. -/
def getServerId (config : Server σ) : UInt32 := config.serverId.getD 0

/-- The config is for a server of this type with this id. -/
def IsFor (config : Server σ) (addr : ServerAddr) : Prop :=
  config.getServerType = addr.serverType ∧ config.getServerId = addr.serverId

instance (config : Server σ) (addr : ServerAddr) : Decidable (config.IsFor addr) :=
  inferInstanceAs (Decidable (_ ∧ _))

end Server

/-- The deploy config. -/
structure Deploy (σ : Type) where
  defaultConfig : Server σ
  serverConfigs : List (Server σ)
  /-- `MergeFrom`, for the other fields of a config. -/
  merge : σ → σ → σ

namespace Deploy

/-- `MergeFrom`. -/
def mergeFrom (deploy : Deploy σ) (config conf : Server σ) : Server σ where
  serverType := conf.serverType.or config.serverType
  serverId := conf.serverId.or config.serverId
  rest := deploy.merge config.rest conf.rest

/-- `GetServerConfig`, with the result. -/
def getServerConfig (deploy : Deploy σ) (addr : ServerAddr) : Server σ × Bool :=
  match deploy.serverConfigs.find? fun conf => decide (conf.IsFor addr) with
  | some conf => (deploy.mergeFrom deploy.defaultConfig conf, true)
  | none => (deploy.defaultConfig, false)

end Deploy

namespace Game

/-- `GetGameConfig`, which always succeeds. -/
def getGameConfig (game : Game τ δ) (addr : ServerAddr) : Game τ δ :=
  match addr.serverType with
  | .gameServer =>
    { dirtyWords := game.dirtyWords
      tables := game.tables.filter fun item => item.getServerId = addr.serverId }
  | _ => {}

/-- What `GameConfigMerge` does with one field: it takes the new elements, if there are any. -/
def mergeField {α : Type} (old new : List α) : List α := if new.isEmpty then old else new

/-- `GameConfigMerge`, for all fields of the message, which are repeated. -/
def gameConfigMerge (old new : Game τ δ) : Game τ δ where
  tables := mergeField old.tables new.tables
  dirtyWords := mergeField old.dirtyWords new.dirtyWords

end Game

/-! ### Messages and connections -/

/-- The messages that a server sends to the center. -/
inductive Request
  | getServerConfigReq (addr : ServerAddr)
  | getAllServerConfigReq
  | getGameConfigReq (addr : ServerAddr)
  deriving DecidableEq

/-- The messages that the center sends. -/
inductive Response (τ δ σ : Type)
  | getServerConfigRsp (result : Bool) (config : Server σ)
  | getAllServerConfigRsp (configs : List (Server σ))
  | getGameConfigRsp (config : Game τ δ)
  deriving DecidableEq

/-- The socket of a server. -/
inductive SocketState
  | connecting
  | connected
  | closed
  deriving DecidableEq

/-- A connection, with what is on its way in both directions. -/
structure Link (τ δ σ : Type) where
  /-- The server at one end. -/
  server : ℕ
  socket : SocketState := .connecting
  accepted : Bool := false
  /-- The socket of the center is connected. -/
  isOpen : Bool := false
  requests : List Request := []
  responses : List (Response τ δ σ) := []

/-- The call of `SendAndRecv` that a server waits for. Those of `OnConnectionCreate` have its
socket. -/
inductive Waiting
  | initServerConfig (socket : ℕ)
  | initGameConfig (socket : ℕ)
  | getAllServerConfig
  deriving DecidableEq

/-- The socket of the `OnConnectionCreate` that the server is in. -/
def Waiting.socket : Waiting → Option ℕ
  | .initServerConfig socket | .initGameConfig socket => some socket
  | .getAllServerConfig => none

/-- A server with its `ConnectConfigService` and its `ConfigManager`. -/
structure Node (τ δ σ : Type) where
  addr : ServerAddr
  /-- `_conn_scok[0]`. -/
  connScok : Option ℕ := none
  waiting : Option Waiting := none
  serverConfig : Option (Server σ) := none
  gameConfig : Game τ δ := {}

/-- The config center, its servers and all connections that were made. -/
structure Net (τ δ σ : Type) where
  deploy : Deploy σ
  game : Game τ δ
  /-- All configs that the center had, with the one that it has. -/
  games : List (Game τ δ)
  /-- `_sock_map`, with a connection for each descriptor. -/
  sockMap : Table ℕ ℕ := ∅
  links : ℕ → Link τ δ σ
  made : ℕ := 0
  nodes : ℕ → Node τ δ σ

namespace Net

/-- A connection is changed. -/
def setLink (s : Net τ δ σ) (c : ℕ) (f : Link τ δ σ → Link τ δ σ) : Net τ δ σ :=
  { s with links := Function.update s.links c (f (s.links c)) }

/-- A server is changed. -/
def setNode (s : Net τ δ σ) (i : ℕ) (f : Node τ δ σ → Node τ δ σ) : Net τ δ σ :=
  { s with nodes := Function.update s.nodes i (f (s.nodes i)) }

@[simp] theorem setLink_links (s : Net τ δ σ) (c c' : ℕ) (f : Link τ δ σ → Link τ δ σ) :
    (s.setLink c f).links c' = if c' = c then f (s.links c) else s.links c' :=
  Function.update_apply ..

@[simp] theorem setNode_nodes (s : Net τ δ σ) (i i' : ℕ) (f : Node τ δ σ → Node τ δ σ) :
    (s.setNode i f).nodes i' = if i' = i then f (s.nodes i) else s.nodes i' :=
  Function.update_apply ..

/-- The center starts with a config, and nobody is connected. -/
def init (deploy : Deploy σ) (game : Game τ δ) (addrs : ℕ → ServerAddr) : Net τ δ σ where
  deploy
  game
  games := [game]
  links _ := { server := 0 }
  nodes i := { addr := addrs i }

/-! ### The center -/

/-- What the center answers. -/
def respond (s : Net τ δ σ) : Request → Response τ δ σ
  | .getServerConfigReq addr =>
    let (config, result) := s.deploy.getServerConfig addr
    .getServerConfigRsp result config
  | .getAllServerConfigReq => .getAllServerConfigRsp s.deploy.serverConfigs
  | .getGameConfigReq addr => .getGameConfigRsp (s.game.getGameConfig addr)

/-- `ReleaseAllConnections`. -/
def releaseAllConnections (s : Net τ δ σ) : Net τ δ σ :=
  { s with
    sockMap := ∅
    links := fun c =>
      if c ∈ s.sockMap.entries.map fun e => e.2 then { s.links c with isOpen := false }
      else s.links c }

/-- `ReloadGameConfig`, with what was read from the files, if that succeeds. -/
def reloadGameConfig (s : Net τ δ σ) : Option (Game τ δ) → Net τ δ σ
  | none => s
  | some game => releaseAllConnections { s with game, games := game :: s.games }

/-! ### A server -/

/-- `ConnectionClose`, by a server. -/
def connectionClose (s : Net τ δ σ) (c : ℕ) : Net τ δ σ :=
  s.setLink c fun link => { link with socket := .closed }

/-- The server sends a request and waits, if its connection is there. -/
def sendAndWait (s : Net τ δ σ) (i : ℕ) (request : Request) (waiting : Waiting) :
    Option (Net τ δ σ) :=
  (s.nodes i).connScok.bind fun c =>
    if (s.links c).socket = .connected then
      some ((s.setLink c fun link => { link with requests := link.requests ++ [request] }).setNode i
        fun node => { node with waiting := some waiting })
    else none

/-- The server leaves `OnConnectionCreate` and closes the socket. -/
def giveUp (s : Net τ δ σ) (i socket : ℕ) : Net τ δ σ :=
  (s.setNode i fun node => { node with waiting := none }).connectionClose socket

/-- `OnConnectionCreate`, which begins with `InitServerConfig`. -/
def onConnectionCreate (s : Net τ δ σ) (i socket : ℕ) : Net τ δ σ :=
  (s.sendAndWait i (.getServerConfigReq (s.nodes i).addr) (.initServerConfig socket)).getD
    (s.giveUp i socket)

/-- `InitServerConfig` goes on with a response, and `InitGameConfig` begins. -/
def endInitServerConfig (s : Net τ δ σ) (i socket : ℕ) : Response τ δ σ → Net τ δ σ
  | .getServerConfigRsp true config =>
    let s := s.setNode i fun node => { node with serverConfig := some config }
    (s.sendAndWait i (.getGameConfigReq (s.nodes i).addr) (.initGameConfig socket)).getD
      (s.giveUp i socket)
  | _ => s.giveUp i socket

/-- `InitGameConfig` goes on with a response, and `OnConnectionCreate` checks the config. -/
def endInitGameConfig (s : Net τ δ σ) (i socket : ℕ) : Response τ δ σ → Net τ δ σ
  | .getGameConfigRsp config =>
    let s := s.setNode i fun node =>
      { node with gameConfig := node.gameConfig.gameConfigMerge config, waiting := none }
    if (s.nodes i).serverConfig.any fun config => decide (config.IsFor (s.nodes i).addr) then s
    else s.connectionClose socket
  | _ => s.giveUp i socket

/-- The server goes on with a response. -/
def receive (s : Net τ δ σ) (i : ℕ) (response : Response τ δ σ) : Waiting → Net τ δ σ
  | .initServerConfig socket => s.endInitServerConfig i socket response
  | .initGameConfig socket => s.endInitGameConfig i socket response
  | .getAllServerConfig => s.setNode i fun node => { node with waiting := none }

/-- `SendAndRecv` fails. -/
def fail (s : Net τ δ σ) (i : ℕ) : Waiting → Net τ δ σ
  | .initServerConfig socket | .initGameConfig socket => s.giveUp i socket
  | .getAllServerConfig => s.setNode i fun node => { node with waiting := none }

/-- A server makes a new socket and begins to connect. -/
def asyncConnect (s : Net τ δ σ) (i : ℕ) : Net τ δ σ where
  deploy := s.deploy
  game := s.game
  games := s.games
  sockMap := s.sockMap
  links := Function.update s.links s.made { server := i }
  made := s.made + 1
  nodes := Function.update s.nodes i { s.nodes i with connScok := some s.made }

@[simp] theorem asyncConnect_links (s : Net τ δ σ) (i c : ℕ) :
    (s.asyncConnect i).links c = if c = s.made then { server := i } else s.links c :=
  Function.update_apply ..

@[simp] theorem asyncConnect_nodes (s : Net τ δ σ) (i j : ℕ) :
    (s.asyncConnect i).nodes j =
      if j = i then { s.nodes i with connScok := some s.made } else s.nodes j :=
  Function.update_apply ..

/-- `OnConnectionCheck` connects, unless the connection is there. -/
def onConnectionCheck (s : Net τ δ σ) (i : ℕ) : Net τ δ σ :=
  if (s.nodes i).connScok.any fun c => decide ((s.links c).socket = .connected) then s
  else s.asyncConnect i

end Net

/-! ### Events -/

/-- What the servers and the center do. -/
inductive Event (τ δ : Type)
  | connectionCheck (i : ℕ)
  /-- A socket of a server is connected; it may not be possible to read from it. -/
  | socketConnect (c : ℕ) (read : Bool)
  /-- A server that is not in a callback asks for the configs of all servers. -/
  | getAllServerConfig (i : ℕ)
  /-- The center accepts a connection, with a descriptor that is free; it may not be possible to
  read from it. -/
  | socketAccept (c fd : ℕ) (read : Bool)
  /-- The center gets a request; the response may not get into the stream. -/
  | serve (c : ℕ) (sent : Bool)
  | reload (game : Option (Game τ δ))
  /-- The socket of the center is closed. -/
  | loseAtCenter (c : ℕ)
  /-- The socket of the server is closed. -/
  | loseAtServer (c : ℕ)
  | receive (i : ℕ)
  | fail (i : ℕ)
  /-- A response that nobody waits for is read. -/
  | ignore (c : ℕ)

/-- One event. -/
def step : Event τ δ → Net τ δ σ → Option (Net τ δ σ)
  | .connectionCheck i, s =>
    if (s.nodes i).waiting = none then some (s.onConnectionCheck i) else none
  | .socketConnect c read, s =>
    if c < s.made ∧ (s.links c).socket = .connecting ∧
        (s.nodes (s.links c).server).waiting = none then
      if read then
        some ((s.setLink c fun link => { link with socket := .connected }).onConnectionCreate
          (s.links c).server c)
      else some (s.connectionClose c)
    else none
  | .getAllServerConfig i, s =>
    if (s.nodes i).waiting = none then
      some ((s.sendAndWait i .getAllServerConfigReq .getAllServerConfig).getD s)
    else none
  | .socketAccept c fd read, s =>
    if c < s.made ∧ (s.links c).accepted = false ∧ fd ∉ s.sockMap then
      if read then
        some { s.setLink c fun link => { link with accepted := true, isOpen := true } with
          sockMap := s.sockMap.insert fd c }
      else some (s.setLink c fun link => { link with accepted := true })
    else none
  | .serve c sent, s =>
    match (s.links c).isOpen, (s.links c).requests with
    | true, request :: requests =>
      some (s.setLink c fun link =>
        { link with
          requests
          responses := if sent then link.responses ++ [s.respond request] else link.responses })
    | _, _ => none
  | .reload game, s => some (s.reloadGameConfig game)
  | .loseAtCenter c, s => some (s.setLink c fun link => { link with isOpen := false })
  | .loseAtServer c, s => some (s.connectionClose c)
  | .receive i, s =>
    (s.nodes i).waiting.bind fun waiting =>
      (s.nodes i).connScok.bind fun c =>
        match (s.links c).socket, (s.links c).responses with
        | .connected, response :: responses =>
          some ((s.setLink c fun link => { link with responses }).receive i response waiting)
        | _, _ => none
  | .fail i, s => (s.nodes i).waiting.map (s.fail i)
  | .ignore c, s => some (s.setLink c fun link => { link with responses := link.responses.tail })

end Lsf.ConfSvr
