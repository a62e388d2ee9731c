import Mathlib.Data.Finset.Insert
import SwarmHost.Backend.Basic
import SwarmHost.Graphs.Multigraph
import SwarmHost.Runs.Basic

/-! # The overseer

The overseer owns the interfaces, the graph that links them and the map from
pairs of interfaces to the edge that was added for them. A method that hits an
`expect` or a panic of the graph library has no result; a command sent to a
filter is appended to the queue of its handle.
-/

namespace SwarmHost

variable {T : NetworkBackend}

structure InterfaceInfo (T : NetworkBackend) where
  handle : T.InterfaceHandle
  discovered : Finset T.PeerId
  peers : Dict T.PeerId (Finset T.Protocol)
  /-- The commands sent to the filter, in order. -/
  filter : List (FilterCommand T)
  index : ℕ
  peer : T.PeerId

namespace InterfaceInfo

def new (index : ℕ) (peer : T.PeerId) (handle : T.InterfaceHandle) : InterfaceInfo T where
  handle := handle
  discovered := ∅
  peers := ∅
  filter := []
  index := index
  peer := peer

def send (info : InterfaceInfo T) (command : FilterCommand T) : InterfaceInfo T :=
  { info with filter := info.filter ++ [command] }

end InterfaceInfo

structure Overseer (T : NetworkBackend) where
  backend : T.State
  interfaces : Dict T.InterfaceId (InterfaceInfo T)
  interfacePeerIds : Dict T.PeerId T.InterfaceId
  /-- The interfaces whose event streams are polled. -/
  eventStreams : List T.InterfaceId
  links : Multigraph T.InterfaceId
  edges : Dict (T.InterfaceId × T.InterfaceId) ℕ
  /-- The events sent to the heuristics backend, in order. -/
  heuristics : List (HeuristicsEvent T)
  parameters : T.NetworkParameters

namespace Overseer

def new (parameters : T.NetworkParameters) : Overseer T where
  backend := T.new parameters
  interfaces := ∅
  interfacePeerIds := ∅
  eventStreams := []
  links := ∅
  edges := ∅
  heuristics := []
  parameters := parameters

def preinitParameters (E : Executor T) (s : Overseer T) :
    Option String → Except Error (Option T.InterfaceParameters)
  | none => .ok none
  | some code => (E.initializeInterface code s.parameters).map some

def createInterface (E : Executor T) (s : Overseer T) (address : T.Address) (filter : String)
    (preinit : Option String) : Except Error T.InterfaceId × Overseer T :=
  match s.preinitParameters E preinit with
  | .error error => (.error error, s)
  | .ok parameters =>
    match T.spawnInterface s.backend address parameters with
    | (.error error, backend) => (.error error, { s with backend := backend })
    | (.ok handle, backend) =>
      let interfaceId := T.interfaceId handle
      if interfaceId ∈ s.interfaces then
        (.error .interfaceAlreadyExists, { s with backend := backend })
      else
        let (links, nodeIndex) := s.links.addNode interfaceId
        match E.new interfaceId filter none with
        -- the node stays in the graph
        | .error error => (.error error, { s with backend := backend, links := links })
        | .ok () =>
          (.ok interfaceId,
            { s with
              backend := backend
              links := links
              eventStreams := s.eventStreams ++ [interfaceId]
              interfacePeerIds := s.interfacePeerIds.insert (T.peerId handle) interfaceId
              interfaces := s.interfaces.insert interfaceId
                (.new nodeIndex (T.peerId handle) handle) })

def linkInterfaces (s : Overseer T) (first second : T.InterfaceId) :
    Option (Except Error Unit × Overseer T) :=
  match s.interfaces.get? first, s.interfaces.get? second with
  | some firstInfo, some secondInfo =>
    (s.links.addEdge firstInfo.index secondInfo.index).map fun (links, edge) =>
      (.ok (),
        { s with
          links := links
          edges := s.edges.insert (first, second) edge
          heuristics := s.heuristics ++ [.linkInterfaces first second] })
  | _, _ => some (.error .interfaceDoesntExist, s)

def unlinkInterfaces (s : Overseer T) (first second : T.InterfaceId) :
    Except Error Unit × Overseer T :=
  match s.edges.get? (first, second) with
  | none => (.error .linkDoesntExist, s)
  | some edge =>
    let s' := { s with
      edges := s.edges.erase (first, second)
      -- the heuristics backend is told of a link here as well
      heuristics := s.heuristics ++ [.linkInterfaces first second] }
    match s.links.removeEdge edge with
    | none => (.error .linkDoesntExist, s')
    | some links => (.ok (), { s' with links := links })

def send (s : Overseer T) (interface : T.InterfaceId) (command : FilterCommand T) : Overseer T :=
  { s with interfaces := s.interfaces.modify interface (·.send command) }

def sendChecked (s : Overseer T) (interface : T.InterfaceId) (command : FilterCommand T) :
    Except Error Unit × Overseer T :=
  if interface ∈ s.interfaces then (.ok (), s.send interface command)
  else (.error .interfaceDoesntExist, s)

def registerPeer (s : Overseer T) (interface : T.InterfaceId) (peer : T.PeerId)
    (protocols : List T.Protocol) (sink : T.PacketSink) : Except Error Unit × Overseer T :=
  -- connections between interfaces are not relayed
  if peer ∈ s.interfacePeerIds then (.ok (), s)
  else
    match s.interfaces.get? interface with
    | none => (.error .interfaceDoesntExist, s)
    | some info =>
      (.ok (),
        { s with
          interfaces := s.interfaces.insert interface
            ({ info with peers := info.peers.insert peer protocols.toFinset }.send
              (.registerPeer peer sink))
          heuristics := s.heuristics ++ [.registerPeer interface peer] })

def unregisterPeer (s : Overseer T) (interface : T.InterfaceId) (peer : T.PeerId) :
    Except Error Unit × Overseer T :=
  if peer ∈ s.interfacePeerIds then (.ok (), s)
  else
    match s.interfaces.get? interface with
    | none => (.error .interfaceDoesntExist, s)
    | some info =>
      if peer ∈ info.peers then
        (.ok (),
          { s with
            interfaces := s.interfaces.insert interface
              ({ info with peers := info.peers.erase peer }.send (.unregisterPeer peer))
            heuristics := s.heuristics ++ [.unregisterPeer interface peer] })
      else (.error .peerDoesntExist, s)

def installNotificationFilter (s : Overseer T) (interface : T.InterfaceId)
    (protocol : T.Protocol) (filterCode context : String) : Except Error Unit × Overseer T :=
  s.sendChecked interface (.installNotificationFilter protocol filterCode (some context))

def installRequestResponseFilter (s : Overseer T) (interface : T.InterfaceId)
    (protocol : T.Protocol) (filterCode context : String) : Except Error Unit × Overseer T :=
  s.sendChecked interface (.installRequestResponseFilter protocol filterCode (some context))

def linkedInterfaces (s : Overseer T) (index : ℕ) : Option (List T.InterfaceId) :=
  (s.links.dfs index).bind (·.mapM s.links.nodeWeight)

/-- Send one command to the filters of a list of interfaces, all of which have to exist. -/
def sendAll (s : Overseer T) (command : FilterCommand T) :
    List T.InterfaceId → Option (Overseer T)
  | [] => some s
  | interface :: rest =>
    if interface ∈ s.interfaces then sendAll (s.send interface command) command rest else none

def injectNotification (s : Overseer T) (interface : T.InterfaceId) (peer : T.PeerId)
    (protocol : T.Protocol) (notification : T.Message) :
    Option (Except Error Unit × Overseer T) :=
  match s.interfaces.get? interface with
  | none => some (.error .interfaceDoesntExist, s)
  | some info => do
    let linked ← s.linkedInterfaces info.index
    let s ← s.sendAll (.injectNotification protocol peer notification) linked
    return (.ok (), s)

def injectRequest (s : Overseer T) (interface : T.InterfaceId) (peer : T.PeerId)
    (protocol : T.Protocol) (request : T.Request) : Except Error Unit × Overseer T :=
  s.sendChecked interface (.injectRequest protocol peer request)

def injectResponse (s : Overseer T) (interface : T.InterfaceId) (peer : T.PeerId)
    (protocol : T.Protocol) (response : T.Response) : Except Error Unit × Overseer T :=
  s.sendChecked interface (.injectResponse protocol peer response)

def upgradeProtocols (s : Overseer T) (interface : T.InterfaceId)
    (command : T.Protocol → FilterCommand T) (event : T.Protocol → HeuristicsEvent T)
    (protocols : List T.Protocol) : Overseer T :=
  protocols.foldl (fun s protocol =>
    { s.send interface (command protocol) with
      heuristics := s.heuristics ++ [event protocol] }) s

def applyConnectionUpgrade (s : Overseer T) (interface : T.InterfaceId) (peer : T.PeerId)
    (upgrade : ConnectionUpgrade T) : Option (Except Error Unit × Overseer T) :=
  if interface ∈ s.interfaces then
    match upgrade with
    | .protocolOpened protocols =>
      some (.ok (), s.upgradeProtocols interface (.protocolOpened peer)
        (.openProtocol interface peer) protocols)
    | .protocolClosed protocols =>
      some (.ok (), s.upgradeProtocols interface (.protocolClosed peer)
        (.closeProtocol interface peer) protocols)
  else none

def discoverPeer (s : Overseer T) (peer : T.PeerId) : Except Error Unit × Overseer T :=
  if peer ∈ s.interfacePeerIds then (.ok (), s)
  else
    (.ok (),
      { s with
        interfaces := s.interfaces.map fun _ info =>
          if peer ∈ info.discovered then info
          else { info with discovered := insert peer info.discovered }.send (.discoverPeer peer) })

def connectToPeer (s : Overseer T) (interface : T.InterfaceId) (peer : T.PeerId) :
    Except Error Unit × Overseer T :=
  match s.interfaces.get? interface with
  | none => (.error .interfaceDoesntExist, s)
  | some info =>
    let (result, handle) := T.connect info.handle peer
    (result, { s with interfaces := s.interfaces.insert interface { info with handle := handle } })

end Overseer

/-- The calls the event loop of the overseer makes. -/
inductive Call (T : NetworkBackend) where
  | createInterface (address : T.Address) (filter : String) (preinit : Option String)
  | linkInterfaces (first second : T.InterfaceId)
  | unlinkInterfaces (first second : T.InterfaceId)
  | installNotificationFilter (interface : T.InterfaceId) (protocol : T.Protocol)
      (filterCode context : String)
  | installRequestResponseFilter (interface : T.InterfaceId) (protocol : T.Protocol)
      (filterCode context : String)
  | interfaceEvent (event : InterfaceEvent T)
  | connectToPeer (interface : T.InterfaceId) (peer : T.PeerId)

namespace Overseer

def onInterfaceEvent (s : Overseer T) :
    InterfaceEvent T → Option (Except Error Unit × Overseer T)
  | .peerConnected interface peer protocols sink =>
    some (s.registerPeer interface peer protocols sink)
  | .peerDisconnected interface peer => some (s.unregisterPeer interface peer)
  | .messageReceived interface peer protocol message =>
    s.injectNotification interface peer protocol message
  | .requestReceived interface peer protocol request =>
    some (s.injectRequest interface peer protocol request)
  | .responseReceived interface peer protocol _ response =>
    some (s.injectResponse interface peer protocol response)
  | .connectionUpgraded interface peer upgrade =>
    s.applyConnectionUpgrade interface peer upgrade
  | .peerDiscovered peer => some (s.discoverPeer peer)

/-- Handle one call; `none` if the overseer panics. -/
def handle (E : Executor T) (s : Overseer T) : Call T → Option (Except Error Unit × Overseer T)
  | .createInterface address filter preinit =>
    let (result, s) := s.createInterface E address filter preinit
    some (result.map fun _ => (), s)
  | .linkInterfaces first second => s.linkInterfaces first second
  | .unlinkInterfaces first second => some (s.unlinkInterfaces first second)
  | .installNotificationFilter interface protocol filterCode context =>
    some (s.installNotificationFilter interface protocol filterCode context)
  | .installRequestResponseFilter interface protocol filterCode context =>
    some (s.installRequestResponseFilter interface protocol filterCode context)
  | .interfaceEvent event => s.onInterfaceEvent event
  | .connectToPeer interface peer => some (s.connectToPeer interface peer)

/-- The overseer handles a call and is ready for the next one. -/
def Step (E : Executor T) (s : Overseer T) (call : Call T) (s' : Overseer T) : Prop :=
  (s.handle E call).map Prod.snd = some s'

/-- The overseer after a method that always returns. -/
theorem snd_eq_of_some {α β : Type*} {x : α × β} {a : α} {b : β} (h : some x = some (a, b)) :
    x.2 = b :=
  congrArg Prod.snd (Option.some.inj h)

end Overseer

end SwarmHost
