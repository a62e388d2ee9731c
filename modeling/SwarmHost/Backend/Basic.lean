import SwarmHost.Collections.Dict

/-! # Network backends and the messages around a filter

A backend fixes the types of peers, interfaces, protocols and payloads and says
how an interface is spawned. The overseer talks to the filters in commands, the
executor answers a filter in events, and both report to the heuristics backend.
-/

namespace SwarmHost

abbrev Bytes := List UInt8

inductive ExecutorError where
  | runtimeError (message : String)
  | executorDoesntExist
  | filterDoesntExist
  deriving DecidableEq

inductive Error where
  | invalidAddress (address : String)
  | addressInUse
  | io (message : String)
  | serdeCbor (message : String)
  | interfaceAlreadyExists
  | peerAlreadyExists
  | interfaceDoesntExist
  | peerDoesntExist
  | linkDoesntExist
  | filterAlreadyExists
  | filterDoesntExist
  | requestDoesntExist
  | substrate (message : String)
  | custom (message : String)
  | filterError (message : String)
  | executorError (error : ExecutorError)
  deriving DecidableEq

/-- Hash and size of a message, as the heuristics backend counts it. -/
structure MessageInfo where
  hash : UInt64
  size : ℕ
  deriving DecidableEq

/-- The associated types of a network backend and the operations the overseer calls on it. -/
structure NetworkBackend where
  PeerId : Type
  InterfaceId : Type
  RequestId : Type
  Protocol : Type
  Message : Type
  Request : Type
  Response : Type
  Address : Type
  NetworkParameters : Type
  InterfaceParameters : Type
  /-- Handle of a spawned interface. -/
  InterfaceHandle : Type
  /-- Handle for sending packets to one connected peer. -/
  PacketSink : Type
  /-- The fields of the backend itself. -/
  State : Type
  requestId : Request → RequestId
  messageInfo : Message → MessageInfo
  requestInfo : Request → MessageInfo
  responseInfo : Response → MessageInfo
  interfaceId : InterfaceHandle → InterfaceId
  peerId : InterfaceHandle → PeerId
  connect : InterfaceHandle → PeerId → Except Error Unit × InterfaceHandle
  /-- Hand a notification to a sink, which may refuse it. -/
  sendPacket : PacketSink → Option Protocol → Message → Except Error Unit × PacketSink
  new : NetworkParameters → State
  spawnInterface : State → Address → Option InterfaceParameters →
    Except Error InterfaceHandle × State
  [decPeerId : DecidableEq PeerId]
  [decInterfaceId : DecidableEq InterfaceId]
  [decProtocol : DecidableEq Protocol]

attribute [instance] NetworkBackend.decPeerId NetworkBackend.decInterfaceId
  NetworkBackend.decProtocol

/-- What the overseer needs of an executor: running the preinit code and loading a filter. -/
structure Executor (T : NetworkBackend) where
  initializeInterface : String → T.NetworkParameters → Except Error T.InterfaceParameters
  new : T.InterfaceId → String → Option String → Except Error Unit

inductive ExecutorEvent (T : NetworkBackend) where
  | connect (peer : T.PeerId)
  | forward (peers : List T.PeerId) (protocol : T.Protocol) (notification : T.Message)
  | sendRequest (peer : T.PeerId) (protocol : T.Protocol) (payload : Bytes)
  | sendResponse (peer : T.PeerId) (payload : Bytes)

inductive FilterCommand (T : NetworkBackend) where
  | registerPeer (peer : T.PeerId) (sink : T.PacketSink)
  | discoverPeer (peer : T.PeerId)
  | unregisterPeer (peer : T.PeerId)
  | protocolOpened (peer : T.PeerId) (protocol : T.Protocol)
  | protocolClosed (peer : T.PeerId) (protocol : T.Protocol)
  | installNotificationFilter (protocol : T.Protocol) (filter : String) (context : Option String)
  | installRequestResponseFilter (protocol : T.Protocol) (filter : String)
      (context : Option String)
  | injectNotification (protocol : T.Protocol) (peer : T.PeerId) (notification : T.Message)
  | injectRequest (protocol : T.Protocol) (peer : T.PeerId) (request : T.Request)
  | injectResponse (protocol : T.Protocol) (peer : T.PeerId) (response : T.Response)

inductive HeuristicsEvent (T : NetworkBackend) where
  | linkInterfaces (first second : T.InterfaceId)
  | registerPeer (interface : T.InterfaceId) (peer : T.PeerId)
  | unregisterPeer (interface : T.InterfaceId) (peer : T.PeerId)
  | messageReceived (interface : T.InterfaceId) (protocol : T.Protocol) (peer : T.PeerId)
      (info : MessageInfo)
  | messageSent (interface : T.InterfaceId) (protocol : T.Protocol) (peers : List T.PeerId)
      (info : MessageInfo)
  | openProtocol (interface : T.InterfaceId) (peer : T.PeerId) (protocol : T.Protocol)
  | closeProtocol (interface : T.InterfaceId) (peer : T.PeerId) (protocol : T.Protocol)

/-- One or more protocols of a connection were opened or closed. -/
inductive ConnectionUpgrade (T : NetworkBackend) where
  | protocolOpened (protocols : List T.Protocol)
  | protocolClosed (protocols : List T.Protocol)

inductive InterfaceEvent (T : NetworkBackend) where
  | peerConnected (interface : T.InterfaceId) (peer : T.PeerId) (protocols : List T.Protocol)
      (sink : T.PacketSink)
  | peerDisconnected (interface : T.InterfaceId) (peer : T.PeerId)
  | connectionUpgraded (interface : T.InterfaceId) (peer : T.PeerId)
      (upgrade : ConnectionUpgrade T)
  | messageReceived (interface : T.InterfaceId) (peer : T.PeerId) (protocol : T.Protocol)
      (message : T.Message)
  | requestReceived (interface : T.InterfaceId) (peer : T.PeerId) (protocol : T.Protocol)
      (request : T.Request)
  | responseReceived (interface : T.InterfaceId) (peer : T.PeerId) (protocol : T.Protocol)
      (requestId : T.RequestId) (response : T.Response)
  | peerDiscovered (peer : T.PeerId)

end SwarmHost
