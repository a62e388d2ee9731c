import SwarmHost.Backend.Basic

/-! # The mockchain backend

An interface listens on its own address: the backend keeps the addresses it has
given out, and spawning an interface binds a listener. The operating system, the
hasher of the standard library and the sockets of the peers are parameters.
-/

namespace SwarmHost

namespace Mockchain

abbrev InterfaceId := ℕ

abbrev PeerId := UInt64

abbrev RequestId := UInt64

inductive ProtocolId where
  | transaction
  | block
  | peerExchange
  | blockRequest
  | generic
  deriving DecidableEq

/-- A message, given by its encoding: the overseer reads its hash and its length. -/
structure Message where
  encoded : Bytes
  deriving DecidableEq

structure Request where
  id : RequestId
  payload : Bytes
  deriving DecidableEq

structure Response where
  id : RequestId
  payload : Bytes
  deriving DecidableEq

structure SocketAddr where
  ip : Bytes
  port : UInt16
  deriving DecidableEq

/-- The sink of a peer writes to the socket of the peer. -/
structure MockPacketSink where
  interface : InterfaceId
  peer : PeerId
  deriving DecidableEq

structure MockchainHandle where
  id : InterfaceId
  peerId : PeerId
  deriving DecidableEq

/-- What the backend takes from outside. -/
structure Environment where
  /-- The digest `DefaultHasher` computes of the bytes of a payload. -/
  digest : Bytes → UInt64
  /-- The outcome of `TcpListener::bind` for the interface with the given number. -/
  bind : InterfaceId → SocketAddr → Except Error Unit
  /-- The outcome of writing a message to the socket of a sink. -/
  write : MockPacketSink → Message → Except Error Unit

structure MockchainBackend where
  nextIfaceId : InterfaceId
  interfaces : Dict SocketAddr InterfaceId

namespace MockchainHandle

def new (env : Environment) (id : InterfaceId) (address : SocketAddr) :
    Except Error MockchainHandle :=
  (env.bind id address).map fun _ => ⟨id, UInt64.ofNat id⟩

end MockchainHandle

namespace MockchainBackend

def new : MockchainBackend := ⟨0, ∅⟩

def nextInterfaceId (b : MockchainBackend) : InterfaceId × MockchainBackend :=
  (b.nextIfaceId, { b with nextIfaceId := b.nextIfaceId + 1 })

def spawnInterface (env : Environment) (b : MockchainBackend) (address : SocketAddr)
    (_parameters : Option ℕ) : Except Error MockchainHandle × MockchainBackend :=
  if address ∈ b.interfaces then (.error .addressInUse, b)
  else
    let (id, b) := b.nextInterfaceId
    match MockchainHandle.new env id address with
    | .ok handle => (.ok handle, { b with interfaces := b.interfaces.insert address id })
    | .error error => (.error error, b)

end MockchainBackend

def payloadInfo (env : Environment) (payload : Bytes) : MessageInfo :=
  ⟨env.digest payload, payload.length⟩

end Mockchain

open Mockchain in
abbrev mockchain (env : Environment) : NetworkBackend where
  PeerId := PeerId
  InterfaceId := InterfaceId
  RequestId := RequestId
  Protocol := ProtocolId
  Message := Message
  Request := Request
  Response := Response
  Address := SocketAddr
  NetworkParameters := Unit
  InterfaceParameters := ℕ
  InterfaceHandle := MockchainHandle
  PacketSink := MockPacketSink
  State := MockchainBackend
  requestId := Request.id
  messageInfo message := payloadInfo env message.encoded
  requestInfo request := payloadInfo env request.payload
  responseInfo response := payloadInfo env response.payload
  interfaceId := MockchainHandle.id
  peerId := MockchainHandle.peerId
  -- the source has no body for it yet and panics
  connect handle _ := (.error (.custom "not yet implemented"), handle)
  sendPacket sink _ message := (env.write sink message, sink)
  new _ := MockchainBackend.new
  spawnInterface := MockchainBackend.spawnInterface env

/-- Every address can be bound and every write succeeds. -/
def Mockchain.local : Mockchain.Environment where
  digest payload := UInt64.ofNat payload.length
  bind _ _ := .ok ()
  write _ _ := .ok ()

end SwarmHost
