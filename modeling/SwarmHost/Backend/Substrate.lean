import SwarmHost.Backend.Basic

/-! # The substrate backend

Interfaces are numbered in the order of their creation, also those whose network
could not be set up. The network library and the hasher of the standard library
are parameters: the outcome of creating each network, and the digest of a payload.
-/

namespace SwarmHost

namespace Substrate

abbrev PeerId := Bytes

abbrev ProtocolName := String

/-- What the backend takes from outside. -/
structure Environment where
  /-- The digest `DefaultHasher` computes of the bytes of a payload. -/
  digest : Bytes → UInt64
  /-- The outcome of `SubstrateNetwork::new` for the interface with the given number, with the
  genesis hash and the handshake of its parameters. -/
  network : ℕ → Bytes → Option Bytes → Except Error PeerId

structure Message where
  payload : Bytes
  deriving DecidableEq

structure Request where
  id : ℕ
  payload : Bytes
  deriving DecidableEq

structure Response where
  id : ℕ
  payload : Bytes
  deriving DecidableEq

/-- A sink sends commands for its peer to the network of the interface. -/
structure PacketSink where
  peer : PeerId
  deriving DecidableEq

structure SocketAddr where
  ip : Bytes
  port : UInt16
  deriving DecidableEq

structure Parameters where
  genesisHash : Bytes
  deriving DecidableEq

structure InterfaceParameters where
  handshake : Bytes
  deriving DecidableEq

structure InterfaceHandle where
  interfaceId : ℕ
  peerId : PeerId
  /-- The peers the peerset was asked to connect to, in order. -/
  dialed : List PeerId
  deriving DecidableEq

structure Backend where
  nextIfaceId : ℕ
  genesisHash : Bytes
  deriving DecidableEq

namespace Backend

def new (parameters : Parameters) : Backend := ⟨0, parameters.genesisHash⟩

def nextInterfaceId (b : Backend) : ℕ × Backend :=
  (b.nextIfaceId, { b with nextIfaceId := b.nextIfaceId + 1 })

def spawnInterface (env : Environment) (b : Backend) (_address : SocketAddr)
    (parameters : Option InterfaceParameters) : Except Error InterfaceHandle × Backend :=
  let (interfaceId, b) := b.nextInterfaceId
  ((env.network interfaceId b.genesisHash (parameters.map (·.handshake))).map
    fun peerId => ⟨interfaceId, peerId, []⟩, b)

end Backend

def payloadInfo (env : Environment) (payload : Bytes) : MessageInfo :=
  ⟨env.digest payload, payload.length⟩

end Substrate

open Substrate in
abbrev substrate (env : Environment) : NetworkBackend where
  PeerId := PeerId
  InterfaceId := ℕ
  RequestId := ℕ
  Protocol := ProtocolName
  Message := Message
  Request := Request
  Response := Response
  Address := SocketAddr
  NetworkParameters := Parameters
  InterfaceParameters := InterfaceParameters
  InterfaceHandle := InterfaceHandle
  PacketSink := PacketSink
  State := Backend
  requestId := Request.id
  messageInfo message := payloadInfo env message.payload
  requestInfo request := payloadInfo env request.payload
  responseInfo response := payloadInfo env response.payload
  interfaceId := InterfaceHandle.interfaceId
  peerId := InterfaceHandle.peerId
  connect handle peer := (.ok (), { handle with dialed := handle.dialed ++ [peer] })
  sendPacket sink _ _ := (.ok (), sink)
  new := Backend.new
  spawnInterface := Backend.spawnInterface env

/-- Every network starts, and interface `i` has the one-byte identity `i`. -/
def Substrate.local : Substrate.Environment where
  digest payload := UInt64.ofNat payload.length
  network i _ _ := .ok [UInt8.ofNat i]

abbrev loopback : NetworkBackend := substrate Substrate.local

def Executor.loading (T : NetworkBackend) : Executor T where
  initializeInterface _ _ := .error (.executorError .executorDoesntExist)
  new _ _ _ := .ok ()

end SwarmHost
