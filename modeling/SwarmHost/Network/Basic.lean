import Mathlib.Data.Finset.Insert
import Mathlib.Data.Finset.Prod
import SwarmHost.Backend.Substrate

/-! # The event loop of the substrate network

The loop takes one input at a time: an inbound request, a response to an
outbound request, a command or an event of the swarm. Handling it may end in
tasks that wait for room in the event channel; the channel of an inbound request
is stored only after the request was announced.
-/

namespace SwarmHost.Substrate

inductive NetworkEvent where
  | peerConnected (peer : PeerId)
  | peerDisconnected (peer : PeerId)
  | protocolOpened (peer : PeerId) (protocol : ProtocolName)
  | protocolClosed (peer : PeerId) (protocol : ProtocolName)
  | notificationReceived (peer : PeerId) (protocol : ProtocolName) (notification : Bytes)
  | requestReceived (peer : PeerId) (protocol : ProtocolName) (requestId : ℕ) (request : Bytes)
  | responseReceived (peer : PeerId) (protocol : ProtocolName) (requestId : ℕ) (response : Bytes)
  | peerDiscovered (peer : PeerId)

inductive Command where
  | sendNotification (peer : PeerId) (protocol : ProtocolName) (message : Bytes)
  | sendRequest (peer : PeerId) (protocol : ProtocolName) (request : Bytes)
  | sendResponse (peer : PeerId) (requestId : ℕ) (response : Bytes)
  | connect (peer : PeerId)
  | disconnect (peer : PeerId)

inductive SwarmEvent where
  | discovered (peer : PeerId)
  | notificationStreamOpened (remote : PeerId) (protocol : ProtocolName)
  | notificationStreamReplaced (remote : PeerId) (protocol : ProtocolName)
  | notificationStreamClosed (remote : PeerId) (protocol : ProtocolName)
  | notificationsReceived (remote : PeerId) (messages : List (ProtocolName × Bytes))
  | connectionEstablished (peer : PeerId)
  | connectionClosed (peer : PeerId)

inductive NetworkInput where
  /-- A request of a peer with the channel that takes the response. -/
  | inboundRequest (peer : PeerId) (protocol : ProtocolName) (payload : Bytes) (channel : ℕ)
  /-- The outbound request at this position finished, with a response or a failure. -/
  | responseResolved (position : ℕ) (result : Option Bytes)
  | command (command : Command)
  | swarm (event : SwarmEvent)

/-- What is left to do of an input once the event channel is involved. -/
inductive Task where
  | emit (event : NetworkEvent)
  | remember (requestId : ℕ) (digest : UInt64) (channel : ℕ)

/-- What the loop does to its surroundings without waiting. -/
inductive NetworkEffect where
  | respond (channel : ℕ) (response : Bytes)
  | assignId (requestId : ℕ)
  | request (peer : PeerId) (protocol : ProtocolName) (request : Bytes)
  | notify (peer : PeerId) (protocol : ProtocolName) (message : Bytes)
  | connect (peer : PeerId)
  | disconnect (peer : PeerId)

/-- The state of the event loop. -/
structure Network where
  nextRequestId : ℕ
  /-- Digest and response channel of the inbound requests that were announced. -/
  pendingRequests : Dict ℕ (UInt64 × ℕ)
  cachedResponses : Dict UInt64 Bytes
  pendingResponses : List (PeerId × ProtocolName × ℕ)
  notificationSinks : Finset (PeerId × ProtocolName)
  discovered : Finset PeerId

namespace Network

def new : Network := ⟨0, ∅, ∅, [], ∅, ∅⟩

def takeRequestId (n : Network) : ℕ × Network :=
  (n.nextRequestId, { n with nextRequestId := n.nextRequestId + 1 })

/-- A handled input: the state, the tasks left and the effects. -/
abbrev Handled := Network × List Task × List NetworkEffect

def onCommand (digest : Bytes → UInt64) (n : Network) : Command → Handled
  | .sendNotification peer protocol message =>
    (n, [], if (peer, protocol) ∈ n.notificationSinks then [.notify peer protocol message] else [])
  | .sendRequest peer protocol request =>
    let (requestId, n) := n.takeRequestId
    match n.cachedResponses.get? (digest request) with
    | some response =>
      (n, [.emit (.responseReceived peer protocol requestId response)], [.assignId requestId])
    | none =>
      ({ n with pendingResponses := n.pendingResponses ++ [(peer, protocol, requestId)] }, [],
        [.assignId requestId, .request peer protocol request])
  | .sendResponse _ requestId response =>
    match n.pendingRequests.get? requestId with
    | some (digest, channel) =>
      ({ n with
        pendingRequests := n.pendingRequests.erase requestId
        cachedResponses := n.cachedResponses.insert digest response }, [],
        [.respond channel response])
    | none => (n, [], [])
  | .connect peer => (n, [], [.connect peer])
  | .disconnect peer => (n, [], [.disconnect peer])

def onSwarmEvent (n : Network) : SwarmEvent → Network × List Task
  | .discovered peer =>
    if peer ∈ n.discovered then (n, [])
    else ({ n with discovered := insert peer n.discovered }, [.emit (.peerDiscovered peer)])
  | .notificationStreamOpened remote protocol =>
    ({ n with notificationSinks := insert (remote, protocol) n.notificationSinks },
      [.emit (.protocolOpened remote protocol)])
  | .notificationStreamReplaced remote protocol =>
    ({ n with notificationSinks := insert (remote, protocol) n.notificationSinks }, [])
  | .notificationStreamClosed remote protocol =>
    ({ n with notificationSinks := n.notificationSinks.erase (remote, protocol) },
      [.emit (.protocolClosed remote protocol)])
  | .notificationsReceived remote messages =>
    (n, messages.map fun (protocol, bytes) => .emit (.notificationReceived remote protocol bytes))
  | .connectionEstablished peer => (n, [.emit (.peerConnected peer)])
  -- a closed connection is announced twice
  | .connectionClosed peer => (n, [.emit (.peerDisconnected peer), .emit (.peerDisconnected peer)])

def receive (digest : Bytes → UInt64) (n : Network) : NetworkInput → Handled
  | .inboundRequest peer protocol payload channel =>
    let (requestId, n) := n.takeRequestId
    (n, [.emit (.requestReceived peer protocol requestId payload),
      .remember requestId (digest payload) channel], [])
  | .responseResolved position result =>
    match n.pendingResponses[position]? with
    | none => (n, [], [])
    | some (peer, protocol, requestId) =>
      ({ n with pendingResponses := n.pendingResponses.eraseIdx position },
        result.toList.map fun response =>
          .emit (.responseReceived peer protocol requestId response), [])
  | .command command => n.onCommand digest command
  | .swarm event => let (n, tasks) := n.onSwarmEvent event; (n, tasks, [])

def remember (n : Network) (requestId : ℕ) (digest : UInt64) (channel : ℕ) : Network :=
  { n with pendingRequests := n.pendingRequests.insert requestId (digest, channel) }

def finish (n : Network) : List Task → Network × List NetworkEvent
  | [] => (n, [])
  | .emit event :: tasks => let (n, events) := finish n tasks; (n, event :: events)
  | .remember requestId digest channel :: tasks =>
    finish (n.remember requestId digest channel) tasks

/-- One turn of the loop: an input is taken and handled to its end. -/
def turn (digest : Bytes → UInt64) (n : Network) (input : NetworkInput) :
    Network × List NetworkEvent × List NetworkEffect :=
  let (n, tasks, effects) := n.receive digest input
  let (n, events) := n.finish tasks
  (n, events, effects)

end Network

end SwarmHost.Substrate
