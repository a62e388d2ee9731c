import Mathlib.Data.Finset.SDiff
import SwarmHost.Peerset.State

/-! # The peerset

The peerset tells the network which peers to connect to and to drop, and answers
incoming connections. Actions of its handles wait in a channel and are handled
when it is polled with no message left to emit; slots are not allocated by itself.
-/

namespace SwarmHost.Substrate

/-- The number of an incoming connection, given by the network. -/
abbrev IncomingIndex := ℕ

def secondsToNanos : ℕ := 1000000000

/-- Nodes with a lower reputation are not accepted. -/
def bannedThreshold : ℤ := 82 * i32Min.tdiv 100

def disconnectReputationChange : ℤ := -256

/-- The time after which a disconnected node is forgotten. -/
def forgetAfter : ℕ := 3600 * secondsToNanos

/-- The order in which a hash set is iterated. -/
structure HashOrder where
  enumerate : Finset PeerId → List PeerId
  nodup : ∀ s, (enumerate s).Nodup
  mem_enumerate : ∀ s p, p ∈ enumerate s ↔ p ∈ s

theorem HashOrder.enumerate_empty (order : HashOrder) : order.enumerate ∅ = [] := by
  rw [List.eq_nil_iff_forall_not_mem]
  intro p
  simp [order.mem_enumerate]

inductive DropReason where
  | unknown
  | refused
  deriving DecidableEq

namespace Peerset

inductive Action where
  | addReservedPeer (set : SetId) (peer : PeerId)
  | removeReservedPeer (set : SetId) (peer : PeerId)
  | setReservedPeers (set : SetId) (peers : Finset PeerId)
  | setReservedOnly (set : SetId) (reserved : Bool)
  | reportPeer (peer : PeerId) (change : ℤ)
  | addToPeersSet (set : SetId) (peer : PeerId)
  | removeFromPeersSet (set : SetId) (peer : PeerId)
  /-- The reply is sent on the given channel. -/
  | peerReputation (peer : PeerId) (channel : ℕ)
  | connectToPeer (peer : PeerId)

def Action.set? : Action → Option SetId
  | .addReservedPeer set _ | .removeReservedPeer set _ | .setReservedPeers set _
  | .setReservedOnly set _ | .addToPeersSet set _ | .removeFromPeersSet set _ => some set
  | .reportPeer _ _ | .peerReputation _ _ | .connectToPeer _ => none

/-- What the peerset tells the network. -/
inductive Message where
  | connect (set : SetId) (peer : PeerId)
  | drop (set : SetId) (peer : PeerId)
  | accept (index : IncomingIndex)
  | reject (index : IncomingIndex)
  deriving DecidableEq

end Peerset

structure Peerset where
  data : PeersState
  /-- For each set the reserved nodes and whether only they are accepted. -/
  reservedNodes : List (Finset PeerId × Bool)
  rx : List Peerset.Action
  messageQueue : List Peerset.Message
  created : Instant
  latestTimeUpdate : Instant
  /-- The reputations that were replied so far, with their channels. -/
  replies : List (ℕ × ℤ)

namespace Peerset

variable (order : HashOrder) (now : Instant) (s : Peerset) (set : SetId) (peerId : PeerId)

def reserved : Finset PeerId := (s.reservedNodes.getD set (∅, false)).1

def reservedOnly : Bool := (s.reservedNodes.getD set (∅, false)).2

def push (message : Message) : Peerset := { s with messageQueue := s.messageQueue ++ [message] }

/-- Slots are not allocated any more. -/
def allocSlots (_set : SetId) : Peerset := s

def initSets (data : PeersState) : SetId → List SetConfig → PeersState
  | _, [] => data
  | set, config :: configs =>
    let data := (order.enumerate config.reservedNodes).foldl (·.addNoSlotNode set) data
    let data := config.bootnodes.foldl (fun data p =>
      if data.peer set p = .unknown then data.discover set p now else data) data
    initSets data (set + 1) configs

def fromConfig (sets : List SetConfig) : Peerset where
  data := initSets order now (.new sets) 0 sets
  reservedNodes := sets.map fun config => (config.reservedNodes, config.reservedOnly)
  rx := []
  messageQueue := []
  created := now
  latestTimeUpdate := now
  replies := []

def disconnectAndDrop : Peerset :=
  { s with data := s.data.disconnect set peerId now }.push (.drop set peerId)

def onAddReservedPeer : Peerset :=
  if peerId ∈ s.reserved set then s
  else
    { s with
      reservedNodes := s.reservedNodes.modify set fun r => (insert peerId r.1, r.2)
      data := s.data.addNoSlotNode set peerId }.allocSlots set

def onRemoveReservedPeer : Peerset :=
  if peerId ∈ s.reserved set then
    let s := { s with
      reservedNodes := s.reservedNodes.modify set fun r => (r.1.erase peerId, r.2)
      data := s.data.removeNoSlotNode set peerId }
    if s.reservedOnly set ∧ s.data.peer set peerId = .connected then
      s.disconnectAndDrop now set peerId
    else s
  else s

def onSetReservedPeers (peerIds : Finset PeerId) : Peerset :=
  let toInsert := order.enumerate (peerIds \ s.reserved set)
  let toRemove := order.enumerate (s.reserved set \ peerIds)
  let s := toInsert.foldl (fun s node => s.onAddReservedPeer set node) s
  toRemove.foldl (fun s node => s.onRemoveReservedPeer now set node) s

def onSetReservedOnly (reservedOnly : Bool) : Peerset :=
  let s := { s with reservedNodes := s.reservedNodes.modify set fun r => (r.1, reservedOnly) }
  if reservedOnly then
    (order.enumerate (s.data.connectedPeers set)).foldl (fun s p =>
      if p ∈ s.reserved set then s else s.disconnectAndDrop now set p) s
  else s.allocSlots set

def addToPeersSet : Peerset :=
  if s.data.peer set peerId = .unknown then
    { s with data := s.data.discover set peerId now }.allocSlots set
  else s

def onRemoveFromPeersSet : Peerset :=
  if peerId ∈ s.reserved set then s
  else
    match s.data.peer set peerId with
    | .connected =>
      let s := s.push (.drop set peerId)
      { s with data := (s.data.disconnect set peerId now).forgetPeer set peerId }
    | .notConnected => { s with data := s.data.forgetPeer set peerId }
    | .unknown => s

/-- One second moves a reputation towards zero. -/
def reputTick (reput : ℤ) : ℤ :=
  let diff := reput.tdiv 50
  if diff = 0 ∧ reput < 0 then saturatingAdd reput 1
  else if diff = 0 ∧ 0 < reput then saturatingAdd reput (-1)
  else saturatingAdd reput (-diff)

def forgetOld (data : PeersState) (p : PeerId) : PeersState :=
  (List.range data.numSets).foldl (fun data set =>
    match data.membership set p with
    | .notConnected lastConnected =>
      if lastConnected + forgetAfter < now then data.forgetPeer set p else data
    | _ => data) data

def fade (data : PeersState) (p : PeerId) : PeersState :=
  let after := reputTick (data.reputation p)
  let data := data.peerReputation p fun _ => after
  if after ≠ 0 then data else forgetOld now data p

/-- The whole seconds since the last update, counted from the creation. -/
def secsDiff : ℕ :=
  (now - s.created) / secondsToNanos - (s.latestTimeUpdate - s.created) / secondsToNanos

def updateTime : Peerset :=
  { s with
    latestTimeUpdate := now
    data := (fun data => data.nodes.keys.foldl (fade now) data)^[s.secsDiff now] s.data }

def onReportPeer (change : ℤ) : Peerset :=
  let s := s.updateTime now
  let reputation := saturatingAdd (s.data.reputation peerId) change
  let s := { s with data := s.data.peerReputation peerId fun _ => reputation }
  if bannedThreshold ≤ reputation then s
  else
    (List.range s.data.numSets).foldl (fun s set =>
      if s.data.peer set peerId = .connected then
        (s.disconnectAndDrop now set peerId).allocSlots set
      else s) s

def onPeerReputation (channel : ℕ) : Peerset :=
  { s with
    data := s.data.peerReputation peerId id
    replies := s.replies ++ [(channel, s.data.reputation peerId)] }

def connectToPeer : Peerset := s.push (.connect 0 peerId)

def enter (data : PeersState) : PeersState :=
  if data.peer set peerId = .unknown then data.discover set peerId now
  else data.bumpLastConnectedOrDiscovered set peerId now

/-- Accept or reject a peer that is not connected. -/
def answer (index : IncomingIndex) : Peerset :=
  if s.data.reputation peerId < bannedThreshold then s.push (.reject index)
  else
    match s.data.tryAcceptIncoming set peerId with
    | (true, data) => { s with data := data }.push (.accept index)
    | (false, data) => { s with data := data }.push (.reject index)

/-- An incoming connection; it is not answered if the peer counts as connected already. -/
def incoming (index : IncomingIndex) : Peerset :=
  let s := s.updateTime now
  if s.reservedOnly set ∧ peerId ∉ s.reserved set then s.push (.reject index)
  else if s.data.peer set peerId = .connected then s
  else { s with data := enter now set peerId s.data }.answer set peerId index

/-- Disconnect a connected peer, so that it is not tried again and again. -/
def penalize : Peerset :=
  if s.data.peer set peerId = .connected then
    { s with
      data := (s.data.addReputation peerId disconnectReputationChange).disconnect set peerId now }
  else s

def dropped (reason : DropReason) : Peerset :=
  let s := (s.updateTime now).penalize now set peerId
  let s := if reason = .refused then s.onRemoveFromPeersSet now set peerId else s
  s.allocSlots set

def send (action : Action) : Peerset := { s with rx := s.rx ++ [action] }

def onAction : Action → Peerset
  | .addReservedPeer set peer => s.onAddReservedPeer set peer
  | .removeReservedPeer set peer => s.onRemoveReservedPeer now set peer
  | .setReservedPeers set peers => s.onSetReservedPeers order now set peers
  | .setReservedOnly set reserved => s.onSetReservedOnly order now set reserved
  | .reportPeer peer change => s.onReportPeer now peer change
  | .addToPeersSet set peer => s.addToPeersSet now set peer
  | .removeFromPeersSet set peer => s.onRemoveFromPeersSet now set peer
  | .peerReputation peer channel => s.onPeerReputation peer channel
  | .connectToPeer peer => s.connectToPeer peer

def pollLoop (s : Peerset) : List Action → Option Message × Peerset
  | [] =>
    match s.messageQueue with
    | [] => (none, { s with rx := [] })
    | message :: queue => (some message, { s with rx := [], messageQueue := queue })
  | action :: actions =>
    match s.messageQueue with
    | [] => pollLoop (s.onAction order now action) actions
    | message :: queue => (some message, { s with rx := action :: actions, messageQueue := queue })

def pollNext : Option Message × Peerset := s.pollLoop order now s.rx

end Peerset

end SwarmHost.Substrate
