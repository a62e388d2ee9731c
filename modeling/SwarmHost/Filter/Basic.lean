import Mathlib.Data.Finset.Insert
import SwarmHost.Backend.Basic

/-! # The filter of an interface

A filter owns the registered peers and the table of pending inbound requests.
Each of its methods asks the executor once and processes the events it answers
with; the answer is an input of the model. Calls of packet sinks and messages
to the overseer and the heuristics backend are recorded as effects, in order.
-/

namespace SwarmHost

variable {T : NetworkBackend}

structure PeerInfo (T : NetworkBackend) where
  sink : T.PacketSink
  protocols : Finset T.Protocol

/-- The state of a filter; the state of its executor is not part of it. -/
structure Filter (T : NetworkBackend) where
  interface : T.InterfaceId
  peers : Dict T.PeerId (PeerInfo T)
  /-- The last inbound request of each peer that was not responded to. -/
  pendingInbound : Dict T.PeerId T.RequestId

inductive FilterEffect (T : NetworkBackend) where
  | connect (peer : T.PeerId)
  | sendPacket (peer : T.PeerId) (sink : T.PacketSink) (protocol : T.Protocol)
      (notification : T.Message)
  | sendRequest (peer : T.PeerId) (sink : T.PacketSink) (protocol : T.Protocol) (payload : Bytes)
  | sendResponse (peer : T.PeerId) (sink : T.PacketSink) (requestId : T.RequestId)
      (payload : Bytes)
  | heuristics (event : HeuristicsEvent T)

/-- A filter waits for a command of the overseer or for the next poll. -/
inductive FilterInput (T : NetworkBackend) where
  | command (command : FilterCommand T)
  | poll

abbrev ExecutorAnswer (T : NetworkBackend) := Except Error (List (ExecutorEvent T))

/-- A method up to its call of `processEvents`: the filter, the effects so far and the events that
are passed on. -/
structure Prepared (T : NetworkBackend) where
  filter : Filter T
  effects : List (FilterEffect T)
  events : ExecutorAnswer T

namespace Filter

def new (interface : T.InterfaceId) : Filter T := ⟨interface, ∅, ∅⟩

/-- Hand a notification to the sink of one peer and count it if the sink took it. -/
def sendPacket (f : Filter T) (protocol : T.Protocol) (notification : T.Message)
    (peer : T.PeerId) : Filter T × List (FilterEffect T) :=
  match f.peers.get? peer with
  | none => (f, [])
  | some info =>
    let (result, sink) := T.sendPacket info.sink (some protocol) notification
    ({ f with peers := f.peers.insert peer { info with sink := sink } },
      .sendPacket peer info.sink protocol notification ::
        match result with
        | .ok () => [.heuristics (.messageSent f.interface protocol [peer]
            (T.messageInfo notification))]
        | .error _ => [])

/-- Hand a notification to a list of peers; unknown peers are skipped. -/
def forward (f : Filter T) (protocol : T.Protocol) (notification : T.Message) :
    List T.PeerId → Filter T × List (FilterEffect T)
  | [] => (f, [])
  | peer :: peers =>
    let (f, effects) := f.sendPacket protocol notification peer
    let (f, effects') := forward f protocol notification peers
    (f, effects ++ effects')

def processEvent (f : Filter T) :
    ExecutorEvent T → Except Error Unit × Filter T × List (FilterEffect T)
  | .connect peer => (.ok (), f, [.connect peer])
  | .forward peers protocol notification => (.ok (), f.forward protocol notification peers)
  | .sendRequest peer protocol payload =>
    match f.peers.get? peer with
    | none => (.error .peerDoesntExist, f, [])
    | some info => (.ok (), f, [.sendRequest peer info.sink protocol payload])
  | .sendResponse peer payload =>
    match f.pendingInbound.get? peer with
    | none => (.ok (), f, [])
    | some requestId =>
      let f := { f with pendingInbound := f.pendingInbound.erase peer }
      match f.peers.get? peer with
      | none => (.error .peerDoesntExist, f, [])
      | some info => (.ok (), f, [.sendResponse peer info.sink requestId payload])

def processEvents (f : Filter T) :
    List (ExecutorEvent T) → Except Error Unit × Filter T × List (FilterEffect T)
  | [] => (.ok (), f, [])
  | event :: events =>
    match f.processEvent event with
    | (.error error, f, effects) => (.error error, f, effects)
    | (.ok (), f, effects) =>
      let (result, f, effects') := processEvents f events
      (result, f, effects ++ effects')

section Methods

variable (f : Filter T) (answer : ExecutorAnswer T)

def pollFilter : Prepared T := ⟨f, [], answer⟩

def registerPeer (peer : T.PeerId) (sink : T.PacketSink) : Prepared T :=
  if peer ∈ f.peers then ⟨f, [], .error .peerAlreadyExists⟩
  else
    match answer with
    | .error error => ⟨f, [], .error error⟩
    | .ok events => ⟨{ f with peers := f.peers.insert peer ⟨sink, ∅⟩ }, [], .ok events⟩

def discoverPeer (_peer : T.PeerId) : Prepared T := ⟨f, [], answer⟩

/-- The peer is dropped also when the executor fails; its pending request is kept. -/
def unregisterPeer (peer : T.PeerId) : Prepared T :=
  if peer ∈ f.peers then ⟨{ f with peers := f.peers.erase peer }, [], answer⟩
  else ⟨f, [], .error .peerDoesntExist⟩

def addProtocol (peer : T.PeerId) (protocol : T.Protocol) : Prepared T :=
  match f.peers.get? peer with
  | none => ⟨f, [], .error .peerDoesntExist⟩
  | some info =>
    let info := { info with protocols := insert protocol info.protocols }
    ⟨{ f with peers := f.peers.insert peer info }, [], answer⟩

def protocolOpened (peer : T.PeerId) (protocol : T.Protocol) : Prepared T :=
  f.addProtocol answer peer protocol

def protocolClosed (peer : T.PeerId) (protocol : T.Protocol) : Prepared T :=
  f.addProtocol answer peer protocol

def installNotificationFilter (_protocol : T.Protocol) (_filter : String) : Prepared T :=
  ⟨f, [], answer.map fun _ => []⟩

def installRequestResponseFilter (_protocol : T.Protocol) (_filter : String) : Prepared T :=
  ⟨f, [], answer.map fun _ => []⟩

def sendToAll (f : Filter T) (protocol : T.Protocol) (notification : T.Message) :
    List (T.PeerId × PeerInfo T) → Filter T × List (FilterEffect T)
  | [] => (f, [])
  | (peer, info) :: entries =>
    let (result, sink) := T.sendPacket info.sink (some protocol) notification
    let sent : List (FilterEffect T) := match result with
      | .ok () => [.heuristics (.messageSent f.interface protocol [peer]
          (T.messageInfo notification))]
      | .error _ => []
    let f := { f with peers := f.peers.insert peer { info with sink := sink } }
    let (f, effects) := sendToAll f protocol notification entries
    (f, .sendPacket peer info.sink protocol notification :: sent ++ effects)

def injectNotification (protocol : T.Protocol) (peer : T.PeerId) (notification : T.Message) :
    Prepared T :=
  let received := FilterEffect.heuristics
    (.messageReceived f.interface protocol peer (T.messageInfo notification))
  match answer with
  | .ok events => ⟨f, [received], .ok events⟩
  | .error (.executorError .filterDoesntExist) =>
    let (f, effects) := f.sendToAll protocol notification f.peers.entries
    ⟨f, received :: effects, .ok []⟩
  | .error error => ⟨f, [received], .error error⟩

def injectRequest (protocol : T.Protocol) (peer : T.PeerId) (request : T.Request) : Prepared T :=
  ⟨{ f with pendingInbound := f.pendingInbound.insert peer (T.requestId request) },
    [.heuristics (.messageReceived f.interface protocol peer (T.requestInfo request))], answer⟩

def injectResponse (protocol : T.Protocol) (peer : T.PeerId) (response : T.Response) :
    Prepared T :=
  ⟨f, [.heuristics (.messageReceived f.interface protocol peer (T.responseInfo response))], answer⟩

/-- The method that handles an input, up to its call of `processEvents`. -/
def prepare : FilterInput T → Prepared T
  | .command (.registerPeer peer sink) => f.registerPeer answer peer sink
  | .command (.discoverPeer peer) => f.discoverPeer answer peer
  | .command (.unregisterPeer peer) => f.unregisterPeer answer peer
  | .command (.protocolOpened peer protocol) => f.protocolOpened answer peer protocol
  | .command (.protocolClosed peer protocol) => f.protocolClosed answer peer protocol
  | .command (.installNotificationFilter protocol filter _) =>
    f.installNotificationFilter answer protocol filter
  | .command (.installRequestResponseFilter protocol filter _) =>
    f.installRequestResponseFilter answer protocol filter
  | .command (.injectNotification protocol peer notification) =>
    f.injectNotification answer protocol peer notification
  | .command (.injectRequest protocol peer request) =>
    f.injectRequest answer protocol peer request
  | .command (.injectResponse protocol peer response) =>
    f.injectResponse answer protocol peer response
  | .poll => f.pollFilter answer

def handle (input : FilterInput T) : Except Error Unit × Filter T × List (FilterEffect T) :=
  let prepared := f.prepare answer input
  match prepared.events with
  | .error error => (.error error, prepared.filter, prepared.effects)
  | .ok events =>
    let (result, f, effects) := prepared.filter.processEvents events
    (result, f, prepared.effects ++ effects)

end Methods

/-- The loop over the registered peers does what looking each of them up does: an entry is still
the one that was listed when the loop gets to it. -/
theorem sendToAll_eq_forward {entries : List (T.PeerId × PeerInfo T)} {f : Filter T}
    (protocol : T.Protocol) (notification : T.Message) (hnd : (entries.map Prod.fst).Nodup)
    (h : ∀ e ∈ entries, f.peers.get? e.1 = some e.2) :
    f.sendToAll protocol notification entries =
      f.forward protocol notification (entries.map Prod.fst) := by
  induction entries generalizing f with
  | nil => rfl
  | cons e entries ih =>
    obtain ⟨peer, info⟩ := e
    obtain ⟨hpeer, hnd⟩ := List.nodup_cons.mp hnd
    have hinfo : f.peers.get? peer = some info := h _ List.mem_cons_self
    have hrest : ∀ info', ∀ e ∈ entries, (f.peers.insert peer info').get? e.1 = some e.2 := by
      intro info' e he
      have hne : e.1 ≠ peer := fun heq => hpeer (List.mem_map.mpr ⟨e, he, heq⟩)
      rw [Dict.get?_insert_ne _ hne]
      exact h e (List.mem_cons_of_mem _ he)
    simp only [sendToAll, forward, sendPacket, List.map_cons, hinfo]
    rw [ih hnd (hrest _)]

theorem sendToAll_entries (f : Filter T) (protocol : T.Protocol) (notification : T.Message) :
    f.sendToAll protocol notification f.peers.entries =
      f.forward protocol notification f.peers.keys :=
  sendToAll_eq_forward protocol notification f.peers.nodup fun _ he => Dict.mem_entries.mp he

end Filter

end SwarmHost
