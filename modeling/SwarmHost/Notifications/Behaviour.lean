import SwarmHost.Collections.Dict
import SwarmHost.Notifications.Peers

/-! # The behaviour that manages the notifications protocols

`Notifications` keeps one entry for each peer and set. The swarm, the handlers of
the connections, the peerset, the timers and the user of the behaviour all call
into it; most calls touch one entry, and those of the swarm the entry of each set.
The calls that it makes on the peerset are collected and executed elsewhere.
-/

namespace SwarmHost.Substrate

/-- A request of the remote that the peerset was asked about. -/
structure IncomingPeer where
  peerId : PeerId
  setId : SetId
  /-- The request still corresponds to a connection. -/
  alive : Bool
  incomingId : IncomingIndex
  deriving DecidableEq

structure Notifications where
  numProtocols : ℕ
  peers : Dict (PeerId × SetId) PeerState
  delays : List (DelayId × PeerId × SetId)
  nextDelayId : DelayId
  incoming : List IncomingPeer
  nextIncomingIndex : IncomingIndex
  events : List NetworkBehaviourAction
  /-- The calls on the peerset, the oldest first. -/
  calls : List PeersetCall

namespace Notifications

def new (numProtocols : ℕ) : Notifications where
  numProtocols := numProtocols
  peers := ∅
  delays := []
  nextDelayId := 0
  incoming := []
  nextIncomingIndex := 0
  events := []
  calls := []

variable (n : Notifications) (now : Instant) (peer : PeerId) (set : SetId)

def Alive (peer : PeerId) (set : SetId) (r : IncomingPeer) : Prop :=
  r.peerId = peer ∧ r.setId = set ∧ r.alive

instance (r : IncomingPeer) : Decidable (Alive peer set r) := inferInstanceAs (Decidable (_ ∧ _))

/-- The first request of the pair that is alive no longer is. -/
def retire : List IncomingPeer → List IncomingPeer
  | [] => []
  | r :: rs => if Alive peer set r then { r with alive := false } :: rs else r :: retire rs

def surroundings : Surroundings where
  alive := n.incoming.any (Alive peer set ·)
  nextDelayId := n.nextDelayId
  nextIncomingIndex := n.nextIncomingIndex

def apply (r : Reaction) : Notifications :=
  { n with
    peers := r.entry.elim (n.peers.erase (peer, set)) (n.peers.insert (peer, set))
    events := n.events ++ r.events
    calls := n.calls ++ r.calls
    delays := match r.delay with
      | .none => n.delays
      | .fresh => n.delays ++ [(n.nextDelayId, peer, set)]
      | .again timer => n.delays ++ [(timer, peer, set)]
    nextDelayId := if r.delay = .fresh then n.nextDelayId + 1 else n.nextDelayId
    incoming := match r.incoming with
      | .keep => n.incoming
      | .ask => n.incoming ++ [⟨peer, set, true, n.nextIncomingIndex⟩]
      | .retire => retire peer set n.incoming
    nextIncomingIndex :=
      if r.incoming = .ask then n.nextIncomingIndex + 1 else n.nextIncomingIndex }

def reaction (input : PairInput) : Reaction :=
  match n.peers.get? (peer, set) with
  | some state => state.react peer set (n.surroundings peer set) input
  | none => PeerState.insert peer set (n.surroundings peer set) input

def touch (input : PairInput) : Notifications := n.apply peer set (n.reaction peer set input)

def disconnectPeer : Notifications := n.touch peer set (.disconnect now none)

def takeIncoming (index : IncomingIndex) : Notifications :=
  { n with incoming := n.incoming.eraseP (·.incomingId = index) }

def peersetReportAccept (index : IncomingIndex) : Notifications :=
  match n.incoming.find? (·.incomingId = index) with
  | none => n
  | some request =>
    let n := n.takeIncoming index
    if request.alive then n.touch request.peerId request.setId .accept
    else match n.peers.get? (request.peerId, request.setId) with
      | some (.disabledPendingEnable ..) | some (.enabled _) => n
      | _ => { n with calls := n.calls ++ [.dropped request.setId request.peerId .unknown] }

def peersetReportReject (index : IncomingIndex) : Notifications :=
  match n.incoming.find? (·.incomingId = index) with
  | none => n
  | some request =>
    let n := n.takeIncoming index
    if request.alive then n.touch request.peerId request.setId .reject else n

/-- What an answer of the peerset to a request comes down to. It is told to the pair of a request
that is alive; for one that is not, the peerset may be told that the connection is gone. -/
inductive AnswersRequest (index : IncomingIndex) (input : PairInput) : Notifications → Prop where
  | unknown (hfind : n.incoming.find? (·.incomingId = index) = none) :
    AnswersRequest index input n
  | alive {request : IncomingPeer}
      (hfind : n.incoming.find? (·.incomingId = index) = some request) (halive : request.alive) :
    AnswersRequest index input
      ((n.takeIncoming index).touch request.peerId request.setId input)
  | retired {request : IncomingPeer}
      (hfind : n.incoming.find? (·.incomingId = index) = some request) (hdead : ¬ request.alive)
      (calls : List PeersetCall)
      (hcalls : calls = [] ∨ calls = [.dropped request.setId request.peerId .unknown]) :
    AnswersRequest index input { n.takeIncoming index with calls := n.calls ++ calls }

theorem answersRequest_accept (index : IncomingIndex) :
    n.AnswersRequest index .accept (n.peersetReportAccept index) := by
  unfold peersetReportAccept
  split
  · next hfind => exact .unknown hfind
  · next request hfind =>
    dsimp only
    split
    · next halive => exact .alive hfind halive
    · next hdead =>
      have hkept : n.AnswersRequest index .accept (n.takeIncoming index) := by
        simpa [takeIncoming] using AnswersRequest.retired hfind hdead [] (.inl rfl)
      split
      · exact hkept
      · exact hkept
      · exact .retired hfind hdead _ (.inr rfl)

theorem answersRequest_reject (index : IncomingIndex) :
    n.AnswersRequest index .reject (n.peersetReportReject index) := by
  unfold peersetReportReject
  split
  · next hfind => exact .unknown hfind
  · next request hfind =>
    dsimp only
    split
    · next halive => exact .alive hfind halive
    · next hdead =>
      simpa [takeIncoming] using AnswersRequest.retired hfind hdead [] (.inl rfl)

def onPeersetMessage : Peerset.Message → Notifications
  | .connect set peer => n.touch peer set (.connect now)
  | .drop set peer => n.touch peer set .drop
  | .accept index => n.peersetReportAccept index
  | .reject index => n.peersetReportReject index

def onConnectionEstablished (c : ConnectionId) : Notifications :=
  (List.range n.numProtocols).foldl (fun n set => n.touch peer set (.connectionEstablished c)) n

def closeIn (n : Notifications) (c : ConnectionId) : List SetId → Notifications
  | [] => n
  | set :: sets =>
    match n.peers.get? (peer, set) with
    | none => n
    | some _ => closeIn (n.touch peer set (.connectionClosed now c)) c sets

def onConnectionClosed (c : ConnectionId) : Notifications :=
  closeIn now peer n c (List.range n.numProtocols)

def onDialFailure : Notifications :=
  (List.range n.numProtocols).foldl (fun n set => n.touch peer set (.dialFailure now)) n

def onConnectionHandlerEvent (c : ConnectionId) (event : NotifsHandlerOut) (ban : Instant) :
    Notifications :=
  n.touch peer event.index (.handlerEvent c event ban)

/-- A timer fires. -/
def onDelay (delayId : DelayId) : Notifications :=
  { n with delays := n.delays.erase (delayId, peer, set) }.touch peer set
    (.delayElapsed now delayId)

def popEvent : Notifications := { n with events := n.events.tail }

end Notifications

/-- The behaviour with the connections of each peer, the oldest first. -/
structure Driven where
  notifications : Notifications
  live : PeerId → List ConnectionId

/-- What can happen to the behaviour. -/
inductive NotificationsInput where
  | connectionEstablished (peer : PeerId) (c : ConnectionId)
  | connectionClosed (now : Instant) (peer : PeerId) (c : ConnectionId)
  | dialFailure (now : Instant) (peer : PeerId)
  | handlerEvent (peer : PeerId) (c : ConnectionId) (event : NotifsHandlerOut) (ban : Instant)
  | peersetMessage (now : Instant) (message : Peerset.Message)
  | delayElapsed (now : Instant) (delayId : DelayId) (peer : PeerId) (set : SetId)
  | disconnectPeer (now : Instant) (peer : PeerId) (set : SetId)
  | popEvent

namespace Driven

def start (numProtocols : ℕ) : Driven := ⟨.new numProtocols, fun _ => []⟩

variable (d : Driven)

/-- Connections are opened once and closed once, handlers speak for their own connection and
protocols, and timers fire that were started. -/
def Admissible : NotificationsInput → Prop
  | .connectionEstablished peer c => c ∉ d.live peer
  | .connectionClosed _ peer c => c ∈ d.live peer
  | .handlerEvent peer c event _ =>
    c ∈ d.live peer ∧ event.index < d.notifications.numProtocols
  | .delayElapsed _ delayId peer set => (delayId, peer, set) ∈ d.notifications.delays
  | .dialFailure .. | .peersetMessage .. | .disconnectPeer .. | .popEvent => True

instance : DecidablePred d.Admissible
  | .connectionEstablished .. | .connectionClosed .. | .handlerEvent .. | .delayElapsed ..
  | .dialFailure .. | .peersetMessage .. | .disconnectPeer .. | .popEvent => by
    dsimp only [Admissible]; infer_instance

def next : NotificationsInput → Driven
  | .connectionEstablished peer c =>
    { notifications := d.notifications.onConnectionEstablished peer c
      live := Function.update d.live peer (d.live peer ++ [c]) }
  | .connectionClosed now peer c =>
    { notifications := d.notifications.onConnectionClosed now peer c
      live := Function.update d.live peer ((d.live peer).erase c) }
  | .dialFailure now peer => { d with notifications := d.notifications.onDialFailure now peer }
  | .handlerEvent peer c event ban =>
    { d with notifications := d.notifications.onConnectionHandlerEvent peer c event ban }
  | .peersetMessage now message =>
    { d with notifications := d.notifications.onPeersetMessage now message }
  | .delayElapsed now delayId peer set =>
    { d with notifications := d.notifications.onDelay now peer set delayId }
  | .disconnectPeer now peer set =>
    { d with notifications := d.notifications.disconnectPeer now peer set }
  | .popEvent => { d with notifications := d.notifications.popEvent }

def Step (input : NotificationsInput) (d' : Driven) : Prop :=
  d.Admissible input ∧ d.next input = d'

end Driven

end SwarmHost.Substrate
