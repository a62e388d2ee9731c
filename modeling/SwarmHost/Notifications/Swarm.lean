import SwarmHost.Notifications.Log

/-! # The behaviour and the handlers together

Every connection has a handler. Commands of the behaviour travel to it and its
events travel back, each in the order in which they were sent, and anything may
happen while they are on their way. With the connection its handler and what is
on the way are gone.
-/

namespace SwarmHost.Substrate

/-- The handler of a connection, with what is on the way to it and from it. -/
structure Link where
  handler : NotifsHandler
  commands : List NotifsHandlerIn
  events : List NotifsHandlerOut

def ConnectionHandlerEvent.custom? : ConnectionHandlerEvent → Option NotifsHandlerOut
  | .custom event => some event
  | .outboundSubstreamRequest .. | .close => none

namespace Link

def new (peer : PeerId) (numProtocols : ℕ) : Link := ⟨.new peer numProtocols, [], []⟩

variable (l : Link)

def handle (input : HandlerInput) : Link where
  handler := (l.handler.handle input).2
  commands := l.commands
  events := l.events ++ ((l.handler.handle input).1.bind (·.custom?)).toList

/-- The next command arrives. -/
def receive (handshake : Bytes) : Link :=
  match l.commands with
  | [] => l
  | command :: commands => { l with commands := commands }.handle (.command handshake command)

end Link

structure Swarm where
  logged : Logged
  links : PeerId × ConnectionId → Link
  /-- The connections that were ever established. -/
  known : List (PeerId × ConnectionId)

inductive SwarmInput where
  /-- The behaviour is called, but not for an event of a handler. -/
  | call (input : NotificationsInput)
  /-- Something happens to a handler, but no command arrives. -/
  | handle (peer : PeerId) (c : ConnectionId) (input : HandlerInput)
  /-- A command arrives at a handler. -/
  | command (peer : PeerId) (c : ConnectionId) (handshake : Bytes)
  /-- An event of a handler arrives at the behaviour. -/
  | event (peer : PeerId) (c : ConnectionId) (ban : Instant)

def HandlerInput.isCommand : HandlerInput → Bool
  | .command .. => true
  | _ => false

def NotificationsInput.isHandlerEvent : NotificationsInput → Bool
  | .handlerEvent .. => true
  | _ => false

namespace Swarm

def start (numProtocols : ℕ) : Swarm where
  logged := .start numProtocols
  links := fun x => .new x.1 numProtocols
  known := []

variable (s : Swarm)

def driven : Driven := s.logged.driven

def numProtocols : ℕ := s.driven.notifications.numProtocols

def entry (x : PeerId × SetId) : Option PeerState := s.driven.notifications.peers.get? x

def call? : SwarmInput → Option NotificationsInput
  | .call input => some input
  | .event peer c ban => (s.links (peer, c)).events.head?.map (.handlerEvent peer c · ban)
  | .handle .. | .command .. => none

/-- The connections after a call of the behaviour: a new one gets a handler, and a command that the
swarm takes from the behaviour is on its way. -/
def linksAfter : NotificationsInput → PeerId × ConnectionId → Link
  | .connectionEstablished peer c =>
    Function.update s.links (peer, c) (.new peer s.numProtocols)
  | .popEvent =>
    match s.driven.notifications.events.head? with
    | some (.notifyHandler peer c command) =>
      Function.update s.links (peer, c)
        { s.links (peer, c) with commands := (s.links (peer, c)).commands ++ [command] }
    | _ => s.links
  | _ => s.links

def links' : SwarmInput → PeerId × ConnectionId → Link
  | .call input => s.linksAfter input
  | .handle peer c input =>
    Function.update s.links (peer, c) ((s.links (peer, c)).handle input)
  | .command peer c handshake =>
    Function.update s.links (peer, c) ((s.links (peer, c)).receive handshake)
  | .event peer c _ =>
    Function.update s.links (peer, c)
      { s.links (peer, c) with events := (s.links (peer, c)).events.tail }

def next (input : SwarmInput) : Swarm where
  logged := (s.call? input).elim s.logged s.logged.next
  links := s.links' input
  known := match input with
    | .call (.connectionEstablished peer c) => (peer, c) :: s.known
    | _ => s.known

/-- Numbers of connections are not used twice, and only a connection that is there does
something. -/
def Admissible : SwarmInput → Prop
  | .call input => s.driven.Admissible input ∧ input.isHandlerEvent = false ∧
    match input with
    | .connectionEstablished peer c => (peer, c) ∉ s.known
    | _ => True
  | .handle peer c input => c ∈ s.driven.live peer ∧ input.isCommand = false
  | .command peer c _ => c ∈ s.driven.live peer ∧ (s.links (peer, c)).commands ≠ []
  | .event peer c _ => c ∈ s.driven.live peer ∧
    ∃ e ∈ (s.links (peer, c)).events.head?, e.index < s.numProtocols

instance : DecidablePred s.Admissible
  | .call (.connectionEstablished ..) | .call (.connectionClosed ..) | .call (.handlerEvent ..)
  | .call (.delayElapsed ..) | .call (.dialFailure ..) | .call (.peersetMessage ..)
  | .call (.disconnectPeer ..) | .call .popEvent | .handle .. | .command .. | .event .. => by
    dsimp only [Admissible]; infer_instance

def Step (input : SwarmInput) (s' : Swarm) : Prop := s.Admissible input ∧ s.next input = s'

variable {s} {s' : Swarm} {input : SwarmInput}

theorem Step.logged (h : s.Step input s') :
    s.call? input = none ∧ s'.logged = s.logged ∨
      ∃ i, s.call? input = some i ∧ s.logged.Step i s'.logged := by
  obtain ⟨hadm, rfl⟩ := h
  cases input with
  | call i => exact .inr ⟨i, rfl, hadm.1, rfl⟩
  | handle | command => exact .inl ⟨rfl, rfl⟩
  | event peer c ban =>
    obtain ⟨hc, e, he, hindex⟩ := hadm
    have he : (s.links (peer, c)).events.head? = some e := he
    refine .inr ⟨.handlerEvent peer c e ban, ?_, ⟨hc, hindex⟩, ?_⟩
    · simp [call?, he]
    · simp [next, call?, he]

end Swarm

end SwarmHost.Substrate
