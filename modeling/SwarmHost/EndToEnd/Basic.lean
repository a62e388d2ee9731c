import SwarmHost.Filter.Requests
import SwarmHost.Network.Basic
import SwarmHost.Overseer.Queues

/-! # One interface from the network to the filter and back

The event loop of the network, the task that forwards its events, the overseer
and the filter run concurrently and talk over bounded channels. A system state
holds all of them with the messages in flight, and a log of the requests that
were received, the response events, and what was delivered to the requesters.
-/

namespace SwarmHost.EndToEnd

open Substrate

/-- The fixed surroundings of one interface. -/
structure Host where
  env : Environment
  executor : Executor (substrate env)
  interface : ℕ
  /-- The sizes of the event channel, the event stream and the command channel. -/
  eventRoom : ℕ
  streamRoom : ℕ
  commandRoom : ℕ

/-- An inbound request: the peer that sent it and the identifier it was given. -/
structure Inbound where
  peer : PeerId
  requestId : ℕ
  deriving DecidableEq

/-- The state of the tasks around one interface. -/
structure System (h : Host) where
  network : Network
  /-- What the network does before it takes the next input. -/
  tasks : List Task
  events : List NetworkEvent
  /-- The event that the forwarding task holds. -/
  forwarding : Option (InterfaceEvent (substrate h.env))
  stream : List (InterfaceEvent (substrate h.env))
  overseer : Overseer (substrate h.env)
  /-- The number of commands the filter has taken from its queue. -/
  taken : ℕ
  filter : Filter (substrate h.env)
  /-- What the filter does before it takes the next input. -/
  outbox : List (FilterEffect (substrate h.env))
  /-- A sink waits for the identifier of the request it sent. -/
  awaiting : Bool
  commands : List Command
  /-- The inbound requests so far; the position of a request is its response channel. -/
  received : List Inbound
  /-- The identifiers handed out so far. -/
  issued : List ℕ
  /-- The peers and payloads of the response events of the executor so far. -/
  produced : List (PeerId × Bytes)
  /-- The identifiers of the response commands handled so far. -/
  answered : List ℕ
  /-- The payloads sent on the response channels so far. -/
  delivered : List (ℕ × Bytes)

/-- The step of one of the tasks. -/
inductive Action (h : Host) where
  | inboundRequest (peer : PeerId) (protocol : ProtocolName) (payload : Bytes)
  | responseResolved (position : ℕ) (result : Option Bytes)
  | swarm (event : SwarmEvent)
  | command
  | task
  | forward
  | report
  | overseer
  /-- The overseer handles a call that does not come from this interface. -/
  | otherCall (call : Call (substrate h.env))
  | filterCommand (answer : ExecutorAnswer (substrate h.env))
  | filterPoll (answer : ExecutorAnswer (substrate h.env))
  | perform

section Translation

variable {env : Environment}

def toInterfaceEvent (i : ℕ) : NetworkEvent → InterfaceEvent (substrate env)
  | .peerConnected peer => .peerConnected i peer [] ⟨peer⟩
  | .peerDisconnected peer => .peerDisconnected i peer
  | .protocolOpened peer protocol => .connectionUpgraded i peer (.protocolOpened [protocol])
  | .protocolClosed peer protocol => .connectionUpgraded i peer (.protocolClosed [protocol])
  | .notificationReceived peer protocol notification =>
    .messageReceived i peer protocol ⟨notification⟩
  | .requestReceived peer protocol requestId request =>
    .requestReceived i peer protocol ⟨requestId, request⟩
  | .responseReceived peer protocol requestId response =>
    .responseReceived i peer protocol requestId ⟨requestId, response⟩
  | .peerDiscovered peer => .peerDiscovered peer

def toCommand : FilterEffect (substrate env) → Option Command
  | .sendPacket _ sink protocol notification =>
    some (.sendNotification sink.peer protocol notification.payload)
  | .sendRequest _ sink protocol payload => some (.sendRequest sink.peer protocol payload)
  | .sendResponse _ sink requestId payload => some (.sendResponse sink.peer requestId payload)
  | .connect _ | .heuristics _ => none

def awaits : FilterEffect (substrate env) → Bool
  | .sendRequest .. => true
  | _ => false

def concerns (i : ℕ) : InterfaceEvent (substrate env) → Bool
  | .peerConnected j .. | .peerDisconnected j _ | .connectionUpgraded j .. | .messageReceived j ..
  | .requestReceived j .. | .responseReceived j .. => j = i
  | .peerDiscovered _ => false

def foreign (i : ℕ) : Call (substrate env) → Bool
  | .interfaceEvent event => !concerns i event
  | _ => true

def responses (events : List (ExecutorEvent (substrate env))) : List (PeerId × Bytes) :=
  events.filterMap fun
    | .sendResponse peer payload => some (peer, payload)
    | _ => none

end Translation

/-- The payloads sent on response channels. -/
def deliveries (effects : List NetworkEffect) : List (ℕ × Bytes) :=
  effects.filterMap fun
    | .respond channel response => some (channel, response)
    | _ => none

namespace System

variable {h : Host}

def start (h : Host) (overseer : Overseer (substrate h.env)) : System h where
  network := .new
  tasks := []
  events := []
  forwarding := none
  stream := []
  overseer := overseer
  taken := 0
  filter := .new h.interface
  outbox := []
  awaiting := false
  commands := []
  received := []
  issued := []
  produced := []
  answered := []
  delivered := []

def takeInput (s : System h) (input : NetworkInput) : Option (System h) :=
  match s.tasks with
  | [] =>
    let (network, tasks, effects) := s.network.receive h.env.digest input
    some { s with
      network := network
      tasks := tasks
      delivered := s.delivered ++ deliveries effects }
  | _ => none

/-- The network takes an inbound request with a fresh response channel. -/
def takeRequest (s : System h) (peer : PeerId) (protocol : ProtocolName) (payload : Bytes) :
    Option (System h) :=
  (s.takeInput (.inboundRequest peer protocol payload s.received.length)).map fun s' =>
    { s' with
      received := s.received ++ [⟨peer, s.network.nextRequestId⟩]
      issued := s.issued ++ [s.network.nextRequestId] }

def takeCommand (s : System h) : Option (System h) :=
  match s.commands with
  | [] => none
  | command :: commands =>
    (s.takeInput (.command command)).map fun s' =>
      match command with
      | .sendRequest .. =>
        { s' with
          commands := commands
          issued := s.issued ++ [s.network.nextRequestId]
          awaiting := false }
      | .sendResponse _ requestId _ =>
        { s' with commands := commands, answered := s.answered ++ [requestId] }
      | _ => { s' with commands := commands }

def performTask (s : System h) : Option (System h) :=
  match s.tasks with
  | [] => none
  | .emit event :: tasks =>
    if s.events.length < h.eventRoom then
      some { s with events := s.events ++ [event], tasks := tasks }
    else none
  | .remember requestId digest channel :: tasks =>
    some { s with network := s.network.remember requestId digest channel, tasks := tasks }

def takeEvent (s : System h) : Option (System h) :=
  match s.forwarding, s.events with
  | none, event :: events =>
    some { s with forwarding := some (toInterfaceEvent h.interface event), events := events }
  | _, _ => none

def reportEvent (s : System h) : Option (System h) :=
  match s.forwarding with
  | some event =>
    if s.stream.length < h.streamRoom then
      some { s with forwarding := none, stream := s.stream ++ [event] }
    else none
  | none => none

def oversee (s : System h) (call : Call (substrate h.env)) : Option (System h) :=
  (s.overseer.handle h.executor call).map fun (_, overseer) => { s with overseer := overseer }

def takeInterfaceEvent (s : System h) : Option (System h) :=
  match s.stream with
  | [] => none
  | event :: stream =>
    (s.oversee (.interfaceEvent event)).map fun s' => { s' with stream := stream }

def filterTurn (s : System h) (turn : Filter.Turn (substrate h.env)) : Option (System h) :=
  if s.outbox.isEmpty && !s.awaiting then
    some { s with
      filter := s.filter.next turn
      outbox := s.filter.effects turn
      produced := s.produced ++ responses (s.filter.events turn) }
  else none

def takeFilterCommand (s : System h) (answer : ExecutorAnswer (substrate h.env)) :
    Option (System h) :=
  match (s.overseer.queue h.interface)[s.taken]? with
  | none => none
  | some command =>
    (s.filterTurn ⟨.command command, answer⟩).map fun s' => { s' with taken := s.taken + 1 }

def performEffect (s : System h) : Option (System h) :=
  match s.awaiting, s.outbox with
  | false, effect :: outbox =>
    match toCommand effect with
    | none => some { s with outbox := outbox }
    | some command =>
      if s.commands.length < h.commandRoom then
        some { s with
          outbox := outbox
          commands := s.commands ++ [command]
          awaiting := awaits effect }
      else none
  | _, _ => none

/-- One step of the system; `none` if the task is not ready. -/
def step (s : System h) : Action h → Option (System h)
  | .inboundRequest peer protocol payload => s.takeRequest peer protocol payload
  | .responseResolved position result => s.takeInput (.responseResolved position result)
  | .swarm event => s.takeInput (.swarm event)
  | .command => s.takeCommand
  | .task => s.performTask
  | .forward => s.takeEvent
  | .report => s.reportEvent
  | .overseer => s.takeInterfaceEvent
  | .otherCall call => if foreign h.interface call then s.oversee call else none
  | .filterCommand answer => s.takeFilterCommand answer
  | .filterPoll answer => s.filterTurn ⟨.poll, answer⟩
  | .perform => s.performEffect

def Step (s : System h) (action : Action h) (s' : System h) : Prop := s.step action = some s'

/-! What each step asks of the state and what it changes. -/

section Inversion

variable {s s' : System h}

theorem takeInput_eq_some {input : NetworkInput} (hs : s.takeInput input = some s') :
    s.tasks = [] ∧
      s' = { s with
        network := (s.network.receive h.env.digest input).1
        tasks := (s.network.receive h.env.digest input).2.1
        delivered := s.delivered ++ deliveries (s.network.receive h.env.digest input).2.2 } := by
  unfold takeInput at hs
  split at hs
  · cases hs
    exact ⟨‹_›, rfl⟩
  · cases hs

theorem takeRequest_eq_some {peer : PeerId} {protocol : ProtocolName} {payload : Bytes}
    (hs : s.takeRequest peer protocol payload = some s') :
    s.tasks = [] ∧
      s' = { s with
        network := { s.network with nextRequestId := s.network.nextRequestId + 1 }
        tasks := [.emit (.requestReceived peer protocol s.network.nextRequestId payload),
          .remember s.network.nextRequestId (h.env.digest payload) s.received.length]
        received := s.received ++ [⟨peer, s.network.nextRequestId⟩]
        issued := s.issued ++ [s.network.nextRequestId] } := by
  obtain ⟨t, hin, rfl⟩ := Option.map_eq_some_iff.mp hs
  obtain ⟨ht, rfl⟩ := takeInput_eq_some hin
  refine ⟨ht, ?_⟩
  simp [Network.receive, Network.takeRequestId, deliveries]

theorem performTask_eq_some (hs : s.performTask = some s') :
    (∃ event tasks, s.tasks = .emit event :: tasks ∧ s.events.length < h.eventRoom ∧
        s' = { s with events := s.events ++ [event], tasks := tasks }) ∨
      ∃ id digest channel tasks, s.tasks = .remember id digest channel :: tasks ∧
        s' = { s with network := s.network.remember id digest channel, tasks := tasks } := by
  unfold performTask at hs
  split at hs
  · cases hs
  · next event tasks ht =>
    obtain ⟨hroom, hs⟩ := Option.ite_none_right_eq_some.mp hs
    exact .inl ⟨event, tasks, ht, hroom, (Option.some.inj hs).symm⟩
  · next id digest channel tasks ht =>
    exact .inr ⟨id, digest, channel, tasks, ht, (Option.some.inj hs).symm⟩

theorem takeEvent_eq_some (hs : s.takeEvent = some s') :
    ∃ event events, s.forwarding = none ∧ s.events = event :: events ∧
      s' = { s with
        forwarding := some (toInterfaceEvent h.interface event), events := events } := by
  unfold takeEvent at hs
  split at hs
  · next event events hf he => exact ⟨event, events, hf, he, (Option.some.inj hs).symm⟩
  · cases hs

theorem reportEvent_eq_some (hs : s.reportEvent = some s') :
    ∃ event, s.forwarding = some event ∧ s.stream.length < h.streamRoom ∧
      s' = { s with forwarding := none, stream := s.stream ++ [event] } := by
  unfold reportEvent at hs
  split at hs
  · next event hf =>
    obtain ⟨hroom, hs⟩ := Option.ite_none_right_eq_some.mp hs
    exact ⟨event, hf, hroom, (Option.some.inj hs).symm⟩
  · cases hs

theorem takeInterfaceEvent_eq_some (hs : s.takeInterfaceEvent = some s') :
    ∃ event stream t, s.stream = event :: stream ∧
      s.oversee (.interfaceEvent event) = some t ∧ s' = { t with stream := stream } := by
  unfold takeInterfaceEvent at hs
  split at hs
  · cases hs
  · next event stream hstream =>
    obtain ⟨t, ht, rfl⟩ := Option.map_eq_some_iff.mp hs
    exact ⟨event, stream, t, hstream, ht, rfl⟩

theorem filterTurn_eq_some {turn : Filter.Turn (substrate h.env)}
    (hs : s.filterTurn turn = some s') : s.outbox = [] ∧
      s' = { s with
        filter := s.filter.next turn
        outbox := s.filter.effects turn
        produced := s.produced ++ responses (s.filter.events turn) } := by
  unfold filterTurn at hs
  split at hs
  · next hready =>
    rw [Bool.and_eq_true, List.isEmpty_iff] at hready
    exact ⟨hready.1, (Option.some.inj hs).symm⟩
  · cases hs

theorem takeFilterCommand_eq_some {answer : ExecutorAnswer (substrate h.env)}
    (hs : s.takeFilterCommand answer = some s') :
    ∃ command t, (s.overseer.queue h.interface)[s.taken]? = some command ∧
      s.filterTurn ⟨.command command, answer⟩ = some t ∧
      s' = { t with taken := s.taken + 1 } := by
  unfold takeFilterCommand at hs
  split at hs
  · cases hs
  · next command hcommand =>
    obtain ⟨t, ht, rfl⟩ := Option.map_eq_some_iff.mp hs
    exact ⟨command, t, hcommand, ht, rfl⟩

theorem performEffect_eq_some (hs : s.performEffect = some s') :
    ∃ effect outbox, s.awaiting = false ∧ s.outbox = effect :: outbox ∧
      (toCommand effect = none ∧ s' = { s with outbox := outbox } ∨
        ∃ command, toCommand effect = some command ∧ s.commands.length < h.commandRoom ∧
          s' = { s with
            outbox := outbox
            commands := s.commands ++ [command]
            awaiting := awaits effect }) := by
  unfold performEffect at hs
  split at hs
  · next effect outbox hw ho =>
    refine ⟨effect, outbox, hw, ho, ?_⟩
    cases hcommand : toCommand effect with
    | none =>
      rw [hcommand] at hs
      exact .inl ⟨rfl, (Option.some.inj hs).symm⟩
    | some command =>
      rw [hcommand] at hs
      obtain ⟨hroom, hs⟩ := Option.ite_none_right_eq_some.mp hs
      exact .inr ⟨command, rfl, hroom, (Option.some.inj hs).symm⟩
  · cases hs

end Inversion

end System

end SwarmHost.EndToEnd
