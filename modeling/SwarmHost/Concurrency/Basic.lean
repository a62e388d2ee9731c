import SwarmHost.EndToEnd.Basic
import SwarmHost.Overseer.Loop

/-! # The tasks of all interfaces

One overseer, and for each interface a filter, the event loop of the network and
the task that forwards its events, connected by channels of the same size. A task
that finds a channel full waits for room, and a filter that asks its network for a
request waits for the reply. The overseer handles an event in one go up to the
commands it sends, which it then sends one by one.
-/

namespace SwarmHost.Concurrency

open Substrate EndToEnd

/-- The fixed surroundings: the outside of the backend, the executor and the size of the
channels. -/
structure Setting where
  env : Environment
  executor : Executor (substrate env)
  room : ℕ

/-- The tasks and channels of one interface. -/
structure Station (env : Environment) where
  network : Network
  /-- What the network does before it takes the next input. -/
  tasks : List Task
  /-- From the network to the forwarder. -/
  events : List NetworkEvent
  /-- The event that the forwarder holds. -/
  forwarding : Option (InterfaceEvent (substrate env))
  /-- From the forwarder to the overseer. -/
  stream : List (InterfaceEvent (substrate env))
  /-- From the overseer to the filter. -/
  queue : List (FilterCommand (substrate env))
  filter : Filter (substrate env)
  /-- What the filter does before it takes the next input. -/
  outbox : List (FilterEffect (substrate env))
  /-- The filter waits for the identifier of the request it sent. -/
  awaiting : Bool
  /-- From the filter to the network. -/
  commands : List Command

namespace Station

variable {env : Environment}

/-- The tasks right after the interface was created. -/
def new (i : ℕ) : Station env where
  network := .new
  tasks := []
  events := []
  forwarding := none
  stream := []
  queue := []
  filter := .new i
  outbox := []
  awaiting := false
  commands := []

variable (room : ℕ) (st : Station env)

def takeInput (input : NetworkInput) : Option (Station env) :=
  match st.tasks with
  | [] =>
    let (network, tasks, _) := st.network.receive env.digest input
    some { st with network := network, tasks := tasks }
  | _ => none

/-- The network takes the next command; it replies to a request at once. -/
def takeCommand : Option (Station env) :=
  match st.commands with
  | [] => none
  | command :: commands =>
    (st.takeInput (.command command)).map fun st' =>
      match command with
      | .sendRequest .. => { st' with commands := commands, awaiting := false }
      | _ => { st' with commands := commands }

def performTask : Option (Station env) :=
  match st.tasks with
  | [] => none
  | .emit event :: tasks =>
    if st.events.length < room then
      some { st with events := st.events ++ [event], tasks := tasks }
    else none
  | .remember requestId digest channel :: tasks =>
    some { st with network := st.network.remember requestId digest channel, tasks := tasks }

def takeEvent (i : ℕ) : Option (Station env) :=
  match st.forwarding, st.events with
  | none, event :: events =>
    some { st with forwarding := some (toInterfaceEvent i event), events := events }
  | _, _ => none

def reportEvent : Option (Station env) :=
  match st.forwarding with
  | some event =>
    if st.stream.length < room then
      some { st with forwarding := none, stream := st.stream ++ [event] }
    else none
  | none => none

def filterTurn (turn : Filter.Turn (substrate env)) : Option (Station env) :=
  match st.awaiting, st.outbox with
  | false, [] =>
    some { st with filter := st.filter.next turn, outbox := st.filter.effects turn }
  | _, _ => none

def takeFilterCommand (answer : ExecutorAnswer (substrate env)) : Option (Station env) :=
  match st.queue with
  | [] => none
  | command :: queue =>
    (st.filterTurn ⟨.command command, answer⟩).map fun st' => { st' with queue := queue }

def sendCommand (command : Command) (awaits : Bool) : Option (Station env) :=
  if st.commands.length < room then
    some { st with
      outbox := st.outbox.tail
      commands := st.commands ++ [command]
      awaiting := awaits }
  else none

end Station

/-- The state of all tasks. -/
structure Mesh (env : Environment) where
  overseer : Overseer (substrate env)
  /-- The commands that the overseer sends before it takes the next event. -/
  sends : List (ℕ × FilterCommand (substrate env))
  /-- From the filters to the overseer. -/
  connects : List (ℕ × PeerId)
  station : ℕ → Station env

/-- The step of one of the tasks. A step of the overseer comes with the commands it sends, in the
order in which it sends them. -/
inductive Action (env : Environment) where
  | request (event : OverseerEvent (substrate env))
      (sends : List (ℕ × FilterCommand (substrate env)))
  | takeEvent (i : ℕ) (sends : List (ℕ × FilterCommand (substrate env)))
  | takeConnect (sends : List (ℕ × FilterCommand (substrate env)))
  | send
  | inboundRequest (i : ℕ) (peer : PeerId) (protocol : ProtocolName) (payload : Bytes)
      (channel : ℕ)
  | responseResolved (i position : ℕ) (result : Option Bytes)
  | swarm (i : ℕ) (event : SwarmEvent)
  | command (i : ℕ)
  | task (i : ℕ)
  | forward (i : ℕ)
  | report (i : ℕ)
  | filterCommand (i : ℕ) (answer : ExecutorAnswer (substrate env))
  | filterPoll (i : ℕ) (answer : ExecutorAnswer (substrate env))
  | perform (i : ℕ)

namespace Mesh

variable {env : Environment}

/-- The state in which the overseer starts, without interfaces. -/
def start (env : Environment) (parameters : Parameters) : Mesh env where
  overseer := .new parameters
  sends := []
  connects := []
  station := Station.new

/-- Replace the tasks of one interface. -/
def set (s : Mesh env) (i : ℕ) (st : Station env) : Mesh env :=
  { s with station := Function.update s.station i st }

def addressed (i : ℕ) (sends : List (ℕ × FilterCommand (substrate env))) :
    List (FilterCommand (substrate env)) :=
  (sends.filter (·.1 = i)).map Prod.snd

def Oversees (h : Setting) (s : Mesh h.env) (call : Call (substrate h.env))
    (sends : List (ℕ × FilterCommand (substrate h.env))) (s' : Mesh h.env) : Prop :=
  s.sends = [] ∧ ∃ overseer, Overseer.Step h.executor s.overseer call overseer ∧
    (∀ i, overseer.queue i = s.overseer.queue i ++ addressed i sends) ∧
    s' = { s with overseer := overseer, sends := sends }

/-- The overseer sends the next command. -/
def deliver (room : ℕ) (s : Mesh env) : Option (Mesh env) :=
  match s.sends with
  | [] => none
  | (i, command) :: sends =>
    if (s.station i).queue.length < room then
      some { s.set i { s.station i with queue := (s.station i).queue ++ [command] } with
        sends := sends }
    else none

def perform (room : ℕ) (s : Mesh env) (i : ℕ) : Option (Mesh env) :=
  match (s.station i).awaiting, (s.station i).outbox with
  | false, .connect peer :: outbox =>
    if s.connects.length < room then
      some { s.set i { s.station i with outbox := outbox } with
        connects := s.connects ++ [(i, peer)] }
    else none
  | false, effect :: outbox =>
    match toCommand effect with
    | none => some (s.set i { s.station i with outbox := outbox })
    | some command => ((s.station i).sendCommand room command (awaits effect)).map (s.set i)
  | _, _ => none

/-- A task of an interface takes a step. -/
def At (s : Mesh env) (i : ℕ) (f : Station env → Option (Station env)) (s' : Mesh env) : Prop :=
  i ∈ s.overseer.interfaces ∧ (f (s.station i)).map (s.set i) = some s'

/-- The steps of the tasks. The tasks of an interface run once the interface is created, and the
overseer polls its stream from then on. -/
def Step (h : Setting) (s : Mesh h.env) : Action h.env → Mesh h.env → Prop
  | .request event sends, s' => s.Oversees h event.call sends s'
  | .takeEvent i sends, s' => i ∈ s.overseer.interfaces ∧ ∃ event stream,
    (s.station i).stream = event :: stream ∧
      (s.set i { s.station i with stream := stream }).Oversees h (.interfaceEvent event) sends s'
  | .takeConnect sends, s' => ∃ i peer connects, s.connects = (i, peer) :: connects ∧
      Oversees h { s with connects := connects } (.connectToPeer i peer) sends s'
  | .send, s' => s.deliver h.room = some s'
  | .inboundRequest i peer protocol payload channel, s' =>
    s.At i (·.takeInput (.inboundRequest peer protocol payload channel)) s'
  | .responseResolved i position result, s' =>
    s.At i (·.takeInput (.responseResolved position result)) s'
  | .swarm i event, s' => s.At i (·.takeInput (.swarm event)) s'
  | .command i, s' => s.At i (·.takeCommand) s'
  | .task i, s' => s.At i (·.performTask h.room) s'
  | .forward i, s' => s.At i (·.takeEvent i) s'
  | .report i, s' => s.At i (·.reportEvent h.room) s'
  | .filterCommand i answer, s' => s.At i (·.takeFilterCommand answer) s'
  | .filterPoll i answer, s' => s.At i (·.filterTurn ⟨.poll, answer⟩) s'
  | .perform i, s' => i ∈ s.overseer.interfaces ∧ s.perform h.room i = some s'

end Mesh

end SwarmHost.Concurrency
