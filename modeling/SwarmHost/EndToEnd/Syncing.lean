import SwarmHost.Context.Filters
import SwarmHost.EndToEnd.Basic
import SwarmHost.Executor.Filters
import SwarmHost.Filter.Task

/-! # An interface with the default filters

The answers of the executor come from the default filters and their context. The
executor calls a function of the script that belongs to a command and then takes
the pending events of the context; if the function raises, the events stay where
they are. An announcement to forward that does not exist cannot be converted and
ends the task of the filter.
-/

namespace SwarmHost.EndToEnd

open Substrate

/-- What the scripts and the conversion of their events take from libraries. -/
structure Scripts where
  codec : Codec
  serializeResponse : List Proto.BlockData → Bytes
  /-- The text of an exception. -/
  message : PyError → String

section Executor

variable {env : Environment} (x : Scripts)

/-- Convert an event of the context; `none` if the conversion panics. -/
def Scripts.convert : PendingEvent → Option (ExecutorEvent (substrate env))
  | .connect peer => some (.connect peer)
  | .forward peers protocol notification =>
    notification.map fun payload => .forward peers protocol ⟨payload⟩
  | .sendRequest protocol peer request => some (.sendRequest peer protocol request)
  | .sendResponse peer response => some (.sendResponse peer (x.serializeResponse response))

abbrev Consultation (env : Environment) := Option (ExecutorAnswer (substrate env)) × Context

/-- Take the pending events after a function returned, unless it raised. -/
def Scripts.collect : Outcome → Consultation env
  | (.error e, ctx) => (some (.error (.executorError (.runtimeError (x.message e)))), ctx)
  | (.ok (), ctx) => ((ctx.poll.1.mapM x.convert).map .ok, ctx.poll.2)

/-- Call the function of a script that belongs to a command. The functions for protocols that are
opened or closed do nothing. -/
def Scripts.consult (tables : PyO3Executor (substrate env)) (ctx : Context) (now : Time)
    (order : List PeerId) : FilterCommand (substrate env) → Consultation env
  | .registerPeer peer _ => x.collect (ctx.handle x.codec (.registerPeer peer))
  | .discoverPeer peer => x.collect (ctx.handle x.codec (.discoverPeer peer now order))
  | .unregisterPeer peer => x.collect (ctx.handle x.codec (.unregisterPeer peer))
  | .injectNotification protocol peer notification =>
    match tables.code .notification protocol with
    | none => (some (.error (.executorError .filterDoesntExist)), ctx)
    | some _ => x.collect
        (ctx.handle x.codec (.injectNotification peer protocol notification.payload now))
  | .injectRequest protocol peer request =>
    match tables.code .requestResponse protocol with
    | none => (some (.error (.executorError .filterDoesntExist)), ctx)
    | some _ => x.collect (ctx.handle x.codec (.injectRequest protocol peer request.payload))
  | .injectResponse protocol peer response =>
    match tables.code .requestResponse protocol with
    | none => (some (.error (.executorError .filterDoesntExist)), ctx)
    | some _ => x.collect (ctx.handle x.codec (.injectResponse peer response.payload))
  | _ => x.collect (.ok (), ctx)

end Executor

/-- The tasks of an interface with the context of its scripts and the tables of its executor. -/
structure Synced (h : Host) where
  system : System h
  context : Context
  tables : PyO3Executor (substrate h.env)
  /-- The task of the filter has ended. -/
  ended : Bool

/-- A step of a task, or of another interface that stores a block in the common database. A turn of
the filter comes with the clock, the iteration order of the known peers and whether the interpreter
loads the code of an installation. -/
inductive SyncAction (h : Host) where
  | task (action : Action h)
  | filterCommand (now : Time) (order : List PeerId) (loads : Bool)
  | filterPoll
  | saveElsewhere (block : Proto.BlockData)

namespace Synced

variable {h : Host} (x : Scripts)

def start (h : Host) (overseer : Overseer (substrate h.env)) (now : Time) : Synced h :=
  ⟨.start h overseer, .new now, .new, false⟩

def queue (s : Synced h) : List (FilterCommand (substrate h.env)) :=
  (s.system.overseer.queue h.interface).drop s.system.taken

/-- The answer to a command. The interpreter only loads the code of an installation. -/
def answer (s : Synced h) (now : Time) (order : List PeerId) (loads : Bool)
    (command : FilterCommand (substrate h.env)) : Consultation h.env :=
  if s.system.filter.Consults (.command command) then
    x.consult s.tables s.context now order command
  else
    (some (if loads then .ok [] else .error (.executorError (.runtimeError ""))), s.context)

def takeCommand (s : Synced h) (command : FilterCommand (substrate h.env)) :
    Consultation h.env → Option (Synced h)
  | (some answer, context) =>
    (s.system.step (.filterCommand answer)).map fun system =>
      { s with system := system, context := context, tables := s.tables.after command answer }
  | (none, context) =>
    if s.system.outbox.isEmpty && !s.system.awaiting then
      some { s with
        system := { s.system with taken := s.system.taken + 1 }
        context := context
        ended := true }
    else none

def poll (s : Synced h) : Consultation h.env → Option (Synced h)
  | (some answer, context) =>
    (s.system.step (.filterPoll answer)).map fun system =>
      { s with system := system, context := context }
  | (none, context) =>
    if s.system.outbox.isEmpty && !s.system.awaiting then
      some { s with context := context, ended := true }
    else none

/-- A step of a task other than a turn of the filter. The overseer cannot send a command to a filter
whose task has ended. -/
def other (s : Synced h) : Action h → Option (Synced h)
  | .filterCommand _ | .filterPoll _ => none
  | action =>
    (s.system.step action).bind fun system =>
      if s.ended ∧ (system.overseer.queue h.interface).length ≠
          (s.system.overseer.queue h.interface).length then none
      else some { s with system := system }

def step (s : Synced h) : SyncAction h → Option (Synced h)
  | .task action => s.other action
  | .filterCommand now order loads =>
    match s.queue with
    | command :: _ =>
      if s.ended then none else s.takeCommand command (s.answer x now order loads command)
    | [] => none
  | .filterPoll => if s.ended then none else s.poll (x.collect (.ok (), s.context))
  | .saveElsewhere block => some { s with context := s.context.saveBlockToDatabase block }

def Step (s : Synced h) (action : SyncAction h) (s' : Synced h) : Prop := s.step x action = some s'

end Synced

end SwarmHost.EndToEnd
