import SwarmHost.Executor.Conversion
import SwarmHost.Filter.Basic
import SwarmHost.Runs.Basic

/-! # The task of a filter and its script

The task takes commands from its channel and polls its script from time to time.
What the script returns is converted before the filter is told about it; if the
conversion panics then the task ends, its channel is closed, and the next command
sent through the handle of the filter panics in the overseer.
-/

namespace SwarmHost

open Python ExecutorEvents

/-- A filter, once its task has not panicked, and the commands that wait in its channel. -/
structure FilterTask (T : NetworkBackend) where
  filter : Option (Filter T)
  commands : List (FilterCommand T)

/-- Send a command through the handle of the filter; `none` if the channel is closed. -/
def FilterTask.send {T : NetworkBackend} (t : FilterTask T) (command : FilterCommand T) :
    Option (FilterTask T) :=
  if t.filter.isSome then some { t with commands := t.commands ++ [command] } else none

/-- The filter runs, and whatever command is sent next arrives. -/
def FilterTask.Serves {T : NetworkBackend} (t : FilterTask T) : Prop :=
  t.filter.isSome ∧ ∀ command, (t.send command).isSome

/-- What happens to a filter and its channel. A turn comes with what the script returned, or with
the error of the executor, if the script is called in it. -/
inductive TaskAction (T : NetworkBackend) where
  | send (command : FilterCommand T)
  | takeCommand (answer : Except Error PyValue)
  | poll (answer : Except Error PyValue)

/-- The filter calls its script for an input and converts what it returns. -/
def Filter.Consults {T : NetworkBackend} (f : Filter T) : FilterInput T → Prop
  | .command (.registerPeer peer _) => peer ∉ f.peers
  | .command (.unregisterPeer peer) | .command (.protocolOpened peer _)
  | .command (.protocolClosed peer _) => peer ∈ f.peers
  | .command (.installNotificationFilter ..) | .command (.installRequestResponseFilter ..) => False
  | .command (.discoverPeer _) | .command (.injectNotification ..) | .command (.injectRequest ..)
  | .command (.injectResponse ..) | .poll => True

instance {T : NetworkBackend} (f : Filter T) (input : FilterInput T) :
    Decidable (f.Consults input) := by
  cases input with
  | poll => exact .isTrue trivial
  | command command => cases command <;> unfold Filter.Consults <;> infer_instance

variable {env : Substrate.Environment} (A : Substrate.Addresses) (message : PyErr → String)

def convertAnswer : Except Error PyValue → Option (ExecutorAnswer (substrate env))
  | .error error => some (.error error)
  | .ok value =>
    (extract A value).run.map (·.mapError fun e => .executorError (.runtimeError (message e)))

/-- One turn of the task; `none` if it panics. -/
def Filter.turn (f : Filter (substrate env)) (answer : Except Error PyValue)
    (input : FilterInput (substrate env)) : Option (Filter (substrate env)) :=
  if f.Consults input then
    (convertAnswer A message answer).map fun answer => (f.handle answer input).2.1
  else some (f.handle (answer.map fun _ => []) input).2.1

namespace FilterTask

/-- One action; `none` if it is not possible. -/
def next (t : FilterTask (substrate env)) :
    TaskAction (substrate env) → Option (FilterTask (substrate env))
  | .send command => t.send command
  | .takeCommand answer =>
    match t.filter, t.commands with
    | some f, command :: commands => some ⟨f.turn A message answer (.command command), commands⟩
    | _, _ => none
  | .poll answer => t.filter.map fun f => ⟨f.turn A message answer .poll, t.commands⟩

def Step (t : FilterTask (substrate env)) (action : TaskAction (substrate env))
    (t' : FilterTask (substrate env)) : Prop :=
  t.next A message action = some t'

/-- If the action converts a value then the value has the shape of a list of events. -/
def WellShaped (t : FilterTask (substrate env)) : TaskAction (substrate env) → Prop
  | .send _ | .takeCommand (.error _) | .poll (.error _) => True
  | .takeCommand (.ok value) => ∀ f ∈ t.filter, ∀ command ∈ t.commands.head?,
    f.Consults (.command command) → Converts A value
  | .poll (.ok value) => Converts A value

variable {A message}

theorem serves_iff {t : FilterTask (substrate env)} : t.Serves ↔ t.filter.isSome := by
  constructor
  · exact fun h => h.1
  · intro h
    exact ⟨h, fun command => by simp [send, h]⟩

theorem isSome_convertAnswer_iff {value : PyValue} :
    (convertAnswer A message (.ok value) : Option (ExecutorAnswer (substrate env))).isSome ↔
      Converts A value := by
  have hsafe : (extract A value : PyResult (List (ExecutorEvent (substrate env)))).Safe ↔
      Converts A value := safe_extract_iff
  rw [← hsafe]
  simp [convertAnswer, PyResult.Safe]

theorem isSome_turn_iff {f : Filter (substrate env)} {value : PyValue}
    {input : FilterInput (substrate env)} :
    (f.turn A message (.ok value) input).isSome ↔ (f.Consults input → Converts A value) := by
  unfold Filter.turn
  split
  · next h =>
    rw [Option.isSome_map, isSome_convertAnswer_iff]
    exact ⟨fun hconverts _ => hconverts, fun hconverts => hconverts h⟩
  · next h => exact ⟨fun _ hconsults => absurd hconsults h, fun _ => rfl⟩

theorem isSome_turn_error (f : Filter (substrate env)) (error : Error)
    (input : FilterInput (substrate env)) : (f.turn A message (.error error) input).isSome := by
  unfold Filter.turn
  split <;> rfl

/-- A filter that runs goes on running exactly if the value it converts has the shape. -/
theorem isSome_step_iff {t t' : FilterTask (substrate env)} {action : TaskAction (substrate env)}
    (hstep : Step A message t action t') (ht : t.filter.isSome) :
    t'.filter.isSome ↔ t.WellShaped A action := by
  obtain ⟨f, hf⟩ := Option.isSome_iff_exists.mp ht
  cases action with
  | send command =>
    obtain rfl : { t with commands := t.commands ++ [command] } = t' := by
      simpa [Step, next, send, ht] using hstep
    exact ⟨fun _ => trivial, fun _ => ht⟩
  | takeCommand answer =>
    cases hcommands : t.commands with
    | nil => simp [Step, next, hf, hcommands] at hstep
    | cons command commands =>
      obtain rfl : ⟨f.turn A message answer (.command command), commands⟩ = t' := by
        simpa [Step, next, hf, hcommands] using hstep
      cases answer with
      | error error => exact ⟨fun _ => trivial, fun _ => isSome_turn_error f error _⟩
      | ok value => simp [WellShaped, hf, hcommands, isSome_turn_iff]
  | poll answer =>
    obtain rfl : ⟨f.turn A message answer .poll, t.commands⟩ = t' := by
      simpa [Step, next, hf] using hstep
    cases answer with
    | error error =>
      have hturn : (f.turn A message (.error error) .poll).isSome := isSome_turn_error f error _
      exact ⟨fun _ => trivial, fun _ => hturn⟩
    | ok value => simp [WellShaped, isSome_turn_iff, Filter.Consults]

/-- A value is converted without a panic exactly if it has the shape of a list of events, and a
filter serves along a run exactly if every value that is converted has it. -/
theorem serves_iff_wellShaped (A : Substrate.Addresses) (message : PyErr → String)
    (f : Filter (substrate env)) (commands : List (FilterCommand (substrate env)))
    (actions : List (TaskAction (substrate env))) :
    (∀ value, (extract A value : PyResult (List (ExecutorEvent (substrate env)))).Safe ↔
      Converts A value) ∧
    (Always (Step A message) Serves ⟨some f, commands⟩ actions ↔
      Along (Step A message) (fun t action _ => t.WellShaped A action) ⟨some f, commands⟩
        actions) := by
  refine ⟨fun value => safe_extract_iff, ?_⟩
  apply always_iff_along
  · intro t action t' hstep ht
    rw [serves_iff] at ht ⊢
    exact isSome_step_iff hstep ht
  · exact serves_iff.mpr rfl

def noAddresses : Substrate.Addresses := ⟨Unit, fun _ => none, fun _ => none⟩

def text (s : String) : PyValue := .str (s.toList.map fun c => Fin.ofNat _ c.toNat)

/-- A script whose poll returns an event without its fields ends its filter, and the next command
of the overseer is lost. -/
theorem not_serves_missingFields :
    ¬ (extract noAddresses (.list [.dict [(text "Forward", .dict [])]]) :
        PyResult (List (ExecutorEvent loopback))).Safe ∧
      ¬ Always (Step noAddresses fun _ => "") Serves (⟨some (.new 0), []⟩ : FilterTask loopback)
        [.poll (.ok (.list [.dict [(text "Forward", .dict [])]]))] := by
  have hpanics : (extract noAddresses (.list [.dict [(text "Forward", .dict [])]]) :
      PyResult (List (ExecutorEvent loopback))).run = none := rfl
  constructor
  · simp [PyResult.Safe, hpanics]
  · intro h
    have hserves := h _ ⟨none, []⟩ (List.prefix_refl _) (.cons rfl (.nil _))
    cases hserves.1

end FilterTask

end SwarmHost
