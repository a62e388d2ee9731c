import SwarmHost.Executor.Filters

/-! # The Python module of an interface

All code of an interface is executed in one module: the generic code when the interface is
created and whenever one of its functions is called, installed code when it is installed and
whenever traffic is injected into it. Executing code replaces the names that it defines and
leaves the others, so a function that is found afterwards may be one of other code.
-/

namespace SwarmHost

variable {T : NetworkBackend}

/-- What the names of a module hold, as the code that defined it. -/
abbrev Namespace := String → Option String

/-- How the execution of code in a module ends. -/
inductive Execution where
  | notCompiled
  | raises
  | completes
  deriving DecidableEq

/-- The executions of code for one command: before the function is looked up, and again before
`poll` is, if the function was found and returned. -/
structure Executions where
  first : Execution
  second : Option Execution

def FilterKind.functions : FilterKind → List String
  | .notification => ["inject_notification"]
  | .requestResponse => ["inject_request", "inject_response"]

def FilterCommand.function : FilterCommand T → Option String
  | .registerPeer .. => some "register_peer"
  | .discoverPeer .. => some "discover_peer"
  | .unregisterPeer .. => some "unregister_peer"
  | .protocolOpened .. => some "protocol_opened"
  | .protocolClosed .. => some "protocol_closed"
  | .installNotificationFilter .. | .installRequestResponseFilter .. => none
  | .injectNotification .. => some "inject_notification"
  | .injectRequest .. => some "inject_request"
  | .injectResponse .. => some "inject_response"

/-- The code that is executed for a command, the generic code for all but filters and traffic. -/
def PyO3Executor.script (x : PyO3Executor T) (generic : String) (command : FilterCommand T) :
    Option String :=
  match command.installation, command.injection with
  | some (_, _, code), _ => some code
  | none, some (kind, protocol) => x.code kind protocol
  | none, none => some generic

namespace Namespace

variable (defines : String → List String) (m : Namespace)

/-- Code that does not compile leaves the module alone; a module whose code raises is removed. -/
def fromCode (code : String) : Execution → Namespace
  | .notCompiled => m
  | .raises => fun _ => none
  | .completes => fun name => if name ∈ defines code then some code else m name

def execute (code : String) (x : Executions) : Namespace :=
  let m := m.fromCode defines code x.first
  x.second.elim m (m.fromCode defines code)

/-- A new executor looks up the function that makes its context. -/
def Creates (code : String) (x : Executions) (result : Except Error Unit) : Prop :=
  x.second = none ∧ (result.isOk → x.first = .completes ∧
    (m.fromCode defines code x.first "initialize_ctx").isSome)

/-- What the executor answers fits to what is found in the module. A function that is called may
still raise. -/
def Answers (command : FilterCommand T) (code : String) (x : Executions)
    (answer : ExecutorAnswer T) : Prop :=
  (∀ installation ∈ command.installation, x.second = none ∧
    (answer.isOk ↔ x.first = .completes ∧
      ∀ name ∈ installation.1.functions, (m.fromCode defines code x.first name).isSome)) ∧
  (command.installation = none →
    (x.second.isSome → x.first = .completes ∧
      ∀ name ∈ command.function, (m.fromCode defines code x.first name).isSome) ∧
    (answer.isOk → x.second = some .completes ∧ (m.execute defines code x "poll").isSome))

instance (code : String) (x : Executions) (result : Except Error Unit) :
    Decidable (m.Creates defines code x result) := inferInstanceAs (Decidable (_ ∧ _))

instance (command : FilterCommand T) (code : String) (x : Executions) (answer : ExecutorAnswer T) :
    Decidable (m.Answers defines command code x answer) :=
  have : Decidable (command.installation = none) :=
    decidable_of_iff (command.installation.isNone) Option.isNone_iff_eq_none
  inferInstanceAs (Decidable (_ ∧ _))

def Sourced : Prop := ∀ name code, m name = some code → name ∈ defines code

variable {defines m}

theorem Sourced.fromCode (h : m.Sourced defines) (code : String) (execution : Execution) :
    (m.fromCode defines code execution).Sourced defines := by
  intro name code' hname
  cases execution with
  | notCompiled => exact h name code' hname
  | raises => cases hname
  | completes =>
    simp only [Namespace.fromCode] at hname
    split at hname
    · next hmem =>
      obtain rfl := Option.some.inj hname
      exact hmem
    · exact h name code' hname

theorem Sourced.execute (h : m.Sourced defines) (code : String) (x : Executions) :
    (m.execute defines code x).Sourced defines := by
  rw [Namespace.execute]
  cases x.second with
  | none => exact h.fromCode code x.first
  | some second => exact (h.fromCode code x.first).fromCode code second

/-- A function that is found is one of the code just executed iff the code defines it itself. -/
theorem Sourced.fromCode_eq_iff (h : m.Sourced defines) {code name : String} :
    m.fromCode defines code .completes name = some code ↔ name ∈ defines code := by
  constructor
  · exact h.fromCode code .completes name code
  · intro hname
    exact if_pos hname

end Namespace

end SwarmHost
