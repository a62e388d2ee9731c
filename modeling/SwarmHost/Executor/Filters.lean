import SwarmHost.Filter.Basic

/-! # The filter code of the executor

The executor keeps the code installed for each protocol, one table for notifications
and one for requests and responses. New code is loaded by the interpreter first, and
is stored only if it loads and has the functions that will be called.
-/

namespace SwarmHost

variable {T : NetworkBackend}

/-- The traffic that a piece of installed code is for. -/
inductive FilterKind where
  | notification
  | requestResponse
  deriving DecidableEq

structure PyO3Executor (T : NetworkBackend) where
  notificationFilters : Dict T.Protocol String
  requestResponseFilters : Dict T.Protocol String

namespace FilterCommand

def installation : FilterCommand T → Option (FilterKind × T.Protocol × String)
  | .installNotificationFilter protocol code _ => some (.notification, protocol, code)
  | .installRequestResponseFilter protocol code _ => some (.requestResponse, protocol, code)
  | _ => none

def injection : FilterCommand T → Option (FilterKind × T.Protocol)
  | .injectNotification protocol _ _ => some (.notification, protocol)
  | .injectRequest protocol _ _ | .injectResponse protocol _ _ => some (.requestResponse, protocol)
  | _ => none

end FilterCommand

namespace PyO3Executor

def new : PyO3Executor T := ⟨∅, ∅⟩

def code (x : PyO3Executor T) : FilterKind → T.Protocol → Option String
  | .notification, protocol => x.notificationFilters.get? protocol
  | .requestResponse, protocol => x.requestResponseFilters.get? protocol

def install (x : PyO3Executor T) (kind : FilterKind) (protocol : T.Protocol) (code : String) :
    PyO3Executor T :=
  match kind with
  | .notification =>
    { x with notificationFilters := x.notificationFilters.insert protocol code }
  | .requestResponse =>
    { x with requestResponseFilters := x.requestResponseFilters.insert protocol code }

/-- The tables after a command; code that the interpreter rejects is not stored. -/
def after (x : PyO3Executor T) (command : FilterCommand T) (answer : ExecutorAnswer T) :
    PyO3Executor T :=
  match command.installation, answer with
  | some (kind, protocol, code), .ok _ => x.install kind protocol code
  | _, _ => x

def missing : ExecutorAnswer T → Bool
  | .error (.executorError .filterDoesntExist) => true
  | _ => false

/-- Exactly traffic without a filter is answered by the executor itself. -/
def permits (x : PyO3Executor T) (command : FilterCommand T) (answer : ExecutorAnswer T) : Bool :=
  match command.injection with
  | some (kind, protocol) => (x.code kind protocol).isNone == missing answer
  | none => true

theorem code_install (x : PyO3Executor T) (kind kind' : FilterKind)
    (protocol protocol' : T.Protocol) (code : String) :
    (x.install kind protocol code).code kind' protocol' =
      if kind' = kind ∧ protocol' = protocol then some code else x.code kind' protocol' := by
  cases kind <;> cases kind' <;> simp [install, PyO3Executor.code, Dict.get?_insert]

end PyO3Executor

end SwarmHost
