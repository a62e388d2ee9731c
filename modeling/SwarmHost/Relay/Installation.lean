import SwarmHost.Executor.Modules
import SwarmHost.Filter.Task
import SwarmHost.Overseer.Creation
import SwarmHost.Relay.Basic

/-! # Installing filter code

The overseer answers a request to install filter code once it has sent the command to
the filter. Whether the interpreter accepts the code turns out later, when the filter
takes the command, and nobody is told. Code without the function that its traffic needs
is accepted if other code of the interface has left one in the module of the interface,
and that function then handles the traffic.
-/

namespace SwarmHost

variable {T : NetworkBackend}

namespace Overseer

variable {E : Executor T} {s s' : Overseer T} {i : T.InterfaceId}

theorem ok_of_commandsTo {order : List T.InterfaceId} {call : Call T} {r : Except Error Unit}
    (h : s.handle E call = some (r, s')) (hsends : commandsTo i (s.sends order call) ≠ []) :
    r = .ok () := by
  have hresult : ∀ {x : Except Error Unit × Overseer T}, some x = some (r, s') → r = x.1 :=
    fun h => (congrArg Prod.fst (Option.some.inj h)).symm
  have hchecked : ∀ {j : T.InterfaceId} {c : FilterCommand T},
      commandsTo i (s.sendsChecked j c) ≠ [] → (s.sendChecked j c).1 = .ok () := by
    intro j c hne
    unfold sendsChecked at hne
    unfold sendChecked
    split
    · rfl
    · next hj => simp [hj] at hne
  cases call with
  | createInterface | connectToPeer => exact absurd rfl hsends
  | linkInterfaces a b | unlinkInterfaces a b =>
    simp only [sends] at hsends
    split at hsends <;> exact absurd rfl hsends
  | installNotificationFilter | installRequestResponseFilter =>
    exact (hresult h).trans (hchecked hsends)
  | interfaceEvent event =>
    cases event with
    | peerConnected j peer protocols sink =>
      simp only [sends, eventSends] at hsends
      split at hsends
      · next hnew =>
        obtain ⟨info, hinfo⟩ := Dict.mem_iff.mp hnew.2
        simp only [handle, onInterfaceEvent, registerPeer, hnew.1, if_false, hinfo] at h
        exact hresult h
      · exact absurd rfl hsends
    | peerDisconnected j peer =>
      simp only [sends, eventSends] at hsends
      split at hsends
      · next hold =>
        obtain ⟨hp, info, hinfo, hpeer⟩ := hold
        simp only [handle, onInterfaceEvent, unregisterPeer, hp, if_false,
          Option.mem_def.mp hinfo, hpeer, if_true] at h
        exact hresult h
      · exact absurd rfl hsends
    | connectionUpgraded j peer upgrade =>
      obtain ⟨-, h⟩ := Option.ite_none_right_eq_some.mp h
      cases upgrade with
      | protocolOpened | protocolClosed => exact hresult h
    | messageReceived j peer protocol message =>
      cases hj : s.interfaces.get? j with
      | none => simp [sends, eventSends, index?, hj] at hsends
      | some info =>
        simp only [handle, onInterfaceEvent, injectNotification, hj, bind,
          Option.bind_eq_some_iff, pure, Option.some.injEq, Prod.mk.injEq] at h
        obtain ⟨_, _, _, _, rfl, _⟩ := h
        rfl
    | requestReceived | responseReceived =>
      exact (hresult h).trans (hchecked hsends)
    | peerDiscovered peer =>
      refine (hresult h).trans ?_
      unfold discoverPeer
      split <;> rfl

end Overseer

namespace Relay

/-- The result of the call that sent the next command of a filter. -/
def reply? (s : Relay T) (i : T.InterfaceId) : Option (Except Error Unit) :=
  (s.replies i)[s.taken i]?

def installation? (s : Relay T) (i : T.InterfaceId) :
    Option (FilterKind × T.Protocol × String) := (s.command? i).bind (·.installation)

variable {room : ℕ} {E : Executor T} {s s' : Relay T} {action : Action T} {i : T.InterfaceId}

/-- Every requester is told that its command was sent. -/
def Promising (s : Relay T) : Prop := ∀ i, ∀ r ∈ s.replies i, r = .ok ()

theorem Moves.promising (h : Moves room E s action s') (hs : s.Promising) : s'.Promising := by
  cases h with
  | @oversee call order result overseer hidle horder hcall =>
    intro i r hr
    rcases List.mem_append.mp hr with hr | hr
    · exact hs i r hr
    · obtain ⟨hne, rfl⟩ := List.mem_replicate.mp hr
      exact Overseer.ok_of_commandsTo hcall (mt List.length_eq_zero_iff.mpr hne)
  | _ => exact hs

theorem reply?_of_command? (hs : s.Wired) (hp : s.Promising) {c : FilterCommand T}
    (hc : s.command? i = some c) : s.reply? i = some (.ok ()) := by
  have hlt : s.taken i < (s.replies i).length := by
    have htaken := command?_eq_some hc
    rw [hs.replies, hs.queue, List.length_append]
    omega
  rw [reply?, List.getElem?_eq_getElem hlt, hp i _ (List.getElem_mem hlt)]

end Relay

/-- The tasks with the Python modules of the interfaces. -/
structure Scripts (T : NetworkBackend) where
  relay : Relay T
  modules : T.InterfaceId → Namespace
  /-- The code that each interface was created with. -/
  generic : T.InterfaceId → String
  /-- The code of the last installation that was accepted; nothing that the program keeps. -/
  accepted : T.InterfaceId → FilterKind → T.Protocol → Option String

namespace Scripts

/-- A step of the tasks, with what becomes of the code that is executed in it. -/
structure Action (T : NetworkBackend) where
  task : Relay.Action T
  executions : Executions

def start (parameters : T.NetworkParameters) : Scripts T where
  relay := .start parameters
  modules _ _ := none
  generic _ := ""
  accepted _ _ _ := none

section Step

variable (defines : String → List String) (room : ℕ) (E : Executor T) (s : Scripts T)

/-- The interface in whose module code is executed in a step, and the code. A poll uses a module of
its own. -/
def executed? : Relay.Action T → Option (T.InterfaceId × String)
  | .oversee (.createInterface address filter preinit) _ =>
    (s.relay.overseer.spawned? E address preinit).bind fun id =>
      if id ∈ s.relay.overseer.interfaces then none else some (id, filter)
  | .filterCommand i _ => (s.relay.command? i).bind fun c =>
    if c.installation.isSome ∨ (s.relay.filters i).Consults (.command c) then
      ((s.relay.executors i).script (s.generic i) c).map (i, ·)
    else none
  | _ => none

def taken? : Relay.Action T → Option (FilterCommand T × ExecutorAnswer T)
  | .filterCommand i answer => (s.relay.command? i).map (·, answer)
  | _ => none

/-- The answers that a step comes with fit to what is found in the module. -/
def Fits (a : Action T) : Prop :=
  ∀ e ∈ s.executed? E a.task,
    (∀ t ∈ s.taken? a.task, (s.modules e.1).Answers defines t.1 e.2 a.executions t.2) ∧
    ((s.taken? a.task).isNone →
      (s.modules e.1).Creates defines e.2 a.executions (E.new e.1 e.2 none))

instance (a : Action T) : Decidable (s.Fits defines E a) :=
  inferInstanceAs (Decidable (∀ e ∈ s.executed? E a.task, _ ∧ _))

def nextModules (a : Action T) : T.InterfaceId → Namespace :=
  match s.executed? E a.task with
  | some (i, code) =>
    Function.update s.modules i ((s.modules i).execute defines code a.executions)
  | none => s.modules

def nextGeneric : Relay.Action T → T.InterfaceId → String
  | .oversee call order =>
    match s.executed? E (.oversee call order) with
    | some (i, code) => Function.update s.generic i code
    | none => s.generic
  | _ => s.generic

def nextAccepted : Relay.Action T → T.InterfaceId → FilterKind → T.Protocol → Option String
  | .filterCommand i (.ok _) =>
    match s.relay.installation? i with
    | some (kind, protocol, code) => fun i' kind' protocol' =>
      if i' = i ∧ kind' = kind ∧ protocol' = protocol then some code
      else s.accepted i' kind' protocol'
    | none => s.accepted
  | _ => s.accepted

def step (a : Action T) : Option (Scripts T) :=
  if s.Fits defines E a then
    (s.relay.step room E a.task).map fun relay =>
      { relay := relay
        modules := s.nextModules defines E a
        generic := s.nextGeneric E a.task
        accepted := s.nextAccepted a.task }
  else none

def Step (a : Action T) (s' : Scripts T) : Prop := s.step defines room E a = some s'

/-- The accepted code is executed for the command, and if that completes then the function that is
called is one that the accepted code has defined. -/
def HandledBy (i : T.InterfaceId) (c : FilterCommand T) (x : Executions) (code : String) : Prop :=
  (s.relay.executors i).script (s.generic i) c = some code ∧
    (x.first = .completes → ∀ name ∈ c.function,
      (s.modules i).fromCode defines code x.first name = some code)

/-- The requester of code that is rejected was told an error, the code before it stays, and traffic
is handled by the code that was accepted last. -/
def Keeps (a : Action T) (s' : Scripts T) : Prop :=
  match a.task with
  | .filterCommand i answer =>
    ((s.relay.installation? i).isSome → ∀ error, answer = .error error →
      (∃ e, s.relay.reply? i = some (.error e)) ∧ s'.relay.executors i = s.relay.executors i) ∧
    ∀ c kind protocol code, s.relay.command? i = some c → c.injection = some (kind, protocol) →
      s.accepted i kind protocol = some code → s.HandledBy defines i c a.executions code
  | _ => True

/-- Code that is installed is accepted, and code that was accepted last defines itself the function
that is called. -/
def Supplies (a : Action T) : Prop :=
  match a.task with
  | .filterCommand i answer =>
    ((s.relay.installation? i).isSome → answer.isOk) ∧
    ∀ c kind protocol code, s.relay.command? i = some c → c.injection = some (kind, protocol) →
      s.accepted i kind protocol = some code → a.executions.first = .completes →
        ∀ name ∈ c.function, name ∈ defines code
  | _ => True

end Step

/-- The tables of the executors have the code that was accepted last, and the names of the modules
hold what some code has defined. -/
structure Consistent (defines : String → List String) (s : Scripts T) : Prop where
  wired : s.relay.Wired
  promising : s.relay.Promising
  code : ∀ i kind protocol, (s.relay.executors i).code kind protocol = s.accepted i kind protocol
  sourced : ∀ i, (s.modules i).Sourced defines

variable {defines : String → List String} {room : ℕ} {E : Executor T} {s s' : Scripts T}
  {a : Action T}

theorem consistent_start (parameters : T.NetworkParameters) :
    (start parameters : Scripts T).Consistent defines where
  wired := Relay.wired_start parameters
  promising _ _ hr := by cases hr
  code _ kind _ := by cases kind <;> rfl
  sourced _ _ _ h := by cases h

theorem sourced_nextModules (hs : s.Consistent defines) (i : T.InterfaceId) :
    (s.nextModules defines E a i).Sourced defines := by
  rw [nextModules]
  cases s.executed? E a.task with
  | none => exact hs.sourced i
  | some execution =>
    obtain ⟨j, code⟩ := execution
    by_cases hi : i = j
    · subst hi
      simpa using (hs.sourced i).execute code a.executions
    · simpa [hi] using hs.sourced i

/-- The tables and the record of what was accepted change together. -/
theorem code_nextAccepted {task : Relay.Action T} {relay : Relay T}
    (h : Relay.Step room E s.relay task relay) (hs : s.Consistent defines) (i : T.InterfaceId)
    (kind : FilterKind) (protocol : T.Protocol) :
    (relay.executors i).code kind protocol = s.nextAccepted task i kind protocol := by
  cases h.moves with
  | @take j c answer hj hout hc hpermits =>
    have hinst : s.relay.installation? j = c.installation := by simp [Relay.installation?, hc]
    by_cases hi : i = j
    · subst hi
      simp only [Function.update_self, PyO3Executor.after]
      cases answer with
      | error => simpa [nextAccepted] using hs.code i kind protocol
      | ok events =>
        rw [nextAccepted, hinst]
        cases c.installation with
        | none => exact hs.code i kind protocol
        | some installation =>
          simp [PyO3Executor.code_install, hs.code]
    · simp only [Function.update_of_ne hi, hs.code]
      cases answer with
      | error => rfl
      | ok events =>
        rw [nextAccepted, hinst]
        cases c.installation with
        | none => rfl
        | some installation => simp [hi]
  | _ => exact hs.code i kind protocol

theorem Step.consistent (h : Step defines room E s a s') (hs : s.Consistent defines) :
    s'.Consistent defines := by
  obtain ⟨-, h⟩ := Option.ite_none_right_eq_some.mp h
  obtain ⟨relay, hrelay, rfl⟩ := Option.map_eq_some_iff.mp h
  have hrelay : Relay.Step room E s.relay a.task relay := hrelay
  exact ⟨hrelay.moves.wired hs.wired, hrelay.moves.promising hs.promising,
    code_nextAccepted hrelay hs, sourced_nextModules hs⟩

/-- Traffic is handled by the code that was accepted last iff that code defines the function. -/
theorem handledBy_iff (hs : s.Consistent defines) {i : T.InterfaceId} {c : FilterCommand T}
    {kind : FilterKind} {protocol : T.Protocol} {code : String} {x : Executions}
    (hc : c.injection = some (kind, protocol)) (hcode : s.accepted i kind protocol = some code) :
    s.HandledBy defines i c x code ↔
      (x.first = .completes → ∀ name ∈ c.function, name ∈ defines code) := by
  have hscript : (s.relay.executors i).script (s.generic i) c = some code := by
    have hnone : c.installation = none := by
      cases c <;> first | rfl | cases hc
    simp only [PyO3Executor.script, hnone, hc]
    rw [hs.code, hcode]
  rw [HandledBy, and_iff_right hscript]
  refine imp_congr_right fun hfirst => forall₂_congr fun name _ => ?_
  rw [hfirst]
  exact (hs.sourced i).fromCode_eq_iff

theorem keeps_iff (hs : s.Consistent defines) :
    s.Keeps defines a s' ↔ s.Supplies defines a := by
  obtain ⟨task, executions⟩ := a
  cases task with
  | filterCommand i answer =>
    refine and_congr (imp_congr_right fun hsome => ?_) ?_
    · obtain ⟨installation, hinst⟩ := Option.isSome_iff_exists.mp hsome
      obtain ⟨c, hc, -⟩ := Option.bind_eq_some_iff.mp hinst
      have hreply := Relay.reply?_of_command? hs.wired hs.promising hc
      cases answer with
      | ok events => exact iff_of_true (fun error herror => by cases herror) rfl
      | error error =>
        refine iff_of_false (fun hkeeps => ?_) Bool.false_ne_true
        obtain ⟨⟨e, he⟩, -⟩ := hkeeps error rfl
        rw [hreply] at he
        cases he
    · refine forall₄_congr fun c kind protocol code => ?_
      refine forall₃_congr fun _ hc hcode => ?_
      exact handledBy_iff hs hc hcode
  | _ => exact Iff.rfl

/-- Along a run, requesters of rejected code are told so and traffic is handled by the code that was
accepted last, iff all code that filters are given is accepted and traffic only comes for code that
defines the function it is handed to. -/
theorem keeps_along_iff (defines : String → List String) (room : ℕ) (E : Executor T)
    (parameters : T.NetworkParameters) (actions : List (Action T)) :
    Along (Step defines room E) (Keeps defines) (start parameters) actions ↔
      Along (Step defines room E) (fun s a _ => s.Supplies defines a) (start parameters)
        actions := by
  apply along_congr (I := Consistent defines)
  · intro s a s' hstep hs
    exact hstep.consistent hs
  · exact consistent_start parameters
  · intro s a s' _ hs
    exact keeps_iff hs

section Example

def withFilter : String := "def inject_notification(ctx, peer, protocol, notification): pass"

def withoutFilter : String := "x = 1"

def exampleDefines (code : String) : List String :=
  if code = withFilter then ["inject_notification"]
  else if code = withoutFilter then ["x"]
  else ["initialize_ctx", "poll"]

def once (task : Relay.Action loopback) : Action loopback := ⟨task, .completes, none⟩

def installing (protocol : String) (code : String) : List (Action loopback) :=
  [once (.oversee (.installNotificationFilter 0 protocol code "") [0]), once .send]

def creating : Action loopback :=
  once (.oversee (.createInterface ⟨[127, 0, 0, 1], 0⟩ "" none) [])

/-- Code without a filter is installed after code with one, and a notification comes for it. -/
def borrowing : List (Action loopback) :=
  creating :: installing "/transactions/1" withFilter ++ [once (.filterCommand 0 (.ok []))] ++
    installing "/block-announces/1" withoutFilter ++ [once (.filterCommand 0 (.ok []))] ++
    [once (.oversee (.interfaceEvent (.messageReceived 0 [7] "/block-announces/1" ⟨[1]⟩)) [0]),
      once .send]

/-- The requester of code that the interpreter rejects is told that all went well; and code without
a filter is accepted, and the filter of another protocol handles its traffic. -/
theorem not_keeps_rejected_and_borrowed :
    (∃ s s' : Scripts loopback,
      Run (Step exampleDefines 1 (.loading loopback)) (start ⟨[]⟩)
        (creating :: installing "/block-announces/1" "def") s ∧
      Step exampleDefines 1 (.loading loopback) s
        ⟨.filterCommand 0 (.error (.executorError (.runtimeError ""))), .notCompiled, none⟩ s' ∧
      ¬ s.Keeps exampleDefines
        ⟨.filterCommand 0 (.error (.executorError (.runtimeError ""))), .notCompiled, none⟩ s') ∧
    ∃ s s' : Scripts loopback,
      Run (Step exampleDefines 1 (.loading loopback)) (start ⟨[]⟩) borrowing s ∧
      s.accepted (0 : ℕ) .notification "/block-announces/1" = some withoutFilter ∧
      (s.modules (0 : ℕ)).fromCode exampleDefines withoutFilter .completes "inject_notification" =
        some withFilter ∧
      Step exampleDefines 1 (.loading loopback) s
        ⟨.filterCommand 0 (.ok []), .completes, some .completes⟩ s' ∧
      ¬ s.Keeps exampleDefines ⟨.filterCommand 0 (.ok []), .completes, some .completes⟩ s' := by
  constructor
  · refine ⟨_, _, Run.foldlM_iff.mpr rfl, rfl, ?_⟩
    rintro ⟨hrejected, -⟩
    obtain ⟨⟨e, he⟩, -⟩ := hrejected rfl _ rfl
    cases he
  · refine ⟨_, _, Run.foldlM_iff.mpr rfl, rfl, rfl, rfl, ?_⟩
    rintro ⟨-, hhandled⟩
    obtain ⟨-, hname⟩ := hhandled _ .notification "/block-announces/1" withoutFilter rfl rfl rfl
    have hfound := hname rfl _ rfl
    revert hfound
    decide

end Example

end Scripts

end SwarmHost
