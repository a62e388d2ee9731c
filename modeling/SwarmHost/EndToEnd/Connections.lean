import SwarmHost.EndToEnd.Responses

/-! # Connections of a peer on their way to the overseer

The swarm reports that a connection to a peer is established or closed. The network
announces it on its event channel, the forwarding task passes it on, and the overseer
registers or unregisters the peer. Nothing is lost, reordered or repeated on this way,
but the network announces a closed connection twice.
-/

namespace SwarmHost.EndToEnd

open Substrate

def Alternates : Bool → List Bool → Prop
  | _, [] => True
  | b, x :: xs => x = b ∧ Alternates (!b) xs

instance Alternates.decidable : (b : Bool) → (l : List Bool) → Decidable (Alternates b l)
  | _, [] => .isTrue trivial
  | b, x :: xs => @instDecidableAnd (x = b) _ _ (Alternates.decidable (!b) xs)

theorem Alternates.of_append {b : Bool} {l l' : List Bool} (h : Alternates b (l ++ l')) :
    Alternates b l := by
  induction l generalizing b with
  | nil => trivial
  | cons x l ih => exact ⟨h.1, ih h.2⟩

section Reports

variable {env : Environment} {h : Host} (p : PeerId)

/-- What an event of the swarm reports of a peer: `true` for a connection that is established and
`false` for one that is closed. -/
def swarmReport : SwarmEvent → List Bool
  | .connectionEstablished q => if q = p then [true] else []
  | .connectionClosed q => if q = p then [false] else []
  | _ => []

def actionReport : Action h → List Bool
  | .swarm event => swarmReport p event
  | _ => []

def eventReport : NetworkEvent → List Bool
  | .peerConnected q => if q = p then [true] else []
  | .peerDisconnected q => if q = p then [false] else []
  | _ => []

def taskReport : Task → List Bool
  | .emit event => eventReport p event
  | .remember .. => []

def interfaceReport (i : ℕ) : InterfaceEvent (substrate env) → List Bool
  | .peerConnected j q _ _ => if j = i ∧ q = p then [true] else []
  | .peerDisconnected j q => if j = i ∧ q = p then [false] else []
  | _ => []

def commandReport : FilterCommand (substrate env) → List Bool
  | .registerPeer q _ => if q = p then [true] else []
  | .unregisterPeer q => if q = p then [false] else []
  | _ => []

def announcements : Bool → List Bool
  | true => [true]
  | false => [false, false]

variable {p}

theorem interfaceReport_toInterfaceEvent (i : ℕ) (event : NetworkEvent) :
    interfaceReport p i (toInterfaceEvent i event : InterfaceEvent (substrate env)) =
      eventReport p event := by
  cases event <;> simp [toInterfaceEvent, interfaceReport, eventReport]

theorem commandReport_of_about {c : FilterCommand (substrate env)} (hc : c.about = none) :
    commandReport p c = [] := by
  cases c with
  | registerPeer | unregisterPeer => cases hc
  | _ => rfl

theorem taskReport_onSwarmEvent (n : Network) (event : SwarmEvent) :
    (n.onSwarmEvent event).2.flatMap (taskReport p) =
      (swarmReport p event).flatMap announcements := by
  cases event with
  | discovered q =>
    simp only [Network.onSwarmEvent]
    split <;> rfl
  | notificationStreamOpened | notificationStreamReplaced | notificationStreamClosed => rfl
  | notificationsReceived remote messages =>
    refine List.flatMap_eq_nil_iff.mpr fun task htask => ?_
    obtain ⟨message, -, rfl⟩ := List.mem_map.mp htask
    rfl
  | connectionEstablished q | connectionClosed q =>
    by_cases hq : q = p <;>
      simp [Network.onSwarmEvent, taskReport, eventReport, swarmReport, announcements, hq]

theorem taskReport_responseResolved (digest : Bytes → UInt64) (n : Network) (position : ℕ)
    (result : Option Bytes) :
    (n.receive digest (.responseResolved position result)).2.1.flatMap (taskReport p) = [] := by
  simp only [Network.receive]
  split
  · rfl
  · cases result <;> rfl

theorem taskReport_onCommand (digest : Bytes → UInt64) (n : Network) (command : Command) :
    (n.receive digest (.command command)).2.1.flatMap (taskReport p) = [] := by
  cases command with
  | sendRequest | sendResponse =>
    simp only [Network.receive, Network.onCommand]
    split <;> rfl
  | sendNotification | connect | disconnect => rfl

theorem length_announcements (l : List Bool) :
    (l.flatMap announcements).length = l.length + l.count false := by
  induction l with
  | nil => rfl
  | cons b l ih =>
    rw [List.flatMap_cons, List.length_append, ih, List.length_cons]
    cases b
    · rw [List.count_cons_self]
      change 2 + _ = _
      omega
    · rw [List.count_cons_of_ne (by decide)]
      change 1 + _ = _
      omega

/-- Every report is announced once exactly if there is no closed connection among them. -/
theorem announcements_eq_self_iff {l : List Bool} :
    l.flatMap announcements = l ↔ false ∉ l := by
  constructor
  · intro heq hmem
    have hpos : 0 < l.count false := List.count_pos_iff.mpr hmem
    have hlength := length_announcements l
    rw [heq] at hlength
    omega
  · intro hnot
    induction l with
    | nil => rfl
    | cons b l ih =>
      rw [List.mem_cons, not_or] at hnot
      obtain rfl : b = true := by simpa using Ne.symm hnot.1
      rw [List.flatMap_cons, ih hnot.2]
      rfl

theorem false_mem_actionReport_iff {actions : List (Action h)} :
    false ∈ actions.flatMap (actionReport p) ↔ .swarm (.connectionClosed p) ∈ actions := by
  rw [List.mem_flatMap]
  constructor
  · rintro ⟨action, hmem, hfalse⟩
    cases action with
    | swarm event =>
      cases event with
      | connectionClosed q =>
        obtain rfl : q = p := by
          by_contra hq
          simp [actionReport, swarmReport, hq] at hfalse
        exact hmem
      | connectionEstablished q =>
        by_cases hq : q = p <;> simp [actionReport, swarmReport, hq] at hfalse
      | _ => cases hfalse
    | _ => cases hfalse
  · intro hmem
    exact ⟨_, hmem, by simp [actionReport, swarmReport]⟩

end Reports

namespace System

variable {h : Host} {s s' : System h} {p : PeerId} {action : Action h} {actions : List (Action h)}

/-- The announcements about a peer that the overseer has not taken yet, the oldest first. -/
def underway (p : PeerId) (s : System h) : List Bool :=
  s.stream.flatMap (interfaceReport p h.interface) ++
    s.forwarding.toList.flatMap (interfaceReport p h.interface) ++
    s.events.flatMap (eventReport p) ++ s.tasks.flatMap (taskReport p)

def takes (s : System h) : Action h → List (InterfaceEvent (substrate h.env))
  | .overseer => s.stream.head?.toList
  | _ => []

def reached : System h → List (Action h) → List (InterfaceEvent (substrate h.env))
  | _, [] => []
  | s, action :: actions =>
    s.takes action ++
      match s.step action with
      | some s' => reached s' actions
      | none => []

def reachedReports (p : PeerId) (s : System h) (actions : List (Action h)) : List Bool :=
  (s.reached actions).flatMap (interfaceReport p h.interface)

def registrations (p : PeerId) (s : System h) : List Bool :=
  (s.overseer.queue h.interface).flatMap (commandReport p)

/-- The peer whose connection the overseer takes is not an interface of the host. -/
def ConnectsRemote (s : System h) (action : Action h) : Prop :=
  ∀ q protocols sink, .peerConnected h.interface q protocols sink ∈ s.takes action →
    q ∉ s.overseer.interfacePeerIds

/-- The overseer does not take a closed connection. -/
def Stays (s : System h) (action : Action h) : Prop :=
  ∀ q, .peerDisconnected h.interface q ∉ s.takes action

def Unregisters (p : PeerId) (s : System h) (action : Action h) : Prop :=
  .peerDisconnected h.interface p ∈ s.takes action →
    (s.overseer.unregisterPeer h.interface p).1 ≠ .error .peerDoesntExist

structure ConnectsOnce (p : PeerId) (s : System h) (actions : List (Action h)) (s' : System h) :
    Prop where
  /-- What reaches the overseer alternates, beginning with a connection. -/
  alternates : Alternates true (s.reachedReports p actions)
  /-- What the swarm reports reaches the overseer, in order, or is on its way. -/
  carried : s.reachedReports p actions ++ s'.underway p = actions.flatMap (actionReport p)
  /-- What reaches the overseer is registered and unregistered with the filter. -/
  registered : s'.registrations p = s.registrations p ++ s.reachedReports p actions
  /-- The overseer never answers that the peer does not exist. -/
  known : Along Step (fun s action _ => s.Unregisters p action) s actions

section Way

/-- A step of the tasks before the overseer moves what is under way, and appends to it. -/
structure Carries (p : PeerId) (reports : List Bool) (s s' : System h) : Prop where
  overseer : s'.overseer = s.overseer
  underway : s'.underway p = s.underway p ++ reports

theorem Carries.of_same (ho : s'.overseer = s.overseer) (hst : s'.stream = s.stream)
    (hf : s'.forwarding = s.forwarding) (he : s'.events = s.events) (ht : s'.tasks = s.tasks) :
    Carries p [] s s' where
  overseer := ho
  underway := by rw [System.underway, hst, hf, he, ht, ← System.underway, List.append_nil]

theorem carries_takeInput (input : NetworkInput) (hstep : s.takeInput input = some s') :
    Carries p ((s.network.receive h.env.digest input).2.1.flatMap (taskReport p)) s s' := by
  obtain ⟨ht, rfl⟩ := takeInput_eq_some hstep
  refine ⟨rfl, ?_⟩
  simp only [underway, ht, List.flatMap_nil, List.append_nil]

theorem carries_takeRequest {peer : PeerId} {protocol : ProtocolName} {payload : Bytes}
    (hstep : s.takeRequest peer protocol payload = some s') : Carries p [] s s' := by
  obtain ⟨ht, rfl⟩ := takeRequest_eq_some hstep
  refine ⟨rfl, ?_⟩
  simp [underway, ht, taskReport, eventReport]

theorem carries_takeCommand (hstep : s.takeCommand = some s') : Carries p [] s s' := by
  unfold takeCommand at hstep
  split at hstep
  · cases hstep
  · next command commands hc =>
    obtain ⟨t, hin, rfl⟩ := Option.map_eq_some_iff.mp hstep
    have ht : Carries p _ s t := carries_takeInput _ hin
    rw [taskReport_onCommand] at ht
    cases command <;> exact ⟨ht.overseer, ht.underway⟩

theorem carries_performTask (hstep : s.performTask = some s') : Carries p [] s s' := by
  obtain ⟨event, tasks, ht, -, rfl⟩ | ⟨id, digest, channel, tasks, ht, rfl⟩ :=
    performTask_eq_some hstep
  · refine ⟨rfl, ?_⟩
    simp [underway, ht, taskReport]
  · refine ⟨rfl, ?_⟩
    simp [underway, ht, taskReport]

theorem carries_takeEvent (hstep : s.takeEvent = some s') : Carries p [] s s' := by
  obtain ⟨event, events, hf, he, rfl⟩ := takeEvent_eq_some hstep
  refine ⟨rfl, ?_⟩
  simp [underway, hf, he, interfaceReport_toInterfaceEvent]

theorem carries_reportEvent (hstep : s.reportEvent = some s') : Carries p [] s s' := by
  obtain ⟨event, hf, -, rfl⟩ := reportEvent_eq_some hstep
  refine ⟨rfl, ?_⟩
  simp [underway, hf]

theorem carries_filterTurn {turn : Filter.Turn (substrate h.env)}
    (hstep : s.filterTurn turn = some s') : Carries p [] s s' := by
  obtain ⟨-, rfl⟩ := filterTurn_eq_some hstep
  exact .of_same rfl rfl rfl rfl rfl

theorem carries_takeFilterCommand {answer : ExecutorAnswer (substrate h.env)}
    (hstep : s.takeFilterCommand answer = some s') : Carries p [] s s' := by
  obtain ⟨command, t, -, hturn, rfl⟩ := takeFilterCommand_eq_some hstep
  have ht : Carries p [] s t := carries_filterTurn hturn
  exact ⟨ht.overseer, ht.underway⟩

theorem carries_performEffect (hstep : s.performEffect = some s') : Carries p [] s s' := by
  obtain ⟨effect, outbox, -, -, ⟨-, rfl⟩ | ⟨command, -, -, rfl⟩⟩ := performEffect_eq_some hstep
  · exact .of_same rfl rfl rfl rfl rfl
  · exact .of_same rfl rfl rfl rfl rfl

theorem oversee_step {call : Call (substrate h.env)} (hstep : s.oversee call = some s') :
    ∃ o, Overseer.Step h.executor s.overseer call o ∧ s' = { s with overseer := o } := by
  obtain ⟨⟨r, o⟩, hr, rfl⟩ := Option.map_eq_some_iff.mp hstep
  refine ⟨o, ?_, rfl⟩
  rw [Overseer.Step, hr]
  rfl

/-- A step carries the reports of the swarm, or the overseer takes the oldest event of the
interface, or it handles a call of someone else. -/
theorem step_cases (p : PeerId) (hstep : Step s action s') :
    (s.takes action = [] ∧ Carries p ((actionReport p action).flatMap announcements) s s') ∨
      (∃ event stream o, action = .overseer ∧ s.stream = event :: stream ∧
        Overseer.Step h.executor s.overseer (.interfaceEvent event) o ∧
        s' = { s with overseer := o, stream := stream }) ∨
      ∃ call o, action = .otherCall call ∧ foreign h.interface call = true ∧
        Overseer.Step h.executor s.overseer call o ∧ s' = { s with overseer := o } := by
  cases action with
  | inboundRequest => exact .inl ⟨rfl, carries_takeRequest hstep⟩
  | responseResolved position result =>
    have hs : Carries p _ s s' := carries_takeInput (.responseResolved position result) hstep
    rw [taskReport_responseResolved] at hs
    exact .inl ⟨rfl, hs⟩
  | swarm event =>
    have hs : Carries p _ s s' := carries_takeInput (.swarm event) hstep
    refine .inl ⟨rfl, ?_⟩
    rw [actionReport, ← taskReport_onSwarmEvent s.network event]
    exact hs
  | command => exact .inl ⟨rfl, carries_takeCommand hstep⟩
  | task => exact .inl ⟨rfl, carries_performTask hstep⟩
  | forward => exact .inl ⟨rfl, carries_takeEvent hstep⟩
  | report => exact .inl ⟨rfl, carries_reportEvent hstep⟩
  | filterCommand answer => exact .inl ⟨rfl, carries_takeFilterCommand hstep⟩
  | filterPoll answer => exact .inl ⟨rfl, carries_filterTurn hstep⟩
  | perform => exact .inl ⟨rfl, carries_performEffect hstep⟩
  | overseer =>
    obtain ⟨event, stream, t, hstream, hover, rfl⟩ := takeInterfaceEvent_eq_some hstep
    obtain ⟨o, ho, rfl⟩ := oversee_step hover
    exact .inr (.inl ⟨event, stream, o, rfl, hstream, ho, rfl⟩)
  | otherCall call =>
    obtain ⟨hcall, hstep⟩ := Option.ite_none_right_eq_some.mp hstep
    obtain ⟨o, ho, rfl⟩ := oversee_step hstep
    exact .inr (.inr ⟨call, o, rfl, hcall, ho, rfl⟩)

theorem takes_overseer {event : InterfaceEvent (substrate h.env)}
    {stream : List (InterfaceEvent (substrate h.env))} (hstream : s.stream = event :: stream) :
    s.takes .overseer = [event] := by
  rw [takes, hstream]
  rfl

theorem underway_step (hstep : Step s action s') :
    s.underway p ++ (actionReport p action).flatMap announcements =
      (s.takes action).flatMap (interfaceReport p h.interface) ++ s'.underway p := by
  obtain ⟨htakes, hs⟩ | ⟨event, stream, o, rfl, hstream, -, rfl⟩ | ⟨call, o, rfl, -, -, rfl⟩ :=
    step_cases p hstep
  · rw [htakes, hs.underway]
    rfl
  · rw [takes_overseer hstream]
    simp [underway, hstream, actionReport]
  · exact List.append_nil _

theorem reached_cons (hstep : Step s action s') (actions : List (Action h)) :
    s.reached (action :: actions) = s.takes action ++ s'.reached actions := by
  rw [reached, hstep]

theorem reachedReports_cons (hstep : Step s action s') (actions : List (Action h)) :
    s.reachedReports p (action :: actions) =
      (s.takes action).flatMap (interfaceReport p h.interface) ++ s'.reachedReports p actions := by
  rw [reachedReports, reached_cons hstep, List.flatMap_append, reachedReports]

/-- Every announcement reaches the overseer, in order, or is on its way. -/
theorem underway_run (hrun : Run Step s actions s') :
    s.underway p ++ (actions.flatMap (actionReport p)).flatMap announcements =
      s.reachedReports p actions ++ s'.underway p := by
  induction hrun with
  | nil s => simp [reachedReports, reached]
  | @cons s t s' action actions hstep _ ih =>
    calc s.underway p ++ ((action :: actions).flatMap (actionReport p)).flatMap announcements
        = (s.underway p ++ (actionReport p action).flatMap announcements) ++
            (actions.flatMap (actionReport p)).flatMap announcements := by
          rw [List.flatMap_cons, List.flatMap_append, List.append_assoc]
      _ = (s.takes action).flatMap (interfaceReport p h.interface) ++
            (t.reachedReports p actions ++ s'.underway p) := by
          rw [underway_step hstep, List.append_assoc, ih]
      _ = s.reachedReports p (action :: actions) ++ s'.underway p := by
          rw [reachedReports_cons hstep, List.append_assoc]

theorem reports_of_open {o : Overseer (substrate h.env)} (hrun : Run Step (start h o) actions s)
    (hopen : .swarm (.connectionClosed p) ∉ actions) :
    (start h o).reachedReports p actions ++ s.underway p = actions.flatMap (actionReport p) := by
  rw [← underway_run hrun, announcements_eq_self_iff.mpr (mt false_mem_actionReport_iff.mp hopen)]
  rfl

end Way

section Registration

theorem registrations_extends {o : Overseer (substrate h.env)} {reqs : List (PeerId × Request)}
    (hi : s.Hosted) (he : Overseer.Extends h.interface reqs s.overseer o)
    (ho : s'.overseer = o) : s'.Hosted ∧ s'.registrations p = s.registrations p := by
  subst ho
  obtain ⟨info, hinfo⟩ := Dict.mem_iff.mp hi
  obtain ⟨info', new, hinfo', hnew, -, habout, -⟩ := he info hinfo
  refine ⟨Dict.mem_of_get? hinfo', ?_⟩
  have hnil : new.flatMap (commandReport p) = [] :=
    List.flatMap_eq_nil_iff.mpr fun c hc => commandReport_of_about (habout c hc)
  rw [registrations, registrations, Overseer.queue_of_get? hinfo', Overseer.queue_of_get? hinfo,
    hnew, List.flatMap_append, hnil, List.append_nil]

theorem registrations_registerPeer {q : PeerId} (protocols : List ProtocolName)
    (sink : PacketSink) (hi : s.Hosted) (hq : q ∉ s.overseer.interfacePeerIds)
    (ho : s'.overseer = (s.overseer.registerPeer h.interface q protocols sink).2) :
    s'.Hosted ∧ s'.registrations p = s.registrations p ++ if q = p then [true] else [] := by
  obtain ⟨info, hinfo⟩ := Dict.mem_iff.mp hi
  have hget : s'.overseer.interfaces.get? h.interface =
      some ({ info with peers := info.peers.insert q protocols.toFinset }.send
        (.registerPeer q sink)) := by
    simp only [ho, Overseer.registerPeer, if_neg hq, hinfo]
    exact Dict.get?_insert_self ..
  refine ⟨Dict.mem_of_get? hget, ?_⟩
  rw [registrations, registrations, Overseer.queue_of_get? hget, Overseer.queue_of_get? hinfo]
  simp [InterfaceInfo.send, commandReport]

theorem interfaceReport_of_relates {event : InterfaceEvent (substrate h.env)}
    (hrelates : Overseer.relates h.interface (.interfaceEvent event) = false) :
    interfaceReport p h.interface event = [] := by
  cases event with
  | peerConnected j q | peerDisconnected j q =>
    have hj : j ≠ h.interface := of_decide_eq_false hrelates
    simp [interfaceReport, hj]
  | _ => rfl

theorem registrations_interfaceEvent {event : InterfaceEvent (substrate h.env)} (hi : s.Hosted)
    (hstep : Overseer.Step h.executor s.overseer (.interfaceEvent event) s'.overseer)
    (hopen : ∀ q, event ≠ .peerDisconnected h.interface q)
    (hremote : ∀ q protocols sink, event = .peerConnected h.interface q protocols sink →
      q ∉ s.overseer.interfacePeerIds) :
    s'.Hosted ∧ s'.registrations p = s.registrations p ++ interfaceReport p h.interface event := by
  cases hrelates : Overseer.relates h.interface (.interfaceEvent event) with
  | false =>
    rw [interfaceReport_of_relates hrelates, List.append_nil]
    exact registrations_extends hi (hstep.extends hrelates) rfl
  | true =>
    cases event with
    | peerConnected j q protocols sink =>
      obtain rfl : j = h.interface := of_decide_eq_true hrelates
      have ho : s'.overseer = (s.overseer.registerPeer h.interface q protocols sink).2 :=
        (Option.some.inj hstep).symm
      obtain ⟨hi', hreg⟩ :=
        registrations_registerPeer (p := p) protocols sink hi (hremote q protocols sink rfl) ho
      refine ⟨hi', hreg.trans ?_⟩
      simp [interfaceReport]
    | peerDisconnected j q =>
      obtain rfl : j = h.interface := of_decide_eq_true hrelates
      exact absurd rfl (hopen q)
    | _ => cases hrelates

theorem relates_of_foreign {call : Call (substrate h.env)}
    (hcall : foreign h.interface call = true) : Overseer.relates h.interface call = false := by
  cases call with
  | interfaceEvent event =>
    cases event with
    | peerConnected | peerDisconnected => simpa [foreign, concerns, Overseer.relates] using hcall
    | _ => rfl
  | _ => rfl

theorem registrations_step (hi : s.Hosted) (hstep : Step s action s') (hopen : s.Stays action)
    (hremote : s.ConnectsRemote action) :
    s'.Hosted ∧ s'.registrations p =
      s.registrations p ++ (s.takes action).flatMap (interfaceReport p h.interface) := by
  obtain ⟨htakes, hs⟩ | ⟨event, stream, o, rfl, hstream, hover, rfl⟩ |
    ⟨call, o, rfl, hcall, hover, rfl⟩ := step_cases p hstep
  · rw [htakes, Hosted, registrations, hs.overseer, List.flatMap_nil, List.append_nil]
    exact ⟨hi, rfl⟩
  · have htakes := takes_overseer hstream
    rw [htakes, List.flatMap_singleton]
    refine registrations_interfaceEvent hi hover ?_ ?_
    · rintro q rfl
      exact hopen q (htakes ▸ List.mem_singleton_self _)
    · rintro q protocols sink rfl
      exact hremote q protocols sink (htakes ▸ List.mem_singleton_self _)
  · have hext := hover.extends (relates_of_foreign hcall)
    have htakes : s.takes (.otherCall call) = [] := rfl
    rw [htakes, List.flatMap_nil, List.append_nil]
    exact registrations_extends hi hext rfl

theorem not_registered_of_not_remote (hstep : Step s action s')
    (hinner : ¬ s.ConnectsRemote action) :
    s'.overseer = s.overseer ∧
      ∃ q, 0 < ((s.takes action).flatMap (interfaceReport q h.interface)).length := by
  simp only [ConnectsRemote, not_forall, not_not] at hinner
  obtain ⟨q, protocols, sink, hmem, hq⟩ := hinner
  obtain ⟨htakes, -⟩ | ⟨event, stream, o, rfl, hstream, hover, rfl⟩ | ⟨call, o, rfl, -⟩ :=
    step_cases q hstep
  · rw [htakes] at hmem
    cases hmem
  · rw [takes_overseer hstream] at hmem ⊢
    obtain rfl := List.mem_singleton.mp hmem
    have ho : o = (s.overseer.registerPeer h.interface q protocols sink).2 :=
      (Option.some.inj hover).symm
    rw [Overseer.registerPeer, if_pos hq] at ho
    exact ⟨ho, q, by simp [interfaceReport]⟩
  · cases hmem

theorem length_registrations_run (hi : s.Hosted) (hrun : Run Step s actions s')
    (hopen : Along Step (fun s action _ => s.Stays action) s actions) :
    (s'.registrations p).length ≤
      (s.registrations p).length + (s.reachedReports p actions).length := by
  induction hrun with
  | nil s => exact Nat.le_add_right ..
  | @cons s t s' action actions hstep _ ih =>
    obtain ⟨hstays, hopen⟩ := along_cons_iff.mp hopen t hstep
    have hone : t.Hosted ∧ (t.registrations p).length ≤ (s.registrations p).length +
        ((s.takes action).flatMap (interfaceReport p h.interface)).length := by
      by_cases hremote : s.ConnectsRemote action
      · obtain ⟨hi', hreg⟩ := registrations_step (p := p) hi hstep hstays hremote
        rw [hreg, List.length_append]
        exact ⟨hi', le_rfl⟩
      · have ho := (not_registered_of_not_remote hstep hremote).1
        rw [Hosted, registrations, ho]
        exact ⟨hi, Nat.le_add_right ..⟩
    have hrest := ih hone.1 hopen
    rw [reachedReports_cons hstep, List.length_append]
    omega

/-- As long as no closed connection reaches the overseer, it registers every connection exactly if
none of them is to another interface. -/
theorem registrations_run (hi : s.Hosted) (hrun : Run Step s actions s')
    (hopen : Along Step (fun s action _ => s.Stays action) s actions) :
    (∀ p, s'.registrations p = s.registrations p ++ s.reachedReports p actions) ↔
      Along Step (fun s action _ => s.ConnectsRemote action) s actions := by
  induction hrun with
  | nil s => exact iff_of_true (fun p => (List.append_nil _).symm) along_nil
  | @cons s t s' action actions hstep hrun ih =>
    obtain ⟨hstays, hopen⟩ := along_cons_iff.mp hopen t hstep
    have hcons : Along Step (fun s action _ => s.ConnectsRemote action) s (action :: actions) ↔
        s.ConnectsRemote action ∧
          Along Step (fun s action _ => s.ConnectsRemote action) t actions := by
      rw [along_cons_iff]
      exact ⟨fun hall => hall t hstep, fun hall u hu => by
        obtain rfl : t = u := Option.some.inj (hstep.symm.trans hu)
        exact hall⟩
    rw [hcons]
    by_cases hremote : s.ConnectsRemote action
    · have hone := fun p => registrations_step (p := p) hi hstep hstays hremote
      rw [and_iff_right hremote, ← ih (hone []).1 hopen]
      refine forall_congr' fun p => ?_
      rw [(hone p).2, reachedReports_cons hstep, List.append_assoc]
    · refine iff_of_false ?_ fun hall => hremote hall.1
      intro hreg
      obtain ⟨ho, q, hq⟩ := not_registered_of_not_remote hstep hremote
      have hi' : t.Hosted := by
        rw [Hosted, ho]
        exact hi
      have hbound := length_registrations_run (p := q) hi' hrun hopen
      have hsame : t.registrations q = s.registrations q := by rw [registrations, ho, registrations]
      rw [hreg q, reachedReports_cons hstep, List.length_append, List.length_append,
        hsame] at hbound
      omega

end Registration

theorem mem_underway {event : InterfaceEvent (substrate h.env)} {b : Bool}
    (hmem : event ∈ s.takes action) (hb : b ∈ interfaceReport p h.interface event) :
    b ∈ s.underway p := by
  cases action with
  | overseer =>
    have hstream : event ∈ s.stream := List.mem_of_mem_head? (Option.mem_toList.mp hmem)
    simp only [underway, List.mem_append, List.append_assoc]
    exact .inl (List.mem_flatMap.mpr ⟨event, hstream, hb⟩)
  | _ => cases hmem

theorem along_stays {o : Overseer (substrate h.env)}
    (hopen : ∀ p, .swarm (.connectionClosed p) ∉ actions) :
    Along Step (fun s action _ => s.Stays action) (start h o) actions := by
  intro pre action t u hpre hrun _ q hmem
  have hclosed : .swarm (.connectionClosed q) ∉ pre := fun hin =>
    hopen q (hpre.subset (List.mem_append_left _ hin))
  have hunder : false ∈ t.underway q := mem_underway hmem (by simp [interfaceReport])
  have hfalse : false ∈ pre.flatMap (actionReport q) := by
    rw [← reports_of_open hrun hclosed]
    exact List.mem_append_right _ hunder
  exact hclosed (false_mem_actionReport_iff.mp hfalse)

/-- However the tasks around an interface interleave, the connections of every peer are reported,
registered and unregistered once exactly if no connection is closed and none is to another
interface of the host: the network announces a closed connection twice. -/
theorem connectsOnce_iff (o : Overseer (substrate h.env)) {info : InterfaceInfo (substrate h.env)}
    (ho : o.interfaces.get? h.interface = some info) (actions : List (Action h))
    (hrun : Run Step (start h o) actions s)
    (hswarm : ∀ p, Alternates true (actions.flatMap (actionReport p))) :
    (∀ p, ConnectsOnce p (start h o) actions s) ↔
      (∀ p, .swarm (.connectionClosed p) ∉ actions) ∧
        Along Step (fun s action _ => s.ConnectsRemote action) (start h o) actions := by
  have hi : (start h o).Hosted := Dict.mem_of_get? ho
  constructor
  · intro hall
    have hopen : ∀ p, .swarm (.connectionClosed p) ∉ actions := by
      intro p
      rw [← false_mem_actionReport_iff, ← announcements_eq_self_iff]
      have hway := underway_run (p := p) hrun
      rw [(hall p).carried] at hway
      exact hway
    exact ⟨hopen, (registrations_run hi hrun (along_stays hopen)).mp fun p => (hall p).registered⟩
  · rintro ⟨hopen, hremote⟩ p
    have hcarried := reports_of_open hrun (hopen p)
    refine ⟨?_, hcarried, ?_, ?_⟩
    · have hp := hswarm p
      rw [← hcarried] at hp
      exact hp.of_append
    · exact (registrations_run hi hrun (along_stays hopen)).mpr hremote p
    · intro pre action t u hpre hr hu hmem
      exact absurd hmem (along_stays hopen pre action t u hpre hr hu p)

end System

section Example

def localOverseer : Overseer (substrate localHost.env) :=
  (Overseer.createInterface (.loading loopback) (Overseer.new ⟨[]⟩) ⟨[127, 0, 0, 1], 0⟩ "" none).2

def connecting : List (Action localHost) :=
  [.swarm (.connectionEstablished [7]), .task, .forward, .report, .overseer]

/-- The peer disconnects again, and both announcements reach the overseer. -/
def disconnecting : List (Action localHost) :=
  connecting ++ [.swarm (.connectionClosed [7]), .task, .task, .forward, .report, .overseer,
    .forward, .report, .overseer]

theorem alternates_disconnecting (p : PeerId) :
    Alternates true (disconnecting.flatMap (actionReport p)) := by
  by_cases hp : [7] = p <;>
    simp [disconnecting, connecting, actionReport, swarmReport, hp, Alternates]

theorem connectsOnce_connecting : ∃ s, Run System.Step (System.start localHost localOverseer)
    connecting s ∧ s.registrations [7] = [true] ∧
    ∀ p, System.ConnectsOnce p (System.start localHost localOverseer) connecting s := by
  obtain ⟨s, hrun, hreg⟩ : ∃ s, Run System.Step (System.start localHost localOverseer) connecting
      s ∧ s.registrations [7] = [true] := ⟨_, Run.foldlM_iff.mpr rfl, rfl⟩
  have hnone : ∀ (s : System localHost) (action : Action localHost), s.takes action = [] →
      s.ConnectsRemote action := by
    intro s action htakes q protocols sink hmem
    rw [htakes] at hmem
    cases hmem
  have hchecks : Checks (fun s action => (System.step s action).getD s) System.ConnectsRemote
      (System.start localHost localOverseer) connecting := by
    refine ⟨hnone _ _ rfl, hnone _ _ rfl, hnone _ _ rfl, hnone _ _ rfl, ?_, trivial⟩
    intro q protocols sink hmem
    cases List.mem_singleton.mp hmem
    decide
  refine ⟨s, hrun, hreg,
    (System.connectsOnce_iff localOverseer rfl connecting hrun ?_).mpr ⟨?_, ?_⟩⟩
  · intro p
    have hp := alternates_disconnecting p
    rw [disconnecting, List.flatMap_append] at hp
    exact hp.of_append
  · simp [connecting]
  · refine hchecks.along fun s action t ht => ?_
    rw [ht]
    rfl

/-- The second announcement of the closed connection finds no peer. -/
theorem not_connectsOnce_disconnecting :
    (∀ p, Alternates true (disconnecting.flatMap (actionReport p))) ∧
      ∃ s t, Run System.Step (System.start localHost localOverseer) disconnecting.dropLast s ∧
        s.takes .overseer = [.peerDisconnected 0 [7]] ∧
        (s.overseer.unregisterPeer 0 [7]).1 = .error .peerDoesntExist ∧ s.Step .overseer t ∧
        (System.start localHost localOverseer).reachedReports [7] disconnecting =
          [true, false, false] ∧
        ¬ System.ConnectsOnce [7] (System.start localHost localOverseer) disconnecting t := by
  have hreached : (System.start localHost localOverseer).reachedReports [7] disconnecting =
      [true, false, false] := by decide
  refine ⟨alternates_disconnecting, _, _, Run.foldlM_iff.mpr rfl, rfl, rfl, rfl, hreached, ?_⟩
  intro honce
  have halt := honce.alternates
  rw [hreached] at halt
  exact absurd halt (by decide)

end Example

end SwarmHost.EndToEnd
