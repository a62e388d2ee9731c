import SwarmHost.Collections.Tokens
import SwarmHost.EndToEnd.Responses
import SwarmHost.EndToEnd.Syncing
import SwarmHost.Overseer.Sends

/-! # Outbound requests under way

An outbound request is in one place at a time: among the effects of the filter,
among the commands of the network, unresolved, or, with its response, on the way
back to the filter. The network, the forwarding task and the overseer move it along,
and turn it into its response when it is resolved or found in the cache.
-/

namespace SwarmHost.EndToEnd

open Substrate

def commandRequest : Command → Option Bytes
  | .sendRequest _ _ request => some request
  | _ => none

/-- An outbound request that the filter sent, with its response once it has one. -/
structure Exchange where
  peer : PeerId
  protocol : ProtocolName
  response : Option Bytes
  deriving DecidableEq

section Tokens

variable {env : Environment}

def commandExchange : Command → Option Exchange
  | .sendRequest peer protocol _ => some ⟨peer, protocol, none⟩
  | _ => none

def effectExchange (effect : FilterEffect (substrate env)) : Option Exchange :=
  (toCommand effect).bind commandExchange

def unresolved (request : PeerId × ProtocolName × ℕ) : Option Exchange :=
  some ⟨request.1, request.2.1, none⟩

def eventExchange : NetworkEvent → Option Exchange
  | .responseReceived peer protocol _ response => some ⟨peer, protocol, some response⟩
  | _ => none

def taskExchange : Task → Option Exchange
  | .emit event => eventExchange event
  | .remember .. => none

def interfaceExchange (i : ℕ) : InterfaceEvent (substrate env) → Option Exchange
  | .responseReceived j peer protocol _ response =>
    if j = i then some ⟨peer, protocol, some response.payload⟩ else none
  | _ => none

def filterExchange : FilterCommand (substrate env) → Option Exchange
  | .injectResponse protocol peer response => some ⟨peer, protocol, some response.payload⟩
  | _ => none

theorem interfaceExchange_toInterfaceEvent (i : ℕ) (event : NetworkEvent) :
    interfaceExchange i (toInterfaceEvent i event : InterfaceEvent (substrate env)) =
      eventExchange event := by
  cases event with
  | responseReceived => simp [toInterfaceEvent, interfaceExchange, eventExchange]
  | _ => rfl

theorem carried_sends {o : Overseer (substrate env)} {i : ℕ} (hi : i ∈ o.interfaces)
    (order : List ℕ) (call : Call (substrate env)) :
    carried filterExchange (commandsTo i (o.sends order call)) =
      match call with
      | .interfaceEvent event => ((interfaceExchange i event).toList : Multiset Exchange)
      | _ => 0 := by
  have hquiet : (∀ c, Overseer.Sends call (.command i c) → filterExchange c = none) →
      carried filterExchange (commandsTo i (o.sends order call)) = 0 := fun hnone =>
    carried_eq_zero fun c hc => hnone c (Overseer.sends_of_mem (mem_commandsTo.mp hc))
  cases call with
  | interfaceEvent event =>
    cases event with
    | responseReceived j peer protocol id response =>
      by_cases hj : j = i
      · subst hj
        simp [Overseer.sends, Overseer.eventSends, Overseer.sendsChecked, hi, commandsTo_command,
          carried_cons, filterExchange, interfaceExchange]
      · simp only [interfaceExchange, if_neg hj]
        apply hquiet
        intro c hc
        cases hc
        exact absurd rfl hj
    | _ => exact hquiet fun c hc => by cases hc <;> rfl
  | _ => exact hquiet fun c hc => by cases hc <;> rfl

def OwnEvent : InterfaceEvent (substrate env) → Prop
  | .peerConnected _ peer _ sink => sink = ⟨peer⟩
  | _ => True

def OwnCommand : FilterCommand (substrate env) → Prop
  | .registerPeer peer sink => sink = ⟨peer⟩
  | _ => True

theorem ownEvent_toInterfaceEvent (i : ℕ) (event : NetworkEvent) :
    OwnEvent (toInterfaceEvent i event : InterfaceEvent (substrate env)) := by
  cases event <;> first | rfl | trivial

theorem ownCommand_of_sends {i : ℕ} {call : Call (substrate env)}
    {c : FilterCommand (substrate env)}
    (hcall : foreign i call ∨ ∃ event, call = .interfaceEvent event ∧ OwnEvent event)
    (h : Overseer.Sends call (.command i c)) : OwnCommand c := by
  cases h with
  | register =>
    rcases hcall with hforeign | ⟨event, heq, hown⟩
    · simp [foreign, concerns] at hforeign
    · cases heq
      exact hown
  | _ => trivial

end Tokens

namespace System

variable {h : Host} {s s' : System h} {codec : Codec}

/-- The outbound requests under way. -/
def exchanges (s : System h) : Multiset Exchange :=
  carried effectExchange s.outbox + carried commandExchange s.commands +
    carried unresolved s.network.pendingResponses + carried taskExchange s.tasks +
    carried eventExchange s.events +
    carried (interfaceExchange h.interface) s.forwarding.toList +
    carried (interfaceExchange h.interface) s.stream +
    carried filterExchange ((s.overseer.queue h.interface).drop s.taken)

/-- What holds of the ways between the tasks: the filter is behind the overseer, and sinks belong to
the peers they are registered for. -/
structure Routed (s : System h) : Prop where
  hosted : s.Hosted
  taken : s.taken ≤ (s.overseer.queue h.interface).length
  forwarding : ∀ event ∈ s.forwarding, OwnEvent event
  stream : ∀ event ∈ s.stream, OwnEvent event
  commands : ∀ c ∈ (s.overseer.queue h.interface).drop s.taken, OwnCommand c

/-- The requests that a step resolves or finds in the cache get a response that can be decoded. -/
def Resolves (codec : Codec) (s : System h) : Action h → Prop
  | .responseResolved position result =>
    position < s.network.pendingResponses.length →
      ∃ response ∈ result, (codec.parseResponse response).isSome
  | .command =>
    ∀ request ∈ s.commands.head?.bind commandRequest,
      ∀ response ∈ s.network.cachedResponses.get? (h.env.digest request),
        (codec.parseResponse response).isSome
  | _ => True

instance (codec : Codec) (s : System h) : DecidablePred (s.Resolves codec)
  | .responseResolved position result => inferInstanceAs (Decidable
      (position < s.network.pendingResponses.length →
        ∃ response ∈ result, (codec.parseResponse response).isSome))
  | .command => inferInstanceAs (Decidable (∀ request ∈ s.commands.head?.bind commandRequest,
      ∀ response ∈ s.network.cachedResponses.get? (h.env.digest request),
        (codec.parseResponse response).isSome))
  | .inboundRequest .. | .swarm _ | .task | .forward | .report | .overseer | .otherCall _
  | .filterCommand _ | .filterPoll _ | .perform => .isTrue trivial

/-- The requests under way are the same, or one of them got a response. -/
inductive Moves (codec : Codec) (s s' : System h) : Prop where
  | same (heq : s'.exchanges = s.exchanges)
  | respond (peer : PeerId) (protocol : ProtocolName) (response : Bytes) (rest : Multiset Exchange)
      (hdecodes : (codec.parseResponse response).isSome)
      (hbefore : s.exchanges = ⟨peer, protocol, none⟩ ::ₘ rest)
      (hafter : s'.exchanges = ⟨peer, protocol, some response⟩ ::ₘ rest)

/-- A step of a task other than the filter. -/
structure Transfers (codec : Codec) (s s' : System h) : Prop where
  routed : s'.Routed
  filter : s'.filter = s.filter
  taken : s'.taken = s.taken
  moves : Moves codec s s'

theorem Routed.of_same (hr : s.Routed) (ho : s'.overseer = s.overseer) (ht : s'.taken = s.taken)
    (hf : s'.forwarding = s.forwarding) (hs : s'.stream = s.stream) : s'.Routed where
  hosted := by rw [Hosted, ho]; exact hr.hosted
  taken := by rw [ho, ht]; exact hr.taken
  forwarding := by rw [hf]; exact hr.forwarding
  stream := by rw [hs]; exact hr.stream
  commands := by rw [ho, ht]; exact hr.commands

section Network

theorem carried_onSwarmEvent (n : Network) (event : SwarmEvent) :
    carried taskExchange (n.onSwarmEvent event).2 = 0 ∧
      (n.onSwarmEvent event).1.pendingResponses = n.pendingResponses := by
  cases event with
  | discovered peer =>
    simp only [Network.onSwarmEvent]
    split
    · exact ⟨rfl, rfl⟩
    · exact ⟨rfl, rfl⟩
  | notificationsReceived remote messages =>
    refine ⟨carried_eq_zero fun task htask => ?_, rfl⟩
    obtain ⟨message, -, rfl⟩ := List.mem_map.mp htask
    rfl
  | _ => exact ⟨rfl, rfl⟩

theorem transfers_swarm (hr : s.Routed) {event : SwarmEvent}
    (hstep : s.takeInput (.swarm event) = some s') : Transfers codec s s' := by
  obtain ⟨ht, rfl⟩ := takeInput_eq_some hstep
  obtain ⟨hnone, hpending⟩ := carried_onSwarmEvent s.network event
  refine ⟨hr.of_same rfl rfl rfl rfl, rfl, rfl, .same ?_⟩
  simp only [exchanges, Network.receive, hnone, hpending, ht, carried_nil]

theorem transfers_takeRequest (hr : s.Routed) {peer : PeerId} {protocol : ProtocolName}
    {payload : Bytes} (hstep : s.takeRequest peer protocol payload = some s') :
    Transfers codec s s' := by
  obtain ⟨ht, rfl⟩ := takeRequest_eq_some hstep
  refine ⟨hr.of_same rfl rfl rfl rfl, rfl, rfl, .same ?_⟩
  simp only [exchanges, ht]
  rfl

theorem transfers_responseResolved (hr : s.Routed) {position : ℕ} {result : Option Bytes}
    (hresolves : s.Resolves codec (.responseResolved position result))
    (hstep : s.takeInput (.responseResolved position result) = some s') :
    Transfers codec s s' := by
  obtain ⟨ht, rfl⟩ := takeInput_eq_some hstep
  refine ⟨hr.of_same rfl rfl rfl rfl, rfl, rfl, ?_⟩
  cases hrequest : s.network.pendingResponses[position]? with
  | none =>
    refine .same ?_
    simp only [exchanges, Network.receive, hrequest, ht]
  | some request =>
    obtain ⟨response, rfl, hdecodes⟩ :=
      hresolves (List.getElem?_eq_some_iff.mp hrequest).1
    obtain ⟨peer, protocol, id⟩ := request
    have htaken := carried_eraseIdx (f := unresolved) hrequest rfl
    refine .respond peer protocol response
      (exchanges { s with network := { s.network with
        pendingResponses := s.network.pendingResponses.eraseIdx position } }) hdecodes ?_ ?_
    · simp only [exchanges, ht, htaken, carried_nil, ← Multiset.singleton_add]
      abel
    · simp only [exchanges, Network.receive, hrequest, Option.toList_some, List.map_cons,
        List.map_nil, carried_cons, taskExchange, eventExchange, ← Multiset.singleton_add,
        Multiset.coe_singleton, carried_nil, ht]
      abel

/-- A command that is not a request to a peer leaves the requests alone. -/
theorem transfers_command_of_none (hr : s.Routed) {command : Command} {commands : List Command}
    (ht : s.tasks = []) (hc : s.commands = command :: commands)
    (hnone : commandExchange command = none) {out : Network.Handled} {issued answered : List ℕ}
    {delivered : List (ℕ × Bytes)} {w : Bool} (htasks : out.2.1 = [])
    (hpending : out.1.pendingResponses = s.network.pendingResponses) :
    Transfers codec s { s with
      network := out.1
      tasks := out.2.1
      delivered := delivered
      commands := commands
      issued := issued
      answered := answered
      awaiting := w } := by
  refine ⟨hr.of_same rfl rfl rfl rfl, rfl, rfl, .same ?_⟩
  simp only [exchanges, hpending, htasks, ht, hc, carried_cons, hnone]
  rfl

theorem transfers_takeCommand (hr : s.Routed) (hresolves : s.Resolves codec .command)
    (hstep : s.takeCommand = some s') : Transfers codec s s' := by
  unfold takeCommand at hstep
  split at hstep
  · cases hstep
  rename_i command commands hc
  obtain ⟨t, hin, hs'⟩ := Option.map_eq_some_iff.mp hstep
  obtain ⟨ht, rfl⟩ := takeInput_eq_some hin
  cases command with
  | sendRequest peer protocol request =>
    subst hs'
    have hdecodes := hresolves request (by rw [hc]; rfl)
    refine ⟨hr.of_same rfl rfl rfl rfl, rfl, rfl, ?_⟩
    cases hcached : s.network.cachedResponses.get? (h.env.digest request) with
    | none =>
      refine .same ?_
      simp only [exchanges, Network.receive, Network.onCommand, Network.takeRequestId, hcached, ht,
        hc, carried_cons, carried_append, carried_nil, commandExchange, unresolved]
      abel
    | some response =>
      refine .respond peer protocol response (exchanges { s with commands := commands })
        (hdecodes response hcached) ?_ ?_
      · simp only [exchanges, hc, carried_cons, commandExchange, Option.toList_some,
          Multiset.coe_singleton, ← Multiset.singleton_add]
        abel
      · simp only [exchanges, Network.receive, Network.onCommand, Network.takeRequestId, hcached,
          ht, carried_cons, carried_nil, taskExchange, eventExchange, Option.toList_some,
          Multiset.coe_singleton, ← Multiset.singleton_add]
        abel
  | sendResponse peer id response =>
    subst hs'
    refine transfers_command_of_none hr ht hc rfl ?_ ?_
    · simp only [Network.receive, Network.onCommand]
      split <;> rfl
    · simp only [Network.receive, Network.onCommand]
      split <;> rfl
  | sendNotification | connect | disconnect =>
    subst hs'
    exact transfers_command_of_none hr ht hc rfl rfl rfl

theorem transfers_performTask (hr : s.Routed) (hstep : s.performTask = some s') :
    Transfers codec s s' := by
  obtain ⟨event, tasks, ht, -, rfl⟩ | ⟨id, digest, channel, tasks, ht, rfl⟩ :=
    performTask_eq_some hstep
  · refine ⟨hr.of_same rfl rfl rfl rfl, rfl, rfl, .same ?_⟩
    simp only [exchanges, ht, carried_cons, carried_append, carried_nil, taskExchange]
    abel
  · refine ⟨hr.of_same rfl rfl rfl rfl, rfl, rfl, .same ?_⟩
    simp only [exchanges, ht, carried_cons, taskExchange, Network.remember]
    rfl

end Network

section Ways

theorem transfers_takeEvent (hr : s.Routed) (hstep : s.takeEvent = some s') :
    Transfers codec s s' := by
  obtain ⟨event, events, hf, he, rfl⟩ := takeEvent_eq_some hstep
  refine ⟨⟨hr.hosted, hr.taken, ?_, hr.stream, hr.commands⟩, rfl, rfl, .same ?_⟩
  · intro event' heq
    obtain rfl := Option.some.inj heq
    exact ownEvent_toInterfaceEvent h.interface event
  · simp only [exchanges, hf, he, carried_cons, carried_nil, Option.toList_some,
      Option.toList_none, interfaceExchange_toInterfaceEvent]
    abel

theorem transfers_reportEvent (hr : s.Routed) (hstep : s.reportEvent = some s') :
    Transfers codec s s' := by
  obtain ⟨event, hf, -, rfl⟩ := reportEvent_eq_some hstep
  refine ⟨⟨hr.hosted, hr.taken, by simp, ?_, hr.commands⟩, rfl, rfl, .same ?_⟩
  · intro event' hevent
    rcases List.mem_append.mp hevent with hevent | hevent
    · exact hr.stream event' hevent
    · obtain rfl := List.mem_singleton.mp hevent
      exact hr.forwarding event' hf
  · simp only [exchanges, hf, carried_append, carried_nil, Option.toList_some,
      Option.toList_none]
    abel

theorem oversee_sends {call : Call (substrate h.env)} (hr : s.Routed)
    (hstep : s.oversee call = some s') :
    s' = { s with overseer := s'.overseer } ∧ s'.Hosted ∧
      s'.overseer.queue h.interface = s.overseer.queue h.interface ++
        commandsTo h.interface (s.overseer.sends s.overseer.interfaces.keys call) := by
  obtain ⟨hhosted, -, -⟩ := oversee_eq_some hr.hosted hstep
  obtain ⟨⟨r, o⟩, hhandle, rfl⟩ := Option.map_eq_some_iff.mp hstep
  exact ⟨rfl, hhosted, (Overseer.emits_handle (.refl _) hhandle).queue h.interface⟩

/-- The queue of the filter grows by commands, and the stream is what is left of it. -/
theorem Routed.oversee (hr : s.Routed) {call : Call (substrate h.env)}
    (hcall : foreign h.interface call ∨ ∃ event, call = .interfaceEvent event ∧ OwnEvent event)
    (hstep : s.oversee call = some s') (stream : List (InterfaceEvent (substrate h.env)))
    (hstream : ∀ event ∈ stream, event ∈ s.stream) : Routed { s' with stream := stream } := by
  obtain ⟨heq, hhosted, hqueue⟩ := oversee_sends hr hstep
  rw [heq]
  refine ⟨hhosted, ?_, hr.forwarding, fun e he => hr.stream e (hstream e he), fun c hc => ?_⟩
  · change s.taken ≤ (s'.overseer.queue h.interface).length
    rw [hqueue, List.length_append]
    exact Nat.le_add_right_of_le hr.taken
  · change c ∈ (s'.overseer.queue h.interface).drop s.taken at hc
    rw [hqueue, List.drop_append_of_le_length hr.taken] at hc
    rcases List.mem_append.mp hc with hc | hc
    · exact hr.commands c hc
    · exact ownCommand_of_sends hcall (Overseer.sends_of_mem (mem_commandsTo.mp hc))

theorem transfers_takeInterfaceEvent (hr : s.Routed) (hstep : s.takeInterfaceEvent = some s') :
    Transfers codec s s' := by
  obtain ⟨event, stream, t, hstream, hover, rfl⟩ := takeInterfaceEvent_eq_some hstep
  have hown : OwnEvent event := hr.stream event (by rw [hstream]; exact List.mem_cons_self)
  have hrouted := hr.oversee (.inr ⟨event, rfl, hown⟩) hover stream
    fun e he => by rw [hstream]; exact List.mem_cons_of_mem _ he
  obtain ⟨heq, -, hqueue⟩ := oversee_sends hr hover
  rw [heq] at hrouted ⊢
  refine ⟨hrouted, rfl, rfl, .same ?_⟩
  simp only [exchanges, hqueue, List.drop_append_of_le_length hr.taken, carried_append,
    carried_sends hr.hosted, hstream, carried_cons]
  abel

theorem carried_sends_foreign {i : ℕ} {env : Environment} {o : Overseer (substrate env)}
    (hi : i ∈ o.interfaces) (order : List ℕ) {call : Call (substrate env)}
    (hcall : foreign i call) : carried filterExchange (commandsTo i (o.sends order call)) = 0 := by
  rw [carried_sends hi]
  cases call with
  | interfaceEvent event =>
    cases event with
    | responseReceived j peer protocol id response =>
      have hj : j ≠ i := by simpa [foreign, concerns] using hcall
      simp [interfaceExchange, hj]
    | _ => rfl
  | _ => rfl

theorem transfers_otherCall (hr : s.Routed) {call : Call (substrate h.env)}
    (hcall : foreign h.interface call) (hstep : s.oversee call = some s') :
    Transfers codec s s' := by
  have hrouted := hr.oversee (.inl hcall) hstep s.stream fun _ he => he
  obtain ⟨heq, -, hqueue⟩ := oversee_sends hr hstep
  rw [heq] at hrouted ⊢
  refine ⟨hrouted, rfl, rfl, .same ?_⟩
  simp only [exchanges, hqueue, List.drop_append_of_le_length hr.taken, carried_append,
    carried_sends_foreign hr.hosted _ hcall]
  abel

theorem transfers_performEffect (hr : s.Routed) (hstep : s.performEffect = some s') :
    Transfers codec s s' := by
  obtain ⟨effect, outbox, -, hout, ⟨hnone, rfl⟩ | ⟨command, hcommand, -, rfl⟩⟩ :=
    performEffect_eq_some hstep
  · refine ⟨hr.of_same rfl rfl rfl rfl, rfl, rfl, .same ?_⟩
    simp only [exchanges, hout, carried_cons, effectExchange, hnone]
    rfl
  · refine ⟨hr.of_same rfl rfl rfl rfl, rfl, rfl, .same ?_⟩
    simp only [exchanges, hout, carried_cons, carried_append, carried_nil, effectExchange,
      hcommand, Option.bind_some]
    abel

end Ways

theorem transfers_step {action : Action h} (hr : s.Routed) (hresolves : s.Resolves codec action)
    (hcommand : ∀ answer, action ≠ .filterCommand answer)
    (hpoll : ∀ answer, action ≠ .filterPoll answer) (hstep : s.step action = some s') :
    Transfers codec s s' := by
  cases action with
  | inboundRequest peer protocol payload => exact transfers_takeRequest hr hstep
  | responseResolved position result => exact transfers_responseResolved hr hresolves hstep
  | swarm event => exact transfers_swarm hr hstep
  | command => exact transfers_takeCommand hr hresolves hstep
  | task => exact transfers_performTask hr hstep
  | forward => exact transfers_takeEvent hr hstep
  | report => exact transfers_reportEvent hr hstep
  | overseer => exact transfers_takeInterfaceEvent hr hstep
  | otherCall call =>
    obtain ⟨hcall, hstep⟩ := Option.ite_none_right_eq_some.mp hstep
    exact transfers_otherCall hr hcall hstep
  | filterCommand answer => exact absurd rfl (hcommand answer)
  | filterPoll answer => exact absurd rfl (hpoll answer)
  | perform => exact transfers_performEffect hr hstep

end System

end SwarmHost.EndToEnd
