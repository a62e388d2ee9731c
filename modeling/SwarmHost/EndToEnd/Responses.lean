import SwarmHost.EndToEnd.Consistency

/-! # Responses reach the requester

Every step of every task keeps the system consistent. In every state that any
interleaving reaches, a response therefore goes to the request it was produced
for, at most once, and finds the channel of that request.
-/

namespace SwarmHost.EndToEnd

open Substrate

namespace System

variable {h : Host} {s s' : System h}

/-- The tasks announce no request and store no response channel. -/
def Silent (tasks : List Task) : Prop :=
  ∀ task ∈ tasks, taskRequest task = none ∧
    ∀ id digest channel, task ≠ .remember id digest channel

theorem Silent.announcing_eq {tasks : List Task} (ht : Silent tasks) : announcing tasks = 0 := by
  have hnil : tasks.filterMap taskRequest = [] :=
    List.filterMap_eq_nil_iff.mpr fun task htask => (ht task htask).1
  rw [announcing, hnil]
  rfl

theorem Silent.remember_notMem {tasks : List Task} (ht : Silent tasks) (id : ℕ) (digest : UInt64)
    (channel : ℕ) : .remember id digest channel ∉ tasks :=
  fun hmem => (ht _ hmem).2 id digest channel rfl

theorem silent_nil : Silent [] := fun _ ht => by cases ht

theorem silent_emit {event : NetworkEvent} (he : eventRequest event = none) :
    Silent [.emit event] := by
  intro task ht
  rw [List.mem_singleton] at ht
  subst ht
  exact ⟨he, fun _ _ _ h => by cases h⟩

/-- The input leaves the response channels and the identifiers alone. -/
structure Quiet (n : Network) (out : Network.Handled) : Prop where
  pending : out.1.pendingRequests = n.pendingRequests
  next : out.1.nextRequestId = n.nextRequestId
  silent : Silent out.2.1
  deliveries : deliveries out.2.2 = []

theorem quiet_swarm (digest : Bytes → UInt64) (n : Network) (event : SwarmEvent) :
    Quiet n (n.receive digest (.swarm event)) := by
  cases event with
  | discovered peer =>
    simp only [Network.receive, Network.onSwarmEvent]
    split
    · exact ⟨rfl, rfl, silent_nil, rfl⟩
    · exact ⟨rfl, rfl, silent_emit rfl, rfl⟩
  | notificationStreamOpened => exact ⟨rfl, rfl, silent_emit rfl, rfl⟩
  | notificationStreamReplaced => exact ⟨rfl, rfl, silent_nil, rfl⟩
  | notificationStreamClosed => exact ⟨rfl, rfl, silent_emit rfl, rfl⟩
  | notificationsReceived remote messages =>
    refine ⟨rfl, rfl, fun task ht => ?_, rfl⟩
    obtain ⟨message, -, rfl⟩ := List.mem_map.mp ht
    exact ⟨rfl, fun _ _ _ h => by cases h⟩
  | connectionEstablished => exact ⟨rfl, rfl, silent_emit rfl, rfl⟩
  | connectionClosed peer =>
    refine ⟨rfl, rfl, fun task ht => ?_, rfl⟩
    simp only [Network.receive, Network.onSwarmEvent, List.mem_cons, List.not_mem_nil, or_false,
      or_self] at ht
    subst ht
    exact ⟨rfl, fun _ _ _ h => by cases h⟩

theorem quiet_resolved (digest : Bytes → UInt64) (n : Network) (position : ℕ)
    (result : Option Bytes) : Quiet n (n.receive digest (.responseResolved position result)) := by
  simp only [Network.receive]
  split
  · exact ⟨rfl, rfl, silent_nil, rfl⟩
  · cases result with
    | none => exact ⟨rfl, rfl, silent_nil, rfl⟩
    | some response => exact ⟨rfl, rfl, silent_emit rfl, rfl⟩

theorem inflight_of_silent {tasks : List Task} (ht : s.tasks = []) (hsil : Silent tasks)
    (htasks : s'.tasks = tasks) (he : s'.events = s.events) (hf : s'.forwarding = s.forwarding)
    (hst : s'.stream = s.stream) (ho : s'.overseer = s.overseer) (hta : s'.taken = s.taken)
    (hfi : s'.filter = s.filter) : s'.inflight = s.inflight := by
  rw [inflight, htasks, hsil.announcing_eq, he, hf, hst, ho, hta, hfi, inflight, ht,
    silent_nil.announcing_eq]

theorem Consistent.takeInput (hs : Consistent s) {input : NetworkInput}
    (hq : Quiet s.network (s.network.receive h.env.digest input))
    (hstep : s.takeInput input = some s') : Consistent s' := by
  obtain ⟨ht, rfl⟩ := takeInput_eq_some hstep
  refine hs.of_moved ?_ rfl hq.next ?_ rfl
  · refine .of_same rfl (fun _ hr => hr) rfl ?_ hq.pending ?_ rfl
    · simp [hq.deliveries]
    · intro id digest channel
      rw [ht]
      exact iff_of_false (hq.silent.remember_notMem id digest channel) List.not_mem_nil
  · apply le_of_eq
    exact inflight_of_silent ht hq.silent rfl rfl rfl rfl rfl rfl rfl

/-- A new request gets a fresh identifier and a fresh response channel. -/
theorem Consistent.takeRequest (hs : Consistent s) {peer : PeerId} {protocol : ProtocolName}
    {payload : Bytes} (hstep : s.takeRequest peer protocol payload = some s') :
    Consistent s' := by
  obtain ⟨ht, rfl⟩ := takeRequest_eq_some hstep
  refine hs.of_admits ⟨rfl, rfl, rfl, ?_, rfl, rfl, rfl, rfl, ?_, fun hh => hh⟩
  · have hnew : announcing [.emit (.requestReceived peer protocol s.network.nextRequestId payload),
        .remember s.network.nextRequestId (h.env.digest payload) s.received.length] =
        {(peer, s.network.nextRequestId)} + announcing [] := rfl
    simp only [System.inflight, ht, hnew, ← Multiset.singleton_add]
    abel
  · simp [Holds, ht, exists_or]

theorem Consistent.skipCommand (hs : Consistent s) {command : Command} {commands : List Command}
    (ht : s.tasks = []) (hc : s.commands = command :: commands)
    (hr : commandResponse command = none) {out : Network.Handled} {issued : List ℕ} {w : Bool}
    (hp : out.1.pendingRequests = s.network.pendingRequests) (hsil : Silent out.2.1)
    (hd : deliveries out.2.2 = []) (hn : s.network.nextRequestId ≤ out.1.nextRequestId)
    (hi : issued = List.range out.1.nextRequestId) :
    Consistent { s with
      network := out.1
      tasks := out.2.1
      delivered := s.delivered ++ deliveries out.2.2
      commands := commands
      issued := issued
      awaiting := w } := by
  have hout : commanded s.commands = commanded commands := by
    rw [hc, commanded, commanded, List.filterMap_cons_none hr]
  have hin : ∀ s' : System h, s' = { s with
      network := out.1
      tasks := out.2.1
      delivered := s.delivered ++ deliveries out.2.2
      commands := commands
      issued := issued
      awaiting := w } → s'.inflight = s.inflight ∧ s'.outgoing = s.outgoing := by
    rintro s' rfl
    exact ⟨inflight_of_silent ht hsil rfl rfl rfl rfl rfl rfl rfl,
      by rw [System.outgoing, System.outgoing, hout]⟩
  obtain ⟨hinflight, houtgoing⟩ := hin _ rfl
  refine hs.of_keeps ?_ hi hn ?_ ?_ ?_
  · refine .of_same rfl (fun _ hr => hr) rfl (by simp [hd]) hp (fun id digest channel => ?_) rfl
    rw [ht]
    exact iff_of_false (hsil.remember_notMem id digest channel) List.not_mem_nil
  · rw [ids, ids, hinflight, houtgoing]
  · rw [hinflight]
    exact fun _ hr => hr
  · rw [houtgoing]
    exact fun _ hr => Or.inl hr

theorem Consistent.respond (hs : Consistent s) {peer : PeerId} {id : ℕ} {response : Bytes}
    {commands : List Command} (ht : s.tasks = [])
    (hc : s.commands = .sendResponse peer id response :: commands) {digest : UInt64}
    {channel : ℕ} (hget : s.network.pendingRequests.get? id = some (digest, channel))
    (hfresh : id ∉ s.answered) :
    Consistent { s with
      network := { s.network with
        pendingRequests := s.network.pendingRequests.erase id
        cachedResponses := s.network.cachedResponses.insert digest response }
      commands := commands
      answered := s.answered ++ [id]
      delivered := s.delivered ++ [(channel, response)] } := by
  refine hs.of_answers ⟨⟨digest, Or.inl hget⟩, hfresh, rfl, rfl, rfl, rfl, ?_, rfl, rfl, rfl, ?_,
    fun hh => hh⟩
  · have hcmd : commanded s.commands = {(id, response)} + commanded commands := by
      rw [hc]
      exact commanded_append [.sendResponse peer id response] commands
    rw [System.outgoing, hcmd, ← Multiset.singleton_add, System.outgoing]
    abel
  · intro id' c
    simp only [Holds, ht, List.not_mem_nil, or_false, Dict.get?_erase]
    split <;> simp_all

theorem Consistent.takeCommand (hs : Consistent s) (hstep : s.takeCommand = some s') :
    Consistent s' := by
  unfold System.takeCommand at hstep
  split at hstep
  · cases hstep
  rename_i command commands hc
  obtain ⟨t, hin, hs'⟩ := Option.map_eq_some_iff.mp hstep
  obtain ⟨ht, rfl⟩ := takeInput_eq_some hin
  cases command with
  | sendNotification peer protocol message =>
    subst hs'
    refine hs.skipCommand ht hc rfl rfl silent_nil ?_ le_rfl hs.issued
    simp only [Network.receive, Network.onCommand]
    split <;> rfl
  | sendRequest peer protocol request =>
    subst hs'
    have hissued : s.issued ++ [s.network.nextRequestId] =
        List.range (s.network.nextRequestId + 1) := by rw [hs.issued, List.range_succ]
    simp only [Network.receive, Network.onCommand, Network.takeRequestId]
    split
    · refine hs.skipCommand ht hc rfl ?_ ?_ ?_ ?_ hissued
      · rfl
      · exact silent_emit rfl
      · rfl
      · exact Nat.le_succ _
    · refine hs.skipCommand ht hc rfl ?_ ?_ ?_ ?_ hissued
      · rfl
      · exact silent_nil
      · rfl
      · exact Nat.le_succ _
  | sendResponse peer id response =>
    have hmem : id ∈ s.ids := by
      have hcmd : (id, response) ∈ s.outgoing := by
        refine Multiset.mem_add.mpr (Or.inr ?_)
        rw [hc]
        exact List.mem_cons_self
      exact Multiset.mem_add.mpr (Or.inr (Multiset.mem_map_of_mem Prod.fst hcmd))
    obtain ⟨hfresh, digest, channel, -, hget, -⟩ := hs.stored ht hmem
    have hanswers := hs.respond ht hc hget hfresh
    rw [← hs']
    simpa [Network.receive, Network.onCommand, hget, ht, deliveries] using hanswers
  | connect | disconnect =>
    subst hs'
    exact hs.skipCommand ht hc rfl rfl silent_nil rfl le_rfl hs.issued

theorem Consistent.holds_remember (hs : Consistent s) {id : ℕ} {digest : UInt64} {channel : ℕ}
    {tasks : List Task} (ht : s.tasks = .remember id digest channel :: tasks) (id' c : ℕ) :
    Holds { s with network := s.network.remember id digest channel, tasks := tasks } id' c ↔
      s.Holds id' c := by
  have hnew : s.Holds id channel := ⟨digest, Or.inr (by simp [ht])⟩
  simp only [Holds, Network.remember, Dict.get?_insert]
  constructor
  · rintro ⟨d, hd⟩
    split at hd
    · rename_i hid
      subst hid
      rcases hd with hd | hd
      · cases hd
        exact hnew
      · exact ⟨d, Or.inr (by simp [ht, hd])⟩
    · exact ⟨d, hd.imp_right fun hd => by simp [ht, hd]⟩
  · intro hc
    by_cases hid : id' = id
    · subst hid
      obtain rfl := hs.channel_unique hc hnew
      exact ⟨digest, Or.inl (by simp)⟩
    · obtain ⟨d, hd | hd⟩ := hc
      · exact ⟨d, Or.inl (by simpa [hid] using hd)⟩
      · rw [ht] at hd
        refine ⟨d, Or.inr ?_⟩
        simpa [hid] using hd

/-- An announced request is passed to the event channel, and then its channel is stored. -/
theorem Consistent.performTask (hs : Consistent s) (hstep : s.performTask = some s') :
    Consistent s' := by
  obtain ⟨event, tasks, ht, -, rfl⟩ | ⟨id, digest, channel, tasks, ht, rfl⟩ :=
    performTask_eq_some hstep
  · refine hs.of_moved ?_ rfl rfl ?_ rfl
    · refine .of_same rfl (fun _ hr => hr) rfl rfl rfl (fun id digest channel => ?_) rfl
      simp [ht]
    · simp only [System.inflight, ht, announcing_emit, announced_append]
      apply le_of_eq
      abel
  · refine hs.of_moved ⟨rfl, fun _ hr => hr, rfl, rfl, hs.holds_remember ht, fun ho => ho⟩ rfl rfl
      ?_ rfl
    simp only [System.inflight, ht]
    exact le_rfl

theorem Consistent.takeEvent (hs : Consistent s) (hstep : s.takeEvent = some s') :
    Consistent s' := by
  obtain ⟨event, events, hf, he, rfl⟩ := takeEvent_eq_some hstep
  refine hs.of_moved (.of_network rfl rfl rfl (fun _ hr => hr) rfl rfl id) rfl rfl ?_ rfl
  have hcons : announced (event :: events) = announced [event] + announced events :=
    announced_append [event] events
  simp only [System.inflight, hf, he, Option.toList_some, reporting_toInterfaceEvent, hcons]
  apply le_of_eq
  change _ = _ + _ + 0 + _ + _ + _
  abel

theorem Consistent.reportEvent (hs : Consistent s) (hstep : s.reportEvent = some s') :
    Consistent s' := by
  obtain ⟨event, hf, -, rfl⟩ := reportEvent_eq_some hstep
  refine hs.of_moved (.of_network rfl rfl rfl (fun _ hr => hr) rfl rfl id) rfl rfl ?_ rfl
  simp only [System.inflight, hf, Option.toList_some, reporting_append]
  apply le_of_eq
  change _ + _ + 0 + _ + _ + _ = _
  abel

theorem oversee_eq_some {call : Call (substrate h.env)} (ho : Hosted s)
    (hstep : s.oversee call = some s') : Hosted s' ∧
      s' = { s with overseer := s'.overseer } ∧
      queued ((s'.overseer.queue h.interface).drop s.taken) ≤
        queued ((s.overseer.queue h.interface).drop s.taken) +
          ((Overseer.reported h.interface call).map key : List (PeerId × ℕ)) := by
  obtain ⟨⟨r, o⟩, hr, rfl⟩ := Option.map_eq_some_iff.mp hstep
  have hover : Overseer.Step h.executor s.overseer call o := by
    rw [Overseer.Step, hr]
    rfl
  obtain ⟨info, hinfo⟩ := Dict.mem_iff.mp ho
  obtain ⟨info', new, hinfo', hnew, hreq⟩ := hover.appends h.interface info hinfo
  refine ⟨Dict.mem_of_get? hinfo', rfl, ?_⟩
  have hqueue : o.queue h.interface = s.overseer.queue h.interface ++ new := by
    simp [Overseer.queue, hinfo, hinfo', hnew]
  rw [hqueue, List.drop_append, queued_append, ← hreq]
  exact add_le_add_right (queued_le_of_sublist (List.drop_sublist _ _)) _

theorem Consistent.oversee (hs : Consistent s) {call : Call (substrate h.env)}
    (hcall : foreign h.interface call) (hstep : s.oversee call = some s') : Consistent s' := by
  obtain ⟨ho, hs', hq⟩ := oversee_eq_some hs.hosted hstep
  rw [reported_of_foreign hcall] at hq
  rw [hs']
  refine hs.of_moved (.of_network rfl rfl rfl (fun _ hr => hr) rfl rfl fun _ => ho) rfl rfl ?_ rfl
  simp only [System.inflight]
  gcongr
  exact hq.trans (by simp)

theorem Consistent.takeInterfaceEvent (hs : Consistent s)
    (hstep : s.takeInterfaceEvent = some s') : Consistent s' := by
  obtain ⟨event, stream, t, hst, hover, rfl⟩ := takeInterfaceEvent_eq_some hstep
  obtain ⟨ho, ht, hq⟩ := oversee_eq_some hs.hosted hover
  rw [ht]
  refine hs.of_moved (.of_network rfl rfl rfl (fun _ hr => hr) rfl rfl fun _ => ho) rfl rfl ?_ rfl
  have hcons : reporting h.interface (event :: stream) =
      ((Overseer.reported h.interface (.interfaceEvent event)).map key : List (PeerId × ℕ)) +
        reporting h.interface stream := by
    rw [reporting, List.flatMap_cons, ← Multiset.coe_add]
    rfl
  simp only [System.inflight, hst, hcons]
  calc
    _ ≤ announcing s.tasks + announced s.events +
          reporting h.interface s.forwarding.toList + reporting h.interface stream +
          (queued ((s.overseer.queue h.interface).drop s.taken) +
            ((Overseer.reported h.interface (.interfaceEvent event)).map key :
              List (PeerId × ℕ))) + s.filter.pending := by gcongr
    _ = _ := by abel

theorem Consistent.filterStep (hs : Consistent s) (hout : s.outbox = [])
    (turn : Filter.Turn (substrate h.env)) {k : ℕ}
    (hinj : ((Filter.injected turn.input).toList : Multiset (PeerId × ℕ)) +
      queued ((s.overseer.queue h.interface).drop k) ≤
        queued ((s.overseer.queue h.interface).drop s.taken))
    (hs' : s' = { s with
      filter := s.filter.next turn
      outbox := s.filter.effects turn
      produced := s.produced ++ responses (s.filter.events turn)
      taken := k }) : Consistent s' := by
  obtain ⟨hpending, hpayload⟩ := Filter.turn_conserves s.filter turn
  have hin : s'.inflight + Filter.closed (s.filter.effects turn) ≤ s.inflight := by
    subst hs'
    simp only [System.inflight]
    calc
      _ = announcing s.tasks + announced s.events +
            reporting h.interface s.forwarding.toList + reporting h.interface s.stream +
            (queued ((s.overseer.queue h.interface).drop k) +
              ((s.filter.next turn).pending + Filter.closed (s.filter.effects turn))) := by abel
      _ ≤ announcing s.tasks + announced s.events +
            reporting h.interface s.forwarding.toList + reporting h.interface s.stream +
            (queued ((s.overseer.queue h.interface).drop k) +
              (↑(Filter.injected turn.input).toList + s.filter.pending)) := by gcongr
      _ = announcing s.tasks + announced s.events +
            reporting h.interface s.forwarding.toList + reporting h.interface s.stream +
            ((↑(Filter.injected turn.input).toList +
              queued ((s.overseer.queue h.interface).drop k)) + s.filter.pending) := by abel
      _ ≤ announcing s.tasks + announced s.events +
            reporting h.interface s.forwarding.toList + reporting h.interface s.stream +
            (queued ((s.overseer.queue h.interface).drop s.taken) + s.filter.pending) := by gcongr
      _ = _ := by abel
  have hold : s.outgoing = commanded s.commands := by
    rw [System.outgoing, hout]
    exact zero_add _
  have hnew : s'.outgoing = responding (s.filter.effects turn) + commanded s.commands := by
    subst hs'; rfl
  refine hs.of_keeps ?_ ?_ ?_ ?_ ?_ ?_
  · subst hs'
    exact .of_network rfl rfl rfl (fun _ hr => List.mem_append_left _ hr) rfl rfl id
  · subst hs'
    exact hs.issued
  · subst hs'
    exact le_rfl
  · have hmap := Multiset.map_le_map (f := Prod.snd) hin
    rw [Multiset.map_add] at hmap
    rw [ids, ids, hnew, hold, Multiset.map_add, map_fst_responding, ← add_assoc]
    exact add_le_add_left hmap _
  · exact fun r hr => Multiset.mem_of_le ((Multiset.le_add_right _ _).trans hin) hr
  · rw [hnew, hold]
    intro r hr
    rcases Multiset.mem_add.mp hr with hr | hr
    · obtain ⟨⟨p, id, payload⟩, hresp, rfl⟩ := List.mem_map.mp hr
      have hclosed : (p, id) ∈ Filter.closed (s.filter.effects turn) :=
        List.mem_map.mpr ⟨_, hresp, rfl⟩
      refine Or.inr ⟨p, Multiset.mem_of_le ((Multiset.le_add_left _ _).trans hin) hclosed, ?_⟩
      subst hs'
      exact List.mem_append_right _ (mem_responses (hpayload _ hresp))
    · exact Or.inl hr

theorem Consistent.filterPoll (hs : Consistent s) {answer : ExecutorAnswer (substrate h.env)}
    (hstep : s.filterTurn ⟨.poll, answer⟩ = some s') : Consistent s' := by
  obtain ⟨hout, hs'⟩ := filterTurn_eq_some hstep
  exact hs.filterStep hout ⟨.poll, answer⟩ (zero_add _).le hs'

theorem Consistent.takeFilterCommand (hs : Consistent s)
    {answer : ExecutorAnswer (substrate h.env)} (hstep : s.takeFilterCommand answer = some s') :
    Consistent s' := by
  obtain ⟨command, t, hcommand, hturn, hs'⟩ := takeFilterCommand_eq_some hstep
  obtain ⟨hout, rfl⟩ := filterTurn_eq_some hturn
  refine hs.filterStep hout ⟨.command command, answer⟩ ?_ hs'
  have hdrop : (s.overseer.queue h.interface).drop s.taken =
      [command] ++ (s.overseer.queue h.interface).drop (s.taken + 1) := by
    obtain ⟨hlt, hget⟩ := List.getElem?_eq_some_iff.mp hcommand
    rw [List.drop_eq_getElem_cons hlt, hget]
    rfl
  rw [hdrop, queued_append, injected_command]

theorem Consistent.performEffect (hs : Consistent s) (hstep : s.performEffect = some s') :
    Consistent s' := by
  obtain ⟨effect, outbox, -, ho, ⟨hnone, rfl⟩ | ⟨command, hcommand, -, rfl⟩⟩ :=
    performEffect_eq_some hstep
  · refine hs.of_moved (.of_network rfl rfl rfl (fun _ hr => hr) rfl rfl id) rfl rfl le_rfl ?_
    rw [System.outgoing, System.outgoing, ho, responding_cons, hnone]
    exact congrArg (· + _) (zero_add _).symm
  · refine hs.of_moved (.of_network rfl rfl rfl (fun _ hr => hr) rfl rfl id) rfl rfl le_rfl ?_
    simp only [System.outgoing, ho, responding_cons, hcommand, commanded_append,
      Option.toList_some]
    abel

theorem consistent_step (s : System h) (action : Action h) (s' : System h)
    (hstep : Step s action s') (hc : Consistent s) : Consistent s' := by
  cases action with
  | inboundRequest => exact hc.takeRequest hstep
  | responseResolved position result => exact hc.takeInput (quiet_resolved _ _ _ _) hstep
  | swarm event => exact hc.takeInput (quiet_swarm _ _ _) hstep
  | command => exact hc.takeCommand hstep
  | task => exact hc.performTask hstep
  | forward => exact hc.takeEvent hstep
  | report => exact hc.reportEvent hstep
  | overseer => exact hc.takeInterfaceEvent hstep
  | otherCall call =>
    change (if foreign h.interface call then s.oversee call else none) = _ at hstep
    split at hstep
    · exact hc.oversee ‹_› hstep
    · cases hstep
  | filterCommand => exact hc.takeFilterCommand hstep
  | filterPoll => exact hc.filterPoll hstep
  | perform => exact hc.performEffect hstep

/-- Every response answers the request of its channel, on behalf of the executor. -/
structure RespondsProperly (s : System h) : Prop where
  /-- What is delivered was produced for the peer that sent the request. -/
  responder : ∀ channel payload, (channel, payload) ∈ s.delivered →
    ∃ r, s.received[channel]? = some r ∧ (r.peer, payload) ∈ s.produced
  /-- A request gets at most one response. -/
  once : (s.delivered.map Prod.fst).Nodup
  /-- A response command that the network takes is the first for its request, and it finds the
  channel of the request. -/
  found : ∀ peer id payload commands, s.tasks = [] →
    s.commands = .sendResponse peer id payload :: commands →
      id ∉ s.answered ∧ ∃ digest channel r,
        s.network.pendingRequests.get? id = some (digest, channel) ∧
        s.received[channel]? = some r ∧ r.requestId = id
  /-- A stored channel belongs to the request with the identifier it is stored under. -/
  matched : ∀ id digest channel, s.network.pendingRequests.get? id = some (digest, channel) →
    ∃ r, s.received[channel]? = some r ∧ r.requestId = id
  /-- Identifiers are handed out once, and inbound requests have different ones of them. -/
  issued : s.issued.Nodup ∧ (s.received.map Inbound.requestId).Nodup ∧
    ∀ r ∈ s.received, r.requestId ∈ s.issued

theorem Consistent.respondsProperly (hs : Consistent s) : RespondsProperly s where
  responder channel payload hd := by
    obtain ⟨r, hr, -, hp⟩ := hs.delivered _ hd
    exact ⟨r, hr, hp⟩
  once := hs.delivered_nodup
  found peer id payload commands ht hc := by
    apply hs.stored ht
    have hcmd : (id, payload) ∈ s.outgoing := by
      refine Multiset.mem_add.mpr (Or.inr ?_)
      rw [hc]
      exact List.mem_cons_self
    exact Multiset.mem_add.mpr (Or.inr (Multiset.mem_map_of_mem Prod.fst hcmd))
  matched id digest channel hget := hs.channel id channel ⟨digest, Or.inl hget⟩
  issued := by
    refine ⟨hs.issued ▸ List.nodup_range, hs.received_nodup, fun r hr => ?_⟩
    rw [hs.issued]
    exact List.mem_range.mpr (hs.received_lt r hr)

/-- However the tasks around an interface interleave, every response that is delivered answers the
request of its channel and was produced for its peer, at most one for each request, and response
commands find the channel of their request. -/
theorem responses_proper (o : Overseer (substrate h.env))
    {info : InterfaceInfo (substrate h.env)} (ho : o.interfaces.get? h.interface = some info)
    (hq : info.filter = []) (actions : List (Action h))
    (hrun : Run Step (start h o) actions s) : RespondsProperly s :=
  (hrun.invariant consistent_step (consistent_start o ho hq)).respondsProperly

end System

section Example

/-- Interface 0 of the loopback backend. -/
def localHost : Host where
  env := Substrate.local
  executor := .loading _
  interface := 0
  eventRoom := 64
  streamRoom := 64
  commandRoom := 64

/-- A peer connects and is registered, sends a request and gets a response. -/
def exchange : List (Action localHost) :=
  [.swarm (.connectionEstablished [7]), .task, .forward, .report, .overseer,
    .filterCommand (.ok []),
    .inboundRequest [7] "/sup/sync/2" [1], .task, .task, .forward, .report, .overseer,
    .filterCommand (.ok [.sendResponse [7] [9]]), .perform, .perform, .command]

theorem responses_proper_exchange : ∃ s : System localHost,
    s.delivered = [(0, [9])] ∧ s.RespondsProperly := by
  obtain ⟨s, hrun, hd⟩ : ∃ s, Run System.Step
      (System.start localHost (Overseer.createInterface (.loading loopback) (Overseer.new ⟨[]⟩)
        ⟨[127, 0, 0, 1], 0⟩ "" none).2) exchange s ∧ s.delivered = [(0, [9])] :=
    ⟨_, Run.foldlM_iff.mpr rfl, rfl⟩
  exact ⟨s, hd, System.responses_proper _ rfl rfl _ hrun⟩

end Example

end SwarmHost.EndToEnd
