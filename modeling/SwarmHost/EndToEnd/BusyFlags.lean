import SwarmHost.EndToEnd.Consultations

/-! # Busy flags across the filter and the network

The flag of a peer is set when a request to it is handed to the filter and cleared
when its response comes back. The flags are exact as long as every request is
resolved by a response that can be decoded, no peer leaves with a request under way,
and no leftover response keeps a request from being sent.
-/

namespace SwarmHost.EndToEnd

open Substrate

namespace Synced

variable {h : Host} {x : Scripts} {s s' : Synced h}

/-- The outbound requests to a peer that are queued, unresolved or have a queued response. -/
def outstanding (s : Synced h) (p : PeerId) : ℕ := (s.system.exchanges.map Exchange.peer).count p

/-- Nothing is queued between the tasks. -/
structure Drained (s : Synced h) : Prop where
  outbox : s.system.outbox = []
  commands : s.system.commands = []
  tasks : s.system.tasks = []
  events : s.system.events = []
  forwarding : s.system.forwarding = none
  stream : s.system.stream = []
  queue : s.queue = []
  pendingEvents : s.context.pendingEvents = []

/-- No registered peer has two outbound requests under way, and once everything is drained a busy
peer has an unresolved one. -/
structure Exact (s : Synced h) : Prop where
  single : ∀ p ∈ s.context.peers, s.outstanding p ≤ 1
  busy : s.Drained → ∀ p, Context.Busy s.context.peers p →
    ∃ request ∈ s.system.network.pendingResponses, request.1 = p

/-- What the flags rely on: responses can be decoded, a peer is unregistered when it is idle, and a
request is not handled behind a leftover response to a peer that is gone. -/
def Heeds (x : Scripts) (s : Synced h) : SyncAction h → Prop
  | .task action => s.system.Resolves x.codec action
  | .filterCommand .. => ∀ command ∈ s.queue.head?,
    (∀ p ∈ Filter.unregistered (.command command), ¬ Context.Busy s.context.peers p) ∧
      ((Filter.injected (.command command)).isSome →
        ∀ e ∈ s.context.pendingEvents, ∀ q ∈ e.addressee?, q ∈ s.context.peers)
  | _ => True

instance (peers : Dict PeerId PeerContext) (p : PeerId) : Decidable (Context.Busy peers p) :=
  inferInstanceAs (Decidable (∃ c ∈ peers.get? p, c.busy = true))

instance (x : Scripts) (s : Synced h) : DecidablePred (s.Heeds x)
  | .task action => inferInstanceAs (Decidable (s.system.Resolves x.codec action))
  | .filterCommand .. => inferInstanceAs (Decidable (∀ command ∈ s.queue.head?,
      (∀ p ∈ Filter.unregistered (.command command), ¬ Context.Busy s.context.peers p) ∧
        ((Filter.injected (.command command)).isSome →
          ∀ e ∈ s.context.pendingEvents, ∀ q ∈ e.addressee?, q ∈ s.context.peers)))
  | .filterPoll | .saveElsewhere _ => .isTrue trivial

/-- A request under way has a script for its response, and its response can be decoded. -/
def Answerable (x : Scripts) (tables : PyO3Executor (substrate h.env)) (e : Exchange) : Prop :=
  (tables.code .requestResponse e.protocol).isSome ∧
    ∀ response ∈ e.response, (x.codec.parseResponse response).isSome

/-- The flags are exact, and the filter and its context have the same peers. -/
structure Settled (x : Scripts) (s : Synced h) : Prop where
  routed : s.system.Routed
  rests : Rests s.context
  sinks : ∀ p, s.system.filter.sink? p = if p ∈ s.context.peers then some ⟨p⟩ else none
  matched : Matched Exchange.peer s.system.exchanges (Context.Busy s.context.peers)
  answerable : ∀ e ∈ s.system.exchanges, Answerable x s.tables e

theorem Settled.exact (hs : Settled x s) : Exact s where
  single p _ := hs.matched.count_le_one p
  busy hd p hp := by
    have hqueue : (s.system.overseer.queue h.interface).drop s.system.taken = [] := hd.queue
    have hall : s.system.exchanges = carried unresolved s.system.network.pendingResponses := by
      simp only [System.exchanges, hd.outbox, hd.commands, hd.tasks, hd.events, hd.forwarding,
        hd.stream, hqueue, Option.toList_none, carried_nil, zero_add, add_zero]
    obtain ⟨e, he, rfl⟩ := Multiset.mem_map.mp ((hs.matched.mem_iff p).mpr hp)
    rw [hall] at he
    obtain ⟨request, hrequest, heq⟩ := List.mem_filterMap.mp (Multiset.mem_coe.mp he)
    obtain rfl := Option.some.inj heq
    exact ⟨request, hrequest, rfl⟩

theorem settled_start {overseer : Overseer (substrate h.env)}
    {info : InterfaceInfo (substrate h.env)}
    (hinfo : overseer.interfaces.get? h.interface = some info) (hq : info.filter = [])
    (now : Time) : Settled x (start h overseer now) := by
  have hempty : overseer.queue h.interface = [] := by rw [Overseer.queue_of_get? hinfo, hq]
  have hnone : (start h overseer now).system.exchanges = 0 := by
    simp only [System.exchanges, start, System.start, hempty]
    rfl
  refine ⟨⟨Dict.mem_of_get? hinfo, Nat.zero_le _, by simp [start, System.start],
    by simp [start, System.start], ?_⟩, List.forall_mem_nil _, fun p => ?_, ?_, ?_⟩
  · simp [start, System.start, hempty]
  · simp [start, System.start, Context.new, Filter.new, Filter.sink?]
  · rw [hnone]
    apply Matched.zero
    rintro p ⟨_, hp, -⟩
    simp [start, Context.new] at hp
  · rw [hnone]
    simp

theorem other_eq_some {action : Action h} (hstep : s.other action = some s') :
    (∀ answer, action ≠ .filterCommand answer) ∧ (∀ answer, action ≠ .filterPoll answer) ∧
      ∃ system, s.system.step action = some system ∧ s' = { s with system := system } := by
  cases action with
  | filterCommand | filterPoll => cases hstep
  | _ =>
    obtain ⟨system, hsystem, hstep⟩ := Option.bind_eq_some_iff.mp hstep
    obtain ⟨-, hstep⟩ := Option.ite_none_left_eq_some.mp hstep
    exact ⟨by simp, by simp, system, hsystem, (Option.some.inj hstep).symm⟩

/-- A task other than the filter moves the requests along. -/
theorem Settled.other (hs : Settled x s) {action : Action h}
    (hheeds : s.system.Resolves x.codec action) (hstep : s.other action = some s') :
    Settled x s' := by
  obtain ⟨hcommand, hpoll, system, hsystem, rfl⟩ := other_eq_some hstep
  obtain ⟨hrouted, hfilter, -, hmoves⟩ :=
    System.transfers_step hs.routed hheeds hcommand hpoll hsystem
  have hsinks : ∀ p, system.filter.sink? p = if p ∈ s.context.peers then some ⟨p⟩ else none := by
    rw [hfilter]
    exact hs.sinks
  cases hmoves with
  | same heq =>
    refine ⟨hrouted, hs.rests, hsinks, ?_, ?_⟩
    · rw [heq]
      exact hs.matched
    · rw [heq]
      exact hs.answerable
  | respond peer protocol response rest hdecodes hbefore hafter =>
    have hmatched := hs.matched
    have hanswerable := hs.answerable
    rw [hbefore] at hmatched hanswerable
    obtain ⟨hone, hrest⟩ := Multiset.forall_mem_cons.mp hanswerable
    refine ⟨hrouted, hs.rests, hsinks, ?_, ?_⟩
    · rw [hafter]
      exact hmatched.replace rfl
    · rw [hafter]
      refine Multiset.forall_mem_cons.mpr ⟨⟨hone.1, fun response' heq => ?_⟩, hrest⟩
      obtain rfl := Option.some.inj heq
      exact hdecodes

section Turns

variable {c : Consultation h.env} {command : FilterCommand (substrate h.env)}
  {commands : List (FilterCommand (substrate h.env))} {answer : ExecutorAnswer (substrate h.env)}

def taken (s : Synced h) : System h := { s.system with taken := s.system.taken + 1 }

theorem drop_of_queue (hq : s.queue = command :: commands) :
    (s.system.overseer.queue h.interface).drop s.system.taken = command :: commands := hq

theorem getElem?_of_queue (hq : s.queue = command :: commands) :
    (s.system.overseer.queue h.interface)[s.system.taken]? = some command := by
  have hhead : s.queue[0]? = some command := by rw [hq]; rfl
  rwa [queue, List.getElem?_drop, Nat.add_zero] at hhead

theorem queue_taken (hq : s.queue = command :: commands) :
    (s.system.overseer.queue h.interface).drop (s.system.taken + 1) = commands := by
  rw [← List.drop_drop, drop_of_queue hq]
  rfl

theorem Settled.routed_taken (hs : Settled x s) (hq : s.queue = command :: commands) :
    s.taken.Routed := by
  refine ⟨hs.routed.hosted, ?_, hs.routed.forwarding, hs.routed.stream, fun c hc => ?_⟩
  · exact (List.getElem?_eq_some_iff.mp (getElem?_of_queue hq)).1
  · change c ∈ (s.system.overseer.queue h.interface).drop (s.system.taken + 1) at hc
    rw [queue_taken hq] at hc
    refine hs.routed.commands c ?_
    rw [drop_of_queue hq]
    exact List.mem_cons_of_mem _ hc

theorem exchanges_eq_taken (hq : s.queue = command :: commands) :
    s.system.exchanges =
      ((filterExchange command).toList : Multiset Exchange) + s.taken.exchanges := by
  simp only [System.exchanges, taken, drop_of_queue hq, queue_taken hq, carried_cons]
  abel

theorem exchanges_taken (hq : s.queue = command :: commands)
    (hnone : filterExchange command = none) : s.taken.exchanges = s.system.exchanges := by
  rw [exchanges_eq_taken hq, hnone, Option.toList_none, Multiset.coe_nil, zero_add]

theorem takeFilterCommand_eq_some {system : System h} (hq : s.queue = command :: commands)
    (hstep : s.system.step (.filterCommand answer) = some system) :
    system.filter = s.system.filter.next ⟨.command command, answer⟩ ∧
      system.exchanges = carried effectExchange
        (s.system.filter.effects ⟨.command command, answer⟩) + s.taken.exchanges ∧
      (s.taken.Routed → system.Routed) := by
  change s.system.takeFilterCommand answer = _ at hstep
  rw [System.takeFilterCommand, getElem?_of_queue hq] at hstep
  obtain ⟨t, hturn, rfl⟩ := Option.map_eq_some_iff.mp hstep
  obtain ⟨hout, rfl⟩ := System.filterTurn_eq_some hturn
  refine ⟨rfl, ?_, fun hr => hr.of_same rfl rfl rfl rfl⟩
  simp only [System.exchanges, taken, hout, carried_nil]
  abel

theorem isSome_code_after {tables : PyO3Executor (substrate h.env)} {kind : FilterKind}
    {protocol : ProtocolName} (hcode : (tables.code kind protocol).isSome) :
    ((tables.after command answer).code kind protocol).isSome := by
  unfold PyO3Executor.after
  split
  · rw [PyO3Executor.code_install]
    split
    · rfl
    · exact hcode
  · exact hcode

theorem Answerable.after {tables : PyO3Executor (substrate h.env)} {e : Exchange}
    (he : Answerable x tables e) : Answerable x (tables.after command answer) e :=
  ⟨isSome_code_after he.1, he.2⟩

theorem Settled.still (hs : Settled x s) (hq : s.queue = command :: commands)
    {busy : PeerId → Prop} (hstill : Still c busy)
    (hmatched : Matched Exchange.peer s.taken.exchanges busy)
    (hstep : s.takeCommand command c = some s')
    (hsinks : ∀ p, s'.system.filter.sink? p = if p ∈ c.2.peers then some ⟨p⟩ else none) :
    Settled x s' := by
  obtain ⟨hasks, hrests, hbusy⟩ := hstill
  have hanswerable : ∀ e ∈ s.taken.exchanges, Answerable x s.tables e := fun e he =>
    hs.answerable e (by rw [exchanges_eq_taken hq]; exact Multiset.mem_add.mpr (.inr he))
  obtain ⟨_ | answer, context⟩ := c
  · obtain ⟨-, hstep⟩ := Option.ite_none_right_eq_some.mp hstep
    obtain rfl := Option.some.inj hstep
    exact ⟨hs.routed_taken hq, hrests, hsinks, hmatched.congr hbusy, hanswerable⟩
  · obtain ⟨system, hsystem, rfl⟩ := Option.map_eq_some_iff.mp hstep
    obtain ⟨-, hexchanges, hrouted⟩ := takeFilterCommand_eq_some hq hsystem
    rw [carried_effects_eq_zero fun es hes => hasks es (congrArg some hes), zero_add] at hexchanges
    refine ⟨hrouted (hs.routed_taken hq), hrests, hsinks, ?_, fun e he => ?_⟩
    · rw [hexchanges]
      exact hmatched.congr hbusy
    · rw [hexchanges] at he
      exact (hanswerable e he).after

theorem sink?_takeCommand (hq : s.queue = command :: commands)
    (hstep : s.takeCommand command c = some s') {p : PeerId}
    (hp : Filter.concerned (.command command) ≠ some p) :
    s'.system.filter.sink? p = s.system.filter.sink? p := by
  obtain ⟨_ | answer, context⟩ := c
  · obtain ⟨-, hstep⟩ := Option.ite_none_right_eq_some.mp hstep
    obtain rfl := Option.some.inj hstep
    rfl
  · obtain ⟨system, hsystem, rfl⟩ := Option.map_eq_some_iff.mp hstep
    obtain ⟨hfilter, -, -⟩ := takeFilterCommand_eq_some hq hsystem
    change system.filter.sink? p = _
    rw [hfilter]
    exact (eq_of_rel (Filter.keeps_next hp)).symm

theorem Settled.sinks_of_kept (hs : Settled x s) (hq : s.queue = command :: commands)
    (hstep : s.takeCommand command c = some s')
    (hcommand : Filter.concerned (.command command) = none)
    (hpeers : ∀ p, p ∈ c.2.peers ↔ p ∈ s.context.peers) (p : PeerId) :
    s'.system.filter.sink? p = if p ∈ c.2.peers then some ⟨p⟩ else none := by
  rw [sink?_takeCommand hq hstep (by simp [hcommand]), hs.sinks]
  simp only [hpeers]

theorem Settled.mem_peers_iff (hs : Settled x s) (p : PeerId) :
    p ∈ s.system.filter.peers ↔ p ∈ s.context.peers := by
  rw [← Filter.isSome_sink?, hs.sinks]
  split <;> simp [*]

/-- A command that does not reach the scripts changes nothing that the flags rely on. -/
theorem Settled.unheard (hs : Settled x s) (hq : s.queue = command :: commands)
    (hnot : ¬ s.system.filter.Consults (.command command))
    (hanswer : ∀ es, answer = .ok es → es = [])
    (hstep : s.takeCommand command (some answer, s.context) = some s') : Settled x s' := by
  have hstill : Still (some answer, s.context) (Context.Busy s.context.peers) :=
    .of_same hs.rests fun es hes => hanswer es (Option.some.inj hes)
  have hnone : filterExchange command = none := by
    cases command with
    | injectResponse => exact absurd trivial hnot
    | _ => rfl
  refine hs.still hq hstill (exchanges_taken hq hnone ▸ hs.matched) hstep fun p => ?_
  by_cases hp : Filter.concerned (.command command) = some p
  · obtain ⟨system, hsystem, rfl⟩ := Option.map_eq_some_iff.mp hstep
    obtain ⟨hfilter, -, -⟩ := takeFilterCommand_eq_some hq hsystem
    change system.filter.sink? p = _
    rw [hfilter, ← hs.sinks]
    cases command with
    | registerPeer q sink =>
      obtain rfl := Option.some.inj hp
      exact (eq_of_rel (Filter.keeps_registerPeer (not_not.mp hnot) sink answer)).symm
    | unregisterPeer q =>
      obtain rfl := Option.some.inj hp
      have hgone : q ∉ s.context.peers := mt (hs.mem_peers_iff q).mpr hnot
      rw [Filter.sink?_unregisterPeer, hs.sinks, if_neg hgone]
    | _ => cases hp
  · rw [sink?_takeCommand hq hstep hp, hs.sinks]

theorem collect_of_same {env : Environment} {ctx ctx' : Context} (x : Scripts) (hrests : Rests ctx)
    (hevents : ctx'.pendingEvents = ctx.pendingEvents) :
    ∃ es, x.collect (.ok (), ctx') =
      ((some (.ok es), ctx'.poll.2) : Consultation env) := by
  obtain ⟨es, hes, -⟩ := mapM_convert_responses x hrests
  exact ⟨es, by simp [Scripts.collect, Context.poll, hevents, hes]⟩

theorem peers_collect {env : Environment} (x : Scripts) (out : Outcome) :
    (x.collect out : Consultation env).2.peers = out.2.peers := by
  obtain ⟨_ | _, ctx⟩ := out <;> rfl

theorem Settled.about (hs : Settled x s) {p : PeerId} {ctx' : Context}
    (hq : s.queue = command :: commands) (hcommand : Filter.concerned (.command command) = some p)
    (hquiet : Context.Quiet s.context (.ok (), ctx') fun q =>
      q ≠ p ∧ Context.Busy s.context.peers q)
    (hevents : ctx'.pendingEvents = s.context.pendingEvents)
    (hidle : ¬ Context.Busy s.context.peers p)
    (hpeers : ∀ q ≠ p, (q ∈ ctx'.peers ↔ q ∈ s.context.peers))
    (hsink : ∀ es, (s.system.filter.next ⟨.command command, .ok es⟩).sink? p =
      if p ∈ ctx'.peers then some ⟨p⟩ else none)
    (hstep : s.takeCommand command (x.collect (.ok (), ctx')) = some s') : Settled x s' := by
  have hstill : Still (x.collect (.ok (), ctx') : Consultation h.env) _ :=
    still_collect hs.rests hquiet
  have hnone : filterExchange command = none := by
    cases command with
    | registerPeer | unregisterPeer => rfl
    | _ => cases hcommand
  have hmatched : Matched Exchange.peer s.taken.exchanges _ := exchanges_taken hq hnone ▸ hs.matched
  refine hs.still hq hstill (hmatched.congr fun q => ?_) hstep fun q => ?_
  · exact and_iff_right_of_imp fun hbusy heq => hidle (heq ▸ hbusy)
  · rw [peers_collect]
    by_cases heq : q = p
    · subst heq
      obtain ⟨es, hcollect⟩ := collect_of_same x hs.rests hevents
      rw [hcollect] at hstep
      obtain ⟨system, hsystem, rfl⟩ := Option.map_eq_some_iff.mp hstep
      obtain ⟨hfilter, -, -⟩ := takeFilterCommand_eq_some hq hsystem
      change system.filter.sink? q = _
      rw [hfilter]
      exact hsink es
    · have hne : Filter.concerned (.command command) ≠ some q := by
        rw [hcommand]
        exact fun hc => heq (Option.some.inj hc).symm
      rw [sink?_takeCommand hq hstep hne, hs.sinks]
      simp only [hpeers q heq]

theorem Settled.registerPeer (hs : Settled x s) {p : PeerId} {sink : PacketSink}
    (hq : s.queue = .registerPeer p sink :: commands) (hp : p ∉ s.system.filter.peers)
    (hstep : s.takeCommand (.registerPeer p sink)
      (x.collect (.ok (), s.context.registerPeer p)) = some s') : Settled x s' := by
  have hgone : p ∉ s.context.peers := mt (hs.mem_peers_iff p).mpr hp
  have hmem : FilterCommand.registerPeer p sink ∈ s.queue := by
    rw [hq]
    exact List.mem_cons_self
  have hown : sink = ⟨p⟩ := hs.routed.commands _ hmem
  refine hs.about hq rfl (Context.quiet_registerPeer s.context p) rfl (fun hb => hgone hb.mem)
    (fun q hne => ?_) (fun es => ?_) hstep
  · exact Dict.mem_insert.trans (or_iff_right hne)
  · have hmem : p ∈ (s.context.registerPeer p).peers := Dict.mem_insert.mpr (.inl rfl)
    rw [if_pos hmem, ← hown]
    exact (eq_of_rel (Filter.rel_registerPeer hp sink es)).symm

theorem Settled.unregisterPeer (hs : Settled x s) {p : PeerId}
    (hq : s.queue = .unregisterPeer p :: commands) (hidle : ¬ Context.Busy s.context.peers p)
    (hstep : s.takeCommand (.unregisterPeer p)
      (x.collect (.ok (), s.context.unregisterPeer p)) = some s') : Settled x s' := by
  have hevents : (s.context.unregisterPeer p).pendingEvents = s.context.pendingEvents := by
    unfold Context.unregisterPeer
    split <;> rfl
  have hpeers : (s.context.unregisterPeer p).peers = s.context.peers.erase p :=
    congrArg Context.Tables.peers (Context.tables_unregisterPeer s.context p)
  refine hs.about hq rfl (Context.quiet_unregisterPeer s.context p) hevents hidle
    (fun q hne => ?_) (fun es => ?_) hstep
  · rw [hpeers, Dict.mem_erase, and_iff_right hne]
  · rw [Filter.sink?_unregisterPeer, hpeers, if_neg fun hmem => (Dict.mem_erase.mp hmem).1 rfl]

theorem Settled.quiet (hs : Settled x s) (hq : s.queue = command :: commands)
    (hcommand : Filter.concerned (.command command) = none)
    (hnone : filterExchange command = none)
    (hstill : Still c (Context.Busy s.context.peers))
    (hpeers : ∀ p, p ∈ c.2.peers ↔ p ∈ s.context.peers)
    (hstep : s.takeCommand command c = some s') : Settled x s' :=
  hs.still hq hstill (exchanges_taken hq hnone ▸ hs.matched) hstep
    (hs.sinks_of_kept hq hstep hcommand hpeers)

theorem Settled.injectResponse (hs : Settled x s) {protocol : ProtocolName} {p : PeerId}
    {response : Response} (hq : s.queue = .injectResponse protocol p response :: commands)
    {now : Time} {order : List PeerId} (hstep : s.takeCommand (.injectResponse protocol p response)
      (x.consult s.tables s.context now order (.injectResponse protocol p response)) = some s') :
    Settled x s' := by
  have hmatched := hs.matched
  have hanswerable := hs.answerable
  rw [exchanges_eq_taken hq] at hmatched hanswerable
  obtain ⟨hcode, hdecodes⟩ := hanswerable ⟨p, protocol, some response.payload⟩
    (Multiset.mem_add.mpr (.inl (Multiset.mem_singleton_self _)))
  have hbusy : Context.Busy s.context.peers p :=
    hmatched.flag_of_mem (t := ⟨p, protocol, some response.payload⟩)
      (Multiset.mem_add.mpr (.inl (Multiset.mem_singleton_self _)))
  obtain ⟨code, hcode⟩ := Option.isSome_iff_exists.mp hcode
  simp only [Scripts.consult, hcode] at hstep
  refine hs.still hq
    (still_collect hs.rests (Context.quiet_injectResponse (hdecodes _ rfl) hbusy.mem))
    (hmatched.finish fun q => Iff.rfl) hstep (hs.sinks_of_kept hq hstep rfl fun q => ?_)
  rw [peers_collect]
  exact Context.mem_peers_injectResponse response.payload

theorem Settled.requests (hs : Settled x s) {protocol : ProtocolName} {p provider : PeerId}
    {request : Request} (hq : s.queue = .injectRequest protocol p request :: commands)
    (hcode : (s.tables.code .requestResponse protocol).isSome) {out : Outcome}
    (hrequests : Context.Requests s.context protocol provider out)
    (hheeds : ∀ e ∈ s.context.pendingEvents, ∀ q ∈ e.addressee?, q ∈ s.context.peers)
    (hstep : s.takeCommand (.injectRequest protocol p request) (x.collect out) = some s')
    (hsinks : ∀ q, s'.system.filter.sink? q =
      if q ∈ (x.collect out : Consultation h.env).2.peers then some ⟨q⟩ else none) :
    Settled x s' := by
  obtain ⟨es, bytes, hcollect, hes⟩ := collect_of_requests h.env x hs.rests hrequests
  rw [hcollect] at hstep hsinks
  obtain ⟨system, hsystem, rfl⟩ := Option.map_eq_some_iff.mp hstep
  obtain ⟨-, hexchanges, hrouted⟩ := takeFilterCommand_eq_some hq hsystem
  have hsent : carried effectExchange (s.system.filter.effects ⟨.command
      (.injectRequest protocol p request), .ok (es ++ [.sendRequest provider protocol bytes])⟩) =
      {⟨provider, protocol, none⟩} := by
    rw [carried_effects]
    refine carried_processEvents_request (fun e he => ?_) ?_
    · obtain ⟨q, response, payload, hmem, rfl⟩ := hes e he
      exact ⟨q, payload, rfl, (hs.mem_peers_iff q).mpr (hheeds _ hmem q rfl)⟩
    · exact (hs.sinks provider).trans (if_pos hrequests.registered)
  rw [hsent, Multiset.singleton_add, exchanges_taken hq rfl] at hexchanges
  refine ⟨hrouted (hs.routed_taken hq), List.forall_mem_nil _, hsinks, ?_, ?_⟩
  · rw [hexchanges]
    exact hs.matched.start hrequests.idle hrequests.busy
  · rw [hexchanges]
    refine Multiset.forall_mem_cons.mpr ⟨⟨isSome_code_after hcode, by simp⟩, fun e he => ?_⟩
    exact (hs.answerable e he).after

theorem Settled.injectRequest (hs : Settled x s) {protocol : ProtocolName} {p : PeerId}
    {request : Request} (hq : s.queue = .injectRequest protocol p request :: commands)
    {now : Time} {order : List PeerId}
    (hheeds : ∀ e ∈ s.context.pendingEvents, ∀ q ∈ e.addressee?, q ∈ s.context.peers)
    (hstep : s.takeCommand (.injectRequest protocol p request)
      (x.consult s.tables s.context now order (.injectRequest protocol p request)) = some s') :
    Settled x s' := by
  cases hcode : s.tables.code .requestResponse protocol with
  | none =>
    simp only [Scripts.consult, hcode] at hstep
    exact hs.quiet hq rfl rfl (.of_same hs.rests (by simp)) (fun _ => Iff.rfl) hstep
  | some code =>
    simp only [Scripts.consult, hcode] at hstep
    have hpeers : ∀ q, q ∈ (x.collect (s.context.handle x.codec
        (.injectRequest protocol p request.payload)) : Consultation h.env).2.peers ↔
        q ∈ s.context.peers := by
      intro q
      rw [peers_collect]
      exact Context.mem_peers_injectRequest protocol request.payload
    rcases Context.quiet_or_requests_injectRequest x.codec s.context protocol p request.payload with
      hquiet | ⟨provider, hrequests⟩
    · exact hs.quiet hq rfl rfl (still_collect hs.rests hquiet) hpeers hstep
    · exact hs.requests hq (Option.isSome_of_eq_some hcode) hrequests hheeds hstep
        (hs.sinks_of_kept hq hstep rfl hpeers)

theorem Settled.injectNotification (hs : Settled x s) {protocol : ProtocolName} {p : PeerId}
    {notification : Message}
    (hq : s.queue = .injectNotification protocol p notification :: commands) {now : Time}
    {order : List PeerId} (hstep : s.takeCommand (.injectNotification protocol p notification)
      (x.consult s.tables s.context now order (.injectNotification protocol p notification)) =
        some s') : Settled x s' := by
  cases hcode : s.tables.code .notification protocol with
  | none =>
    simp only [Scripts.consult, hcode] at hstep
    exact hs.quiet hq rfl rfl (.of_same hs.rests (by simp)) (fun _ => Iff.rfl) hstep
  | some code =>
    simp only [Scripts.consult, hcode] at hstep
    refine hs.quiet hq rfl rfl
      (still_collect hs.rests (Context.quiet_injectNotification ..)) (fun q => ?_) hstep
    rw [peers_collect]
    exact Context.mem_peers_injectNotification protocol notification.payload now

theorem Settled.takeCommand (hs : Settled x s) {now : Time} {order : List PeerId} {loads : Bool}
    (hheeds : s.Heeds x (.filterCommand now order loads)) (hq : s.queue = command :: commands)
    (hstep : s.takeCommand command (s.answer x now order loads command) = some s') :
    Settled x s' := by
  by_cases hconsults : s.system.filter.Consults (.command command)
  · rw [answer, if_pos hconsults] at hstep
    obtain ⟨hleaves, hinjects⟩ := hheeds command (by rw [hq]; rfl)
    cases command with
    | registerPeer p sink => exact hs.registerPeer hq hconsults hstep
    | unregisterPeer p => exact hs.unregisterPeer hq (hleaves p rfl) hstep
    | discoverPeer p =>
      refine hs.quiet hq rfl rfl (still_collect hs.rests (Context.quiet_discoverPeer ..))
        (fun q => ?_) hstep
      have hpeers : (s.context.discoverPeer p now order).peers = s.context.peers :=
        congrArg Context.Tables.peers (Context.tables_discoverPeer s.context p now order)
      rw [peers_collect, hpeers]
    | protocolOpened p protocol | protocolClosed p protocol =>
      change s.takeCommand _ (x.collect (.ok (), s.context)) = _ at hstep
      exact hs.quiet hq rfl rfl (still_collect hs.rests (.of_same rfl rfl)) (fun _ => Iff.rfl) hstep
    | installNotificationFilter | installRequestResponseFilter => exact hconsults.elim
    | injectNotification protocol p notification => exact hs.injectNotification hq hstep
    | injectRequest protocol p request => exact hs.injectRequest hq (hinjects rfl) hstep
    | injectResponse protocol p response => exact hs.injectResponse hq hstep
  · rw [answer, if_neg hconsults] at hstep
    refine hs.unheard hq hconsults (fun es hes => ?_) hstep
    cases loads with
    | true => exact (Except.ok.inj hes).symm
    | false => cases hes

theorem Settled.poll (hs : Settled x s)
    (hstep : s.poll (x.collect (.ok (), s.context)) = some s') : Settled x s' := by
  obtain ⟨es, hcollect⟩ := collect_of_same x hs.rests rfl
  have hstill : Still (x.collect (.ok (), s.context) : Consultation h.env) _ :=
    still_collect hs.rests (.of_same rfl rfl)
  rw [hcollect] at hstep hstill
  obtain ⟨system, hturn, rfl⟩ := Option.map_eq_some_iff.mp hstep
  obtain ⟨hout, rfl⟩ := System.filterTurn_eq_some hturn
  have hnone : carried effectExchange (s.system.filter.effects ⟨.poll, .ok es⟩) = 0 :=
    carried_effects_eq_zero fun es' hes => hstill.asks es' (congrArg some hes)
  have hexchanges : System.exchanges { s.system with
      filter := s.system.filter.next ⟨.poll, .ok es⟩
      outbox := s.system.filter.effects ⟨.poll, .ok es⟩
      produced := s.system.produced ++ responses (s.system.filter.events ⟨.poll, .ok es⟩) } =
      s.system.exchanges := by
    simp only [System.exchanges, hnone, hout, carried_nil]
  refine ⟨hs.routed.of_same rfl rfl rfl rfl, hstill.rests, fun p => ?_, ?_, ?_⟩
  · exact (eq_of_rel (Filter.keeps_next (by simp [Filter.concerned]))).symm.trans (hs.sinks p)
  · rw [hexchanges]
    exact hs.matched
  · rw [hexchanges]
    exact hs.answerable

end Turns

theorem settled_step {action : SyncAction h} (hstep : s.Step x action s')
    (hheeds : s.Heeds x action) (hs : Settled x s) : Settled x s' := by
  cases action with
  | task action => exact hs.other hheeds hstep
  | filterCommand now order loads =>
    cases hq : s.queue with
    | nil => simp [Step, step, hq] at hstep
    | cons command commands =>
      simp only [Step, step, hq] at hstep
      obtain ⟨-, hstep⟩ := Option.ite_none_left_eq_some.mp hstep
      exact hs.takeCommand hheeds hq hstep
  | filterPoll =>
    obtain ⟨-, hstep⟩ := Option.ite_none_left_eq_some.mp hstep
    exact hs.poll hstep
  | saveElsewhere block =>
    obtain rfl := Option.some.inj hstep
    exact ⟨hs.routed, hs.rests, hs.sinks, hs.matched, hs.answerable⟩

/-- Busy flags are exact in every run whose steps heed what they rely on. -/
theorem busy_exact {overseer : Overseer (substrate h.env)}
    {info : InterfaceInfo (substrate h.env)}
    (hinfo : overseer.interfaces.get? h.interface = some info) (hq : info.filter = [])
    (now : Time) {actions : List (SyncAction h)}
    (hheeds : Along (Step x) (fun s action _ => s.Heeds x action) (start h overseer now) actions) :
    Always (Step x) Exact (start h overseer now) actions := by
  have hstart : Settled x (start h overseer now) := settled_start hinfo hq now
  have hsettled : Always (Step x) (Settled x) (start h overseer now) actions :=
    always_of_along (fun _ _ _ hstep hheeds hs => settled_step hstep hheeds hs) hstart hheeds
  exact hsettled.mono fun _ hs => hs.exact

section Chain

def chainScripts : Scripts := ⟨Context.chainCodec, fun _ => [], fun _ => ""⟩

def chainStart : Synced localHost :=
  start localHost (Overseer.createInterface (.loading loopback) (Overseer.new ⟨[]⟩)
    ⟨[127, 0, 0, 1], 0⟩ "" none).2 0

def arrives (input : Action localHost) : List (SyncAction localHost) :=
  [.task input, .task .task, .task .forward, .task .report, .task .overseer,
    .filterCommand 0 [] true]

def sends (effects : ℕ) : List (SyncAction localHost) :=
  List.replicate effects (.task .perform) ++ [.task .command]

def installs : List (SyncAction localHost) :=
  [.task (.otherCall (.installNotificationFilter (0 : ℕ) "/sup/block-announces/1" "" "")),
    .task (.otherCall (.installRequestResponseFilter (0 : ℕ) "/sup/sync/2" "" "")),
    .filterCommand 0 [] true, .filterCommand 0 [] true]

def announces (number : UInt8) : List (SyncAction localHost) :=
  arrives (.swarm (.notificationsReceived [1]
    [("/sup/block-announces/1", Context.chainAnnounce number)])) ++ [.task .perform]

def asks (number : ℕ) : List (SyncAction localHost) :=
  arrives (.inboundRequest [2] "/sup/sync/2" (Context.chainRequest (Context.chainHash number) 1)) ++
    [.task .task]

/-- A block is announced, asked for, and requested from the peer that announced it. -/
def requested : List (SyncAction localHost) :=
  List.flatten [installs, arrives (.swarm (.connectionEstablished [1])), announces 1,
    arrives (.swarm (.connectionEstablished [2])), asks 1, sends 2]

/-- The peer responds, and the response is passed on. -/
def answered : List (SyncAction localHost) :=
  List.flatten [requested,
    arrives (.responseResolved 0 (some (Context.chainResponse [1]))), sends 2]

def failed : List (SyncAction localHost) :=
  requested ++ [.task (.responseResolved 0 none)]

/-- The peer connects anew before its request is resolved, and announces another block. -/
def rejoined : List (SyncAction localHost) :=
  List.flatten [requested, arrives (.swarm (.connectionClosed [1])),
    [.task .task, .task .forward, .task .report, .task .overseer],
    arrives (.swarm (.connectionEstablished [1])), announces 2, [.task .perform], sends 1, asks 2,
    sends 2]

instance (s : Synced localHost) : Decidable s.Drained :=
  decidable_of_iff (s.system.outbox = [] ∧ s.system.commands = [] ∧ s.system.tasks = [] ∧
      s.system.events = [] ∧ s.system.forwarding = none ∧ s.system.stream = [] ∧ s.queue = [] ∧
      s.context.pendingEvents = [])
    ⟨fun ⟨a, b, c, d, e, f, g, i⟩ => ⟨a, b, c, d, e, f, g, i⟩,
      fun ⟨a, b, c, d, e, f, g, i⟩ => ⟨a, b, c, d, e, f, g, i⟩⟩

/-- The peer is idle again after its response. -/
theorem busy_exact_answered :
    Along (Step chainScripts) (fun s action _ => s.Heeds chainScripts action) chainStart answered ∧
      (∃ s, Run (Step chainScripts) chainStart answered s ∧ s.Drained ∧
        ¬ Context.Busy s.context.peers [1] ∧ s.system.delivered ≠ []) ∧
      Always (Step chainScripts) Exact chainStart answered := by
  have hchecks : Checks (fun s action => (step chainScripts s action).getD s) (Heeds chainScripts)
      chainStart answered := by decide +kernel
  have hheeds := hchecks.along (R := Step chainScripts) fun s action s' hstep => by
    rw [show step chainScripts s action = some s' from hstep, Option.getD_some]
  exact ⟨hheeds, Run.exists_of_any (by decide +kernel), busy_exact rfl rfl 0 hheeds⟩

/-- A failed request leaves its peer busy for good, and a peer that connects anew gets a second
request while the first is unresolved. -/
theorem not_exact_failed :
    (∃ s, Run (Step chainScripts) chainStart failed s ∧ s.Drained ∧
        Context.Busy s.context.peers [1] ∧ s.system.network.pendingResponses = [] ∧ ¬ s.Exact) ∧
      ∃ s, Run (Step chainScripts) chainStart rejoined s ∧ [1] ∈ s.context.peers ∧
        s.outstanding [1] = 2 ∧ ¬ s.Exact := by
  constructor
  · obtain ⟨s, hrun, hdrained, hbusy, hnone⟩ : ∃ s, Run (Step chainScripts) chainStart failed s ∧
        s.Drained ∧ Context.Busy s.context.peers [1] ∧
        s.system.network.pendingResponses = [] := Run.exists_of_any (by decide +kernel)
    refine ⟨s, hrun, hdrained, hbusy, hnone, fun hexact => ?_⟩
    obtain ⟨request, hmem, -⟩ := hexact.busy hdrained [1] hbusy
    rw [hnone] at hmem
    cases hmem
  · obtain ⟨s, hrun, hpeer, htwo⟩ : ∃ s, Run (Step chainScripts) chainStart rejoined s ∧
        [1] ∈ s.context.peers ∧ s.outstanding [1] = 2 := Run.exists_of_any (by decide +kernel)
    refine ⟨s, hrun, hpeer, htwo, fun hexact => ?_⟩
    exact absurd (hexact.single [1] hpeer) (by rw [htwo]; decide)

end Chain

end Synced

end SwarmHost.EndToEnd
