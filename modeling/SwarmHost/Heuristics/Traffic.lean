import Mathlib.Algebra.BigOperators.Group.Finset.Piecewise
import Mathlib.Tactic.Abel
import SwarmHost.Filter.Requests
import SwarmHost.Heuristics.Basic
import SwarmHost.Overseer.Broadcast
import SwarmHost.Overseer.Queues

/-! # Counting received messages

The overseer, the filters of its interfaces and the heuristics backend run
concurrently. A filter counts every message it is handed as received, and the
overseer hands a notification to all interfaces that are linked to the one that
received it, so a message is counted once for each interface of the component.
-/

namespace SwarmHost

variable {T : NetworkBackend}

def FilterCommand.receipt : FilterCommand T → Option (Receipt T)
  | .injectNotification protocol peer notification =>
    some (protocol, peer, T.messageInfo notification)
  | .injectRequest protocol peer request => some (protocol, peer, T.requestInfo request)
  | .injectResponse protocol peer response => some (protocol, peer, T.responseInfo response)
  | _ => none

namespace FilterEffect

def report : FilterEffect T → Option (HeuristicsEvent T)
  | .heuristics event => some event
  | _ => none

def receipt (effect : FilterEffect T) : Option (Receipt T) := effect.report.bind (·.receipt)

def registered (effect : FilterEffect T) : Option T.PeerId := effect.report.bind (·.registered)

end FilterEffect

namespace Filter

/-- The effects neither count a received message nor register a peer. -/
def Silent (effects : List (FilterEffect T)) : Prop :=
  ∀ e ∈ effects, e.receipt = none ∧ e.registered = none

/-- The only thing that is reported is the sending of notifications to such peers. -/
def SendsTo (R : T.PeerId → Prop) (effects : List (FilterEffect T)) : Prop :=
  ∀ e ∈ effects, ∀ event ∈ e.report, ∃ i protocol p info,
    event = .messageSent i protocol [p] info ∧ R p

def ForwardsTo (p : T.PeerId) : ExecutorEvent T → Prop
  | .forward peers _ _ => p ∈ peers
  | _ => False

/-- The answer makes the filter forward a notification to the peer, if it is registered. -/
def Turn.Forwards (turn : Turn T) (p : T.PeerId) : Prop :=
  match turn.answer with
  | .ok events => ∃ e ∈ events, ForwardsTo p e
  | .error (.executorError .filterDoesntExist) =>
    ∃ protocol q notification, turn.input = .command (.injectNotification protocol q notification)
  | .error _ => False

section SendsTo

variable {R S : T.PeerId → Prop} {es es' : List (FilterEffect T)}

theorem sendsTo_nil : SendsTo R [] := by
  intro e he
  cases he

theorem SendsTo.append (h : SendsTo R es) (h' : SendsTo R es') : SendsTo R (es ++ es') := by
  intro e he
  rcases List.mem_append.mp he with he | he
  · exact h e he
  · exact h' e he

theorem SendsTo.mono (h : SendsTo R es) (hRS : ∀ p, R p → S p) : SendsTo S es := by
  intro e he event hevent
  obtain ⟨i, protocol, p, info, heq, hp⟩ := h e he event hevent
  exact ⟨i, protocol, p, info, heq, hRS p hp⟩

theorem sendsTo_singleton {e : FilterEffect T} (h : e.report = none) : SendsTo R [e] := by
  intro e' he' event hevent
  rw [List.mem_singleton.mp he', h] at hevent
  cases hevent

theorem SendsTo.silent (h : SendsTo R es) : Silent es := by
  intro e he
  unfold FilterEffect.receipt FilterEffect.registered
  cases hreport : e.report with
  | none => exact ⟨rfl, rfl⟩
  | some event =>
    obtain ⟨i, protocol, p, info, rfl, -⟩ := h e he event hreport
    exact ⟨rfl, rfl⟩

end SendsTo

theorem sendsTo_sendPacket (f : Filter T) (protocol : T.Protocol) (notification : T.Message)
    (peer : T.PeerId) :
    SendsTo (fun p => p = peer ∧ p ∈ f.peers) (f.sendPacket protocol notification peer).2 := by
  unfold sendPacket
  cases hpeer : f.peers.get? peer with
  | none => exact sendsTo_nil
  | some info =>
    dsimp only
    apply (sendsTo_singleton (e := .sendPacket peer info.sink protocol notification) rfl).append
    split
    · intro e he event hevent
      obtain rfl := List.mem_singleton.mp he
      obtain rfl := Option.some.inj hevent
      exact ⟨_, _, peer, _, rfl, rfl, Dict.mem_of_get? hpeer⟩
    · exact sendsTo_nil

theorem sendsTo_forward (f : Filter T) (protocol : T.Protocol) (notification : T.Message)
    (peers : List T.PeerId) :
    SendsTo (fun p => p ∈ peers ∧ p ∈ f.peers) (f.forward protocol notification peers).2 := by
  induction peers generalizing f with
  | nil => exact sendsTo_nil
  | cons peer peers ih =>
    have hone := sendsTo_sendPacket f protocol notification peer
    have hpeers := (sendPacket_frame f protocol notification peer).1
    refine (hone.mono ?_).append ((ih _).mono ?_)
    · rintro p ⟨rfl, hp⟩
      exact ⟨List.mem_cons_self, hp⟩
    · rintro p ⟨hp, hmem⟩
      exact ⟨List.mem_cons_of_mem _ hp, (hpeers p).mp hmem⟩

theorem sendsTo_processEvent (f : Filter T) (e : ExecutorEvent T) :
    SendsTo (fun p => ForwardsTo p e ∧ p ∈ f.peers) (f.processEvent e).2.2 := by
  cases e with
  | connect peer => exact sendsTo_singleton rfl
  | forward peers protocol notification => exact sendsTo_forward f protocol notification peers
  | sendRequest peer protocol payload =>
    simp only [processEvent]
    split
    · exact sendsTo_nil
    · exact sendsTo_singleton rfl
  | sendResponse peer payload =>
    simp only [processEvent]
    split
    · exact sendsTo_nil
    · split
      · exact sendsTo_nil
      · exact sendsTo_singleton rfl

theorem sendsTo_processEvents (f : Filter T) (es : List (ExecutorEvent T)) :
    SendsTo (fun p => (∃ e ∈ es, ForwardsTo p e) ∧ p ∈ f.peers) (f.processEvents es).2.2 := by
  induction es generalizing f with
  | nil => exact sendsTo_nil
  | cons e es ih =>
    have hone : SendsTo (fun p => (∃ e' ∈ e :: es, ForwardsTo p e') ∧ p ∈ f.peers)
        (f.processEvent e).2.2 := by
      refine (sendsTo_processEvent f e).mono ?_
      rintro p ⟨he, hp⟩
      exact ⟨⟨e, List.mem_cons_self, he⟩, hp⟩
    have hpeers := (eventSpec f e).peers
    rcases hout : f.processEvent e with ⟨_ | ⟨⟨⟩⟩, f', effects⟩
    · rw [processEvents_cons_of_error hout]
      rwa [hout] at hone
    · rw [processEvents_cons_of_ok hout]
      rw [hout] at hone hpeers
      refine hone.append ((ih f').mono ?_)
      rintro p ⟨⟨e', he', hf⟩, hp⟩
      exact ⟨⟨e', List.mem_cons_of_mem _ he', hf⟩, (hpeers p).mp hp⟩

def counted (f : Filter T) : FilterInput T → Option (HeuristicsEvent T)
  | .poll => none
  | .command command => command.receipt.map fun (protocol, peer, info) =>
    .messageReceived f.interface protocol peer info

/-- A method counts the message it is given before anything else. -/
theorem prepare_effects (f : Filter T) (answer : ExecutorAnswer T) (input : FilterInput T) :
    ∃ rest, (f.prepare answer input).effects =
      ((f.counted input).map .heuristics).toList ++ rest ∧
      SendsTo (fun p => Turn.Forwards ⟨input, answer⟩ p ∧ p ∈ (f.prepare answer input).filter.peers)
        rest := by
  have hnone : ∀ {m : Prepared T} {R : T.PeerId → Prop}, m.effects = [] → f.counted input = none →
      ∃ rest, m.effects = ((f.counted input).map .heuristics).toList ++ rest ∧
        SendsTo R rest := by
    intro m R hm hc
    exact ⟨[], by simp [hm, hc], sendsTo_nil⟩
  cases input with
  | poll => exact hnone rfl rfl
  | command command =>
    cases command with
    | registerPeer peer sink =>
      apply hnone _ rfl
      simp only [prepare, registerPeer]
      split
      · rfl
      · cases answer <;> rfl
    | unregisterPeer peer =>
      apply hnone _ rfl
      simp only [prepare, unregisterPeer]
      split <;> rfl
    | protocolOpened peer protocol | protocolClosed peer protocol =>
      apply hnone _ rfl
      simp only [prepare, protocolOpened, protocolClosed, addProtocol]
      split <;> rfl
    | discoverPeer | installNotificationFilter | installRequestResponseFilter =>
      exact hnone rfl rfl
    | injectNotification protocol peer notification =>
      simp only [prepare, injectNotification, sendToAll_entries]
      split
      · exact ⟨[], rfl, sendsTo_nil⟩
      · refine ⟨_, rfl, (sendsTo_forward f protocol notification _).mono ?_⟩
        rintro p ⟨-, hp⟩
        refine ⟨⟨protocol, peer, notification, rfl⟩, ?_⟩
        exact ((forward_frame f protocol notification _).1 p).mpr hp
      · exact ⟨[], rfl, sendsTo_nil⟩
    | injectRequest | injectResponse => exact ⟨[], rfl, sendsTo_nil⟩

theorem events_prepare {f : Filter T} {answer : ExecutorAnswer T} {input : FilterInput T}
    {events : List (ExecutorEvent T)} (h : (f.prepare answer input).events = .ok events) :
    events = [] ∨ answer = .ok events := by
  cases input with
  | poll => exact .inr h
  | command command =>
    cases command with
    | registerPeer peer sink =>
      simp only [prepare, registerPeer] at h
      split at h
      · cases h
      · cases answer with
        | error => cases h
        | ok => exact .inr h
    | unregisterPeer peer =>
      simp only [prepare, unregisterPeer] at h
      split at h
      · exact .inr h
      · cases h
    | protocolOpened peer protocol | protocolClosed peer protocol =>
      simp only [prepare, protocolOpened, protocolClosed, addProtocol] at h
      split at h
      · cases h
      · exact .inr h
    | installNotificationFilter | installRequestResponseFilter =>
      cases answer with
      | error => cases h
      | ok => exact .inl (Except.ok.inj h).symm
    | injectNotification protocol peer notification =>
      simp only [prepare, injectNotification, sendToAll_entries] at h
      split at h
      · exact .inr h
      · exact .inl (Except.ok.inj h).symm
      · cases h
    | discoverPeer | injectRequest | injectResponse => exact .inr h

theorem effects_eq (f : Filter T) (turn : Turn T) :
    ∃ rest, f.effects turn = ((f.counted turn.input).map .heuristics).toList ++ rest ∧
      SendsTo (fun p => turn.Forwards p ∧ p ∈ (f.prepared turn).peers) rest := by
  obtain ⟨rest, hrest, hsends⟩ := prepare_effects f turn.answer turn.input
  simp only [effects, handle]
  cases hevents : (f.prepare turn.answer turn.input).events with
  | error => exact ⟨rest, hrest, hsends⟩
  | ok events =>
    have hprocess := sendsTo_processEvents (f.prepare turn.answer turn.input).filter events
    refine ⟨_, ?_, hsends.append (hprocess.mono ?_)⟩
    · rw [← List.append_assoc, ← hrest]
    · rintro p ⟨⟨e, he, hforwards⟩, hp⟩
      rcases events_prepare hevents with rfl | hanswer
      · cases he
      · refine ⟨?_, hp⟩
        rw [Turn.Forwards, hanswer]
        exact ⟨e, he, hforwards⟩

theorem registered_effects (f : Filter T) (turn : Turn T) :
    ∀ e ∈ f.effects turn, e.registered = none := by
  obtain ⟨rest, heq, hsends⟩ := effects_eq f turn
  intro e he
  rw [heq, List.mem_append] at he
  rcases he with he | he
  · cases hinput : turn.input with
    | poll => simp [hinput, counted] at he
    | command command =>
      simp only [hinput, counted, Option.map_map, Option.mem_toList,
        Option.map_eq_some_iff] at he
      obtain ⟨⟨protocol, peer, info⟩, -, rfl⟩ := he
      rfl
  · exact (hsends.silent e he).2

theorem receipts_effects (f : Filter T) (turn : Turn T) :
    (f.effects turn).filterMap FilterEffect.receipt =
      match turn.input with
      | .poll => []
      | .command command => command.receipt.toList := by
  obtain ⟨rest, heq, hsends⟩ := effects_eq f turn
  have hrest : rest.filterMap FilterEffect.receipt = [] := by
    rw [List.filterMap_eq_nil_iff]
    exact fun e he => (hsends.silent e he).1
  rw [heq, List.filterMap_append, hrest, List.append_nil]
  cases turn.input with
  | poll => rfl
  | command command =>
    simp only [counted]
    cases command.receipt <;> rfl

end Filter

/-- The overseer, the filters of its interfaces and the heuristics backend. -/
structure Swarm (T : NetworkBackend) where
  overseer : Overseer T
  filters : T.InterfaceId → Filter T
  /-- The number of commands each filter has taken from its queue. -/
  taken : T.InterfaceId → ℕ
  /-- What each filter does before it takes the next input. -/
  outbox : T.InterfaceId → List (FilterEffect T)
  /-- The events on their way to the heuristics backend. -/
  channel : List (HeuristicsEvent T)
  heuristics : HeuristicsBackend T

namespace Swarm

/-- The step of one of the tasks. -/
inductive Action (T : NetworkBackend) where
  | overseer (call : Call T)
  | filterCommand (interface : T.InterfaceId) (answer : ExecutorAnswer T)
  | filterPoll (interface : T.InterfaceId) (answer : ExecutorAnswer T)
  | perform (interface : T.InterfaceId)
  | heuristics

def start (parameters : T.NetworkParameters) : Swarm T where
  overseer := .new parameters
  filters := .new
  taken _ := 0
  outbox _ := []
  channel := []
  heuristics := .new

def oversee (E : Executor T) (s : Swarm T) (call : Call T) : Option (Swarm T) :=
  (s.overseer.handle E call).map fun (_, overseer) =>
    { s with
      overseer := overseer
      channel := s.channel ++ overseer.heuristics.drop s.overseer.heuristics.length }

def filterTurn (s : Swarm T) (i : T.InterfaceId) (turn : Filter.Turn T) : Option (Swarm T) :=
  if i ∈ s.overseer.interfaces ∧ s.outbox i = [] then
    some { s with
      filters := Function.update s.filters i ((s.filters i).next turn)
      outbox := Function.update s.outbox i ((s.filters i).effects turn) }
  else none

def takeCommand (s : Swarm T) (i : T.InterfaceId) (answer : ExecutorAnswer T) :
    Option (Swarm T) :=
  match (s.overseer.queue i)[s.taken i]? with
  | none => none
  | some command =>
    (s.filterTurn i ⟨.command command, answer⟩).map fun s' =>
      { s' with taken := Function.update s.taken i (s.taken i + 1) }

def performEffect (s : Swarm T) (i : T.InterfaceId) : Option (Swarm T) :=
  match decide (i ∈ s.overseer.interfaces), s.outbox i with
  | true, effect :: effects =>
    some { s with
      outbox := Function.update s.outbox i effects
      channel := s.channel ++ effect.report.toList }
  | _, _ => none

def takeEvent (s : Swarm T) : Option (Swarm T) :=
  match s.channel with
  | [] => none
  | event :: channel =>
    some { s with channel := channel, heuristics := s.heuristics.handleEvent event }

/-- One step of the swarm; `none` if the task is not ready. -/
def step (E : Executor T) (s : Swarm T) : Action T → Option (Swarm T)
  | .overseer call => s.oversee E call
  | .filterCommand i answer => s.takeCommand i answer
  | .filterPoll i answer => s.filterTurn i ⟨.poll, answer⟩
  | .perform i => s.performEffect i
  | .heuristics => s.takeEvent

def Step (E : Executor T) (s : Swarm T) (action : Action T) (s' : Swarm T) : Prop :=
  s.step E action = some s'

/-- All queues are empty. -/
def Drained (s : Swarm T) : Prop :=
  (∀ i, s.taken i = (s.overseer.queue i).length ∧ s.outbox i = []) ∧ s.channel = []

/-- The action works off what is queued: it is none of the overseer, except for the connections
that filters ask for. -/
def Action.Internal : Action T → Prop
  | .overseer (.connectToPeer _ _) => True
  | .overseer _ => False
  | _ => True

variable {E : Executor T} {s s' t u : Swarm T} {i j : T.InterfaceId}

section Conservation

def backlog (s : Swarm T) (i : T.InterfaceId) : Multiset (Receipt T) :=
  ((s.overseer.queue i).drop (s.taken i)).filterMap FilterCommand.receipt +
    (s.outbox i).filterMap FilterEffect.receipt

/-- The messages that the filters have still to count. -/
def queued (s : Swarm T) : Multiset (Receipt T) :=
  ∑ i ∈ s.overseer.interfaces.keys.toFinset, s.backlog i

/-- The messages that the heuristics backend has still to count. -/
def pending (s : Swarm T) : Multiset (Receipt T) :=
  s.queued + s.channel.filterMap HeuristicsEvent.receipt

/-- A step of one filter changes one summand. -/
theorem queued_update (ho : s'.overseer = s.overseer) (hi : i ∈ s.overseer.interfaces)
    (hne : ∀ j, j ≠ i → s'.backlog j = s.backlog j) :
    ∃ rest, s.queued = s.backlog i + rest ∧ s'.queued = s'.backlog i + rest := by
  have hmem : i ∈ s.overseer.interfaces.keys.toFinset := List.mem_toFinset.mpr hi
  refine ⟨∑ j ∈ s.overseer.interfaces.keys.toFinset.erase i, s.backlog j, ?_, ?_⟩
  · exact (Finset.add_sum_erase _ _ hmem).symm
  · rw [queued, ho, ← Finset.add_sum_erase _ _ hmem]
    congr 1
    apply Finset.sum_congr rfl
    intro j hj
    exact hne j (Finset.ne_of_mem_erase hj)

/-- No registration of a peer is on its way. -/
structure Quiet (s : Swarm T) : Prop where
  channel : ∀ e ∈ s.channel, e.registered = none
  outbox : ∀ i, ∀ e ∈ s.outbox i, e.registered = none

/-- The heuristics backend handled some events, and no message was lost or added on the way. -/
structure Works (s : Swarm T) (handled : List (HeuristicsEvent T)) (s' : Swarm T) : Prop where
  heuristics : s'.heuristics = handled.foldl HeuristicsBackend.handleEvent s.heuristics
  receipts : ↑(handled.filterMap HeuristicsEvent.receipt) + s'.pending = s.pending
  registered : ∀ e ∈ handled, e.registered = none
  quiet : s'.Quiet

theorem works_refl (hs : s.Quiet) : Works s [] s := ⟨rfl, by simp, by simp, hs⟩

theorem Works.trans {l l' : List (HeuristicsEvent T)} (h : Works s l t) (h' : Works t l' u) :
    Works s (l ++ l') u where
  heuristics := by rw [h'.heuristics, h.heuristics, List.foldl_append]
  receipts := by
    rw [← h.receipts, ← h'.receipts, List.filterMap_append, ← Multiset.coe_add, add_assoc]
  registered e he := by
    rcases List.mem_append.mp he with he | he
    · exact h.registered e he
    · exact h'.registered e he
  quiet := h'.quiet

theorem works_local (hs : s.Quiet) (hi : i ∈ s.overseer.interfaces)
    (ho : s'.overseer = s.overseer) (hh : s'.heuristics = s.heuristics)
    (hne : ∀ j, j ≠ i → s'.taken j = s.taken j ∧ s'.outbox j = s.outbox j)
    (hkeep : s'.backlog i + s'.channel.filterMap HeuristicsEvent.receipt =
      s.backlog i + s.channel.filterMap HeuristicsEvent.receipt)
    (hchannel : ∀ e ∈ s'.channel, e.registered = none)
    (hout : ∀ e ∈ s'.outbox i, e.registered = none) : Works s [] s' := by
  refine ⟨hh, ?_, by simp, hchannel, ?_⟩
  · have hother : ∀ j, j ≠ i → s'.backlog j = s.backlog j := by
      intro j hj
      rw [backlog, backlog, ho, (hne j hj).1, (hne j hj).2]
    obtain ⟨rest, hrest, hrest'⟩ := queued_update ho hi hother
    rw [List.filterMap_nil, Multiset.coe_nil, zero_add, pending, pending, hrest, hrest',
      add_right_comm, hkeep, add_right_comm]
  · intro j
    by_cases hj : j = i
    · subst hj
      exact hout
    · rw [(hne j hj).2]
      exact hs.outbox j

theorem filterTurn_eq_some {turn : Filter.Turn T} :
    s.filterTurn i turn = some s' ↔ (i ∈ s.overseer.interfaces ∧ s.outbox i = []) ∧
      { s with
        filters := Function.update s.filters i ((s.filters i).next turn)
        outbox := Function.update s.outbox i ((s.filters i).effects turn) } = s' := by
  rw [filterTurn, Option.ite_none_right_eq_some, Option.some.injEq]

theorem works_filterPoll {answer : ExecutorAnswer T} (hs : s.Quiet)
    (h : s.filterTurn i ⟨.poll, answer⟩ = some s') : Works s [] s' := by
  obtain ⟨⟨hi, hnil⟩, rfl⟩ := filterTurn_eq_some.mp h
  apply works_local hs hi
  case hne =>
    intro j hj
    simp [hj]
  case hkeep => simp [backlog, hnil, Filter.receipts_effects]
  case hout =>
    simp only [Function.update_self]
    exact Filter.registered_effects _ _
  all_goals first | rfl | exact hs.channel

theorem works_takeCommand {answer : ExecutorAnswer T} (hs : s.Quiet)
    (h : s.takeCommand i answer = some s') : Works s [] s' := by
  unfold takeCommand at h
  split at h
  · cases h
  next command hcommand =>
  obtain ⟨t, ht, rfl⟩ := Option.map_eq_some_iff.mp h
  obtain ⟨⟨hi, hnil⟩, rfl⟩ := filterTurn_eq_some.mp ht
  apply works_local hs hi
  case hne =>
    intro j hj
    simp [hj]
  case hkeep =>
    -- the command leaves the queue and its message enters the outbox
    obtain ⟨hlt, hget⟩ := List.getElem?_eq_some_iff.mp hcommand
    have hdrop : (s.overseer.queue i).drop (s.taken i) =
        command :: (s.overseer.queue i).drop (s.taken i + 1) := by
      rw [← hget]
      exact List.drop_eq_getElem_cons hlt
    simp only [backlog, Function.update_self, hnil, hdrop, Filter.receipts_effects]
    cases hr : command.receipt with
    | none => simp [hr]
    | some r =>
      simp only [hr, List.filterMap_cons, List.filterMap_nil, Option.toList_some,
        ← Multiset.cons_coe, ← Multiset.singleton_add, Multiset.coe_nil]
      abel
  case hout =>
    simp only [Function.update_self]
    exact Filter.registered_effects _ _
  all_goals first | rfl | exact hs.channel

theorem works_performEffect (hs : s.Quiet) (h : s.performEffect i = some s') :
    Works s [] s' := by
  unfold performEffect at h
  split at h
  · next effect effects hi hout =>
    obtain rfl := Option.some.inj h
    have hquiet := hs.outbox i
    rw [hout] at hquiet
    apply works_local hs (of_decide_eq_true hi)
    case hne =>
      intro j hj
      simp [hj]
    case hkeep =>
      simp only [backlog, Function.update_self, hout, List.filterMap_append]
      cases hr : effect.report with
      | none => simp [FilterEffect.receipt, hr]
      | some e =>
        cases he : e.receipt with
        | none => simp [FilterEffect.receipt, hr, he]
        | some r =>
          simp only [FilterEffect.receipt, hr, he, Option.bind_some, List.filterMap_cons,
            List.filterMap_nil, Option.toList_some, ← Multiset.coe_add, ← Multiset.cons_coe,
            ← Multiset.singleton_add, Multiset.coe_nil]
          abel
    case hchannel =>
      intro e he
      rcases List.mem_append.mp he with he | he
      · exact hs.channel e he
      · have heffect := hquiet effect List.mem_cons_self
        rw [FilterEffect.registered, Option.mem_toList.mp he] at heffect
        exact heffect
    case hout =>
      simp only [Function.update_self]
      exact fun e he => hquiet e (List.mem_cons_of_mem _ he)
    all_goals rfl
  · cases h

theorem works_takeEvent (hs : s.Quiet) (h : s.takeEvent = some s') :
    ∃ handled, Works s handled s' := by
  unfold takeEvent at h
  split at h
  · cases h
  · next e channel hc =>
    obtain rfl := Option.some.inj h
    have hquiet := hs.channel
    rw [hc] at hquiet
    refine ⟨[e], rfl, ?_, by simpa using hquiet e List.mem_cons_self, ?_, hs.outbox⟩
    · simp only [pending, hc, List.filterMap_cons, List.filterMap_nil]
      cases he : e.receipt with
      | none => simp [queued, backlog]
      | some r => simp [queued, backlog, ← Multiset.cons_coe]
    · exact fun e he => hquiet e (List.mem_cons_of_mem _ he)

theorem works_connectToPeer {peer : T.PeerId} (hs : s.Quiet)
    (h : s.oversee E (.connectToPeer i peer) = some s') : Works s [] s' := by
  obtain ⟨⟨r, o⟩, ho, rfl⟩ := Option.map_eq_some_iff.mp h
  obtain rfl : (s.overseer.connectToPeer i peer).2 = o := congrArg Prod.snd (Option.some.inj ho)
  have hheuristics : (s.overseer.connectToPeer i peer).2.heuristics = s.overseer.heuristics := by
    unfold Overseer.connectToPeer
    cases s.overseer.interfaces.get? i <;> rfl
  have hqueue : ∀ j, (s.overseer.connectToPeer i peer).2.queue j = s.overseer.queue j := by
    intro j
    unfold Overseer.connectToPeer
    cases hi : s.overseer.interfaces.get? i with
    | none => rfl
    | some info =>
      simp only [Overseer.queue, Dict.get?_insert]
      split
      · subst j; simp [hi]
      · rfl
  have hkeys : (s.overseer.connectToPeer i peer).2.interfaces.keys.toFinset =
      s.overseer.interfaces.keys.toFinset := by
    ext j
    simp only [List.mem_toFinset]
    exact Overseer.Frame.mem_interfaces (Overseer.frame_connectToPeer _ i peer).index
  refine ⟨rfl, ?_, by simp, ?_, hs.outbox⟩
  · simp [pending, queued, backlog, hqueue, hkeys, hheuristics]
  · simpa [hheuristics] using hs.channel

/-- Working off what is queued hands every message to the heuristics backend once. -/
theorem works_step {action : Action T} (hs : s.Quiet) (ha : action.Internal)
    (h : Step E s action s') : ∃ handled, Works s handled s' := by
  cases action with
  | overseer call =>
    cases call with
    | connectToPeer i peer => exact ⟨[], works_connectToPeer hs h⟩
    | _ => cases ha
  | filterCommand i answer => exact ⟨[], works_takeCommand hs h⟩
  | filterPoll i answer => exact ⟨[], works_filterPoll hs h⟩
  | perform i => exact ⟨[], works_performEffect hs h⟩
  | heuristics => exact works_takeEvent hs h

theorem works_run {actions : List (Action T)} (h : Run (Step E) s actions s') (hs : s.Quiet)
    (ha : ∀ a ∈ actions, a.Internal) : ∃ handled, Works s handled s' := by
  induction h with
  | nil => exact ⟨[], works_refl hs⟩
  | cons hstep _ ih =>
    obtain ⟨l, hl⟩ := works_step hs (ha _ List.mem_cons_self) hstep
    obtain ⟨l', hl'⟩ := ih hl.quiet fun a hmem => ha a (List.mem_cons_of_mem _ hmem)
    exact ⟨l ++ l', hl.trans hl'⟩

end Conservation

theorem wellFormed_overseer {parameters : T.NetworkParameters} {actions : List (Action T)}
    (h : Run (Step E) (start parameters) actions s) : s.overseer.WellFormed := by
  refine h.invariant (I := fun s => s.overseer.WellFormed) ?_ (Overseer.wellFormed_new parameters)
  intro s action s' hstep hs
  cases action with
  | overseer call =>
    obtain ⟨out, ho, rfl⟩ := Option.map_eq_some_iff.mp hstep
    have hcall : Overseer.Step E s.overseer call out.2 := by simp [Overseer.Step, ho]
    exact Overseer.wellFormed_step s.overseer call out.2 hcall hs
  | filterCommand i answer =>
    simp only [Step, step, takeCommand] at hstep
    split at hstep
    · cases hstep
    · obtain ⟨t, ht, rfl⟩ := Option.map_eq_some_iff.mp hstep
      obtain ⟨-, rfl⟩ := filterTurn_eq_some.mp ht
      exact hs
  | filterPoll i answer =>
    obtain ⟨-, rfl⟩ := filterTurn_eq_some.mp hstep
    exact hs
  | perform i =>
    simp only [Step, step, performEffect] at hstep
    split at hstep
    · cases hstep; exact hs
    · cases hstep
  | heuristics =>
    simp only [Step, step, takeEvent] at hstep
    split at hstep
    · cases hstep
    · cases hstep; exact hs

theorem Drained.backlog_eq (h : s.Drained) (i : T.InterfaceId) : s.backlog i = 0 := by
  obtain ⟨hlen, hout⟩ := h.1 i
  simp [backlog, hlen, hout]

theorem Drained.pending_eq (h : s.Drained) : s.pending = 0 := by
  simp [pending, queued, h.backlog_eq, h.2]

theorem Drained.quiet (h : s.Drained) : s.Quiet := by
  refine ⟨by simp [h.2], fun i => ?_⟩
  simp [(h.1 i).2]

theorem length_component_eq_one_iff {o : Overseer T} {ids : List T.InterfaceId}
    (hi : i ∈ o.interfaces) (hnd : ids.Nodup) (hmem : ∀ j, j ∈ ids ↔ o.SameComponent i j) :
    ids.length = 1 ↔ ∀ j, o.SameComponent i j → j = i := by
  have hself : i ∈ ids := by
    obtain ⟨info, hinfo⟩ := Dict.mem_iff.mp hi
    have hindex := Overseer.index?_eq_some_iff.mpr ⟨info, hinfo, rfl⟩
    exact (hmem i).mpr ⟨_, _, hindex, hindex, .refl⟩
  constructor
  · intro hlen j hj
    obtain ⟨k, hk⟩ := List.length_eq_one_iff.mp hlen
    rw [hk, List.mem_singleton] at hself
    have hjk := (hmem j).mpr hj
    rw [hk, List.mem_singleton] at hjk
    rw [hjk, hself]
  · intro honly
    have hperm : ids.Perm [i] := by
      rw [List.perm_ext_iff_of_nodup hnd (List.nodup_singleton i)]
      intro j
      rw [List.mem_singleton]
      constructor
      · intro hj
        exact honly j ((hmem j).mp hj)
      · rintro rfl
        exact hself
    exact hperm.length_eq

theorem backlog_sendAll {o : Overseer T} {ids : List T.InterfaceId} {command : FilterCommand T}
    {r : Receipt T} (hs : s.Drained) (hr : command.receipt = some r)
    (hids : ∀ j ∈ ids, j ∈ s.overseer.interfaces)
    (hget : ∀ j, o.interfaces.get? j =
      if j ∈ ids then (s.overseer.interfaces.get? j).map (·.send command)
      else s.overseer.interfaces.get? j) (ht : t.overseer = o) (htaken : t.taken = s.taken)
    (hout : t.outbox = s.outbox) (j : T.InterfaceId) :
    t.backlog j = if j ∈ ids then {r} else 0 := by
  obtain ⟨hlen, hnil⟩ := hs.1 j
  rw [backlog, ht, htaken, hout, hnil, hlen]
  split
  · next hj =>
    obtain ⟨info, hinfo⟩ := Dict.mem_iff.mp (hids j hj)
    simp [Overseer.queue, hget, hj, hinfo, InterfaceInfo.send, hr]
  · next hj => simp [Overseer.queue, hget, hj]

theorem pending_messageReceived {peer : T.PeerId} {protocol : T.Protocol} {message : T.Message}
    (hwf : s.overseer.WellFormed) (hs : s.Drained) (hi : i ∈ s.overseer.interfaces)
    (h : Step E s (.overseer (.interfaceEvent (.messageReceived i peer protocol message))) t) :
    t.heuristics = s.heuristics ∧ t.Quiet ∧ ∃ ids : List T.InterfaceId, ids.Nodup ∧
      (∀ j, j ∈ ids ↔ s.overseer.SameComponent i j) ∧
      t.pending = Multiset.replicate ids.length (protocol, peer, T.messageInfo message) := by
  obtain ⟨info, hinfo⟩ := Dict.mem_iff.mp hi
  obtain ⟨ids, hids, hnd, hmem⟩ :=
    hwf.linkedInterfaces_spec (Overseer.index?_eq_some_iff.mpr ⟨info, hinfo, rfl⟩)
  have hex : ∀ j ∈ ids, j ∈ s.overseer.interfaces := by
    intro j hj
    obtain ⟨_, m, _, hjm, _⟩ := (hmem j).mp hj
    exact Overseer.index?_isSome_iff.mp (by simp [hjm])
  obtain ⟨o, ho, heq, hget⟩ :=
    Overseer.sendAll_spec (.injectNotification protocol peer message) hnd hex
  have ht : { s with
      overseer := o
      channel := s.channel ++ o.heuristics.drop s.overseer.heuristics.length } = t := by
    simpa [Step, step, oversee, Overseer.handle, Overseer.onInterfaceEvent,
      Overseer.injectNotification, hinfo, hids, ho] using h
  have hover : t.overseer = o := by rw [← ht]
  have hout : t.outbox = s.outbox := by rw [← ht]
  have hheuristics : o.heuristics = s.overseer.heuristics := congrArg (·.heuristics) heq
  have hchannel : t.channel = [] := by simp [← ht, hheuristics, hs.2]
  have hbacklog := backlog_sendAll hs rfl hex hget hover (by rw [← ht]) hout
  have hkeys : o.interfaces.keys.toFinset = s.overseer.interfaces.keys.toFinset := by
    ext j
    simp only [List.mem_toFinset]
    change j ∈ o.interfaces ↔ j ∈ s.overseer.interfaces
    rw [Dict.mem_iff_isSome, Dict.mem_iff_isSome, hget]
    split <;> simp
  have hinter : s.overseer.interfaces.keys.toFinset ∩ ids.toFinset = ids.toFinset := by
    ext j
    simp only [Finset.mem_inter, List.mem_toFinset, and_iff_right_iff_imp]
    exact hex j
  refine ⟨by rw [← ht], ⟨by simp [hchannel], ?_⟩, ids, hnd, hmem, ?_⟩
  · rw [hout]
    exact hs.quiet.outbox
  · rw [pending, queued, hchannel, hover, hkeys, Finset.sum_congr rfl fun j _ => hbacklog j]
    simp only [← List.mem_toFinset]
    rw [Finset.sum_ite_mem, hinter, Finset.sum_const, List.toFinset_card_of_nodup hnd]
    simp [Multiset.nsmul_singleton]

/-- From `s` to `u` one message was received from the peer on the protocol. -/
structure Counts (s u : Swarm T) (peer : T.PeerId) (protocol : T.Protocol) (info : MessageInfo) :
    Prop where
  messages : (u.heuristics.received peer protocol).messages =
    (s.heuristics.received peer protocol).messages + 1
  bytes : (u.heuristics.received peer protocol).bytes =
    (s.heuristics.received peer protocol).bytes + info.size
  redundant : info.hash ∉ (s.heuristics.received peer protocol).unique →
    (u.heuristics.received peer protocol).redundantBytes =
      (s.heuristics.received peer protocol).redundantBytes

/-- A received message is counted once iff its sender is known to the heuristics backend and no
other interface is connected to the one that received it. -/
theorem counts_iff (E : Executor T) (parameters : T.NetworkParameters) (actions : List (Action T))
    (hrun : Run (Step E) (start parameters) actions s) (hs : s.Drained)
    (hi : i ∈ s.overseer.interfaces) (peer : T.PeerId) (protocol : T.Protocol)
    (message : T.Message)
    (hstep : Step E s (.overseer (.interfaceEvent (.messageReceived i peer protocol message))) t)
    (internal : List (Action T)) (hinternal : ∀ a ∈ internal, a.Internal)
    (hdrain : Run (Step E) t internal u) (hu : u.Drained) :
    Counts s u peer protocol (T.messageInfo message) ↔
      peer ∈ s.heuristics.peers ∧ ∀ j, s.overseer.SameComponent i j → j = i := by
  have hwf := wellFormed_overseer hrun
  obtain ⟨hheur, hquiet, ids, hnd, hmem, hpending⟩ := pending_messageReceived hwf hs hi hstep
  obtain ⟨handled, hworks⟩ := works_run hdrain hquiet hinternal
  have hreceipts : (handled.filterMap HeuristicsEvent.receipt : Multiset (Receipt T)) =
      Multiset.replicate ids.length (protocol, peer, T.messageInfo message) := by
    rw [← hpending, ← hworks.receipts, hu.pending_eq, add_zero]
  have hsingle := length_component_eq_one_iff hi hnd hmem
  rw [← hsingle]
  by_cases hknown : peer ∈ s.heuristics.peers
  · rw [and_iff_right hknown]
    have hevents : ∀ e ∈ handled, ∀ r ∈ e.receipt,
        r = (protocol, peer, T.messageInfo message) := by
      intro e he r hr
      have hr' : r ∈ (handled.filterMap HeuristicsEvent.receipt : Multiset (Receipt T)) :=
        Multiset.mem_coe.mpr (List.mem_filterMap.mpr ⟨e, he, hr⟩)
      rw [hreceipts] at hr'
      exact Multiset.eq_of_mem_replicate hr'
    have hlen : (handled.filterMap HeuristicsEvent.receipt).length = ids.length := by
      rw [← Multiset.coe_card, hreceipts, Multiset.card_replicate]
    have hcount := HeuristicsBackend.received_foldl s.heuristics peer protocol hknown hevents
    rw [← hheur, ← hworks.heuristics, hheur, hlen] at hcount
    constructor
    · intro h
      have hmessages := h.messages
      rw [hcount, Tally.messages_iterate_add] at hmessages
      omega
    · intro hone
      rw [hone, Function.iterate_one] at hcount
      refine ⟨by rw [hcount]; rfl, by rw [hcount]; rfl, ?_⟩
      intro hnew
      rw [hcount]
      simp [Tally.add, hnew]
  · refine iff_of_false ?_ fun h => hknown h.1
    intro h
    have hmessages := h.messages
    rw [hworks.heuristics, hheur, HeuristicsBackend.received_foldl_unknown s.heuristics peer
      protocol hknown hworks.registered] at hmessages
    omega

/-- A message of a connected peer at the only interface is counted once. -/
theorem counts_unlinked : ∃ s t u : Swarm loopback,
    Run (Step (.loading loopback)) (start ⟨[]⟩)
      [.overseer (.createInterface ⟨[127, 0, 0, 1], 0⟩ "" none),
        .overseer (.interfaceEvent (.peerConnected 0 [7] [] ⟨[7]⟩)),
        .filterCommand 0 (.ok []), .heuristics] s ∧ s.Drained ∧
    Step (.loading loopback) s
      (.overseer (.interfaceEvent (.messageReceived 0 [7] "/block-announces/1" ⟨[1]⟩))) t ∧
    Run (Step (.loading loopback)) t [.filterCommand 0 (.ok []), .perform 0, .heuristics] u ∧
    u.Drained ∧ Counts s u [7] "/block-announces/1" ⟨1, 1⟩ := by
  obtain ⟨s, t, u, hrun, hs, hi, hstep, hdrain, hu, hknown, hlinks⟩ : ∃ s t u : Swarm loopback,
      Run (Step (.loading loopback)) (start ⟨[]⟩)
        [.overseer (.createInterface ⟨[127, 0, 0, 1], 0⟩ "" none),
          .overseer (.interfaceEvent (.peerConnected 0 [7] [] ⟨[7]⟩)),
          .filterCommand 0 (.ok []), .heuristics] s ∧ s.Drained ∧
      0 ∈ s.overseer.interfaces ∧
      Step (.loading loopback) s
        (.overseer (.interfaceEvent (.messageReceived 0 [7] "/block-announces/1" ⟨[1]⟩))) t ∧
      Run (Step (.loading loopback)) t [.filterCommand 0 (.ok []), .perform 0, .heuristics] u ∧
      u.Drained ∧ [7] ∈ s.heuristics.peers ∧ s.overseer.interfaces.keys = [0] := by
    refine ⟨_, _, _, Run.foldlM_iff.mpr rfl, ⟨?_, rfl⟩, by decide, rfl, Run.foldlM_iff.mpr rfl,
      ⟨?_, rfl⟩, by decide, rfl⟩
    · rintro (_ | i) <;> exact ⟨rfl, rfl⟩
    · rintro (_ | i) <;> exact ⟨rfl, rfl⟩
  refine ⟨s, t, u, hrun, hs, hstep, hdrain, hu, ?_⟩
  refine (counts_iff _ _ _ hrun hs hi [7] "/block-announces/1" ⟨[1]⟩ hstep _ ?_ hdrain hu).mpr
    ⟨hknown, ?_⟩
  · simp [Action.Internal]
  · rintro j ⟨_, m, _, hj, _⟩
    have hmem : j ∈ s.overseer.interfaces := Overseer.index?_isSome_iff.mp (by simp [hj])
    change j ∈ s.overseer.interfaces.keys at hmem
    rwa [hlinks, List.mem_singleton] at hmem

/-- With a second interface linked to the first, the message is counted twice and its bytes are
redundant. -/
theorem not_counts_linked : ∃ s t u : Swarm loopback,
    Run (Step (.loading loopback)) (start ⟨[]⟩)
      [.overseer (.createInterface ⟨[127, 0, 0, 1], 0⟩ "" none),
        .overseer (.createInterface ⟨[127, 0, 0, 1], 0⟩ "" none),
        .overseer (.linkInterfaces 0 1), .heuristics,
        .overseer (.interfaceEvent (.peerConnected 0 [7] [] ⟨[7]⟩)),
        .filterCommand 0 (.ok []), .heuristics] s ∧ s.Drained ∧
    Step (.loading loopback) s
      (.overseer (.interfaceEvent (.messageReceived 0 [7] "/block-announces/1" ⟨[1]⟩))) t ∧
    Run (Step (.loading loopback)) t
      [.filterCommand 0 (.ok []), .perform 0, .filterCommand 1 (.ok []), .perform 1,
        .heuristics, .heuristics] u ∧ u.Drained ∧
    ¬ Counts s u [7] "/block-announces/1" ⟨1, 1⟩ := by
  refine ⟨_, _, _, Run.foldlM_iff.mpr rfl, ⟨?_, rfl⟩, rfl, Run.foldlM_iff.mpr rfl, ⟨?_, rfl⟩, ?_⟩
  · rintro (_ | _ | i) <;> exact ⟨rfl, rfl⟩
  · rintro (_ | _ | i) <;> exact ⟨rfl, rfl⟩
  · intro h
    exact absurd h.messages (by decide +kernel)

end Swarm

end SwarmHost
