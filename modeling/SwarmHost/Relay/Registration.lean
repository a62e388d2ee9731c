import SwarmHost.Filter.Protocols
import SwarmHost.Heuristics.Reference
import SwarmHost.Relay.Basic

/-! # Registrations and messages in the channel of the heuristics backend

The overseer sends the registration of a peer to the filter and then to the heuristics
backend. In between the filter may register the peer and forward notifications to it, and
their reports reach the heuristics backend before the registration.
-/

namespace SwarmHost

variable {T : NetworkBackend}

namespace HeuristicsEvent

def peers : HeuristicsEvent T → List T.PeerId
  | .messageReceived _ _ peer _ => [peer]
  | .messageSent _ _ peers _ => peers
  | _ => []

def registers (i : T.InterfaceId) (p : T.PeerId) : HeuristicsEvent T → Bool
  | .registerPeer j q => j = i ∧ q = p
  | _ => false

theorem registers_iff {i : T.InterfaceId} {p : T.PeerId} {e : HeuristicsEvent T} :
    e.registers i p = true ↔ e = .registerPeer i p := by
  cases e <;> simp [registers]

end HeuristicsEvent

def FilterCommand.registers (p : T.PeerId) : FilterCommand T → Bool
  | .registerPeer q _ => q = p
  | _ => false

def Call.sender : Call T → Option (T.InterfaceId × T.PeerId)
  | .interfaceEvent (.messageReceived i peer _ _) => some (i, peer)
  | .interfaceEvent (.requestReceived i peer _ _) => some (i, peer)
  | .interfaceEvent (.responseReceived i peer _ _ _) => some (i, peer)
  | _ => none

namespace Overseer

variable {s : Overseer T} {order : List T.InterfaceId} {call : Call T} {i : T.InterfaceId}
  {p : T.PeerId}

/-- Each registration is sent to the filter and to the heuristics backend. -/
theorem countP_sends (s : Overseer T) (order : List T.InterfaceId) (call : Call T)
    (i : T.InterfaceId) (p : T.PeerId) :
    (commandsTo i (s.sends order call)).countP (·.registers p) =
      (eventsOf (s.sends order call)).countP (·.registers i p) := by
  by_cases hcall : ∃ j peer protocols sink,
      call = .interfaceEvent (.peerConnected j peer protocols sink)
  · obtain ⟨j, peer, protocols, sink, rfl⟩ := hcall
    simp only [sends, eventSends]
    split
    · by_cases hj : j = i
      · simp [commandsTo_command, hj, FilterCommand.registers, HeuristicsEvent.registers]
      · simp [commandsTo_command, hj, HeuristicsEvent.registers]
    · rfl
  · have hcommands : (commandsTo i (s.sends order call)).countP (·.registers p) = 0 := by
      rw [List.countP_eq_zero]
      intro c hc
      cases sends_of_mem (mem_commandsTo.mp hc) with
      | register => exact absurd ⟨_, _, _, _, rfl⟩ hcall
      | _ => simp [FilterCommand.registers]
    have hevents : (eventsOf (s.sends order call)).countP (·.registers i p) = 0 := by
      rw [List.countP_eq_zero]
      intro e he
      cases sends_of_mem (mem_eventsOf.mp he) with
      | registered => exact absurd ⟨_, _, _, _, rfl⟩ hcall
      | _ => simp [HeuristicsEvent.registers]
    rw [hcommands, hevents]

theorem peers_of_mem_sends {e : HeuristicsEvent T} (h : .report e ∈ s.sends order call) :
    e.peers = [] := by
  cases sends_of_mem h <;> rfl

theorem sender_of_mem_sends {c : FilterCommand T} {r : Receipt T}
    (h : .command i c ∈ s.sends order call) (hr : c.receipt = some r) :
    ∃ j, call.sender = some (j, r.2.1) := by
  cases sends_of_mem h with
  | notification | request | response =>
    obtain rfl := Option.some.inj hr
    exact ⟨_, rfl⟩
  | _ => cases hr

end Overseer

theorem exists_registers_of_outcome {p : T.PeerId} {commands : List (FilterCommand T)}
    (h : (outcome p commands).isSome) : 1 ≤ commands.countP (·.registers p) := by
  induction commands using List.reverseRecOn with
  | nil => cases h
  | append_singleton commands c ih =>
    rw [List.countP_append]
    rw [outcome_concat] at h
    split at h
    · next habout =>
      cases c with
      | registerPeer q sink =>
        obtain rfl := Option.some.inj habout
        simp [FilterCommand.registers]
      | _ => cases h
    · have := ih h
      omega

namespace Filter

variable {f : Filter T} {turn : Turn T} {effect : FilterEffect T} {e : HeuristicsEvent T}

theorem report_of_mem_effects (h : effect ∈ f.effects turn) (he : effect.report = some e) :
    (∃ c r, turn.input.command? = some c ∧ c.receipt = some r ∧
      e = .messageReceived f.interface r.1 r.2.1 r.2.2) ∨
    ∃ i protocol p info, e = .messageSent i protocol [p] info ∧ turn.Forwards p ∧
      p ∈ (f.next turn).peers := by
  obtain ⟨rest, heq, hsends⟩ := effects_eq f turn
  rw [heq] at h
  rcases List.mem_append.mp h with h | h
  · obtain ⟨e', hcounted, rfl⟩ := Option.map_eq_some_iff.mp (Option.mem_toList.mp h)
    obtain rfl := Option.some.inj he
    cases hinput : turn.input with
    | poll =>
      rw [hinput] at hcounted
      cases hcounted
    | command c =>
      rw [hinput] at hcounted
      obtain ⟨r, hr, rfl⟩ := Option.map_eq_some_iff.mp hcounted
      exact .inl ⟨c, r, rfl, hr, rfl⟩
  · obtain ⟨i, protocol, p, info, rfl, hforwards, hp⟩ := hsends effect h e he
    exact .inr ⟨i, protocol, p, info, rfl, hforwards, mem_prepared_iff.mp hp⟩

end Filter

namespace Relay

def connections (s : Relay T) (i : T.InterfaceId) (p : T.PeerId) : ℕ :=
  (s.done i).countP (·.registers p)

/-- The number of registrations of the peer at the interface that were sent to the heuristics
backend. -/
def announcements (s : Relay T) (i : T.InterfaceId) (p : T.PeerId) : ℕ :=
  s.reports.countP (·.registers i p)

/-- The heuristics backend takes a message of a peer after a registration of the peer. When a
message of a peer is handed to the overseer, and when a filter reports that it sent one, the
registration of the connection in question is in the channel. -/
def Counts (s : Relay T) : Action T → Prop
  | .heuristics => ∀ e ∈ s.reports[s.handled]?, ∀ p ∈ e.peers, p ∈ s.heuristics.peers
  | .perform i => ∀ effect ∈ (s.outbox i).head?, ∀ j protocol p info,
    effect.report = some (.messageSent j protocol [p] info) →
      s.connections i p ≤ s.announcements i p
  | .oversee call _ => ∀ i p, call.sender = some (i, p) →
    1 ≤ s.announcements i p ∧ (s.overseer.queue i).countP (·.registers p) ≤ s.announcements i p
  | _ => True

/-- Messages come from connected peers, and while the registration of a peer is not yet in the
channel of the heuristics backend, the filter forwards nothing to the peer. -/
structure Orderly (s : Relay T) (action : Action T) : Prop where
  messages : ∀ call order i p, action = .oversee call order → call.sender = some (i, p) →
    s.overseer.Connected i p
  turns : ∀ i turn p, s.turn? action = some (i, turn) → .report (.registerPeer i p) ∈ s.sends →
    ¬ turn.Forwards p

variable {room : ℕ} {E : Executor T} {s s' : Relay T} {action : Action T} {i : T.InterfaceId}
  {p : T.PeerId}

section Registrations

/-- The registrations that the filters, the heuristics backend and the overseer know of. -/
structure Registered (s : Relay T) : Prop where
  wired : s.Wired
  enrolled : s.overseer.Enrolled
  both : ∀ i p, (s.overseer.queue i).countP (·.registers p) =
    s.announcements i p + (eventsOf s.sends).countP (·.registers i p)
  filters : ∀ i, ∀ p ∈ (s.filters i).peers, 1 ≤ s.connections i p
  outbox : ∀ i, ∀ effect ∈ s.outbox i, effect.registered = none
  sends : ∀ e, .report e ∈ s.sends → e.peers = []

theorem registered_start (parameters : T.NetworkParameters) :
    Registered (start parameters : Relay T) where
  wired := wired_start parameters
  enrolled := Overseer.enrolled_new parameters
  both _ _ := rfl
  filters i p hp := by simp [start, Filter.new] at hp
  outbox i effect h := by cases h
  sends e h := by cases h

theorem Registered.connections_le (hs : s.Registered) (i : T.InterfaceId) (p : T.PeerId) :
    s.connections i p ≤ (s.overseer.queue i).countP (·.registers p) :=
  (hs.wired.done_sublist i).countP_le

theorem Registered.countP_queue (hs : s.Registered)
    (h : .report (.registerPeer i p) ∉ s.sends) :
    (s.overseer.queue i).countP (·.registers p) = s.announcements i p := by
  have hnone : (eventsOf s.sends).countP (·.registers i p) = 0 := by
    rw [List.countP_eq_zero]
    intro e he hreg
    rw [HeuristicsEvent.registers_iff] at hreg
    subst hreg
    exact h (mem_eventsOf.mp he)
  rw [hs.both, hnone, Nat.add_zero]

theorem countP_report {effect : FilterEffect T} (h : effect.registered = none)
    (i : T.InterfaceId) (p : T.PeerId) : effect.report.toList.countP (·.registers i p) = 0 := by
  rw [List.countP_eq_zero]
  intro e he hreg
  rw [HeuristicsEvent.registers_iff] at hreg
  subst hreg
  rw [FilterEffect.registered, Option.mem_toList.mp he] at h
  cases h

theorem Moves.both (h : Moves room E s action s') (hs : s.Registered) (i : T.InterfaceId)
    (p : T.PeerId) : (s'.overseer.queue i).countP (·.registers p) =
      s'.announcements i p + (eventsOf s'.sends).countP (·.registers i p) := by
  have hold := hs.both i p
  cases h with
  | @oversee call order result overseer hidle horder hcall =>
    rw [hidle, eventsOf_nil, List.countP_nil, Nat.add_zero] at hold
    rw [(Overseer.emits_handle horder hcall).queue, List.countP_append, hold,
      Overseer.countP_sends]
    rfl
  | command hsends =>
    rw [hsends, eventsOf_command] at hold
    exact hold
  | report hsends =>
    rw [hsends, eventsOf_report, List.countP_cons] at hold
    simp only [announcements, List.countP_append, List.countP_singleton] at hold ⊢
    omega
  | perform hout =>
    have hnone := countP_report (hs.outbox _ _ (hout ▸ List.mem_cons_self)) i p
    simp only [announcements, List.countP_append, hnone] at hold ⊢
    exact hold
  | take | poll | handle => exact hold

theorem Moves.registered (h : Moves room E s action s') (hs : s.Registered) : s'.Registered where
  wired := h.wired hs.wired
  enrolled := h.enrolled hs.enrolled
  both := h.both hs
  filters i p hp := by
    cases h.local hs.wired i with
    | rest hdone hfilter hout =>
      rw [hfilter] at hp
      rw [connections, hdone]
      exact hs.filters i p hp
    | @turn turn hturn hdone hfilter hout =>
      rw [hfilter] at hp
      rw [connections, hdone, List.countP_append]
      rcases Filter.mem_of_mem_next hp with hp | ⟨sink, hinput⟩
      · exact Nat.le_add_right_of_le (hs.filters i p hp)
      · simp [hinput, FilterInput.command?, FilterCommand.registers]
  outbox i effect heffect := by
    cases h.local hs.wired i with
    | rest hdone hfilter hout => exact hs.outbox i effect (hout heffect)
    | turn hturn hdone hfilter hout =>
      rw [hout] at heffect
      exact Filter.registered_effects _ _ effect heffect
  sends e he := by
    cases h with
    | oversee => exact Overseer.peers_of_mem_sends he
    | command hsends | report hsends => exact hs.sends e (hsends ▸ List.mem_cons_of_mem _ he)
    | _ => exact hs.sends e he

end Registrations

section Announced

def Announced (s : Relay T) (p : T.PeerId) : Prop := ∃ i, .registerPeer i p ∈ s.reports

theorem announced_of_announcements (h : 1 ≤ s.announcements i p) : s.Announced p := by
  obtain ⟨e, he, hreg⟩ := List.countP_pos_iff.mp h
  rw [HeuristicsEvent.registers_iff] at hreg
  exact ⟨i, hreg ▸ he⟩

theorem Moves.announced (h : Moves room E s action s') (hp : s.Announced p) : s'.Announced p := by
  obtain ⟨i, hi⟩ := hp
  exact ⟨i, h.reports.subset hi⟩

theorem Moves.announcements_le (h : Moves room E s action s') (i : T.InterfaceId)
    (p : T.PeerId) : s.announcements i p ≤ s'.announcements i p :=
  h.reports.sublist.countP_le

/-- Every message is reported after a registration of its peer. -/
def Sorted (reports : List (HeuristicsEvent T)) : Prop :=
  ∀ k e, reports[k]? = some e → ∀ p ∈ e.peers, ∃ i, .registerPeer i p ∈ reports.take k

theorem Sorted.append {reports new : List (HeuristicsEvent T)} (h : Sorted reports)
    (hnew : ∀ e ∈ new, ∀ p ∈ e.peers, ∃ i, .registerPeer i p ∈ reports) :
    Sorted (reports ++ new) := by
  intro k e he p hp
  by_cases hk : k < reports.length
  · rw [List.getElem?_append_left hk] at he
    rw [List.take_append_of_le_length hk.le]
    exact h k e he p hp
  · rw [List.getElem?_append_right (Nat.le_of_not_lt hk)] at he
    obtain ⟨i, hi⟩ := hnew e (List.mem_of_getElem? he) p hp
    refine ⟨i, ?_⟩
    rw [List.take_append]
    exact List.mem_append_left _ (by rwa [List.take_of_length_le (Nat.le_of_not_lt hk)])

/-- The messages that are under way or in the channel come after the registrations. -/
structure Traced (s : Relay T) : Prop extends Registered s where
  messages : ∀ i, ∀ c ∈ s.overseer.queue i, ∀ r ∈ c.receipt, s.Announced r.2.1
  counted : ∀ i, ∀ effect ∈ s.outbox i, ∀ e ∈ effect.report, ∀ p ∈ e.peers, s.Announced p
  sent : ∀ i, ∀ effect ∈ s.outbox i, ∀ j protocol p info,
    effect.report = some (.messageSent j protocol [p] info) →
      s.connections i p ≤ s.announcements i p
  reports : Sorted s.reports

theorem traced_start (parameters : T.NetworkParameters) :
    Traced (start parameters : Relay T) where
  toRegistered := registered_start parameters
  messages i c hc := by cases hc
  counted i effect h := by cases h
  sent i effect h := by cases h
  reports k e he := by cases he

theorem Registered.announcements_pos (hs : s.Registered) (hidle : s.sends = [])
    (hp : s.overseer.Connected i p) : 1 ≤ s.announcements i p := by
  rw [← hs.countP_queue (by simp [hidle])]
  exact exists_registers_of_outcome ((hs.enrolled i p).mp hp)

theorem Moves.sends_of_turn (h : Moves room E s action s') {turn : Filter.Turn T}
    (hturn : s.turn? action = some (i, turn)) : s'.sends = s.sends := by
  cases h with
  | take | poll => rfl
  | _ => cases hturn

theorem Moves.announcements_of_turn (h : Moves room E s action s') (ha : s.Orderly action)
    (hs : s.Registered) {turn : Filter.Turn T} (hturn : s.turn? action = some (i, turn))
    (hforwards : turn.Forwards p) : s'.connections i p ≤ s'.announcements i p := by
  have hs' := h.registered hs
  have hnot : .report (.registerPeer i p) ∉ s'.sends := by
    rw [h.sends_of_turn hturn]
    exact fun hmem => ha.turns i turn p hturn hmem hforwards
  rw [← hs'.countP_queue hnot]
  exact hs'.connections_le i p

theorem Moves.traced (h : Moves room E s action s') (ha : s.Orderly action) (hs : s.Traced) :
    s'.Traced where
  toRegistered := h.registered hs.toRegistered
  messages i c hc r hr := by
    apply h.announced
    cases h with
    | @oversee call order result overseer hidle horder hcall =>
      rw [(Overseer.emits_handle horder hcall).queue] at hc
      rcases List.mem_append.mp hc with hc | hc
      · exact hs.messages i c hc r hr
      · obtain ⟨j, hsender⟩ := Overseer.sender_of_mem_sends (mem_commandsTo.mp hc) hr
        have hconnected := ha.messages call order j r.2.1 rfl hsender
        exact announced_of_announcements (hs.announcements_pos hidle hconnected)
    | _ => exact hs.messages i c hc r hr
  counted i effect heffect e he p hp := by
    cases h.local hs.wired i with
    | rest hdone hfilter hout => exact h.announced (hs.counted i effect (hout heffect) e he p hp)
    | @turn turn hturn hdone hfilter hout =>
      rw [hout] at heffect
      rcases Filter.report_of_mem_effects heffect he with
        ⟨c, r, hc, hr, rfl⟩ | ⟨j, protocol, q, info, rfl, hforwards, hq⟩
      · obtain rfl := List.mem_singleton.mp hp
        exact h.announced (hs.messages i c (hs.wired.mem_queue hturn hc) r hr)
      · obtain rfl := List.mem_singleton.mp hp
        rw [← hfilter] at hq
        have hpos := (h.registered hs.toRegistered).filters i p hq
        have hle := h.announcements_of_turn ha hs.toRegistered hturn hforwards
        exact announced_of_announcements (hpos.trans hle)
  sent i effect heffect j protocol p info he := by
    cases h.local hs.wired i with
    | rest hdone hfilter hout =>
      rw [connections, hdone]
      exact (hs.sent i effect (hout heffect) j protocol p info he).trans (h.announcements_le i p)
    | @turn turn hturn hdone hfilter hout =>
      rw [hout] at heffect
      rcases Filter.report_of_mem_effects heffect he with
        ⟨c, r, hc, hr, heq⟩ | ⟨j', protocol', q, info', heq, hforwards, hq⟩
      · cases heq
      · cases heq
        exact h.announcements_of_turn ha hs.toRegistered hturn hforwards
  reports := by
    cases h with
    | report hsends =>
      refine hs.reports.append ?_
      intro e he p hp
      rw [List.mem_singleton.mp he, hs.sends _ (hsends ▸ List.mem_cons_self)] at hp
      cases hp
    | @perform j effect effects hout =>
      refine hs.reports.append ?_
      intro e he p hp
      exact hs.counted j effect (hout ▸ List.mem_cons_self) e (Option.mem_toList.mp he) p hp
    | _ => exact hs.reports

end Announced

theorem Traced.counts (hs : s.Traced) (ha : s.Orderly action) (h : Step room E s action s') :
    s.Counts action := by
  cases h.moves with
  | @oversee call order result overseer hidle horder hcall =>
    intro i p hsender
    refine ⟨hs.announcements_pos hidle (ha.messages call order i p rfl hsender), ?_⟩
    exact (hs.countP_queue (by simp [hidle])).le
  | @perform j effect effects hout =>
    intro effect' heffect
    exact hs.sent j effect' (List.mem_of_mem_head? heffect)
  | handle hlt =>
    intro e he p hp
    obtain ⟨i, hi⟩ := hs.reports s.handled e he p hp
    exact (HeuristicsBackend.mem_foldl_iff_exists _).mpr ⟨i, hi⟩
  | command | report | take | poll => trivial

/-- Every message that the heuristics backend takes is counted, and taken after the registration of
its connection, in every run in which the filters wait for the registrations and messages come
from connected peers. -/
theorem counts_along (room : ℕ) (E : Executor T) (parameters : T.NetworkParameters)
    (actions : List (Action T))
    (h : Along (Step room E) (fun s action _ => s.Orderly action) (start parameters) actions) :
    Along (Step room E) (fun s action _ => s.Counts action) (start parameters) actions :=
  (always_and_along_of (I := Traced)
    (fun _ _ _ hstep ha hs => ⟨hstep.moves.traced ha hs, hs.counts ha hstep⟩)
    (traced_start parameters) h).2

section Example

/-- The executor answers the registration of a peer with a notification for it. -/
def greeting : ExecutorAnswer loopback := .ok [.forward [[7]] "/block-announces/1" ⟨[1]⟩]

/-- A peer connects, and the filter takes its registration after the heuristics backend was sent
it. -/
def announcedFirst : List (Action loopback) :=
  [.oversee (.createInterface ⟨[127, 0, 0, 1], 0⟩ "" none) [],
    .oversee (.interfaceEvent (.peerConnected 0 [7] [] ⟨[7]⟩)) [0], .send, .send,
    .filterCommand 0 greeting, .perform 0, .perform 0, .heuristics, .heuristics]

theorem counts_announcedFirst :
    (∃ s : Relay loopback,
      Run (Step 1 (.loading loopback)) (start ⟨[]⟩) announcedFirst s ∧ s.handled = 2) ∧
    Along (Step 1 (.loading loopback)) (fun s action _ => s.Counts action) (start ⟨[]⟩)
      announcedFirst := by
  have hrest : ∀ (s : Relay loopback) (action : Action loopback), s.turn? action = none →
      (∀ call order, action = .oversee call order → call.sender = none) → s.Orderly action := by
    intro s action hturn hcall
    refine ⟨fun call order i p haction hsender => ?_, fun i turn p hturn' => ?_⟩
    · rw [hcall call order haction] at hsender
      cases hsender
    · rw [hturn] at hturn'
      cases hturn'
  refine ⟨⟨_, Run.foldlM_iff.mpr rfl, rfl⟩, counts_along _ _ _ _ ?_⟩
  refine along_cons_iff.mpr fun t ht => ⟨hrest _ _ rfl (by rintro _ _ ⟨⟩; rfl), ?_⟩
  obtain rfl := Option.some.inj ht
  refine along_cons_iff.mpr fun t ht => ⟨hrest _ _ rfl (by rintro _ _ ⟨⟩; rfl), ?_⟩
  obtain rfl := Option.some.inj ht
  refine along_cons_iff.mpr fun t ht => ⟨hrest _ _ rfl (by rintro _ _ ⟨⟩), ?_⟩
  obtain rfl := Option.some.inj ht
  refine along_cons_iff.mpr fun t ht => ⟨hrest _ _ rfl (by rintro _ _ ⟨⟩), ?_⟩
  obtain rfl := Option.some.inj ht
  refine along_cons_iff.mpr fun t ht => ⟨⟨by rintro _ _ _ _ ⟨⟩, ?_⟩, ?_⟩
  · intro i turn p _ hmem
    cases hmem
  · apply along_of_mem
    intro action haction s s' _
    simp only [List.mem_cons, List.not_mem_nil, or_false] at haction
    rcases haction with rfl | rfl | rfl | rfl
    all_goals exact hrest _ _ rfl (by rintro _ _ ⟨⟩)

/-- The filter is faster than the overseer: its report is taken while the peer is unknown. -/
theorem not_counts_greeting : ∃ s s' : Relay loopback,
    Run (Step 1 (.loading loopback)) (start ⟨[]⟩)
      [.oversee (.createInterface ⟨[127, 0, 0, 1], 0⟩ "" none) [],
        .oversee (.interfaceEvent (.peerConnected 0 [7] [] ⟨[7]⟩)) [0], .send,
        .filterCommand 0 greeting, .perform 0, .perform 0] s ∧
      Step 1 (.loading loopback) s .heuristics s' ∧ ¬ s.Counts .heuristics := by
  refine ⟨_, _, Run.foldlM_iff.mpr rfl, rfl, ?_⟩
  intro h
  have hp := h _ rfl [7] List.mem_cons_self
  revert hp
  decide

end Example

end Relay

end SwarmHost
