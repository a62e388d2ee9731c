import SwarmHost.Notifications.Dialogue
import SwarmHost.Runs.Fair

/-! # The answers of a handler

For one protocol only the outbound substream matters: whether it is open, being
opened for a command, or still on its way although nobody wants it. A handler
that is told to open a protocol only when it may be, and whose substreams are
negotiated or fail once each, answers every command once and in order and asks for
one substream at a time.
-/

namespace SwarmHost.Substrate

/-- Where the outbound substream of a protocol is. -/
inductive Stage where
  | idle (pendingOpening : Bool)
  | opening
  | opened
  deriving DecidableEq

/-- What an input means for the outbound substream of a protocol. -/
inductive Deed where
  | order (o : Order)
  | negotiated
  | failed
  | nothing
  deriving DecidableEq

/-- The command among the inputs of the protocol. -/
def Deed.orders : Deed → List Order
  | .order o => [o]
  | _ => []

def Deed.ends : Deed → Bool
  | .negotiated | .failed => true
  | _ => false

namespace Stage

/-- The stage after the deed, the commands that are answered, and the number of substreams that are
asked for. -/
def act : Stage → Deed → Stage × List Order × ℕ
  | .idle pendingOpening, .order .open => (.opening, [], if pendingOpening then 0 else 1)
  | .idle pendingOpening, .order .close => (.idle pendingOpening, [.close], 0)
  | .opening, .order .close => (.idle true, [.open, .close], 0)
  | .opened, .order .close => (.idle false, [.close], 0)
  | .idle _, .negotiated | .idle _, .failed => (.idle false, [], 0)
  | .opening, .negotiated => (.opened, [.open], 0)
  | .opening, .failed => (.idle false, [.open], 0)
  | stage, _ => (stage, [], 0)

/-- The command that is not answered yet. -/
def unanswered : Stage → List Order
  | .opening => [.open]
  | _ => []

/-- The number of substreams on their way. -/
def inFlight : Stage → ℕ
  | .idle true | .opening => 1
  | _ => 0

def mismatch : Stage → Deed → Bool
  | .idle pendingOpening, .negotiated | .idle pendingOpening, .failed => !pendingOpening
  | .opened, .negotiated | .opened, .failed => true
  | .opening, .order .open | .opened, .order .open => true
  | _, _ => false

variable {stage : Stage} {deed : Deed}

theorem act_answers (h : stage.mismatch deed = false) :
    stage.unanswered ++ deed.orders = (stage.act deed).2.1 ++ (stage.act deed).1.unanswered := by
  rcases stage with _ | _ | _ <;> rcases deed with ⟨_ | _⟩ | _ | _ | _ <;>
    first | rfl | cases h

/-- A deed that fits keeps account of the substreams on their way. -/
theorem act_requests (h : stage.mismatch deed = false) :
    stage.inFlight + (stage.act deed).2.2 = deed.ends.toNat + (stage.act deed).1.inFlight := by
  rcases stage with ⟨_ | _⟩ | _ | _ <;> rcases deed with ⟨_ | _⟩ | _ | _ | _ <;>
    first | rfl | cases h

theorem unanswered_of_ends (stage : Stage) (h : deed.ends = true) :
    (stage.act deed).1.unanswered = [] := by
  rcases stage with _ | _ | _ <;> rcases deed with _ | _ | _ | _ <;> first | rfl | cases h

end Stage

def HandlerState.stage : HandlerState → Stage
  | .closed pendingOpening | .openDesiredByRemote _ pendingOpening => .idle pendingOpening
  | .opening _ => .opening
  | .opened .. => .opened

def HandlerState.mismatch (i : ℕ) (state : HandlerState) : HandlerInput → Bool
  | .outbound j _ _ | .dialUpgradeError j => j = i && match state with
    | .closed pendingOpening | .openDesiredByRemote _ pendingOpening => !pendingOpening
    | .opened .. => true
    | .opening _ => false
  | .command _ (.open j) => j = i && match state with
    | .opening _ | .opened .. => true
    | .closed _ | .openDesiredByRemote .. => false
  | _ => false

def HandlerInput.deed (i : ℕ) : HandlerInput → Deed
  | .command _ c => if c.index = i then .order c.order else .nothing
  | .outbound j _ _ => if j = i then .negotiated else .nothing
  | .dialUpgradeError j => if j = i then .failed else .nothing
  | .inbound .. | .sinkMessage .. | .poll _ => .nothing

theorem HandlerState.mismatch_eq (i : ℕ) (state : HandlerState) (input : HandlerInput) :
    state.mismatch i input = state.stage.mismatch (input.deed i) := by
  have hnothing : state.stage.mismatch .nothing = false := by
    cases state <;> rfl
  cases input with
  | command handshake command =>
    cases command with
    | «open» j | close j =>
      by_cases hj : j = i <;> cases state <;> simp [mismatch, HandlerInput.deed,
        NotifsHandlerIn.index, NotifsHandlerIn.order, hj, stage, Stage.mismatch]
  | outbound j fallback handshake | dialUpgradeError j =>
    by_cases hj : j = i <;> cases state <;>
      simp [mismatch, HandlerInput.deed, hj, stage, Stage.mismatch]
  | _ => exact hnothing.symm

namespace ConnectionHandlerEvent

def answer? (i : ℕ) : ConnectionHandlerEvent → Option Order
  | .custom (.openResultOk j ..) | .custom (.openResultErr j) => if j = i then some .open else none
  | .custom (.closeResult j) => if j = i then some .close else none
  | _ => none

def asks (i : ℕ) : ConnectionHandlerEvent → Bool
  | .outboundSubstreamRequest j _ => j = i
  | _ => false

variable {i : ℕ} {event : ConnectionHandlerEvent}

theorem answer?_of_index?_ne (h : event.index? ≠ some i) : event.answer? i = none := by
  cases event with
  | custom event => cases event <;> simp_all [answer?, index?, NotifsHandlerOut.index]
  | _ => rfl

theorem asks_of_index?_ne (h : event.index? ≠ some i) : event.asks i = false := by
  cases event <;> simp_all [asks, index?]

end ConnectionHandlerEvent

namespace HandlerState

open ConnectionHandlerEvent

variable {io : ℕ → Io} {i : ℕ} {state state' : HandlerState}
  {event : Option ConnectionHandlerEvent}

theorem Same.stage (h : Same state state') : state'.stage = state.stage := by
  cases h <;> rfl

theorem Polled.stage (h : Polled io i state event state') : state'.stage = state.stage ∧
    event.toList.filterMap (answer? i) = [] ∧ event.toList.countP (asks i) = 0 := by
  cases h with
  | same hsame hnot =>
    cases event with
    | none => exact ⟨hsame.stage, rfl, rfl⟩
    | some e =>
      have hindex := hnot e rfl
      simp [hsame.stage, answer?_of_index?_ne hindex, asks_of_index?_ne hindex]
  | _ => exact ⟨rfl, rfl, rfl⟩

end HandlerState

namespace NotifsHandler

open HandlerState ConnectionHandlerEvent

variable {h h' : NotifsHandler} {i : ℕ} {state : HandlerState}

/-- The handler does to one protocol what the deed says, and emits the events for it. -/
def Follows (i : ℕ) (h : NotifsHandler) (state : HandlerState) (deed : Deed)
    (events : List ConnectionHandlerEvent) (h' : NotifsHandler) : Prop :=
  ∃ state' new, h'.protocols[i]? = some state' ∧ events ++ h'.eventsQueue = h.eventsQueue ++ new ∧
    state.stage.act deed =
      (state'.stage, new.filterMap (answer? i), new.countP (asks i))

theorem Ignores.follows (hl : Ignores i h h') (hi : h.protocols[i]? = some state) :
    Follows i h state .nothing [] h' := by
  obtain ⟨hstate, new, hqueue, hnew⟩ := hl
  have hanswers : new.filterMap (answer? i) = [] :=
    List.filterMap_eq_nil_iff.mpr fun e he => answer?_of_index?_ne (hnew e he)
  have hrequests : new.countP (asks i) = 0 :=
    List.countP_eq_zero.mpr fun e he => by simp [asks_of_index?_ne (hnew e he)]
  refine ⟨state, new, hstate.trans hi, hqueue, ?_⟩
  rw [hanswers, hrequests]
  cases hstage : state.stage <;> rfl

theorem follows_of_push {deed : Deed} {state' : HandlerState} (new : List ConnectionHandlerEvent)
    (hi : h.protocols[i]? = some state) (hstate : h'.protocols = h.protocols.set i state')
    (hqueue : h'.eventsQueue = h.eventsQueue ++ new)
    (hact : state.stage.act deed =
      (state'.stage, new.filterMap (answer? i), new.countP (asks i))) :
    Follows i h state deed [] h' := by
  refine ⟨state', new, ?_, hqueue, hact⟩
  rw [hstate]
  exact List.getElem?_set_self (lt_of_state hi)

theorem follows_requestSubstream {pendingOpening : Bool} {state' : HandlerState} (message : Bytes)
    (hi : h.protocols[i]? = some state) (hstage : state.stage = .idle pendingOpening)
    (hstage' : state'.stage = .opening) : Follows i h state (.order .open) []
      ((h.requestSubstream i pendingOpening message).setState i state') := by
  have hstate : ((h.requestSubstream i pendingOpening message).setState i state').protocols =
      h.protocols.set i state' := by
    rw [setState, protocols_requestSubstream]
  cases pendingOpening with
  | false =>
    exact follows_of_push [.outboundSubstreamRequest i message] hi hstate rfl
      (by simp [hstage, hstage', Stage.act, answer?, asks])
  | true =>
    exact follows_of_push [] hi hstate (List.append_nil _).symm
      (by simp [hstage, hstage', Stage.act])

theorem follows_open (handshake : Bytes) (hi : h.protocols[i]? = some state) :
    Follows i h state (.order .open) [] (h.onBehaviourEvent handshake (.open i)) := by
  simp only [onBehaviourEvent, hi]
  cases state with
  | closed pendingOpening => exact follows_requestSubstream handshake hi rfl rfl
  | openDesiredByRemote substream pendingOpening => exact follows_requestSubstream _ hi rfl rfl
  | opening | opened => exact ⟨_, [], hi, (List.append_nil _).symm, rfl⟩

theorem follows_close (handshake : Bytes) (hi : h.protocols[i]? = some state) :
    Follows i h state (.order .close) [] (h.onBehaviourEvent handshake (.close i)) := by
  simp only [onBehaviourEvent, hi]
  cases state with
  | closed pendingOpening =>
    exact ⟨_, [_], hi, rfl, by simp [stage, Stage.act, answer?, asks]⟩
  | openDesiredByRemote substream pendingOpening =>
    exact follows_of_push [_] hi rfl rfl (by simp [stage, Stage.act, answer?, asks])
  | opening inSubstream =>
    exact follows_of_push [_, _] hi rfl (List.append_assoc _ _ _)
      (by simp [stage, Stage.act, answer?, asks])
  | opened rx out inSubstream =>
    exact follows_of_push [_] hi rfl rfl (by simp [stage, Stage.act, answer?, asks])

theorem follows_onFullyNegotiatedInbound (received handshake : Bytes)
    (hi : h.protocols[i]? = some state) :
    Follows i h state .nothing [] (h.onFullyNegotiatedInbound i received handshake) := by
  simp only [onFullyNegotiatedInbound, hi]
  split
  · next heq =>
    obtain rfl := Option.some.inj heq
    exact follows_of_push [_] hi rfl rfl (by simp [stage, Stage.act, answer?, asks])
  · next heq =>
    obtain rfl := Option.some.inj heq
    exact follows_of_push [] hi rfl (List.append_nil _).symm rfl
  · next heq =>
    obtain rfl := Option.some.inj heq
    exact follows_of_push [] hi rfl (List.append_nil _).symm rfl
  all_goals exact (Ignores.refl h).follows hi

theorem follows_onFullyNegotiatedOutbound (fallback : Option ProtocolName) (handshake : Bytes)
    (hi : h.protocols[i]? = some state) :
    Follows i h state .negotiated [] (h.onFullyNegotiatedOutbound i fallback handshake) := by
  simp only [onFullyNegotiatedOutbound, hi]
  cases state with
  | closed | openDesiredByRemote => exact follows_of_push [] hi rfl (List.append_nil _).symm rfl
  | opening inSubstream =>
    exact follows_of_push [_] hi rfl rfl (by simp [stage, Stage.act, answer?, asks])
  | opened rx out inSubstream => exact ⟨_, [], hi, (List.append_nil _).symm, rfl⟩

theorem follows_onDialUpgradeError (hi : h.protocols[i]? = some state) :
    Follows i h state .failed [] (h.onDialUpgradeError i) := by
  simp only [onDialUpgradeError, hi]
  cases state with
  | closed | openDesiredByRemote => exact follows_of_push [] hi rfl (List.append_nil _).symm rfl
  | opening inSubstream =>
    exact follows_of_push [_] hi rfl rfl (by simp [stage, Stage.act, answer?, asks])
  | opened rx out inSubstream => exact ⟨_, [], hi, (List.append_nil _).symm, rfl⟩

theorem follows_onSinkMessage (message : NotificationsSinkMessage)
    (hi : h.protocols[i]? = some state) :
    Follows i h state .nothing [] (h.onSinkMessage i message) := by
  simp only [onSinkMessage, hi]
  split
  · next heq =>
    obtain rfl := Option.some.inj heq
    exact follows_of_push [] hi rfl (List.append_nil _).symm rfl
  · exact (Ignores.refl h).follows hi

theorem follows_poll (io : ℕ → Io) (hi : h.protocols[i]? = some state) :
    Follows i h state .nothing (h.poll io).1.toList (h.poll io).2 := by
  have hact : ∀ stage : Stage, stage.act .nothing = (stage, [], 0) := by
    intro stage
    cases stage <;> rfl
  cases hq : h.eventsQueue with
  | cons event queue =>
    refine ⟨state, [], ?_, ?_, hact _⟩
    · simpa [poll, hq] using hi
    · simp [poll, hq]
  | nil =>
    obtain ⟨state', hi', hpolled⟩ := poll_at io hq hi
    obtain ⟨hstage, hanswers, hrequests⟩ := hpolled.stage
    refine ⟨state', (h.poll io).1.toList, hi', ?_, ?_⟩
    · rw [poll_eventsQueue io hq, hq, List.append_nil, List.nil_append]
    · rw [hact, hstage, hanswers, hrequests]

/-- The handler is an implementation of the stages, for each of its protocols. -/
theorem follows_handle (input : HandlerInput) (hi : h.protocols[i]? = some state) :
    Follows i h state (input.deed i) (h.handle input).1.toList (h.handle input).2 := by
  cases input with
  | command handshake command =>
    cases command with
    | «open» j =>
      rcases eq_or_ne j i with rfl | hj
      · rw [HandlerInput.deed, if_pos (show (NotifsHandlerIn.open j).index = j from rfl)]
        exact follows_open handshake hi
      · rw [HandlerInput.deed, if_neg (show (NotifsHandlerIn.open j).index ≠ i from hj)]
        exact (ignores_open hj handshake).follows hi
    | close j =>
      rcases eq_or_ne j i with rfl | hj
      · rw [HandlerInput.deed, if_pos (show (NotifsHandlerIn.close j).index = j from rfl)]
        exact follows_close handshake hi
      · rw [HandlerInput.deed, if_neg (show (NotifsHandlerIn.close j).index ≠ i from hj)]
        exact (ignores_close hj handshake).follows hi
  | inbound j received handshake =>
    rcases eq_or_ne j i with rfl | hj
    · exact follows_onFullyNegotiatedInbound received handshake hi
    · exact (ignores_onFullyNegotiatedInbound hj received handshake).follows hi
  | outbound j fallback handshake =>
    rcases eq_or_ne j i with rfl | hj
    · rw [HandlerInput.deed, if_pos rfl]
      exact follows_onFullyNegotiatedOutbound fallback handshake hi
    · rw [HandlerInput.deed, if_neg hj]
      exact (ignores_onFullyNegotiatedOutbound hj fallback handshake).follows hi
  | dialUpgradeError j =>
    rcases eq_or_ne j i with rfl | hj
    · rw [HandlerInput.deed, if_pos rfl]
      exact follows_onDialUpgradeError hi
    · rw [HandlerInput.deed, if_neg hj]
      exact (ignores_onDialUpgradeError hj).follows hi
  | sinkMessage j message =>
    rcases eq_or_ne j i with rfl | hj
    · exact follows_onSinkMessage message hi
    · exact (ignores_onSinkMessage hj message).follows hi
  | poll io => exact follows_poll io hi

end NotifsHandler

/-- A handler, what was said to it about one protocol and what it returned. -/
structure Record where
  handler : NotifsHandler
  /-- The commands to the protocol. -/
  commands : List Order
  /-- What polls returned. -/
  events : List ConnectionHandlerEvent
  /-- How many substreams of the protocol were negotiated or failed. -/
  ended : ℕ

namespace Record

open ConnectionHandlerEvent

def new (peerId : PeerId) (numProtocols : ℕ) : Record where
  handler := .new peerId numProtocols
  commands := []
  events := []
  ended := 0

def next (i : ℕ) (r : Record) (input : HandlerInput) : Record where
  handler := (r.handler.handle input).2
  commands := r.commands ++ (input.deed i).orders
  events := r.events ++ (r.handler.handle input).1.toList
  ended := r.ended + (input.deed i).ends.toNat

def emitted (r : Record) : List ConnectionHandlerEvent := r.events ++ r.handler.eventsQueue

variable (i : ℕ) (r : Record)

def answers : List Order := r.emitted.filterMap (answer? i)

/-- The commands whose answers were returned. -/
def delivered : List Order := r.events.filterMap (answer? i)

def requested : ℕ := r.events.countP (asks i)

/-- How many substreams were asked for and are neither negotiated nor failed. -/
def inFlight : ℕ := r.emitted.countP (asks i) - r.ended

def IsOpen : Prop := ∃ rx out inSubstream,
  r.handler.protocols[i]? = some (.opened rx out inSubstream)

/-- A protocol is opened only if every earlier command to open it was answered and it is not open,
and a substream is negotiated or fails only if it was asked for and did not end before. -/
def Permits (input : HandlerInput) : Prop :=
  match input.deed i with
  | .order .open => r.commands.count .open ≤ (r.answers i).count .open ∧ ¬ r.IsOpen i
  | .negotiated | .failed => r.ended < r.requested i
  | .order .close | .nothing => True

def Step (i : ℕ) (r : Record) (input : HandlerInput) (r' : Record) : Prop :=
  r.Permits i input ∧ r.next i input = r'

/-- All commands but the one to open a protocol that is being opened are answered, in order; as many
substreams are on their way as the state says; no assertion fails. -/
def Orderly : Prop := ∃ state, r.handler.protocols[i]? = some state ∧
  r.commands = r.answers i ++ state.stage.unanswered ∧ r.inFlight i = state.stage.inFlight ∧
  ∀ input, r.Permits i input → state.mismatch i input = false

/-- What permitted inputs keep. -/
def Sound : Prop := ∃ state, r.handler.protocols[i]? = some state ∧
  r.commands = r.answers i ++ state.stage.unanswered ∧
  r.emitted.countP (asks i) = r.ended + state.stage.inFlight

variable {i r} {r' : Record} {input : HandlerInput}

theorem sound_new (peerId : PeerId) {n : ℕ} (hi : i < n) : (new peerId n).Sound i :=
  ⟨.closed false, by simp [new, NotifsHandler.new, hi], rfl, rfl⟩

theorem stage_ne_opened {state : HandlerState} (hstate : r.handler.protocols[i]? = some state)
    (hopen : ¬ r.IsOpen i) : state.stage ≠ .opened := by
  intro hstage
  cases state with
  | opened rx out inSubstream => exact hopen ⟨rx, out, inSubstream, hstate⟩
  | _ => cases hstage

theorem requested_le (i : ℕ) (r : Record) : r.requested i ≤ r.emitted.countP (asks i) := by
  rw [emitted, List.countP_append]
  exact Nat.le_add_right _ _

theorem mismatch_of_permits {state : HandlerState}
    (hstate : r.handler.protocols[i]? = some state)
    (hcommands : r.commands = r.answers i ++ state.stage.unanswered)
    (hrequests : r.emitted.countP (asks i) = r.ended + state.stage.inFlight)
    (hpermits : r.Permits i input) : state.stage.mismatch (input.deed i) = false := by
  have hends : r.ended < r.requested i → 0 < state.stage.inFlight := by
    intro hlt
    have hle := requested_le i r
    omega
  unfold Permits at hpermits
  split at hpermits
  · next hdeed =>
    obtain ⟨hcount, hopen⟩ := hpermits
    have hne := stage_ne_opened hstate hopen
    rw [hdeed]
    cases hstage : state.stage with
    | idle pendingOpening => rfl
    | opening =>
      rw [hcommands, List.count_append, hstage] at hcount
      have hone : Stage.opening.unanswered.count .open = 1 := rfl
      omega
    | opened => exact absurd hstage hne
  · next hdeed =>
    have hpos := hends hpermits
    rw [hdeed]
    rcases hstage : state.stage with ⟨_ | _⟩ | _ | _ <;> simp_all [Stage.mismatch, Stage.inFlight]
  · next hdeed =>
    have hpos := hends hpermits
    rw [hdeed]
    rcases hstage : state.stage with ⟨_ | _⟩ | _ | _ <;> simp_all [Stage.mismatch, Stage.inFlight]
  · next hdeed =>
    rw [hdeed]
    cases state.stage <;> rfl
  · next hdeed =>
    rw [hdeed]
    cases state.stage <;> rfl

theorem Sound.orderly (h : r.Sound i) : r.Orderly i := by
  obtain ⟨state, hstate, hcommands, hrequests⟩ := h
  refine ⟨state, hstate, hcommands, ?_, fun input hpermits => ?_⟩
  · rw [inFlight, hrequests, Nat.add_sub_cancel_left]
  · rw [HandlerState.mismatch_eq]
    exact mismatch_of_permits hstate hcommands hrequests hpermits

theorem emitted_next {new : List ConnectionHandlerEvent}
    (hqueue : (r.handler.handle input).1.toList ++ (r.handler.handle input).2.eventsQueue =
      r.handler.eventsQueue ++ new) : (r.next i input).emitted = r.emitted ++ new := by
  rw [emitted, next, List.append_assoc, hqueue, emitted, List.append_assoc]

theorem Step.sound (hstep : Step i r input r') (h : r.Sound i) : r'.Sound i := by
  obtain ⟨hpermits, rfl⟩ := hstep
  obtain ⟨state, hstate, hcommands, hrequests⟩ := h
  have hfits := mismatch_of_permits hstate hcommands hrequests hpermits
  obtain ⟨state', new, hstate', hqueue, hact⟩ := NotifsHandler.follows_handle input hstate
  have hanswers := Stage.act_answers hfits
  have hinFlight := Stage.act_requests hfits
  rw [hact] at hanswers hinFlight
  refine ⟨state', hstate', ?_, ?_⟩
  · change r.commands ++ (input.deed i).orders = _
    rw [answers, emitted_next hqueue, List.filterMap_append, hcommands, List.append_assoc, hanswers,
      ← List.append_assoc]
    rfl
  · rw [emitted_next hqueue, List.countP_append, hrequests]
    change _ = r.ended + (input.deed i).ends.toNat + _
    dsimp only at hinFlight
    omega

/-- Commands, events and what is emitted only grow. -/
def Extends (r r' : Record) : Prop :=
  r.commands <+: r'.commands ∧ r.events <+: r'.events ∧ r.emitted <+: r'.emitted

theorem Extends.refl (r : Record) : Extends r r :=
  ⟨List.prefix_rfl, List.prefix_rfl, List.prefix_rfl⟩

theorem Extends.trans {r'' : Record} (h : Extends r r') (h' : Extends r' r'') : Extends r r'' :=
  ⟨h.1.trans h'.1, h.2.1.trans h'.2.1, h.2.2.trans h'.2.2⟩

theorem Step.extends (hstep : Step i r input r') (h : r.Sound i) : Extends r r' := by
  obtain ⟨-, rfl⟩ := hstep
  obtain ⟨state, hstate, -, -⟩ := h
  obtain ⟨state', new, -, hqueue, -⟩ := NotifsHandler.follows_handle input hstate
  refine ⟨List.prefix_append _ _, List.prefix_append _ _, ?_⟩
  rw [emitted_next hqueue]
  exact List.prefix_append _ _

theorem length_events_poll (i : ℕ) (io : ℕ → Io) (hqueue : r.handler.eventsQueue ≠ []) :
    (r.next i (.poll io)).events.length = r.events.length + 1 := by
  obtain ⟨event, queue, hcons⟩ := List.exists_cons_of_ne_nil hqueue
  simp [next, NotifsHandler.handle, NotifsHandler.poll, hcons]

theorem Step.answered_of_ends (hstep : Step i r input r') (h : r.Sound i)
    (hends : (input.deed i).ends = true) : r'.commands = r'.answers i := by
  have hsound := hstep.sound h
  obtain ⟨-, rfl⟩ := hstep
  obtain ⟨state, hstate, -, -⟩ := h
  obtain ⟨state', new, hstate', -, hact⟩ := NotifsHandler.follows_handle input hstate
  have hunanswered := Stage.unanswered_of_ends state.stage hends
  rw [hact] at hunanswered
  obtain ⟨state'', hstate'', hcommands, -⟩ := hsound
  obtain rfl := Option.some.inj (hstate'.symm.trans hstate'')
  rw [hcommands, hunanswered, List.append_nil]

section Traces

/-- The substream that was asked for is negotiated or fails. -/
def Ends (i : ℕ) (input : HandlerInput) : Prop := (input.deed i).ends = true

def IsPoll (input : HandlerInput) : Prop := ∃ io, input = .poll io

variable {τ : Trace (Step i)} (hsound : ∀ n, (τ.state n).Sound i)
include hsound

theorem extends_of_le {m n : ℕ} (hmn : m ≤ n) : Extends (τ.state m) (τ.state n) :=
  Trace.chain Extends.refl (fun _ _ _ => Extends.trans)
    (fun n a ha => (τ.step n a ha).extends (hsound n)) hmn

variable (hpolls : ∀ n, ∃ m, n ≤ m ∧ τ.Occurs IsPoll m)
include hpolls

theorem exists_returned (k : ℕ) : ∃ m, k ≤ m ∧ (τ.state k).emitted <+: (τ.state m).events := by
  suffices ∃ m, k ≤ m ∧ (τ.state k).emitted.length ≤ (τ.state m).events.length by
    obtain ⟨m, hm, hlength⟩ := this
    exact ⟨m, hm, List.prefix_of_prefix_length_le (extends_of_le hsound hm).2.2
      (List.prefix_append _ _) hlength⟩
  by_contra hno
  push Not at hno
  -- every poll returns one of the events that wait
  have hlower : ∀ m, k ≤ m → ∃ j, m ≤ j ∧
      (τ.state k).emitted.length - (τ.state (j + 1)).events.length <
        (τ.state k).emitted.length - (τ.state j).events.length := by
    intro m hm
    obtain ⟨j, hj, input, hinput, io, rfl⟩ := hpolls m
    have hkj := hm.trans hj
    have hemitted := (extends_of_le hsound hkj).2.2.length_le
    have hevents := hno j hkj
    have hqueue : (τ.state j).handler.eventsQueue ≠ [] := by
      intro hnil
      rw [emitted, emitted, hnil, List.append_nil] at hemitted
      rw [emitted] at hevents
      omega
    have hlength := length_events_poll i io hqueue
    rw [(τ.step j _ hinput).2] at hlength
    exact ⟨j, hj, by omega⟩
  obtain ⟨m, hm, hzero⟩ := Trace.zero_of_lowered
    (f := fun r : Record => (τ.state k).emitted.length - r.events.length)
    (fun m _ _ => Nat.sub_le_sub_left (extends_of_le hsound (Nat.le_succ m)).2.1.length_le _)
    fun m hm _ => hlower m hm
  have hlt := hno m hm
  omega

variable (hends : ∀ n, (τ.state n).ended < (τ.state n).requested i →
  ∃ m, n ≤ m ∧ τ.Occurs (Ends i) m)
include hends

/-- A protocol is not being opened forever. -/
theorem exists_answered (k : ℕ) :
    ∃ m, k ≤ m ∧ (τ.state m).commands = (τ.state m).answers i := by
  obtain ⟨state, hstate, hcommands, hrequests⟩ := hsound k
  by_cases hunanswered : state.stage.unanswered = []
  · exact ⟨k, le_rfl, by rw [hcommands, hunanswered, List.append_nil]⟩
  suffices ∃ m, k ≤ m ∧ τ.Occurs (Ends i) m by
    obtain ⟨m, hm, input, hinput, hinput'⟩ := this
    exact ⟨m + 1, by omega, (τ.step m input hinput).answered_of_ends (hsound m) hinput'⟩
  by_contra hno
  have hended : ∀ m, k ≤ m → (τ.state m).ended = (τ.state k).ended := by
    intro m hm
    induction m, hm using Nat.le_induction with
    | base => rfl
    | succ m hm ih =>
      cases hinput : τ.label m with
      | none => rw [τ.rest m hinput, ih]
      | some input =>
        have hfalse : (input.deed i).ends = false :=
          Bool.eq_false_iff.mpr fun htrue => hno ⟨m, hm, input, hinput, htrue⟩
        rw [← (τ.step m input hinput).2, next, hfalse, ih]
        rfl
  -- the substream is asked for in a poll, and did not end before
  obtain ⟨m, hm, hreturned⟩ := exists_returned hsound hpolls k
  have hopening : state.stage.inFlight = 1 := by
    cases hstage : state.stage with
    | opening => rfl
    | _ => simp [hstage, Stage.unanswered] at hunanswered
  have hrequested : (τ.state k).emitted.countP (asks i) ≤ (τ.state m).requested i :=
    hreturned.sublist.countP_le
  obtain ⟨j, hj, hoccurs⟩ := hends m (by rw [hended m hm]; omega)
  exact hno ⟨j, hm.trans hj, hoccurs⟩

end Traces

/-- Between permitted inputs a handler is orderly. If moreover it is polled again and again, and
each substream that a poll asks for ends, then every command is answered. -/
theorem orderly_and_answered (peerId : PeerId) {n i : ℕ} (hi : i < n) :
    (∀ inputs r, Run (Step i) (new peerId n) inputs r → r.Orderly i) ∧
    ∀ τ : Trace (Step i), τ.state 0 = new peerId n →
      (∀ k, ∃ m, k ≤ m ∧ τ.Occurs IsPoll m) →
      (∀ k, (τ.state k).ended < (τ.state k).requested i → ∃ m, k ≤ m ∧ τ.Occurs (Ends i) m) →
      ∀ k, ∃ m, k ≤ m ∧ (τ.state k).commands <+: (τ.state m).delivered i := by
  constructor
  · intro inputs r hrun
    exact Sound.orderly (hrun.invariant (fun _ _ _ hstep => hstep.sound) (sound_new peerId hi))
  · intro τ hstart hpolls hends k
    have hsound : ∀ n, (τ.state n).Sound i :=
      Trace.invariant (Q := fun _ _ => True) (fun _ _ _ hstep _ => hstep.sound)
        (fun _ _ _ => trivial) (hstart ▸ sound_new peerId hi)
    obtain ⟨m, hm, hanswered⟩ := exists_answered hsound hpolls hends k
    obtain ⟨m', hm', hreturned⟩ := exists_returned hsound hpolls m
    refine ⟨m', hm.trans hm', ?_⟩
    calc (τ.state k).commands <+: (τ.state m).commands := (extends_of_le hsound hm).1
      _ = (τ.state m).answers i := hanswered
      _ <+: (τ.state m').delivered i := hreturned.filterMap _

section Refused

/-- A protocol is to be opened, the substream is asked for and fails. -/
def refusal : ℕ → HandlerInput
  | 0 => .command [] (.open 0)
  | 2 => .dialUpgradeError 0
  | _ => .poll fun _ => ⟨0, false, []⟩

def refused : ℕ → Record
  | 0 => new [7] 1
  | n + 1 => (refused n).next 0 (refusal n)

/-- Once the failure is reported nothing happens any more. -/
theorem refused_add_four (n : ℕ) : refused (n + 4) = refused 4 := by
  induction n with
  | zero => rfl
  | succ n ih =>
    change (refused (n + 4)).next 0 (.poll fun _ => ⟨0, false, []⟩) = _
    rw [ih]
    rfl

theorem permits_refusal (n : ℕ) : (refused n).Permits 0 (refusal n) := by
  match n with
  | 0 =>
    refine ⟨by decide, ?_⟩
    rintro ⟨rx, out, inSubstream, hopen⟩
    cases hopen
  | 1 => trivial
  | 2 => exact Nat.zero_lt_one
  | n + 3 => trivial

theorem orderly_and_answered_refused : ∃ τ : Trace (Step 0), τ.state 0 = new [7] 1 ∧
    (∀ k, ∃ m, k ≤ m ∧ τ.Occurs IsPoll m) ∧
    (∀ k, (τ.state k).ended < (τ.state k).requested 0 → ∃ m, k ≤ m ∧ τ.Occurs (Ends 0) m) ∧
    (τ.state 1).Orderly 0 ∧ (τ.state 1).commands = [.open] ∧
    ∃ m, 1 ≤ m ∧ [.open] <+: (τ.state m).delivered 0 := by
  let τ : Trace (Step 0) := .ofInputs (next 0) refusal refused (fun _ => rfl)
    fun n => ⟨permits_refusal n, rfl⟩
  have hpolls : ∀ k, ∃ m, k ≤ m ∧ τ.Occurs IsPoll m :=
    fun k => ⟨k + 3, by omega, _, rfl, _, rfl⟩
  have hends : ∀ k, (τ.state k).ended < (τ.state k).requested 0 →
      ∃ m, k ≤ m ∧ τ.Occurs (Ends 0) m := by
    intro k hk
    by_cases hle : k ≤ 2
    · exact ⟨2, hle, _, rfl, rfl⟩
    · exfalso
      obtain rfl | ⟨n, rfl⟩ : k = 3 ∨ ∃ n, k = n + 4 := by
        rcases Nat.lt_or_ge k 4 with h | h
        · exact .inl (by omega)
        · exact .inr ⟨k - 4, by omega⟩
      · exact absurd hk (by decide)
      · change (refused (n + 4)).ended < (refused (n + 4)).requested 0 at hk
        rw [refused_add_four] at hk
        exact absurd hk (by decide)
  have hmain := orderly_and_answered [7] (n := 1) (i := 0) Nat.zero_lt_one
  exact ⟨τ, rfl, hpolls, hends,
    hmain.1 [refusal 0] _ (.cons ⟨permits_refusal 0, rfl⟩ (.nil _)), rfl,
    hmain.2 τ rfl hpolls hends 1⟩

end Refused

end Record

end SwarmHost.Substrate
