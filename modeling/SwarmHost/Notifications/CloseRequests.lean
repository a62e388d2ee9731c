import SwarmHost.Notifications.Reactions
import SwarmHost.Runs.Basic

/-! # When a handler asks to close

A handler that has announced a protocol as open asks to close it with
`CloseDesired`. It is watched here which of its requests follow the loss of a
substream. A protocol that is open without an inbound substream makes the
request on every poll, whether or not the remote ever opened one.
-/

namespace SwarmHost.Substrate

/-- What is seen of one protocol. -/
inductive Observation where
  | opened
  | closed
  | closeDesired
  /-- The remote closed or broke a substream of the open protocol. -/
  | lost
  deriving DecidableEq

namespace Observation

def ofEvent : NotifsHandlerOut → Option Observation
  | .openResultOk .. => some .opened
  | .closeResult _ => some .closed
  | .closeDesired _ => some .closeDesired
  | .openResultErr _ | .openDesiredByRemote _ | .notification .. => none

def ofStates : Option HandlerState → Option HandlerState → List Observation
  | some (.opened _ out inSubstream), some (.opened _ out' inSubstream') =>
    if out.isSome && out'.isNone || inSubstream.isSome && inSubstream'.isNone then [.lost] else []
  | _, _ => []

/-- What was seen since the protocol was opened, the newest first; `none` if it is not open. -/
def period : List Observation → Option (List Observation)
  | [] => none
  | .opened :: _ => some []
  | .closed :: _ => none
  | o :: past => (period past).map (o :: ·)

/-- While the protocol is open, there is at most one request to close it, and only after a loss. -/
def Sound : List Observation → Prop
  | [] => True
  | .closeDesired :: past =>
    (∀ p ∈ period past, .lost ∈ p ∧ .closeDesired ∉ p) ∧ Sound past
  | _ :: past => Sound past

section Kept

variable {rx rx' : List NotificationsSinkMessage} {out out' : Option OutSubstream}
  {inSubstream inSubstream' : Option InSubstream}

theorem ofStates_kept (hout : out'.isSome = out.isSome)
    (hin : inSubstream.isSome → inSubstream'.isSome) :
    ofStates (some (.opened rx out inSubstream)) (some (.opened rx' out' inSubstream')) = [] := by
  cases out <;> cases out' <;> cases inSubstream <;> cases inSubstream' <;>
    simp_all [ofStates]

theorem ofStates_cases (a b : Option HandlerState) :
    ofStates a b = [] ∨ ofStates a b = [.lost] := by
  unfold ofStates
  split
  · split
    · exact .inr rfl
    · exact .inl rfl
  · exact .inl rfl

end Kept

end Observation

open Observation

def HandlerState.inbound : HandlerState → Option InSubstream
  | .closed _ => none
  | .openDesiredByRemote substream _ => some substream
  | .opening inSubstream | .opened _ _ inSubstream => inSubstream

def HandlerState.outbound : HandlerState → Option OutSubstream
  | .opened _ out _ => out
  | _ => none

/-- A handler with what was seen of one of its protocols, the newest first. -/
structure Watched where
  handler : NotifsHandler
  history : List Observation

namespace Watched

def start (peerId : PeerId) (numProtocols : ℕ) : Watched := ⟨.new peerId numProtocols, []⟩

variable (i : ℕ)

def next (w : Watched) (input : HandlerInput) : Watched :=
  let (event, handler) := w.handler.handle input
  { handler := handler
    history := ((event.bind (·.own? i)).bind ofEvent).toList ++
      ofStates w.handler.protocols[i]? handler.protocols[i]? ++ w.history }

def Step (w : Watched) (input : HandlerInput) (w' : Watched) : Prop := w.next i input = w'

/-- A poll that comes to a broken outbound substream in an open period is the first to ask to close,
and so is one that comes to a missing inbound substream, after a loss. -/
def Orderly (w : Watched) : HandlerInput → Prop
  | .poll io => ∀ p ∈ period w.history, ∀ state ∈ w.handler.protocols[i]?,
    (w.handler.Flushes io i → state.outbound.isSome ∧ (io i).flushFails = true →
      .closeDesired ∉ p) ∧
    (w.handler.Reads io i → state.inbound = none → .lost ∈ p ∧ .closeDesired ∉ p)
  | _ => True

instance (w : Watched) (input : HandlerInput) : Decidable (w.Orderly i input) := by
  cases input <;> unfold Orderly <;> infer_instance

/-- What was seen and what will be seen of the events that wait. -/
def past (w : Watched) : List Observation :=
  ((w.handler.waiting i).filterMap ofEvent).reverse ++ w.history

end Watched

/-- The protocol is open exactly during a period. -/
def HandlerState.Fits (past : List Observation) : HandlerState → Prop
  | .opened .. => ∃ p, period past = some p
  | _ => period past = none

namespace Watched

open HandlerState

variable {i : ℕ} {w : Watched} {state : HandlerState}

structure Consistent (i : ℕ) (w : Watched) : Prop where
  state : ∃ state, w.handler.protocols[i]? = some state ∧ state.Fits (w.past i)
  waiting : .closeDesired ∉ (w.handler.waiting i).filterMap ofEvent

theorem consistent_start {peerId : PeerId} {numProtocols : ℕ} (hi : i < numProtocols) :
    Consistent i (start peerId numProtocols) := by
  refine ⟨⟨.closed false, ?_, rfl⟩, List.not_mem_nil⟩
  simp [start, NotifsHandler.new, hi]

section Reacts

variable {input : HandlerInput} {events : List NotifsHandlerOut} {state' : HandlerState}
  {past : List Observation}

/-- No substream is lost outside of a poll. -/
theorem ofStates_reacts (h : Reacts i input state events state') :
    ofStates (some state) (some state') = [] := by
  cases h with
  | ignored => cases state with
    | opened rx out inSubstream => exact ofStates_kept rfl id
    | _ => rfl
  | openOpened => exact ofStates_kept rfl id
  | inboundOpened => exact ofStates_kept rfl fun _ => rfl
  | sinkMessage => exact ofStates_kept rfl id
  | _ => rfl

theorem closeDesired_notMem_reacts (h : Reacts i input state events state') :
    .closeDesired ∉ events.filterMap ofEvent := by
  cases h with
  | _ => simp [ofEvent]

theorem fits_reacts (h : Reacts i input state events state') (hf : state.Fits past) :
    state'.Fits ((events.filterMap ofEvent).reverse ++ past) := by
  cases h with
  | outboundOpening => exact ⟨[], rfl⟩
  | closeOpened | closeOpening | closeDesired | closeClosed => rfl
  | _ => exact hf

end Reacts

theorem history_next {input : HandlerInput} (hpoll : ∀ io, input ≠ .poll io)
    (hw : Consistent i w) : (w.next i input).history = w.history := by
  obtain ⟨state, hi, -⟩ := hw.state
  obtain ⟨state', events, hi', -, hr⟩ := NotifsHandler.handle_at _ hpoll hi
  have hnone : (w.handler.handle input).1 = none := by
    cases input with
    | poll io => exact absurd rfl (hpoll io)
    | _ => rfl
  simp only [next, hnone, hi, hi', ofStates_reacts hr]
  simp

theorem Consistent.reacts {input : HandlerInput} (hpoll : ∀ io, input ≠ .poll io)
    (hw : Consistent i w) : Consistent i (w.next i input) := by
  obtain ⟨state, hi, hf⟩ := hw.state
  obtain ⟨state', events, hi', hwaiting, hr⟩ := NotifsHandler.handle_at _ hpoll hi
  have hwaiting' : (w.next i input).handler.waiting i = w.handler.waiting i ++ events := hwaiting
  have hpast : (w.next i input).past i = (events.filterMap ofEvent).reverse ++ w.past i := by
    rw [past, past, history_next hpoll hw, hwaiting']
    simp
  refine ⟨⟨state', hi', hpast ▸ fits_reacts hr hf⟩, ?_⟩
  rw [hwaiting', List.filterMap_append, List.mem_append, not_or]
  exact ⟨hw.waiting, closeDesired_notMem_reacts hr⟩

section Polled

variable {io : ℕ → Io} {event : Option ConnectionHandlerEvent} {state' : HandlerState}
  {history : List Observation}

def seen (i : ℕ) (event : Option ConnectionHandlerEvent) (state state' : HandlerState) :
    List Observation :=
  ((event.bind (·.own? i)).bind ofEvent).toList ++ ofStates (some state) (some state')

theorem own?_closeDesired :
    (ConnectionHandlerEvent.custom (.closeDesired i)).own? i = some (.closeDesired i) := if_pos rfl

theorem seen_eq (h : HandlerState.Polled io i state event state')
    (hevent : event ≠ some (.custom (.closeDesired i))) :
    seen i event state state' = [] ∨ seen i event state state' = [.lost] := by
  cases h with
  | same h hnot =>
    rw [seen, own?_of_notAbout hnot]
    exact ofStates_cases _ _
  | notification message hout =>
    simpa [seen, ConnectionHandlerEvent.own?, NotifsHandlerOut.index, ofEvent] using
      ofStates_cases _ _
  | _ => exact absurd rfl hevent

theorem period_append {os : List Observation} (hopened : .opened ∉ os) (hclosed : .closed ∉ os) :
    period (os ++ history) = (period history).map (os ++ ·) := by
  induction os with
  | nil => simp
  | cons o os ih =>
    simp only [List.mem_cons, not_or] at hopened hclosed
    rw [List.cons_append]
    cases o with
    | opened => exact absurd rfl hopened.1
    | closed => exact absurd rfl hclosed.1
    | closeDesired | lost =>
      simp only [period, ih hopened.2 hclosed.2, Option.map_map]
      rfl

theorem period_seen (history : List Observation)
    (h : HandlerState.Polled io i state event state') :
    period (seen i event state state' ++ history) =
      (period history).map (seen i event state state' ++ ·) := by
  have hmem : ∀ o ∈ seen i event state state', o = .closeDesired ∨ o = .lost := by
    by_cases hevent : event = some (.custom (.closeDesired i))
    · subst hevent
      intro o ho
      rw [seen, List.mem_append] at ho
      rcases ho with ho | ho
      · simp [own?_closeDesired, ofEvent] at ho
        exact .inl ho
      · rcases ofStates_cases (some state) (some state') with heq | heq
        · rw [heq] at ho
          cases ho
        · rw [heq] at ho
          exact .inr (List.mem_singleton.mp ho)
    · rcases seen_eq h hevent with heq | heq <;> simp [heq]
  refine period_append (fun ho => ?_) (fun ho => ?_)
  · rcases hmem _ ho with ho | ho <;> cases ho
  · rcases hmem _ ho with ho | ho <;> cases ho

theorem fits_polled (h : HandlerState.Polled io i state event state')
    (hf : state.Fits history) : state'.Fits (seen i event state state' ++ history) := by
  have hperiod := period_seen history h
  have hopen : ∀ {p : List Observation}, period history = some p →
      ∃ q, period (seen i event state state' ++ history) = some q := by
    intro p hp
    exact ⟨_, by rw [hperiod, hp]; rfl⟩
  have hshut : period history = none →
      period (seen i event state state' ++ history) = none := by
    intro hnone
    rw [hperiod, hnone]
    rfl
  cases h with
  | same h hnot =>
    cases h with
    | opened =>
      obtain ⟨p, hp⟩ := hf
      exact hopen hp
    | _ => exact hshut hf
  | notification | flushFailed | noInbound =>
    obtain ⟨p, hp⟩ := hf
    exact hopen hp
  | refused => exact hshut hf

end Polled

section Poll

variable {io : ℕ → Io} {state' : HandlerState}

theorem poll_empty (io : ℕ → Io) (hq : w.handler.eventsQueue = [])
    (hi : w.handler.protocols[i]? = some state) :
    ∃ state', (w.next i (.poll io)).handler.protocols[i]? = some state' ∧
      HandlerState.Polled io i state (w.handler.poll io).1 state' ∧
      (w.next i (.poll io)).history =
        seen i (w.handler.poll io).1 state state' ++ w.history ∧
      (w.next i (.poll io)).handler.waiting i = [] := by
  obtain ⟨state', hi', hpolled⟩ := NotifsHandler.poll_at io hq hi
  refine ⟨state', hi', hpolled, ?_, ?_⟩
  · simp only [next, NotifsHandler.handle, hi, hi']
    rfl
  · simp only [next, NotifsHandler.handle, NotifsHandler.waiting,
      NotifsHandler.poll_eventsQueue io hq]
    rfl

theorem poll_queued (io : ℕ → Io) {event : ConnectionHandlerEvent}
    {queue : List ConnectionHandlerEvent} (hq : w.handler.eventsQueue = event :: queue)
    (hi : w.handler.protocols[i]? = some state) :
    (w.next i (.poll io)).handler = { w.handler with eventsQueue := queue } ∧
      (w.next i (.poll io)).history = ((event.own? i).bind ofEvent).toList ++ w.history ∧
      w.handler.waiting i =
        (event.own? i).toList ++ (w.next i (.poll io)).handler.waiting i := by
  have hpoll : w.handler.poll io = (some event, { w.handler with eventsQueue := queue }) := by
    rw [NotifsHandler.poll, hq]
  have hkept : ofStates (some state) (some state) = [] := by
    cases state with
    | opened rx out inSubstream => exact ofStates_kept rfl id
    | _ => rfl
  refine ⟨by simp only [next, NotifsHandler.handle, hpoll], ?_, ?_⟩
  · simp only [next, NotifsHandler.handle, hpoll, hi, hkept]
    simp
  · simp only [next, NotifsHandler.handle, NotifsHandler.waiting, hpoll, hq]
    cases hown : event.own? i <;> simp [hown]

theorem Consistent.poll (hw : Consistent i w) : Consistent i (w.next i (.poll io)) := by
  obtain ⟨state, hi, hf⟩ := hw.state
  rcases hq : w.handler.eventsQueue with _ | ⟨event, queue⟩
  · obtain ⟨state', hi', hpolled, hhistory, hwaiting⟩ := poll_empty io hq hi
    have hpast : w.past i = w.history := by simp [past, NotifsHandler.waiting, hq]
    refine ⟨⟨state', hi', ?_⟩, by simp [hwaiting]⟩
    rw [past, hwaiting, hhistory]
    exact fits_polled hpolled (hpast ▸ hf)
  · -- an event of the queue becomes visible
    obtain ⟨hhandler, hhistory, hwaiting⟩ := poll_queued io hq hi
    have hpast : (w.next i (.poll io)).past i = w.past i := by
      rw [past, past, hhistory, hwaiting]
      cases hown : event.own? i with
      | none => simp
      | some own => cases hobs : ofEvent own <;> simp [hobs]
    have hnone := hw.waiting
    rw [hwaiting, List.filterMap_append, List.mem_append, not_or] at hnone
    exact ⟨⟨state, by rw [hhandler]; exact hi, hpast ▸ hf⟩, hnone.2⟩

theorem sound_seen (h : HandlerState.Polled io i state (w.handler.poll io).1 state')
    (hevent : (w.handler.poll io).1 ≠ some (.custom (.closeDesired i))) (hs : Sound w.history) :
    Sound (seen i (w.handler.poll io).1 state state' ++ w.history) := by
  rcases seen_eq h hevent with heq | heq
  · rw [heq]
    exact hs
  · rw [heq]
    exact hs

/-- A poll of an open protocol keeps the requests sound iff it is orderly. -/
theorem sound_opened_iff {rx : List NotificationsSinkMessage} {out : Option OutSubstream}
    {inSubstream : Option InSubstream} {p : List Observation}
    (hq : w.handler.eventsQueue = [])
    (hi : w.handler.protocols[i]? = some (.opened rx out inSubstream))
    (hp : period w.history = some p) (hs : Sound w.history) :
    Sound (w.next i (.poll io)).history ↔ w.Orderly i (.poll io) := by
  obtain ⟨state', hi', hpolled, hhistory, -⟩ := poll_empty io hq hi
  have horderly : w.Orderly i (.poll io) ↔
      (w.handler.Flushes io i → out.isSome ∧ (io i).flushFails = true → .closeDesired ∉ p) ∧
      (w.handler.Reads io i → inSubstream = none → .lost ∈ p ∧ .closeDesired ∉ p) := by
    simp only [Orderly, hp, hi, Option.mem_some_iff, forall_eq']
    rfl
  rw [hhistory, horderly]
  cases NotifsHandler.pollsOpened io hq hi with
  | broken rx' hflushes hsome hfail hevent hstate =>
    obtain rfl : state' = .opened rx' none inSubstream :=
      Option.some.inj (hi'.symm.trans hstate)
    obtain ⟨out', rfl⟩ := Option.isSome_iff_exists.mp hsome
    have hnot : ¬ w.handler.Reads io i := by
      intro hreads
      have hnone := (NotifsHandler.flushes_length_iff.mp hreads.1).2.2 i _ hi
      exact NotifsHandler.flush_opened_eq_none_iff.mp hnone ⟨rfl, hfail⟩
    have hseen : seen i (w.handler.poll io).1 (.opened rx (some out') inSubstream)
        (.opened rx' none inSubstream) = [.closeDesired, .lost] := by
      simp [seen, hevent, own?_closeDesired, ofEvent, ofStates]
    rw [hseen]
    simp [Sound, period, hp, hs, hflushes, hfail, hnot]
  | absent rx' out' hreads hfails hin hout hevent hstate =>
    subst hin
    obtain rfl : state' = .opened rx' out' none := Option.some.inj (hi'.symm.trans hstate)
    have hseen : seen i (w.handler.poll io).1 (.opened rx out none) (.opened rx' out' none) =
        [.closeDesired] := by
      rw [seen, ofStates_kept hout id, hevent]
      simp [own?_closeDesired, ofEvent]
    rw [hseen]
    simp [Sound, hp, hs, hreads, hfails]
  | other hflushes hreads hevent =>
    refine iff_of_true (sound_seen hpolled hevent hs) ⟨fun hf hfail => ?_, fun hr hin => ?_⟩
    · exact absurd ⟨hf, hfail⟩ hflushes
    · exact absurd ⟨hr, hin⟩ hreads

/-- A protocol that is not open may ask to be closed. -/
theorem sound_of_no_period (hp : period w.history = none) (hs : Sound w.history)
    (h : HandlerState.Polled io i state (w.handler.poll io).1 state') :
    Sound (seen i (w.handler.poll io).1 state state' ++ w.history) := by
  by_cases hevent : (w.handler.poll io).1 = some (.custom (.closeDesired i))
  · have hown : ((w.handler.poll io).1.bind (·.own? i)).bind ofEvent = some .closeDesired := by
      simp [hevent, own?_closeDesired, ofEvent]
    have hperiod : ∀ os, (os = [] ∨ os = [.lost]) →
        period (os ++ w.history) = none ∧ Sound (os ++ w.history) := by
      rintro os (rfl | rfl)
      · exact ⟨hp, hs⟩
      · exact ⟨by simp [period, hp], hs⟩
    obtain ⟨hnone, hsound⟩ := hperiod _ (ofStates_cases (some state) (some state'))
    have hseen : seen i (w.handler.poll io).1 state state' ++ w.history =
        .closeDesired :: (ofStates (some state) (some state') ++ w.history) := by
      rw [seen, hown]
      rfl
    rw [hseen]
    refine ⟨fun p hmem => ?_, hsound⟩
    rw [hnone] at hmem
    cases hmem
  · exact sound_seen h hevent hs

theorem sound_poll_iff (hw : Consistent i w) (hs : Sound w.history) :
    Sound (w.next i (.poll io)).history ↔ w.Orderly i (.poll io) := by
  obtain ⟨state, hi, hf⟩ := hw.state
  rcases hq : w.handler.eventsQueue with _ | ⟨event, queue⟩
  · have hpast : w.past i = w.history := by simp [past, NotifsHandler.waiting, hq]
    rw [hpast] at hf
    cases hp : period w.history with
    | some p =>
      cases state with
      | opened rx out inSubstream => exact sound_opened_iff hq hi hp hs
      | _ => cases hf.symm.trans hp
    | none =>
      obtain ⟨state', -, hpolled, hhistory, -⟩ := poll_empty io hq hi
      refine iff_of_true (hhistory ▸ sound_of_no_period hp hs hpolled) ?_
      simp [Orderly, hp]
  · obtain ⟨-, hhistory, hwaiting⟩ := poll_queued io hq hi
    have hnone := hw.waiting
    rw [hwaiting, List.filterMap_append, List.mem_append, not_or] at hnone
    refine iff_of_true ?_ ?_
    · rw [hhistory]
      cases hown : event.own? i with
      | none => exact hs
      | some own =>
        cases hobs : ofEvent own with
        | none => simpa [hobs] using hs
        | some o =>
          cases o with
          | closeDesired => simp [hown, hobs] at hnone
          | _ =>
            rw [Option.bind_some, hobs]
            exact hs
    · intro p _ state _
      refine ⟨fun hflushes => ?_, fun hreads => ?_⟩
      · cases hq.symm.trans hflushes.1
      · cases hq.symm.trans hreads.1.1

end Poll

theorem consistent_step {input : HandlerInput} (hw : Consistent i w) :
    Consistent i (w.next i input) := by
  cases input with
  | poll io => exact hw.poll
  | _ => exact hw.reacts (by simp)

/-- In every state of a run each request to close is the only one of its period and comes after a
loss, iff every poll is orderly. -/
theorem closeDesired_sound_iff {peerId : PeerId} {numProtocols : ℕ} {inputs : List HandlerInput}
    (hi : i < numProtocols) :
    Always (Step i) (fun w => Sound w.history) (start peerId numProtocols) inputs ↔
      Along (Step i) (fun w input _ => w.Orderly i input) (start peerId numProtocols) inputs := by
  have hstep : ∀ w input w', Step i w input w' → Consistent i w → Sound w.history →
      (True ∧ Sound w'.history ↔ w.Orderly i input) := by
    rintro w input _ rfl hw hs
    rw [true_and]
    cases input with
    | poll io => exact sound_poll_iff hw hs
    | _ =>
      refine iff_of_true ?_ trivial
      rw [history_next (by simp) hw]
      exact hs
  have hkeep : ∀ w input w', Step i w input w' → Consistent i w → Consistent i w' := by
    rintro w input _ rfl hw
    exact consistent_step hw
  have hstart : Sound (start peerId numProtocols).history := trivial
  rw [← always_and_along_iff (P := fun _ _ _ => True) (I := fun w => Sound w.history) hkeep hstep
    (consistent_start hi) hstart]
  exact (and_iff_left fun _ _ _ _ _ _ _ => trivial).symm

/-- Nothing moves on the sockets. -/
def quiet : ℕ → Io := fun _ => ⟨0, false, []⟩

/-- The remote opened its substream first; it closes it after a while and the handler asks once. -/
def closedByRemote : List HandlerInput :=
  [.inbound 0 [] [], .poll quiet, .command [] (.open 0), .poll quiet, .outbound 0 none [],
    .poll quiet, .poll fun _ => ⟨0, false, [.ok, .ok, .closed, .ok]⟩, .poll quiet,
    .command [] (.close 0), .poll quiet]

theorem closeDesired_sound_closedByRemote :
    (closedByRemote.foldl (next 0) (start [] 1)).history =
      [.closed, .closeDesired, .lost, .opened] ∧
    Always (Step 0) (fun w => Sound w.history) (start [] 1) closedByRemote := by
  have hchecks : Checks (next 0) (Orderly 0) (start [] 1) closedByRemote := by decide
  refine ⟨by decide, ?_⟩
  apply (closeDesired_sound_iff (by decide)).mpr
  exact hchecks.along fun _ _ _ => id

/-- The remote has not opened a substream when ours is open. -/
theorem closeDesired_without_loss :
    ¬ Always (Step 0) (fun w => Sound w.history) (start [] 1)
      [.command [] (.open 0), .poll quiet, .outbound 0 none [], .poll quiet, .poll quiet] := by
  intro h
  have hsound : Sound [.closeDesired, .opened] :=
    h _ _ (List.prefix_refl _) (run_foldl (fun _ _ => rfl) _ _)
  cases (hsound.1 [] rfl).1

end Watched

end SwarmHost.Substrate
