import SwarmHost.Collections.Timers
import SwarmHost.Notifications.Pairs
import SwarmHost.Runs.Basic

/-! # The timers of the behaviour

An entry that waits refers to a timer by its number. Nothing is ever taken out of
`delays`, so timers fire that no entry waits for any more. Here every timer has
the time at which it fires, which is the reading of the clock plus the duration
that it was started with.
-/

namespace SwarmHost.Substrate

def DelayStart.number? (next : DelayId) : DelayStart → Option DelayId
  | .none => Option.none
  | .fresh => some next
  | .again timer => some timer

namespace PeerState

def timer? : Option PeerState → Option (DelayId × Instant)
  | some (.backoff timer deadline) | some (.pendingRequest timer deadline)
  | some (.disabledPendingEnable _ timer deadline) => some (timer, deadline)
  | _ => none

/-- When the timer fires that is started for the entry; `ban` are the seconds drawn at random. -/
def firesAt (ban : ℕ) : PairInput → Option PeerState → Instant
  | .connect now, some (.disabled _ none) => now + (now + 5 * secondsToNanos - now)
  | .connect now, some (.disabled _ (some backoffUntil)) =>
    if now < backoffUntil then now + (backoffUntil - now)
    else now + (max (now + 5 * secondsToNanos) backoffUntil - now)
  | .connectionClosed now _, some (.disabled _ (some backoffUntil))
  | .connectionClosed now _, some (.incoming _ (some backoffUntil)) => now + (backoffUntil - now)
  | .connectionClosed now _, some (.enabled _) => now + ban * secondsToNanos
  | .dialFailure now, some .requested => now + 5 * secondsToNanos
  | .dialFailure now, some (.pendingRequest _ deadline) =>
    now + (if now < deadline then max (deadline - now) (5 * secondsToNanos)
      else 5 * secondsToNanos)
  | .delayElapsed now _, some (.disabledPendingEnable ..) => now + 5 * secondsToNanos
  -- no timer is started
  | _, _ => 0

end PeerState

/-- What a reaction does about the timer of the entry, unless that one fires. -/
inductive Clocks (entry : Option PeerState) (next : DelayId) (firesAt : Instant)
    (r : Reaction) : Prop where
  | keep : r.delay = .none → PeerState.timer? r.entry = PeerState.timer? entry →
      Clocks entry next firesAt r
  | release : r.delay = .none → PeerState.timer? r.entry = none → Clocks entry next firesAt r
  | start : r.delay = .fresh → PeerState.timer? r.entry = some (next, firesAt) →
      Clocks entry next firesAt r
  /-- A timer is started that the entry does not wait for. -/
  | waste : r.delay = .fresh → PeerState.timer? r.entry = none → Clocks entry next firesAt r

theorem Clocks.withIncoming {entry : Option PeerState} {next : DelayId} {firesAt : Instant}
    {r : Reaction} (h : Clocks entry next firesAt r) (incoming : IncomingChange) :
    Clocks entry next firesAt { r with incoming := incoming } := by
  cases h with
  | keep hdelay hentry => exact .keep hdelay hentry
  | release hdelay hentry => exact .release hdelay hentry
  | start hdelay hentry => exact .start hdelay hentry
  | waste hdelay hentry => exact .waste hdelay hentry

namespace PeerState

section Clocks

variable {peer : PeerId} {set : SetId} {next : DelayId} {due : Instant} {cs : Connections}

theorem clocks_disconnectPeerInner (now : Instant) (ban : Option ℕ) (alive : Bool)
    (state : PeerState) :
    Clocks (some state) next due (state.disconnectPeerInner peer set now ban alive) := by
  cases state with
  | disabledPendingEnable | enabled => exact .release rfl rfl
  | incoming cs backoffUntil =>
    simp only [disconnectPeerInner]
    split <;> exact .release rfl rfl
  | _ => exact .keep rfl rfl

theorem clocks_enableOrDelay {entry : Option PeerState} :
    Clocks entry next due (enableOrDelay peer set cs next due) := by
  unfold enableOrDelay
  split
  · exact .release rfl rfl
  · exact .start rfl rfl

theorem clocks_peersetReportConnect (ban : ℕ) (now : Instant) (entry : Option PeerState) :
    Clocks entry next (firesAt ban (.connect now) entry)
      (peersetReportConnect peer set now next entry) := by
  unfold peersetReportConnect
  split
  · exact .release rfl rfl
  · split
    · exact .keep rfl rfl
    · exact .release rfl rfl
  · simp only [firesAt, Nat.add_sub_cancel_left]
    exact clocks_enableOrDelay
  · next cs backoffUntil =>
    simp only [firesAt]
    split
    · next hlt =>
      rw [Nat.add_sub_cancel' hlt.le]
      exact .start rfl rfl
    · rw [Nat.add_sub_cancel' (by omega)]
      exact clocks_enableOrDelay
  · exact .release rfl rfl
  · exact .keep rfl rfl

theorem clocks_peersetReportDisconnect (state : PeerState) :
    Clocks (some state) next due (state.peersetReportDisconnect peer set) := by
  cases state with
  | disabledPendingEnable | enabled | requested => exact .release rfl rfl
  | _ => exact .keep rfl rfl

theorem clocks_accept (state : PeerState) :
    Clocks (some state) next due (state.accept peer set) := by
  cases state <;> exact .release rfl rfl

theorem clocks_reject (state : PeerState) :
    Clocks (some state) next due (state.reject peer set) := by
  cases state <;> exact .release rfl rfl

theorem timer?_mapConnections (f : Connections → Connections) (state : PeerState) :
    timer? (some (state.mapConnections f)) = timer? (some state) := by
  cases state <;> rfl

theorem clocks_connectionEstablished (c : ConnectionId) (entry : Option PeerState) :
    Clocks entry next due (connectionEstablished peer set c entry) := by
  unfold connectionEstablished
  split
  · exact .release rfl rfl
  · exact .release rfl rfl
  · exact .release rfl rfl
  · exact .release rfl rfl
  · exact .release rfl rfl
  · exact .keep rfl (timer?_mapConnections _ _)

theorem clocks_leave {entry : Option PeerState} {now : Instant} {backoffUntil : Option Instant}
    (hdue : ∀ deadline, backoffUntil = some deadline → now < deadline → due = deadline) :
    Clocks entry next due (leave now next backoffUntil) := by
  unfold leave
  split
  · next deadline =>
    split
    · next hlt =>
      rw [hdue deadline rfl hlt]
      exact .start rfl rfl
    · exact .release rfl rfl
  · exact .release rfl rfl

theorem clocks_connectionClosed (ban : ℕ) (now : Instant) (c : ConnectionId) (state : PeerState) :
    Clocks (some state) next (firesAt ban (.connectionClosed now c) (some state))
      (state.connectionClosed peer set now next c) := by
  cases state with
  | disabled cs backoffUntil =>
    simp only [connectionClosed]
    split
    · apply clocks_leave
      rintro deadline rfl hlt
      exact Nat.add_sub_cancel' hlt.le
    · exact .keep rfl rfl
  | disabledPendingEnable cs timer deadline =>
    simp only [connectionClosed]
    split <;> exact .keep rfl rfl
  | incoming cs backoffUntil =>
    simp only [connectionClosed]
    split
    · apply Clocks.withIncoming
      apply clocks_leave
      rintro deadline rfl hlt
      exact Nat.add_sub_cancel' hlt.le
    · split <;> exact .keep rfl rfl
  | enabled cs =>
    simp only [connectionClosed]
    split
    · exact .waste rfl rfl
    · split <;> exact .release rfl rfl
  | _ => exact .release rfl rfl

theorem clocks_dialFailure (ban : ℕ) (now : Instant) (state : PeerState) :
    Clocks (some state) next (firesAt ban (.dialFailure now) (some state))
      (state.dialFailure peer set now next) := by
  cases state with
  | requested | pendingRequest => exact .start rfl rfl
  | _ => exact .keep rfl rfl

theorem clocks_openDesiredByRemote (c : ConnectionId) (index : IncomingIndex) (state : PeerState) :
    Clocks (some state) next due (state.openDesiredByRemote peer set c index) := by
  cases state with
  | incoming | enabled =>
    simp only [openDesiredByRemote]
    split <;> exact .keep rfl rfl
  | disabled cs backoffUntil =>
    simp only [openDesiredByRemote]
    split <;> exact .release rfl rfl
  | disabledPendingEnable cs timer deadline =>
    simp only [openDesiredByRemote]
    split
    · exact .release rfl rfl
    · exact .keep rfl rfl
    · exact .release rfl rfl
  | _ => exact .release rfl rfl

theorem clocks_closeDesired (c : ConnectionId) (state : PeerState) :
    Clocks (some state) next due (state.closeDesired peer set c) := by
  cases state with
  | enabled cs =>
    simp only [closeDesired]
    split
    · exact .release rfl rfl
    · exact .keep rfl rfl
    · split <;> exact .release rfl rfl
  | disabled | disabledPendingEnable => exact .keep rfl rfl
  | _ => exact .release rfl rfl

theorem clocks_openResultOk (c : ConnectionId) (fallback : Option ProtocolName) (handshake : Bytes)
    (sink : NotificationsSink) (state : PeerState) :
    Clocks (some state) next due (state.openResultOk peer set c fallback handshake sink) := by
  unfold openResultOk
  split
  · split <;> exact .release rfl rfl
  · exact .keep rfl (timer?_mapConnections _ _)

theorem clocks_openResultErr (c : ConnectionId) (ban : Instant) (state : PeerState) :
    Clocks (some state) next due (state.openResultErr peer set c ban) := by
  cases state with
  | enabled cs =>
    simp only [openResultErr]
    split <;> exact .release rfl rfl
  | incoming | disabledPendingEnable | disabled => exact .keep rfl rfl
  | _ => exact .release rfl rfl

theorem clocks_onHandlerEvent (env : Surroundings) (c : ConnectionId) (ban : Instant)
    (state : PeerState) (event : NotifsHandlerOut) :
    Clocks (some state) next due (state.onHandlerEvent peer set env c ban event) := by
  cases event with
  | openDesiredByRemote i => exact clocks_openDesiredByRemote c _ state
  | closeDesired i => exact clocks_closeDesired c state
  | closeResult i => exact .keep rfl (timer?_mapConnections _ _)
  | openResultOk i fallback handshake sink => exact clocks_openResultOk c fallback handshake sink _
  | openResultErr i => exact clocks_openResultErr c ban state
  | notification i message => exact .keep rfl rfl

end Clocks

section Elapsed

variable {peer : PeerId} {set : SetId} {state : PeerState} {number : DelayId}

theorem delayElapsed_of_stale (now : Instant)
    (h : ∀ deadline, timer? (some state) ≠ some (number, deadline)) :
    state.delayElapsed peer set now number = .keep state := by
  cases state with
  | backoff timer deadline | pendingRequest timer deadline
  | disabledPendingEnable cs timer deadline =>
    have hne : timer ≠ number := fun heq => h deadline (by rw [timer?, heq])
    simp only [delayElapsed, if_neg hne]
  | _ => rfl

theorem delayElapsed_of_held (ban : ℕ) (now : Instant) {deadline : Instant}
    (h : timer? (some state) = some (number, deadline)) :
    (state.delayElapsed peer set now number).delay = .none ∧
        timer? (state.delayElapsed peer set now number).entry = none ∨
      (state.delayElapsed peer set now number).delay = .again number ∧
        timer? (state.delayElapsed peer set now number).entry =
          some (number, firesAt ban (.delayElapsed now number) (some state)) := by
  cases state with
  | backoff timer deadline | pendingRequest timer deadline =>
    obtain ⟨rfl, -⟩ := Prod.mk.inj (Option.some.inj h)
    rw [delayElapsed, if_pos rfl]
    exact .inl ⟨rfl, rfl⟩
  | disabledPendingEnable cs timer deadline =>
    obtain ⟨rfl, -⟩ := Prod.mk.inj (Option.some.inj h)
    rw [delayElapsed, if_pos rfl]
    split
    · exact .inl ⟨rfl, rfl⟩
    · exact .inr ⟨rfl, rfl⟩
  | _ => cases h

end Elapsed

end PeerState

/-- A timer fires. -/
def PairInput.isElapsed : PairInput → Bool
  | .delayElapsed .. => true
  | _ => false

def NotificationsInput.isElapsed : NotificationsInput → Bool
  | .delayElapsed .. => true
  | _ => false

namespace Notifications

section Definitions

variable (n : Notifications)

/-- The timer that the entry of the pair refers to and the deadline it notes. -/
def held (x : PeerId × SetId) : Option (DelayId × Instant) := PeerState.timer? (n.peers.get? x)

def started (ban : ℕ) (x : PeerId × SetId) (input : PairInput) : List (Timer (PeerId × SetId)) :=
  ((n.reaction x.1 x.2 input).delay.number? n.nextDelayId).toList.map fun number =>
    ⟨number, x, PeerState.firesAt ban input (n.peers.get? x)⟩

/-- The pair that is told the answer to a request, if the request is alive. -/
def answered (index : IncomingIndex) (input : PairInput) : List ((PeerId × SetId) × PairInput) :=
  match n.incoming.find? (·.incomingId = index) with
  | some request => if request.alive then [((request.peerId, request.setId), input)] else []
  | none => []

/-- What happens to which pairs, one after the other. -/
def touches : NotificationsInput → List ((PeerId × SetId) × PairInput)
  | .connectionEstablished peer c =>
    (List.range n.numProtocols).map fun set => ((peer, set), .connectionEstablished c)
  | .connectionClosed now peer c =>
    ((List.range n.numProtocols).takeWhile fun set => (peer, set) ∈ n.peers).map fun set =>
      ((peer, set), .connectionClosed now c)
  | .dialFailure now peer =>
    (List.range n.numProtocols).map fun set => ((peer, set), .dialFailure now)
  | .handlerEvent peer c event ban => [((peer, event.index), .handlerEvent c event ban)]
  | .peersetMessage now (.connect set peer) => [((peer, set), .connect now)]
  | .peersetMessage _ (.drop set peer) => [((peer, set), .drop)]
  | .peersetMessage _ (.accept index) => n.answered index .accept
  | .peersetMessage _ (.reject index) => n.answered index .reject
  | .delayElapsed now delayId peer set => [((peer, set), .delayElapsed now delayId)]
  | .disconnectPeer now peer set => [((peer, set), .disconnect now none)]
  | .popEvent => []

def touchAll (n : Notifications) (touches : List ((PeerId × SetId) × PairInput)) : Notifications :=
  touches.foldl (fun n touch => n.touch touch.1.1 touch.1.2 touch.2) n

/-- The timers that are started meanwhile; `bans` are the bans drawn for the sets. -/
def startedBy (bans : SetId → ℕ) :
    Notifications → List ((PeerId × SetId) × PairInput) → List (Timer (PeerId × SetId))
  | _, [] => []
  | n, (x, input) :: touches =>
    n.started (bans x.2) x input ++ startedBy bans (n.touch x.1 x.2 input) touches

end Definitions

structure SameTimers (n n' : Notifications) : Prop where
  entry : ∀ x, n'.peers.get? x = n.peers.get? x
  delays : n'.delays = n.delays
  nextDelayId : n'.nextDelayId = n.nextDelayId

variable {n n' : Notifications} {x y : PeerId × SetId} {input : PairInput} {ban : ℕ}
  {timers : List (Timer (PeerId × SetId))}

theorem SameTimers.refl (n : Notifications) : SameTimers n n := ⟨fun _ => rfl, rfl, rfl⟩

theorem SameTimers.held (h : SameTimers n n') : n'.held = n.held := by
  funext x
  rw [Notifications.held, Notifications.held, h.entry]

theorem get?_touch_self : (n.touch x.1 x.2 input).peers.get? x =
    (n.reaction x.1 x.2 input).entry := by
  rw [touch]
  cases hentry : (n.reaction x.1 x.2 input).entry <;> simp [apply, hentry]

theorem held_touch_self : (n.touch x.1 x.2 input).held x =
    PeerState.timer? (n.reaction x.1 x.2 input).entry := by
  rw [held, get?_touch_self]

theorem held_touch_of_ne (h : y ≠ x) : (n.touch x.1 x.2 input).held y = n.held y := by
  rw [held, held, (leaves_touch h).entry]

theorem delays_touch (ban : ℕ) : (n.touch x.1 x.2 input).delays =
    n.delays ++ (n.started ban x input).map fun timer => (timer.number, timer.owner) := by
  rw [touch, started]
  cases hdelay : (n.reaction x.1 x.2 input).delay <;> simp [apply, hdelay, DelayStart.number?]

theorem clocks_reaction (ban : ℕ) (hinput : input.isElapsed = false) :
    Clocks (n.peers.get? x) n.nextDelayId (PeerState.firesAt ban input (n.peers.get? x))
      (n.reaction x.1 x.2 input) := by
  rw [reaction]
  cases hentry : n.peers.get? x with
  | none =>
    cases input with
    | delayElapsed now delayId => cases hinput
    | _ => exact .release rfl rfl
  | some state =>
    cases input with
    | disconnect now ban => exact PeerState.clocks_disconnectPeerInner now ban _ state
    | connect now => exact PeerState.clocks_peersetReportConnect ban now (some state)
    | drop => exact PeerState.clocks_peersetReportDisconnect state
    | accept => exact PeerState.clocks_accept state
    | reject => exact PeerState.clocks_reject state
    | connectionEstablished c => exact PeerState.clocks_connectionEstablished c (some state)
    | connectionClosed now c => exact PeerState.clocks_connectionClosed ban now c state
    | dialFailure now => exact PeerState.clocks_dialFailure ban now state
    | handlerEvent c event ban => exact PeerState.clocks_onHandlerEvent _ c ban state event
    | delayElapsed now delayId => cases hinput

theorem started_of_none (h : (n.reaction x.1 x.2 input).delay = .none) :
    n.started ban x input = [] := by
  rw [started, h]
  rfl

theorem nextDelayId_of_fresh (h : (n.reaction x.1 x.2 input).delay = .fresh) :
    (n.touch x.1 x.2 input).nextDelayId = n.nextDelayId + 1 :=
  if_pos h

theorem nextDelayId_of_ne (h : (n.reaction x.1 x.2 input).delay ≠ .fresh) :
    (n.touch x.1 x.2 input).nextDelayId = n.nextDelayId :=
  if_neg h

theorem kept_touch_of_none (h : Timer.Kept n.held timers n.nextDelayId)
    (hdelay : (n.reaction x.1 x.2 input).delay = .none)
    (hself : (n.touch x.1 x.2 input).held x = none ∨ (n.touch x.1 x.2 input).held x = n.held x) :
    Timer.Kept (n.touch x.1 x.2 input).held (timers ++ n.started ban x input)
      (n.touch x.1 x.2 input).nextDelayId := by
  rw [started_of_none hdelay, List.append_nil, nextDelayId_of_ne (by rw [hdelay]; decide)]
  refine h.release fun y => ?_
  by_cases hy : y = x
  · exact hy ▸ hself
  · exact .inr (held_touch_of_ne hy)

theorem kept_touch_of_fresh (h : Timer.Kept n.held timers n.nextDelayId)
    (hdelay : (n.reaction x.1 x.2 input).delay = .fresh)
    (hself : (n.touch x.1 x.2 input).held x = none ∨ (n.touch x.1 x.2 input).held x =
      some (n.nextDelayId, PeerState.firesAt ban input (n.peers.get? x))) :
    Timer.Kept (n.touch x.1 x.2 input).held (timers ++ n.started ban x input)
      (n.touch x.1 x.2 input).nextDelayId := by
  rw [started, hdelay, nextDelayId_of_fresh hdelay]
  exact h.start (fun y hy => held_touch_of_ne hy) hself

theorem kept_touch (h : Timer.Kept n.held timers n.nextDelayId)
    (hinput : input.isElapsed = false) :
    Timer.Kept (n.touch x.1 x.2 input).held (timers ++ n.started ban x input)
      (n.touch x.1 x.2 input).nextDelayId := by
  rcases clocks_reaction (n := n) (x := x) ban hinput with
    ⟨hdelay, hentry⟩ | ⟨hdelay, hentry⟩ | ⟨hdelay, hentry⟩ | ⟨hdelay, hentry⟩
  · exact kept_touch_of_none h hdelay (.inr (held_touch_self.trans hentry))
  · exact kept_touch_of_none h hdelay (.inl (held_touch_self.trans hentry))
  · exact kept_touch_of_fresh h hdelay (.inr (held_touch_self.trans hentry))
  · exact kept_touch_of_fresh h hdelay (.inl (held_touch_self.trans hentry))

section TouchAll

variable {touches : List ((PeerId × SetId) × PairInput)} {bans : SetId → ℕ}

theorem delays_touchAll (bans : SetId → ℕ) : (n.touchAll touches).delays =
    n.delays ++ (n.startedBy bans touches).map fun timer => (timer.number, timer.owner) := by
  induction touches generalizing n with
  | nil => simp [touchAll, startedBy]
  | cons touch touches ih =>
    obtain ⟨x, input⟩ := touch
    rw [startedBy, List.map_append, ← List.append_assoc, ← delays_touch]
    exact ih

theorem kept_touchAll (h : Timer.Kept n.held timers n.nextDelayId)
    (htouches : ∀ touch ∈ touches, touch.2.isElapsed = false) :
    Timer.Kept (n.touchAll touches).held (timers ++ n.startedBy bans touches)
      (n.touchAll touches).nextDelayId := by
  induction touches generalizing n timers with
  | nil => simpa [touchAll, startedBy] using h
  | cons touch touches ih =>
    obtain ⟨x, input⟩ := touch
    obtain ⟨hinput, htouches⟩ := List.forall_mem_cons.mp htouches
    rw [startedBy, ← List.append_assoc]
    exact ih (kept_touch h hinput) htouches

end TouchAll

section Touches

theorem takeWhile_congr {α : Type*} {p q : α → Bool} {l : List α} (h : ∀ a ∈ l, p a = q a) :
    l.takeWhile p = l.takeWhile q := by
  induction l with
  | nil => rfl
  | cons a l ih =>
    obtain ⟨ha, hl⟩ := List.forall_mem_cons.mp h
    rw [List.takeWhile_cons, List.takeWhile_cons, ha, ih hl]

theorem closeIn_eq_touchAll {now : Instant} {peer : PeerId} {c : ConnectionId} {sets : List SetId}
    (hnodup : sets.Nodup) : closeIn now peer n c sets =
      n.touchAll ((sets.takeWhile fun set => (peer, set) ∈ n.peers).map fun set =>
        ((peer, set), .connectionClosed now c)) := by
  induction sets generalizing n with
  | nil => rfl
  | cons set sets ih =>
    obtain ⟨hnot, hnodup⟩ := List.nodup_cons.mp hnodup
    rw [closeIn]
    by_cases hmem : (peer, set) ∈ n.peers
    · obtain ⟨state, hstate⟩ := Dict.mem_iff.mp hmem
      -- the sets that follow are not touched
      have hsame : ∀ set' ∈ sets, decide ((peer, set') ∈ (n.touch peer set
          (.connectionClosed now c)).peers) = decide ((peer, set') ∈ n.peers) := by
        intro set' hset'
        have hleaves : Leaves (peer, set') n (n.touch peer set (.connectionClosed now c)) :=
          leaves_touch (ne_of_notMem hnot set' hset').symm
        simp only [Dict.mem_iff_isSome, hleaves.entry]
      rw [hstate, List.takeWhile_cons_of_pos (by simpa using hmem), ← takeWhile_congr hsame]
      exact ih hnodup
    · rw [Dict.notMem_iff.mp hmem, List.takeWhile_cons_of_neg (by simpa using hmem)]
      rfl

theorem foldl_eq_touchAll {peer : PeerId} (sets : List SetId) :
    sets.foldl (fun n set => n.touch peer set input) n =
      n.touchAll (sets.map fun set => ((peer, set), input)) := by
  rw [touchAll, List.foldl_map]

theorem sameTimers_answer {index : IncomingIndex} {request : IncomingPeer}
    (hfind : n.incoming.find? (·.incomingId = index) = some request) (halive : request.alive)
    (hinput : input = .accept ∨ input = .reject) :
    SameTimers (n.touchAll (n.answered index input))
      ((n.takeIncoming index).touch request.peerId request.setId input) := by
  have hreaction : (n.takeIncoming index).reaction request.peerId request.setId input =
      n.reaction request.peerId request.setId input := by
    rcases hinput with rfl | rfl <;> simp only [reaction, takeIncoming] <;> split <;> rfl
  rw [answered, hfind, touch, hreaction]
  simp only [if_pos halive]
  exact ⟨fun _ => rfl, rfl, rfl⟩

theorem sameTimers_answersRequest {index : IncomingIndex} {n' : Notifications}
    (h : n.AnswersRequest index input n') (hinput : input = .accept ∨ input = .reject) :
    SameTimers (n.touchAll (n.answered index input)) n' := by
  cases h with
  | unknown hfind =>
    rw [answered, hfind]
    exact .refl n
  | alive hfind halive => exact sameTimers_answer hfind halive hinput
  | retired hfind hdead =>
    rw [answered, hfind]
    simp only [if_neg hdead]
    exact ⟨fun _ => rfl, rfl, rfl⟩

end Touches

section Elapsed

variable {now : Instant} {number : DelayId}

/-- A timer that the pair does not wait for does nothing. -/
theorem reaction_of_stale (h : ∀ deadline, n.held x ≠ some (number, deadline)) :
    n.reaction x.1 x.2 (.delayElapsed now number) = { entry := n.peers.get? x } := by
  unfold held at h
  rw [reaction]
  cases hentry : n.peers.get? x with
  | none => rfl
  | some state =>
    rw [hentry] at h
    exact PeerState.delayElapsed_of_stale now h

theorem get?_touch_of_stale (h : ∀ deadline, n.held x ≠ some (number, deadline)) :
    (n.touch x.1 x.2 (.delayElapsed now number)).peers.get? y = n.peers.get? y := by
  by_cases hy : y = x
  · rw [hy, get?_touch_self, reaction_of_stale h]
  · exact (leaves_touch hy).entry

theorem quiet_touch_of_stale (h : ∀ deadline, n.held x ≠ some (number, deadline)) :
    (n.touch x.1 x.2 (.delayElapsed now number)).events = n.events ∧
      (n.touch x.1 x.2 (.delayElapsed now number)).calls = n.calls := by
  rw [touch, reaction_of_stale h]
  exact ⟨List.append_nil _, List.append_nil _⟩

theorem get?_touch_of_backoff {deadline : Instant}
    (h : n.peers.get? x = some (.backoff number deadline)) :
    (n.touch x.1 x.2 (.delayElapsed now number)).peers.get? x = none := by
  rw [get?_touch_self, reaction, h]
  simp [PeerState.react, PeerState.delayElapsed, Reaction.remove]

theorem reaction_of_held (ban : ℕ) {deadline : Instant} (h : n.held x = some (number, deadline)) :
    (n.reaction x.1 x.2 (.delayElapsed now number)).delay = .none ∧
        (n.touch x.1 x.2 (.delayElapsed now number)).held x = none ∨
      (n.reaction x.1 x.2 (.delayElapsed now number)).delay = .again number ∧
        (n.touch x.1 x.2 (.delayElapsed now number)).held x = some (number,
          PeerState.firesAt ban (.delayElapsed now number) (n.peers.get? x)) := by
  rw [held_touch_self, reaction]
  unfold held at h
  cases hentry : n.peers.get? x with
  | none =>
    rw [hentry] at h
    cases h
  | some state =>
    rw [hentry] at h
    exact PeerState.delayElapsed_of_held ban now h

theorem kept_fire {t : Timer (PeerId × SetId)} (h : Timer.Kept n.held timers n.nextDelayId)
    (ht : t ∈ timers) :
    Timer.Kept (n.touch t.owner.1 t.owner.2 (.delayElapsed now t.number)).held
      (timers.erase t ++ n.started ban t.owner (.delayElapsed now t.number))
      (n.touch t.owner.1 t.owner.2 (.delayElapsed now t.number)).nextDelayId := by
  have hother : ∀ y ≠ t.owner,
      (n.touch t.owner.1 t.owner.2 (.delayElapsed now t.number)).held y = n.held y :=
    fun y hy => held_touch_of_ne hy
  by_cases hheld : ∃ deadline, n.held t.owner = some (t.number, deadline)
  · obtain ⟨deadline, hheld⟩ := hheld
    rcases reaction_of_held ban hheld with ⟨hdelay, hself⟩ | ⟨hdelay, hself⟩
    · rw [started_of_none hdelay, List.append_nil, nextDelayId_of_ne (by rw [hdelay]; decide)]
      refine h.fire ht (fun y => ?_) (by simp [hself])
      by_cases hy : y = t.owner
      · exact .inl (hy ▸ hself)
      · exact .inr (hother y hy)
    · rw [started, hdelay, nextDelayId_of_ne (by rw [hdelay]; simp)]
      exact h.fire_again ht hother hself
  · push Not at hheld
    have hreaction : n.reaction t.owner.1 t.owner.2 (.delayElapsed now t.number) = _ :=
      reaction_of_stale hheld
    have hsame : (n.touch t.owner.1 t.owner.2 (.delayElapsed now t.number)).held = n.held := by
      funext y
      rw [held, held, get?_touch_of_stale hheld]
    rw [started_of_none (by rw [hreaction]), List.append_nil,
      nextDelayId_of_ne (by rw [hreaction]; simp), hsame]
    exact h.fire ht (fun y => .inr rfl) hheld

end Elapsed

end Notifications

namespace Driven

variable {d : Driven} {input : NotificationsInput}

theorem sameTimers_next (hinput : input.isElapsed = false) :
    Notifications.SameTimers (d.notifications.touchAll (d.notifications.touches input))
      (d.next input).notifications := by
  cases input with
  | connectionEstablished peer c =>
    simp only [next, Notifications.onConnectionEstablished, Notifications.touches,
      Notifications.foldl_eq_touchAll]
    exact .refl _
  | connectionClosed now peer c =>
    simp only [next, Notifications.onConnectionClosed, Notifications.touches,
      Notifications.closeIn_eq_touchAll List.nodup_range]
    exact .refl _
  | dialFailure now peer =>
    simp only [next, Notifications.onDialFailure, Notifications.touches,
      Notifications.foldl_eq_touchAll]
    exact .refl _
  | handlerEvent peer c event ban => exact .refl _
  | peersetMessage now message =>
    cases message with
    | connect | drop => exact .refl _
    | accept index =>
      have hanswers := d.notifications.answersRequest_accept index
      exact Notifications.sameTimers_answersRequest hanswers (.inl rfl)
    | reject index =>
      have hanswers := d.notifications.answersRequest_reject index
      exact Notifications.sameTimers_answersRequest hanswers (.inr rfl)
  | delayElapsed now delayId peer set => cases hinput
  | disconnectPeer now peer set => exact .refl _
  | popEvent => exact ⟨fun _ => rfl, rfl, rfl⟩

theorem isElapsed_of_mem_touches (hinput : input.isElapsed = false) :
    ∀ touch ∈ d.notifications.touches input, touch.2.isElapsed = false := by
  have hanswered : ∀ index answer, PairInput.isElapsed answer = false →
      ∀ touch ∈ d.notifications.answered index answer, touch.2.isElapsed = false := by
    intro index answer hanswer touch htouch
    unfold Notifications.answered at htouch
    split at htouch
    · split at htouch
      · rw [List.mem_singleton.mp htouch]
        exact hanswer
      · cases htouch
    · cases htouch
  cases input with
  | peersetMessage now message =>
    cases message with
    | accept index => exact hanswered index .accept rfl
    | reject index => exact hanswered index .reject rfl
    | _ => simp [Notifications.touches, PairInput.isElapsed]
  | delayElapsed now delayId peer set => cases hinput
  | _ => simp [Notifications.touches, PairInput.isElapsed]

end Driven

/-- The behaviour with the timers that did not fire yet. -/
structure Timed where
  driven : Driven
  timers : List (Timer (PeerId × SetId))

inductive TimedInput where
  | fire (now : Instant) (timer : Timer (PeerId × SetId))
  /-- The behaviour is called, but not for a timer; `bans` are the seconds that are drawn for the
  sets. -/
  | call (bans : SetId → ℕ) (input : NotificationsInput)

namespace Timed

def start (numProtocols : ℕ) : Timed := ⟨.start numProtocols, []⟩

variable (t : Timed)

def notifications : Notifications := t.driven.notifications

def elapsed (now : Instant) (timer : Timer (PeerId × SetId)) : NotificationsInput :=
  .delayElapsed now timer.number timer.owner.1 timer.owner.2

def next : TimedInput → Timed
  | .fire now timer =>
    { driven := t.driven.next (elapsed now timer)
      timers := t.timers.erase timer ++
        t.notifications.started 0 timer.owner (.delayElapsed now timer.number) }
  | .call bans input =>
    { driven := t.driven.next input
      timers := t.timers ++ t.notifications.startedBy bans (t.notifications.touches input) }

def Admissible : TimedInput → Prop
  | .fire now timer => timer ∈ t.timers ∧ timer.firesAt ≤ now
  | .call _ input => input.isElapsed = false

def Step (input : TimedInput) (t' : Timed) : Prop := t.Admissible input ∧ t.next input = t'

/-- The timers are those of `delays`, their numbers were given once, and every entry that waits
waits for one of its own. -/
structure Consistent : Prop where
  kept : Timer.Kept t.notifications.held t.timers t.notifications.nextDelayId
  delays : t.notifications.delays = t.timers.map fun timer => (timer.number, timer.owner)

variable {t} {t' : Timed} {input : TimedInput}

theorem consistent_start (numProtocols : ℕ) : (start numProtocols).Consistent :=
  ⟨.nil fun _ => rfl, rfl⟩

theorem Consistent.fire (h : t.Consistent) {now : Instant} {timer : Timer (PeerId × SetId)}
    (hmem : timer ∈ t.timers) : (t.next (.fire now timer)).Consistent where
  kept := Notifications.kept_fire h.kept hmem
  delays := by
    have hnodup : (t.timers.map fun timer => (timer.number, timer.owner)).Nodup :=
      List.Nodup.of_map Prod.fst (by simpa [Function.comp_def] using h.kept.nodup)
    have herase : t.notifications.delays.erase (timer.number, timer.owner) =
        (t.timers.erase timer).map fun timer => (timer.number, timer.owner) := by
      rw [h.delays, map_erase_of_nodup hnodup hmem]
    rw [next, List.map_append, ← herase]
    exact Notifications.delays_touch 0

theorem Consistent.call (h : t.Consistent) {bans : SetId → ℕ} {input : NotificationsInput}
    (hinput : input.isElapsed = false) : (t.next (.call bans input)).Consistent := by
  have hsame : Notifications.SameTimers (t.notifications.touchAll (t.notifications.touches input))
    (t.next (.call bans input)).notifications := Driven.sameTimers_next hinput
  refine ⟨?_, ?_⟩
  · rw [hsame.held, hsame.nextDelayId]
    exact Notifications.kept_touchAll h.kept (Driven.isElapsed_of_mem_touches hinput)
  · rw [hsame.delays, Notifications.delays_touchAll bans, h.delays]
    exact (List.map_append ..).symm

theorem Consistent.step (h : t.Consistent) (hstep : t.Step input t') : t'.Consistent := by
  obtain ⟨hadm, rfl⟩ := hstep
  cases input with
  | fire now timer => exact h.fire hadm.1
  | call bans input => exact h.call hadm

/-- What is expected of the timers. -/
structure Sound (t : Timed) : Prop where
  /-- The timers are those of `delays`. -/
  delays : t.notifications.delays = t.timers.map fun timer => (timer.number, timer.owner)
  /-- An entry that waits has exactly one timer with its number, which fires at its deadline. -/
  outstanding : ∀ x number deadline, t.notifications.held x = some (number, deadline) →
    t.timers.filter (·.number = number) = [⟨number, x, deadline⟩]
  distinct : ∀ x y number deadline deadline', t.notifications.held x = some (number, deadline) →
    t.notifications.held y = some (number, deadline') → x = y
  /-- A timer changes only the entry of its owner, and only if that one waits for it. -/
  own : ∀ now, ∀ timer ∈ t.timers, ∀ x,
    (t.next (.fire now timer)).notifications.peers.get? x ≠ t.notifications.peers.get? x →
      x = timer.owner ∧ ∃ deadline, t.notifications.held x = some (timer.number, deadline)
  /-- A timer that its owner does not wait for does nothing. -/
  stale : ∀ now, ∀ timer ∈ t.timers,
    (∀ deadline, t.notifications.held timer.owner ≠ some (timer.number, deadline)) →
      (t.next (.fire now timer)).notifications.events = t.notifications.events ∧
        (t.next (.fire now timer)).notifications.calls = t.notifications.calls
  /-- With its timer a backoff ends. -/
  backoff : ∀ now x number deadline,
    t.notifications.peers.get? x = some (.backoff number deadline) →
      (t.next (.fire now ⟨number, x, deadline⟩)).notifications.peers.get? x = none

section Fire

variable {now : Instant} {timer : Timer (PeerId × SetId)} {x : PeerId × SetId}

theorem waits_of_fire (h : (t.next (.fire now timer)).notifications.peers.get? x ≠
    t.notifications.peers.get? x) :
    x = timer.owner ∧ ∃ deadline, t.notifications.held x = some (timer.number, deadline) := by
  have hx : x = timer.owner := by
    by_contra hne
    exact h (Notifications.leaves_touch hne).entry
  refine ⟨hx, ?_⟩
  by_contra hstale
  push Not at hstale
  rw [hx] at h hstale
  exact h (Notifications.get?_touch_of_stale hstale)

end Fire

theorem Consistent.sound (h : t.Consistent) : t.Sound where
  delays := h.delays
  outstanding _ _ _ hx := h.kept.filter_number hx
  distinct _ _ _ _ _ hx hy := h.kept.owner_unique hx hy
  own _ _ _ _ hne := waits_of_fire hne
  stale _ _ _ hstale := Notifications.quiet_touch_of_stale hstale
  backoff _ _ _ _ hx := Notifications.get?_touch_of_backoff hx

/-- At every moment an entry that waits has its timer, and no other timer affects it. -/
theorem timers_sound (numProtocols : ℕ) (inputs : List TimedInput)
    (h : Run Step (start numProtocols) inputs t) : t.Sound :=
  (h.invariant (fun _ _ _ hstep hconsistent => Consistent.step hconsistent hstep)
    (consistent_start numProtocols)).sound

/-- Dialling fails at time 3, and the timer of the backoff fires five seconds later. -/
theorem timers_sound_backoff : ∃ t, Run Step (start 1)
      [.call (fun _ => 0) (.peersetMessage 0 (.connect 0 [7])),
        .call (fun _ => 0) (.dialFailure 3 [7])] t ∧
    t.notifications.held ([7], 0) = some (0, 5000000003) ∧
    t.timers.filter (·.number = 0) = [⟨0, ([7], 0), 5000000003⟩] ∧
    (t.next (.fire 5000000003 ⟨0, ([7], 0), 5000000003⟩)).notifications.peers.get? ([7], 0) =
      none := by
  obtain ⟨t, ht, hentry⟩ : ∃ t, Run Step (start 1)
      [.call (fun _ => 0) (.peersetMessage 0 (.connect 0 [7])),
        .call (fun _ => 0) (.dialFailure 3 [7])] t ∧
      t.notifications.peers.get? ([7], 0) = some (.backoff 0 5000000003) :=
    ⟨_, .cons ⟨rfl, rfl⟩ (.cons ⟨rfl, rfl⟩ (.nil _)), rfl⟩
  have hheld : t.notifications.held ([7], 0) = some (0, 5000000003) := by
    rw [Notifications.held, hentry]
    rfl
  have hsound := timers_sound 1 _ ht
  exact ⟨t, ht, hheld, hsound.outstanding _ _ _ hheld, hsound.backoff _ _ _ _ hentry⟩

end Timed

end SwarmHost.Substrate
