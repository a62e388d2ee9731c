import Mathlib.Data.List.Range
import SwarmHost.Notifications.Behaviour

/-! # One pair of a peer and a set

What the behaviour holds for one pair are its entry, the events about it that
wait and the requests of the remote that are alive. Any input either leaves all
of this alone or makes the pair react once, to what it held before.
-/

namespace SwarmHost.Substrate

def NotificationsOut.pair : NotificationsOut → PeerId × SetId
  | .customProtocolOpen peer set .. | .customProtocolReplaced peer set _
  | .customProtocolClosed peer set | .notification peer set _ => (peer, set)

def NotifsHandlerIn.index : NotifsHandlerIn → ℕ
  | .open i | .close i => i

def NetworkBehaviourAction.pair? : NetworkBehaviourAction → Option (PeerId × SetId)
  | .generateEvent event => some event.pair
  | .notifyHandler peer _ event => some (peer, event.index)
  | .dial _ => none

def PairInput.reaction (x : PeerId × SetId) (env : Surroundings) (input : PairInput) :
    Option PeerState → Reaction
  | some state => state.react x.1 x.2 env input
  | none => PeerState.insert x.1 x.2 env input

def IncomingChange.apply (change : IncomingChange) (index : IncomingIndex)
    (alive : List IncomingIndex) : List IncomingIndex :=
  match change with
  | .keep => alive
  | .ask => alive ++ [index]
  | .retire => alive.tail

/-- The action is about the pair or about none. -/
def NetworkBehaviourAction.About (peer : PeerId) (set : SetId) (e : NetworkBehaviourAction) :
    Prop :=
  e.pair? = some (peer, set) ∨ e.pair? = none

/-- Everything that is done is about the pair. -/
def Reaction.Own (peer : PeerId) (set : SetId) (r : Reaction) : Prop :=
  ∀ e ∈ r.events, e.About peer set

namespace PeerState

section Own

open NetworkBehaviourAction Reaction

variable {peer : PeerId} {set : SetId} {cs : Connections}

@[simp] theorem about_openCommand (c : ConnectionId) : (openCommand peer set c).About peer set :=
  .inl rfl

@[simp] theorem about_closeCommand (c : ConnectionId) : (closeCommand peer set c).About peer set :=
  .inl rfl

@[simp] theorem about_dial (peer' : PeerId) : (dial peer').About peer set := .inr rfl

@[simp] theorem about_generateEvent {event : NotificationsOut} :
    (generateEvent event).About peer set ↔ event.pair = (peer, set) := by
  simp [About, NetworkBehaviourAction.pair?]

theorem about_closedEvent : ∀ e ∈ closedEvent peer set cs, e.About peer set := by
  unfold closedEvent
  split <;> simp [NotificationsOut.pair]

theorem about_lostEvents (position : ℕ) :
    ∀ e ∈ lostEvents peer set position cs, e.About peer set := by
  unfold lostEvents
  split
  · split <;> simp [NotificationsOut.pair]
  · simp [NotificationsOut.pair]

@[simp] theorem own_keep (state : PeerState) : (keep state).Own peer set := by
  simp [Own, keep]

@[simp] theorem own_remove : remove.Own peer set := by
  simp [Own, remove]

@[simp] theorem own_poison : poison.Own peer set := by
  simp [Own, poison]

theorem own_disconnectPeerInner (now : Instant) (ban : Option ℕ) (alive : Bool)
    (state : PeerState) : (state.disconnectPeerInner peer set now ban alive).Own peer set := by
  cases state with
  | enabled cs =>
    simp only [disconnectPeerInner, Own, List.forall_mem_append, List.forall_mem_map]
    exact ⟨⟨about_closedEvent, by simp⟩, by simp⟩
  | incoming cs backoffUntil =>
    simp only [disconnectPeerInner]
    split <;> simp [Own, poison]
  | disabledPendingEnable => simp [disconnectPeerInner, Own]
  | _ => simp [disconnectPeerInner]

theorem own_enableOrDelay (delayId : DelayId) (deadline : Instant) :
    (enableOrDelay peer set cs delayId deadline).Own peer set := by
  unfold enableOrDelay
  split <;> simp [Own]

theorem own_peersetReportConnect (now : Instant) (delayId : DelayId) (entry : Option PeerState) :
    (peersetReportConnect peer set now delayId entry).Own peer set := by
  unfold peersetReportConnect
  split
  · simp [Own]
  · split <;> simp [Own, keep]
  · exact own_enableOrDelay _ _
  · split
    · simp [Own]
    · exact own_enableOrDelay _ _
  · simp [Own]
  · simp

theorem own_peersetReportDisconnect (state : PeerState) :
    (state.peersetReportDisconnect peer set).Own peer set := by
  cases state with
  | enabled cs =>
    simp only [peersetReportDisconnect, Own, List.forall_mem_append, List.forall_mem_map]
    exact ⟨⟨about_closedEvent, by simp⟩, by simp⟩
  | _ => simp [peersetReportDisconnect]

theorem own_connectionEstablished (c : ConnectionId) (entry : Option PeerState) :
    (connectionEstablished peer set c entry).Own peer set := by
  unfold connectionEstablished
  split <;> simp [Own, keep]

theorem own_leave (now : Instant) (delayId : DelayId) (deadline : Option Instant) :
    (leave now delayId deadline).events = [] := by
  unfold leave
  split
  · split <;> rfl
  · rfl

theorem events_connectionClosed (now : Instant) (delayId : DelayId) (c : ConnectionId)
    (cs : Connections) :
    (connectionClosed peer set now delayId c (.enabled cs)).events =
        lostEvents peer set (cs.position c) (cs.remove c) ∨
      (connectionClosed peer set now delayId c (.enabled cs)).events = [] := by
  have hevents : ∀ {p q : Prop} [Decidable p] [Decidable q] {r₁ r₂ r₃ : Reaction},
      r₁.events = r₂.events → r₃.events = r₂.events →
        (if p then r₁ else if q then r₂ else r₃).events = r₂.events := by
    intro p q _ _ r₁ r₂ r₃ h₁ h₃
    split
    · exact h₁
    · split
      · rfl
      · exact h₃
  rcases hlookup : cs.lookup c with _ | s
  · right
    simp only [connectionClosed, hlookup]
    exact hevents rfl rfl
  · cases s with
    | opened sink =>
      left
      simp only [connectionClosed, hlookup]
      exact hevents rfl rfl
    | _ =>
      right
      simp only [connectionClosed, hlookup]
      exact hevents rfl rfl

theorem own_connectionClosed (now : Instant) (delayId : DelayId) (c : ConnectionId)
    (state : PeerState) : (state.connectionClosed peer set now delayId c).Own peer set := by
  cases state with
  | enabled cs =>
    rcases events_connectionClosed now delayId c cs with heq | heq
    · rw [Own, heq]
      exact about_lostEvents _
    · simp [Own, heq]
  | disabled cs backoffUntil =>
    simp only [connectionClosed]
    split
    · simp [Own, own_leave]
    · simp
  | disabledPendingEnable =>
    simp only [connectionClosed]
    split <;> simp [Own, keep]
  | incoming =>
    simp only [connectionClosed]
    split
    · simp [Own, own_leave]
    · split <;> simp [Own, keep]
  | _ => simp [connectionClosed]

theorem own_dialFailure (now : Instant) (delayId : DelayId) (state : PeerState) :
    (state.dialFailure peer set now delayId).Own peer set := by
  cases state <;> simp [dialFailure, Own, keep]

theorem own_onHandlerEvent (env : Surroundings) (c : ConnectionId) (ban : Instant)
    (state : PeerState) (event : NotifsHandlerOut) :
    (state.onHandlerEvent peer set env c ban event).Own peer set := by
  cases event with
  | openDesiredByRemote i =>
    simp only [onHandlerEvent]
    unfold openDesiredByRemote
    split <;> first | (split <;> simp [Own, keep, poison]) | simp
  | closeDesired i =>
    simp only [onHandlerEvent]
    cases state with
    | enabled cs =>
      simp only [closeDesired]
      split
      · simp
      · simp
      · split
        all_goals
          simp only [Own, List.forall_mem_cons]
          exact ⟨by simp, about_lostEvents _⟩
    | _ => simp [closeDesired]
  | closeResult i => simp [onHandlerEvent, closeResult]
  | openResultOk i fallback handshake sink =>
    simp only [onHandlerEvent]
    unfold openResultOk
    split
    · split
      · simp only [Own]
        split <;> simp [NotificationsOut.pair]
      · simp
    · simp
  | openResultErr i =>
    simp only [onHandlerEvent]
    unfold openResultErr
    split
    · dsimp only
      split <;> simp [Own, keep]
    all_goals simp
  | notification i message =>
    simp only [onHandlerEvent, notification, Own]
    split <;> simp [NotificationsOut.pair]

theorem own_delayElapsed (now : Instant) (delayId : DelayId) (state : PeerState) :
    (state.delayElapsed peer set now delayId).Own peer set := by
  unfold delayElapsed
  split
  · split <;> simp
  · split <;> simp [Own, keep]
  · split
    · split <;> simp [Own]
    · simp
  · simp

theorem own_react (env : Surroundings) (input : PairInput) (state : PeerState) :
    (state.react peer set env input).Own peer set := by
  cases input with
  | disconnect now ban => exact own_disconnectPeerInner _ _ _ _
  | connect now => exact own_peersetReportConnect _ _ _
  | drop => exact own_peersetReportDisconnect _
  | accept => cases state <;> simp [react, accept, Own, poison]
  | reject => cases state <;> simp [react, reject, Own, poison]
  | connectionEstablished c => exact own_connectionEstablished _ _
  | connectionClosed now c => exact own_connectionClosed _ _ _ _
  | dialFailure now => exact own_dialFailure _ _ _
  | handlerEvent c event ban => exact own_onHandlerEvent _ _ _ _ _
  | delayElapsed now delayId => exact own_delayElapsed _ _ _

theorem own_insert (env : Surroundings) (input : PairInput) :
    (insert peer set env input).Own peer set := by
  cases input with
  | connect now => exact own_peersetReportConnect _ _ _
  | connectionEstablished c => exact own_connectionEstablished _ _
  | _ => exact own_remove

end Own

end PeerState

theorem PairInput.own_reaction (x : PeerId × SetId) (env : Surroundings) (input : PairInput)
    (entry : Option PeerState) : (input.reaction x env entry).Own x.1 x.2 := by
  cases entry with
  | none => exact PeerState.own_insert env input
  | some state => exact PeerState.own_react env input state

namespace Notifications

def eventsOf (n : Notifications) (x : PeerId × SetId) : List NetworkBehaviourAction :=
  n.events.filter (·.pair? = some x)

def aliveOf (n : Notifications) (x : PeerId × SetId) : List IncomingIndex :=
  (n.incoming.filter (Alive x.1 x.2 ·)).map (·.incomingId)

/-- Nothing changes for the pair. -/
structure Leaves (x : PeerId × SetId) (n n' : Notifications) : Prop where
  entry : n'.peers.get? x = n.peers.get? x
  events : n'.eventsOf x = n.eventsOf x
  alive : n'.aliveOf x = n.aliveOf x

def Takes (x : PeerId × SetId) (input : PairInput) (n n' : Notifications) : Prop :=
  ∃ env : Surroundings, (env.alive ↔ n.aliveOf x ≠ []) ∧
    n'.peers.get? x = (input.reaction x env (n.peers.get? x)).entry ∧
    n'.eventsOf x = n.eventsOf x ++
      (input.reaction x env (n.peers.get? x)).events.filter (·.pair? = some x) ∧
    n'.aliveOf x = (input.reaction x env (n.peers.get? x)).incoming.apply env.nextIncomingIndex
      (n.aliveOf x)

variable {n n' n'' : Notifications} {x y : PeerId × SetId} {peer : PeerId} {set : SetId}
  {input : PairInput}

theorem Leaves.refl (x : PeerId × SetId) (n : Notifications) : Leaves x n n := ⟨rfl, rfl, rfl⟩

theorem Leaves.trans (h : Leaves x n n') (h' : Leaves x n' n'') : Leaves x n n'' :=
  ⟨h'.entry.trans h.entry, h'.events.trans h.events, h'.alive.trans h.alive⟩

theorem Leaves.takes (h : Leaves x n n') (h' : Takes x input n' n'') : Takes x input n n'' := by
  obtain ⟨env, halive, hentry, hevents, halive'⟩ := h'
  rw [h.entry] at hentry hevents halive'
  rw [h.alive] at halive halive'
  rw [h.events] at hevents
  exact ⟨env, halive, hentry, hevents, halive'⟩

theorem Takes.leaves (h : Takes x input n n') (h' : Leaves x n' n'') : Takes x input n n'' := by
  obtain ⟨env, halive, hentry, hevents, halive'⟩ := h
  exact ⟨env, halive, h'.entry.trans hentry, h'.events.trans hevents, h'.alive.trans halive'⟩

section Touch

theorem not_alive_of_ne {r : IncomingPeer} (hne : x ≠ (peer, set)) (h : Alive peer set r) :
    ¬ Alive x.1 x.2 r := by
  rintro ⟨h₁, h₂, -⟩
  exact hne (Prod.ext (h₁.symm.trans h.1) (h₂.symm.trans h.2.1))

theorem filter_retire (rs : List IncomingPeer) :
    (retire peer set rs).filter (Alive peer set ·) = (rs.filter (Alive peer set ·)).tail := by
  induction rs with
  | nil => rfl
  | cons r rs ih =>
    by_cases h : Alive peer set r
    · have hdead : ¬ Alive peer set { r with alive := false } := fun h => by simp [Alive] at h
      simp [retire, h, hdead]
    · simp [retire, h, ih]

theorem filter_retire_of_ne (hne : x ≠ (peer, set)) (rs : List IncomingPeer) :
    (retire peer set rs).filter (Alive x.1 x.2 ·) = rs.filter (Alive x.1 x.2 ·) := by
  induction rs with
  | nil => rfl
  | cons r rs ih =>
    by_cases h : Alive peer set r
    · have hdead : ¬ Alive x.1 x.2 { r with alive := false } := fun h => by simp [Alive] at h
      simp [retire, h, hdead, not_alive_of_ne hne h]
    · by_cases hx : Alive x.1 x.2 r <;> simp [retire, h, hx, ih]

theorem alive_surroundings :
    (n.surroundings peer set).alive ↔ n.aliveOf (peer, set) ≠ [] := by
  simp [surroundings, aliveOf, List.filter_eq_nil_iff]

theorem takes_touch : Takes (peer, set) input n (n.touch peer set input) := by
  refine ⟨n.surroundings peer set, alive_surroundings, ?_, ?_, ?_⟩
  all_goals
    have hr : n.reaction peer set input =
        input.reaction (peer, set) (n.surroundings peer set) (n.peers.get? (peer, set)) := by
      unfold reaction PairInput.reaction
      split <;> simp_all
    rw [← hr, touch]
    generalize n.reaction peer set input = r
  · cases hentry : r.entry <;> simp [apply, hentry]
  · simp [apply, eventsOf]
  · cases hincoming : r.incoming with
    | keep => simp [apply, aliveOf, hincoming, IncomingChange.apply]
    | ask => simp [apply, aliveOf, hincoming, IncomingChange.apply, surroundings, Alive]
    | retire =>
      simp [apply, aliveOf, hincoming, IncomingChange.apply, filter_retire, List.map_tail]

theorem leaves_touch (hne : x ≠ (peer, set)) : Leaves x n (n.touch peer set input) := by
  have hown : (n.reaction peer set input).Own peer set := by
    unfold reaction
    split
    · exact PeerState.own_react _ _ _
    · exact PeerState.own_insert _ _
  rw [touch]
  generalize n.reaction peer set input = r at hown
  refine ⟨?_, ?_, ?_⟩
  · cases hentry : r.entry <;> simp [apply, hentry, Dict.get?_erase_ne, Dict.get?_insert_ne, hne]
  · have hnil : r.events.filter (·.pair? = some x) = [] := by
      rw [List.filter_eq_nil_iff]
      intro e he
      rcases hown e he with h | h <;> simp [h, Ne.symm hne]
    simp [apply, eventsOf, hnil]
  · cases hincoming : r.incoming with
    | keep => simp [apply, aliveOf, hincoming]
    | ask =>
      have hother : ¬ Alive x.1 x.2 ⟨peer, set, true, n.nextIncomingIndex⟩ :=
        not_alive_of_ne hne ⟨rfl, rfl, rfl⟩
      simp [apply, aliveOf, hincoming, hother]
    | retire => simp [apply, aliveOf, hincoming, filter_retire_of_ne hne]

end Touch

section Sets

variable {sets : List SetId}

theorem leaves_foldl (hx : ∀ set ∈ sets, x ≠ (peer, set)) :
    Leaves x n (sets.foldl (fun n set => n.touch peer set input) n) := by
  induction sets generalizing n with
  | nil => exact .refl _ n
  | cons set sets ih =>
    have htouch : Leaves x n (n.touch peer set input) := leaves_touch (hx set List.mem_cons_self)
    exact htouch.trans (ih fun set' h => hx set' (List.mem_cons_of_mem _ h))

theorem leaves_closeIn {now : Instant} {c : ConnectionId} (hx : ∀ set ∈ sets, x ≠ (peer, set)) :
    Leaves x n (closeIn now peer n c sets) := by
  induction sets generalizing n with
  | nil => exact .refl _ n
  | cons set sets ih =>
    rw [closeIn]
    split
    · exact .refl _ n
    · have htouch : Leaves x n (n.touch peer set (.connectionClosed now c)) :=
        leaves_touch (hx set List.mem_cons_self)
      exact htouch.trans (ih fun set' h => hx set' (List.mem_cons_of_mem _ h))

theorem ne_of_notMem (hset : set ∉ sets) : ∀ set' ∈ sets, (peer, set) ≠ (peer, set') := by
  rintro set' hset' ⟨⟩
  exact hset hset'

theorem takes_foldl (hnodup : sets.Nodup) (hset : set ∈ sets) :
    Takes (peer, set) input n (sets.foldl (fun n set => n.touch peer set input) n) := by
  induction sets generalizing n with
  | nil => cases hset
  | cons set' sets ih =>
    obtain ⟨hnot, hnodup⟩ := List.nodup_cons.mp hnodup
    rcases List.mem_cons.mp hset with rfl | hmem
    · exact takes_touch.leaves (leaves_foldl (ne_of_notMem hnot))
    · have hne : (peer, set) ≠ (peer, set') := (ne_of_notMem hnot set hmem).symm
      have htouch : Leaves (peer, set) n (n.touch peer set' input) := leaves_touch hne
      exact htouch.takes (ih hnodup hmem)

theorem closeIn_eq_foldl {now : Instant} {c : ConnectionId} (hnodup : sets.Nodup)
    (hentry : ∀ set ∈ sets, (peer, set) ∈ n.peers) :
    closeIn now peer n c sets =
      sets.foldl (fun n set => n.touch peer set (.connectionClosed now c)) n := by
  induction sets generalizing n with
  | nil => rfl
  | cons set sets ih =>
    obtain ⟨hnot, hnodup⟩ := List.nodup_cons.mp hnodup
    obtain ⟨state, hstate⟩ := Dict.mem_iff.mp (hentry set List.mem_cons_self)
    rw [closeIn, hstate, List.foldl_cons]
    apply ih hnodup
    intro set' hset'
    have hne : (peer, set') ≠ (peer, set) := (ne_of_notMem hnot set' hset').symm
    have hleaves : Leaves (peer, set') n (n.touch peer set (.connectionClosed now c)) :=
      leaves_touch hne
    rw [Dict.mem_iff_isSome, hleaves.entry, ← Dict.mem_iff_isSome]
    exact hentry set' (List.mem_cons_of_mem _ hset')

theorem closeIn_cases {now : Instant} {c : ConnectionId} (hnodup : sets.Nodup) :
    Leaves x n (closeIn now peer n c sets) ∨
      Takes x (.connectionClosed now c) n (closeIn now peer n c sets) := by
  induction sets generalizing n with
  | nil => exact .inl (.refl _ n)
  | cons set sets ih =>
    obtain ⟨hnot, hnodup⟩ := List.nodup_cons.mp hnodup
    rw [closeIn]
    split
    · exact .inl (.refl _ n)
    · by_cases hx : x = (peer, set)
      · subst hx
        exact .inr (takes_touch.leaves (leaves_closeIn (ne_of_notMem hnot)))
      · have htouch : Leaves x n (n.touch peer set (.connectionClosed now c)) := leaves_touch hx
        rcases @ih (n.touch peer set (.connectionClosed now c)) hnodup with h | h
        · exact .inl (htouch.trans h)
        · exact .inr (htouch.takes h)

end Sets

end Notifications

end SwarmHost.Substrate
