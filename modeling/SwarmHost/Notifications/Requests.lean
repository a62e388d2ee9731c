import Mathlib.Data.List.Nodup
import SwarmHost.Notifications.Poison

/-! # Requests of the remote

The peerset is asked about a request of the remote when its handler reports one
while the entry is disabled, and at no other time. Every request has a number of
its own, and one that was answered, retired or never made is not alive.
-/

namespace SwarmHost.Substrate

def PeersetCall.isDropped : PeersetCall → Bool
  | .dropped .. => true
  | .incoming .. => false

def PeerState.asks (c : ConnectionId) : NotifsHandlerOut → PeerState → Bool
  | .openDesiredByRemote _, .disabled cs _ => cs.lookup c = some .closed
  | _, _ => false

def PairInput.asks (entry : Option PeerState) : PairInput → Bool
  | .handlerEvent c event _ => entry.any (PeerState.asks c event)
  | _ => false

/-- The peerset is not asked. -/
structure Reaction.Quiet (r : Reaction) : Prop where
  incoming : r.incoming ≠ .ask
  calls : ∀ call ∈ r.calls, call.isDropped

section Quiet

open PeerState Reaction

variable {peer : PeerId} {set : SetId} {c : ConnectionId} {state : PeerState}

theorem quiet_keep (state : PeerState) : (keep state).Quiet := ⟨by simp [keep], by simp [keep]⟩

theorem quiet_poison : poison.Quiet := ⟨by simp [poison], by simp [poison]⟩

theorem quiet_remove : remove.Quiet := ⟨by simp [remove], by simp [remove]⟩

theorem quiet_disconnectPeerInner (now : Instant) (ban : Option ℕ) (alive : Bool)
    (state : PeerState) : (state.disconnectPeerInner peer set now ban alive).Quiet := by
  cases state with
  | incoming cs backoffUntil =>
    simp only [disconnectPeerInner]
    split
    · exact ⟨by simp, by simp⟩
    · exact quiet_poison
  | enabled cs => exact ⟨by simp [disconnectPeerInner], by simp [disconnectPeerInner,
      PeersetCall.isDropped]⟩
  | disabledPendingEnable cs timer deadline =>
    exact ⟨by simp [disconnectPeerInner], by simp [disconnectPeerInner, PeersetCall.isDropped]⟩
  | poisoned => exact quiet_poison
  | _ => exact quiet_keep _

theorem quiet_enableOrDelay (cs : Connections) (delayId : DelayId) (deadline : Instant) :
    (enableOrDelay peer set cs delayId deadline).Quiet := by
  unfold enableOrDelay
  split <;> exact ⟨by simp, by simp⟩

theorem quiet_peersetReportConnect (now : Instant) (delayId : DelayId) (entry : Option PeerState) :
    (peersetReportConnect peer set now delayId entry).Quiet := by
  unfold peersetReportConnect
  split
  · exact ⟨by simp, by simp⟩
  · split
    · exact quiet_keep _
    · exact ⟨by simp, by simp⟩
  · exact quiet_enableOrDelay ..
  · split
    · exact ⟨by simp, by simp⟩
    · exact quiet_enableOrDelay ..
  · exact ⟨by simp, by simp⟩
  · exact quiet_keep _

theorem quiet_peersetReportDisconnect (state : PeerState) :
    (state.peersetReportDisconnect peer set).Quiet := by
  cases state with
  | enabled cs => exact ⟨by simp [peersetReportDisconnect], by simp [peersetReportDisconnect]⟩
  | requested => exact quiet_remove
  | _ => exact quiet_keep _

theorem quiet_accept (state : PeerState) : (state.accept peer set).Quiet := by
  cases state with
  | incoming cs backoffUntil => exact ⟨by simp [accept], by simp [accept]⟩
  | _ => exact quiet_poison

theorem quiet_reject (state : PeerState) : (state.reject peer set).Quiet := by
  cases state with
  | incoming cs backoffUntil => exact ⟨by simp [reject], by simp [reject]⟩
  | _ => exact quiet_poison

theorem quiet_leave (now : Instant) (delayId : DelayId) (deadline : Option Instant) :
    (leave now delayId deadline).Quiet := by
  unfold leave
  split
  · split
    · exact ⟨by simp, by simp⟩
    · exact quiet_remove
  · exact quiet_remove

theorem quiet_connectionClosed (now : Instant) (delayId : DelayId) (c : ConnectionId)
    (state : PeerState) : (state.connectionClosed peer set now delayId c).Quiet := by
  cases state with
  | disabled cs backoffUntil =>
    simp only [connectionClosed]
    split
    · exact quiet_leave ..
    · exact quiet_keep _
  | disabledPendingEnable cs timer deadline =>
    simp only [connectionClosed]
    split
    · exact ⟨by simp, by simp [PeersetCall.isDropped]⟩
    · exact quiet_keep _
  | incoming cs backoffUntil =>
    simp only [connectionClosed]
    split
    · exact ⟨by simp, (quiet_leave now delayId backoffUntil).calls⟩
    · split
      · exact quiet_keep _
      · exact ⟨by simp, by simp⟩
  | enabled cs =>
    simp only [connectionClosed]
    split
    · exact ⟨by simp, by simp [PeersetCall.isDropped]⟩
    · split
      · exact ⟨by simp, by simp⟩
      · exact ⟨by simp, by simp [PeersetCall.isDropped]⟩
  | _ => exact quiet_poison

theorem quiet_openDesiredByRemote (index : IncomingIndex) {i : ℕ}
    (h : state.asks c (.openDesiredByRemote i) = false) :
    (state.openDesiredByRemote peer set c index).Quiet := by
  cases state with
  | disabled cs backoffUntil =>
    simp only [openDesiredByRemote]
    split
    · next hc => simp [asks, hc] at h
    · exact quiet_keep _
    · exact quiet_poison
  | incoming cs backoffUntil =>
    simp only [openDesiredByRemote]
    split <;> exact quiet_keep _
  | enabled cs =>
    simp only [openDesiredByRemote]
    split
    · exact ⟨by simp, by simp⟩
    · exact quiet_keep _
  | disabledPendingEnable cs timer deadline =>
    simp only [openDesiredByRemote]
    split
    · exact ⟨by simp, by simp⟩
    · exact quiet_keep _
    · exact quiet_poison
  | _ => exact quiet_poison

theorem quiet_closeDesired (c : ConnectionId) (state : PeerState) :
    (state.closeDesired peer set c).Quiet := by
  cases state with
  | enabled cs =>
    simp only [closeDesired]
    split
    · exact quiet_poison
    · exact quiet_keep _
    · split
      · exact ⟨by simp, by simp⟩
      · exact ⟨by simp, by simp [PeersetCall.isDropped]⟩
  | disabled | disabledPendingEnable => exact quiet_keep _
  | _ => exact quiet_poison

theorem quiet_openResultOk (c : ConnectionId) (fallback : Option ProtocolName) (handshake : Bytes)
    (sink : NotificationsSink) (state : PeerState) :
    (state.openResultOk peer set c fallback handshake sink).Quiet := by
  cases state with
  | enabled cs =>
    simp only [openResultOk]
    split
    · exact ⟨by simp, by simp⟩
    · exact quiet_keep _
  | _ => exact quiet_keep _

theorem quiet_openResultErr (c : ConnectionId) (ban : Instant) (state : PeerState) :
    (state.openResultErr peer set c ban).Quiet := by
  cases state with
  | enabled cs =>
    simp only [openResultErr]
    split
    · exact quiet_keep _
    · exact ⟨by simp, by simp [PeersetCall.isDropped]⟩
  | incoming | disabledPendingEnable | disabled => exact quiet_keep _
  | _ => exact quiet_poison

theorem quiet_delayElapsed (now : Instant) (delayId : DelayId) (state : PeerState) :
    (state.delayElapsed peer set now delayId).Quiet := by
  unfold delayElapsed
  split
  · split
    · exact quiet_remove
    · exact quiet_keep _
  · split
    · exact ⟨by simp, by simp⟩
    · exact quiet_keep _
  · split
    · split <;> exact ⟨by simp, by simp⟩
    · exact quiet_keep _
  · exact quiet_keep _

theorem quiet_dialFailure (now : Instant) (delayId : DelayId) (state : PeerState) :
    (state.dialFailure peer set now delayId).Quiet := by
  cases state with
  | requested | pendingRequest =>
    exact ⟨by simp [dialFailure], by simp [dialFailure, PeersetCall.isDropped]⟩
  | _ => exact quiet_keep _

theorem quiet_connectionEstablished (c : ConnectionId) (entry : Option PeerState) :
    (connectionEstablished peer set c entry).Quiet := by
  unfold connectionEstablished
  split
  · exact ⟨by simp, by simp⟩
  · exact ⟨by simp, by simp⟩
  all_goals exact quiet_keep _

theorem quiet_onHandlerEvent (env : Surroundings) (ban : Instant) {event : NotifsHandlerOut}
    (h : state.asks c event = false) : (state.onHandlerEvent peer set env c ban event).Quiet := by
  cases event with
  | openDesiredByRemote i => exact quiet_openDesiredByRemote _ h
  | closeDesired i => exact quiet_closeDesired c state
  | closeResult i => exact quiet_keep _
  | openResultOk i fallback handshake sink =>
    exact quiet_openResultOk c fallback handshake sink state
  | openResultErr i => exact quiet_openResultErr c ban state
  | notification i message => exact ⟨by simp [onHandlerEvent, PeerState.notification],
      by simp [onHandlerEvent, PeerState.notification]⟩

theorem PairInput.quiet_reaction {x : PeerId × SetId} {env : Surroundings} {input : PairInput}
    {entry : Option PeerState} (h : input.asks entry = false) :
    (input.reaction x env entry).Quiet := by
  rcases entry with _ | state
  · cases input with
    | connect now =>
      change (peersetReportConnect x.1 x.2 now env.nextDelayId none).Quiet
      exact quiet_peersetReportConnect ..
    | connectionEstablished c =>
      change (PeerState.connectionEstablished x.1 x.2 c none).Quiet
      exact quiet_connectionEstablished ..
    | _ => exact quiet_remove
  · cases input with
    | disconnect now ban => exact quiet_disconnectPeerInner ..
    | connect now => exact quiet_peersetReportConnect ..
    | drop => exact quiet_peersetReportDisconnect state
    | accept => exact quiet_accept state
    | reject => exact quiet_reject state
    | connectionEstablished c => exact quiet_connectionEstablished ..
    | connectionClosed now c => exact quiet_connectionClosed ..
    | dialFailure now => exact quiet_dialFailure ..
    | handlerEvent c event ban => exact quiet_onHandlerEvent env ban h
    | delayElapsed now delayId => exact quiet_delayElapsed ..

theorem PairInput.reaction_of_asks {x : PeerId × SetId} {env : Surroundings} {input : PairInput}
    {entry : Option PeerState} (h : input.asks entry) :
    (input.reaction x env entry).incoming = .ask ∧
      (input.reaction x env entry).calls = [.incoming x.2 x.1 env.nextIncomingIndex] := by
  cases input with
  | handlerEvent c event ban =>
    rcases entry with _ | state
    · cases h
    · cases event with
      | openDesiredByRemote i =>
        cases state with
        | disabled cs backoffUntil =>
          have hc : cs.lookup c = some .closed := by
            simpa [PairInput.asks, PeerState.asks] using h
          simp [PairInput.reaction, react, onHandlerEvent, openDesiredByRemote, hc]
        | _ => cases h
      | _ => cases h
  | _ => cases h

end Quiet

namespace Notifications

variable {n n' n'' : Notifications} {x : PeerId × SetId} {peer : PeerId} {set : SetId}
  {input : PairInput} {index : IncomingIndex}

/-- The numbers of the requests. -/
def incomingIds (n : Notifications) : List IncomingIndex := n.incoming.map (·.incomingId)

theorem mem_incomingIds_of_alive (h : index ∈ n.aliveOf x) : index ∈ n.incomingIds := by
  obtain ⟨r, hr, rfl⟩ := List.mem_map.mp h
  exact List.mem_map.mpr ⟨r, List.mem_of_mem_filter hr, rfl⟩

/-- Every request has its own number, and those that will be given are new. -/
structure Numbered (n : Notifications) : Prop where
  nodup : n.incomingIds.Nodup
  lt : ∀ i ∈ n.incomingIds, i < n.nextIncomingIndex

/-- No request is made. -/
structure Quiet (n n' : Notifications) : Prop where
  calls : ∃ calls, n'.calls = n.calls ++ calls ∧ ∀ call ∈ calls, call.isDropped
  ids : n'.incomingIds.Sublist n.incomingIds
  index : n'.nextIncomingIndex = n.nextIncomingIndex
  alive : ∀ x, (n'.aliveOf x).Sublist (n.aliveOf x)

theorem Quiet.refl (n : Notifications) : Quiet n n :=
  ⟨⟨[], by simp, by simp⟩, .refl _, rfl, fun _ => .refl _⟩

theorem Quiet.trans (h : Quiet n n') (h' : Quiet n' n'') : Quiet n n'' := by
  obtain ⟨calls, hcalls, hall⟩ := h.calls
  obtain ⟨calls', hcalls', hall'⟩ := h'.calls
  refine ⟨⟨calls ++ calls', by rw [hcalls', hcalls, List.append_assoc], ?_⟩,
    h'.ids.trans h.ids, h'.index.trans h.index, fun x => (h'.alive x).trans (h.alive x)⟩
  rintro call hcall
  rcases List.mem_append.mp hcall with hcall | hcall
  · exact hall call hcall
  · exact hall' call hcall

theorem Quiet.numbered (h : Quiet n n') (hn : n.Numbered) : n'.Numbered where
  nodup := hn.nodup.sublist h.ids
  lt i hi := by
    rw [h.index]
    exact hn.lt i (h.ids.subset hi)

theorem incomingIds_retire (rs : List IncomingPeer) :
    (retire peer set rs).map (·.incomingId) = rs.map (·.incomingId) := by
  induction rs with
  | nil => rfl
  | cons r rs ih =>
    rw [retire]
    split
    · rfl
    · simp [ih]

theorem quiet_apply {r : Reaction} (hr : r.Quiet) : Quiet n (n.apply peer set r) := by
  constructor
  · exact ⟨r.calls, rfl, hr.calls⟩
  · cases hi : r.incoming with
    | keep => simp [incomingIds, apply, hi]
    | ask => exact absurd hi hr.incoming
    | retire => simp [incomingIds, apply, hi, incomingIds_retire]
  · exact if_neg hr.incoming
  · intro x
    cases hi : r.incoming with
    | keep => simp [aliveOf, apply, hi]
    | ask => exact absurd hi hr.incoming
    | retire =>
      simp only [aliveOf, apply, hi]
      by_cases hx : x = (peer, set)
      · subst hx
        rw [filter_retire, List.map_tail]
        exact List.tail_sublist _
      · rw [filter_retire_of_ne hx]

theorem reaction_eq : n.reaction peer set input =
    input.reaction (peer, set) (n.surroundings peer set) (n.peers.get? (peer, set)) := by
  unfold reaction PairInput.reaction
  split <;> simp_all

theorem quiet_touch (h : input.asks (n.peers.get? (peer, set)) = false) :
    Quiet n (n.touch peer set input) := by
  rw [touch, reaction_eq]
  exact quiet_apply (PairInput.quiet_reaction h)

theorem quiet_foldl (h : ∀ entry, input.asks entry = false) (sets : List SetId) :
    Quiet n (sets.foldl (fun n set => n.touch peer set input) n) := by
  induction sets generalizing n with
  | nil => exact .refl n
  | cons set sets ih =>
    have htouch : Quiet n (n.touch peer set input) := quiet_touch (h _)
    exact htouch.trans ih

theorem quiet_closeIn (now : Instant) (c : ConnectionId) (sets : List SetId) :
    Quiet n (closeIn now peer n c sets) := by
  induction sets generalizing n with
  | nil => exact .refl n
  | cons set sets ih =>
    rw [closeIn]
    split
    · exact .refl n
    · have htouch : Quiet n (n.touch peer set (.connectionClosed now c)) := quiet_touch rfl
      exact htouch.trans ih

theorem quiet_takeIncoming (index : IncomingIndex) : Quiet n (n.takeIncoming index) := by
  have hsub : (n.incoming.eraseP (·.incomingId = index)).Sublist n.incoming :=
    List.eraseP_sublist
  exact ⟨⟨[], by simp [takeIncoming], by simp⟩, hsub.map _, rfl,
    fun x => (hsub.filter _).map _⟩

/-- The answered request is gone. -/
theorem notMem_takeIncoming (hn : n.Numbered) (index : IncomingIndex) :
    index ∉ (n.takeIncoming index).incomingIds := by
  have hnodup : (n.incoming.map (·.incomingId)).Nodup := hn.nodup
  simp only [takeIncoming, incomingIds]
  generalize n.incoming = rs at hnodup
  induction rs with
  | nil => simp
  | cons r rs ih =>
    rw [List.map_cons, List.nodup_cons] at hnodup
    rw [List.eraseP_cons]
    by_cases hr : r.incomingId = index
    · subst hr
      simpa using hnodup.1
    · simpa [hr, Ne.symm hr] using ih hnodup.2

theorem notMem_of_find?_eq_none
    (h : n.incoming.find? (·.incomingId = index) = none) : index ∉ n.incomingIds := by
  intro hmem
  obtain ⟨r, hr, rfl⟩ := List.mem_map.mp hmem
  simpa using List.find?_eq_none.mp h r hr

theorem quiet_answersRequest (hn : n.Numbered) {index : IncomingIndex} {n' : Notifications}
    (h : n.AnswersRequest index input n') (hinput : ∀ entry, input.asks entry = false) :
    Quiet n n' ∧ index ∉ n'.incomingIds := by
  have htake : Quiet n (n.takeIncoming index) := quiet_takeIncoming index
  have hgone := notMem_takeIncoming hn index
  cases h with
  | unknown hfind => exact ⟨.refl n, notMem_of_find?_eq_none hfind⟩
  | @alive request =>
    have htouch : Quiet (n.takeIncoming index)
        ((n.takeIncoming index).touch request.peerId request.setId input) :=
      quiet_touch (hinput _)
    exact ⟨htake.trans htouch, fun h => hgone (htouch.ids.subset h)⟩
  | retired _ _ calls hcalls =>
    have hdropped : ∀ call ∈ calls, call.isDropped := by
      rcases hcalls with rfl | rfl <;> simp [PeersetCall.isDropped]
    exact ⟨htake.trans ⟨⟨calls, rfl, hdropped⟩, .refl _, rfl, fun _ => .refl _⟩, hgone⟩

/-- A request of the pair is made under the next number. -/
structure Asks (x : PeerId × SetId) (n n' : Notifications) : Prop where
  calls : n'.calls = n.calls ++ [.incoming x.2 x.1 n.nextIncomingIndex]
  ids : n'.incomingIds = n.incomingIds ++ [n.nextIncomingIndex]
  index : n'.nextIncomingIndex = n.nextIncomingIndex + 1
  alive : n'.aliveOf x = n.aliveOf x ++ [n.nextIncomingIndex]
  others : ∀ y, y ≠ x → n'.aliveOf y = n.aliveOf y

theorem Asks.numbered (h : Asks x n n') (hn : n.Numbered) : n'.Numbered where
  nodup := by
    rw [h.ids, List.nodup_append]
    refine ⟨hn.nodup, List.nodup_singleton _, ?_⟩
    rintro i hi j hj rfl
    have hlt := hn.lt i hi
    rw [List.mem_singleton.mp hj] at hlt
    exact Nat.lt_irrefl _ hlt
  lt i hi := by
    rw [h.ids, List.mem_append, List.mem_singleton] at hi
    rw [h.index]
    rcases hi with hi | rfl
    · exact Nat.lt_succ_of_lt (hn.lt i hi)
    · exact Nat.lt_succ_self _

theorem asks_touch (h : input.asks (n.peers.get? (peer, set))) :
    Asks (peer, set) n (n.touch peer set input) := by
  obtain ⟨hi, hcalls⟩ : _ ∧ (input.reaction (peer, set) (n.surroundings peer set)
      (n.peers.get? (peer, set))).calls = _ := PairInput.reaction_of_asks h
  constructor
  · rw [touch, reaction_eq]
    exact congrArg (n.calls ++ ·) hcalls
  · simp [touch, reaction_eq, incomingIds, apply, hi]
  · simp [touch, reaction_eq, apply, hi]
  · simp [touch, reaction_eq, aliveOf, apply, hi, Alive]
  · intro y hy
    exact (leaves_touch hy).alive

end Notifications

namespace Driven

variable {d : Driven} {x : PeerId × SetId} {input : NotificationsInput}

/-- The pair that asks the peerset about a request because of the input. -/
def asker? (d : Driven) : NotificationsInput → Option (PeerId × SetId)
  | .handlerEvent peer c event _ =>
    if (d.notifications.peers.get? (peer, event.index)).any (PeerState.asks c event) then
      some (peer, event.index)
    else none
  | _ => none

theorem quiet_next (hn : d.notifications.Numbered) (h : d.asker? input = none) :
    d.notifications.Quiet (d.next input).notifications := by
  cases input with
  | connectionEstablished peer c => exact Notifications.quiet_foldl (fun _ => rfl) _
  | connectionClosed now peer c => exact Notifications.quiet_closeIn now c _
  | dialFailure now peer => exact Notifications.quiet_foldl (fun _ => rfl) _
  | handlerEvent peer c event ban =>
    apply Notifications.quiet_touch
    simpa [asker?, PairInput.asks] using h
  | peersetMessage now message =>
    cases message with
    | connect | drop => exact Notifications.quiet_touch rfl
    | accept index => exact (Notifications.quiet_answersRequest hn
        (d.notifications.answersRequest_accept index) fun _ => rfl).1
    | reject index => exact (Notifications.quiet_answersRequest hn
        (d.notifications.answersRequest_reject index) fun _ => rfl).1
  | delayElapsed now delayId peer set =>
    have hdelays : d.notifications.Quiet
        { d.notifications with delays := d.notifications.delays.erase (delayId, peer, set) } :=
      ⟨⟨[], by simp, by simp⟩, .refl _, rfl, fun _ => .refl _⟩
    exact hdelays.trans (Notifications.quiet_touch rfl)
  | disconnectPeer now peer set => exact Notifications.quiet_touch rfl
  | popEvent => exact ⟨⟨[], by simp [next, Notifications.popEvent], by simp⟩, .refl _, rfl,
      fun _ => .refl _⟩

theorem asks_next (h : d.asker? input = some x) :
    d.notifications.Asks x (d.next input).notifications := by
  cases input with
  | handlerEvent peer c event ban =>
    simp only [asker?] at h
    split at h
    · next hasks =>
      obtain rfl := Option.some.inj h
      exact Notifications.asks_touch hasks
    · cases h
  | _ => cases h

theorem Steady.length_aliveOf (hd : d.Steady) (x : PeerId × SetId) :
    (d.notifications.aliveOf x).length =
      (PeerState.isIncoming (d.notifications.peers.get? x)).toNat := by
  have hlisted : ∀ {entry w ids}, Kind.of entry = .listed w ids →
      PeerState.isIncoming entry = w := by
    intro entry w ids hk
    rcases entry with _ | state
    · cases hk
    · cases state <;> cases hk <;> rfl
  have hunconnected : ∀ {entry}, Kind.of entry = .unconnected →
      PeerState.isIncoming entry = false := by
    intro entry hk
    rcases entry with _ | state
    · rfl
    · cases state <;> first | rfl | cases hk
  rcases Nat.lt_or_ge x.2 d.notifications.numProtocols with hx | hx
  · have hsane : (d.pair x).Sane := (hd x).1 hx
    cases hk : Kind.of (d.notifications.peers.get? x) with
    | unconnected =>
      have halive : d.notifications.aliveOf x = [] := ((Pair.sane_unconnected hk).mp hsane).2
      rw [hunconnected hk, halive]
      rfl
    | listed w ids =>
      rw [hlisted hk]
      exact ((Pair.sane_listed hk).mp hsane).2
    | poisoned => exact absurd (Pair.kind_poisoned_iff.mp hk) hsane.ne_poisoned
  · obtain ⟨hk, halive⟩ : Kind.of (d.notifications.peers.get? x) = .unconnected ∧
      d.notifications.aliveOf x = [] := (hd x).2 hx
    rw [hunconnected hk, halive]
    rfl

end Driven

end SwarmHost.Substrate
