import SwarmHost.Notifications.Connections
import SwarmHost.Notifications.Swarm

/-! # Entries that are not put back

Every call takes the entry out and leaves a poisoned one unless it puts another
back. As long as the lists of connections and the requests that are alive fit the
entries, a single branch does not: that of a handler that asks to close while the
entry waits for the peerset to answer a request.
-/

namespace SwarmHost.Substrate

/-- The entry waits for an answer of the peerset. -/
def PeerState.isIncoming : Option PeerState → Bool
  | some (.incoming ..) => true
  | _ => false

theorem PeerState.exists_incoming {entry : Option PeerState} (h : isIncoming entry) :
    ∃ cs backoffUntil, entry = some (.incoming cs backoffUntil) := by
  rcases entry with _ | state
  · cases h
  · cases state with
    | incoming cs backoffUntil => exact ⟨cs, backoffUntil, rfl⟩
    | _ => cases h

section Restored

open PeerState Reaction

variable {peer : PeerId} {set : SetId} {cs : Connections} {c : ConnectionId} {state : PeerState}

def Reaction.Restores (r : Reaction) : Prop := r.entry ≠ some .poisoned

theorem restores_of_ne {r : Reaction} {state : PeerState} (h : r.entry = some state)
    (hne : state ≠ .poisoned) : r.Restores := by
  rw [Restores, h]
  simpa using hne

theorem restores_keep (h : state ≠ .poisoned) : (keep state).Restores := restores_of_ne rfl h

theorem restores_mapConnections {f : Connections → Connections} (h : state ≠ .poisoned) :
    (keep (state.mapConnections f)).Restores := by
  cases state with
  | poisoned => exact absurd rfl h
  | _ => exact restores_keep (by simp [mapConnections])

theorem restores_disconnectPeerInner (now : Instant) (ban : Option ℕ) {alive : Bool}
    (h : state ≠ .poisoned) (halive : isIncoming (some state) → alive) :
    (state.disconnectPeerInner peer set now ban alive).Restores := by
  cases state with
  | poisoned => exact absurd rfl h
  | incoming cs backoffUntil =>
    simp only [disconnectPeerInner, if_pos (halive rfl)]
    exact restores_of_ne rfl (by simp)
  | _ => exact restores_of_ne rfl (by simp)

theorem restores_enableOrDelay (delayId : DelayId) (deadline : Instant) :
    (enableOrDelay peer set cs delayId deadline).Restores := by
  unfold enableOrDelay
  split <;> exact restores_of_ne rfl (by simp)

theorem restores_peersetReportConnect (now : Instant) (delayId : DelayId) (h : state ≠ .poisoned) :
    (peersetReportConnect peer set now delayId (some state)).Restores := by
  cases state with
  | poisoned => exact absurd rfl h
  | backoff timer deadline =>
    simp only [peersetReportConnect]
    split <;> exact restores_of_ne rfl (by simp)
  | disabled cs backoffUntil =>
    rcases backoffUntil with _ | backoffUntil
    · exact restores_enableOrDelay _ _
    · simp only [peersetReportConnect]
      split
      · exact restores_of_ne rfl (by simp)
      · exact restores_enableOrDelay _ _
  | _ => exact restores_of_ne rfl (by simp)

theorem restores_peersetReportDisconnect (h : state ≠ .poisoned) :
    (state.peersetReportDisconnect peer set).Restores := by
  cases state with
  | poisoned => exact absurd rfl h
  | requested => simp [Restores, peersetReportDisconnect, remove]
  | _ => exact restores_of_ne rfl (by simp)

theorem restores_dialFailure (now : Instant) (delayId : DelayId) (h : state ≠ .poisoned) :
    (state.dialFailure peer set now delayId).Restores := by
  cases state with
  | poisoned => exact absurd rfl h
  | _ => exact restores_of_ne rfl (by simp)

theorem restores_delayElapsed (now : Instant) (delayId : DelayId) (h : state ≠ .poisoned) :
    (state.delayElapsed peer set now delayId).Restores := by
  unfold delayElapsed
  split
  · split
    · simp [Restores, remove]
    · exact restores_keep (by simp)
  · split
    · exact restores_of_ne rfl (by simp)
    · exact restores_keep (by simp)
  · split
    · split <;> exact restores_of_ne rfl (by simp)
    · exact restores_keep (by simp)
  · exact restores_keep h

theorem lookup_of_mem_ids (hc : c ∈ cs.ids) : ∃ s, cs.lookup c = some s := by
  induction cs with
  | nil => cases hc
  | cons cs₀ cs ih =>
    obtain ⟨c', s⟩ := cs₀
    by_cases h : c' = c
    · subst h
      exact ⟨s, Connections.lookup_cons_self s⟩
    · rw [Connections.lookup_cons_ne h]
      apply ih
      simpa [Connections.ids, Ne.symm h] using hc

theorem restores_openDesiredByRemote (index : IncomingIndex) {w : Bool} {ids : List ConnectionId}
    (hk : Kind.of (some state) = .listed w ids) (hc : c ∈ ids) :
    (state.openDesiredByRemote peer set c index).Restores := by
  cases state with
  | incoming | enabled =>
    simp only [openDesiredByRemote]
    split <;> exact restores_of_ne rfl (by simp)
  | disabled cs backoffUntil | disabledPendingEnable cs timer deadline =>
    obtain ⟨-, rfl⟩ : false = w ∧ cs.ids = ids := by simpa [Kind.of] using hk
    obtain ⟨s, hs⟩ := lookup_of_mem_ids hc
    simp only [openDesiredByRemote, hs]
    cases s <;> exact restores_of_ne rfl (by simp)
  | _ => cases hk

theorem restores_closeDesired {w : Bool} {ids : List ConnectionId}
    (hk : Kind.of (some state) = .listed w ids) (hc : c ∈ ids)
    (hincoming : isIncoming (some state) = false) :
    (state.closeDesired peer set c).Restores := by
  cases state with
  | incoming cs backoffUntil => cases hincoming
  | enabled cs =>
    obtain ⟨-, rfl⟩ : false = w ∧ cs.ids = ids := by simpa [Kind.of] using hk
    obtain ⟨s, hs⟩ := lookup_of_mem_ids hc
    simp only [closeDesired, hs]
    split
    · next h => cases h
    · exact restores_keep (by simp)
    · split <;> exact restores_of_ne rfl (by simp)
  | disabled | disabledPendingEnable => exact restores_keep (by simp)
  | _ => cases hk

theorem restores_openResultOk (fallback : Option ProtocolName) (handshake : Bytes)
    (sink : NotificationsSink) (h : state ≠ .poisoned) :
    (state.openResultOk peer set c fallback handshake sink).Restores := by
  unfold openResultOk
  split
  · split <;> exact restores_of_ne rfl (by simp)
  · exact restores_mapConnections h

theorem restores_openResultErr (ban : Instant) {w : Bool} {ids : List ConnectionId}
    (hk : Kind.of (some state) = .listed w ids) :
    (state.openResultErr peer set c ban).Restores := by
  cases state with
  | enabled cs =>
    simp only [openResultErr]
    split <;> exact restores_of_ne rfl (by simp)
  | incoming | disabled | disabledPendingEnable => exact restores_keep (by simp)
  | _ => cases hk

def PairInput.Unheeded (entry : Option PeerState) : PairInput → Prop
  | .handlerEvent _ (.closeDesired _) _ => isIncoming entry
  | _ => False

theorem restores_onHandlerEvent (env : Surroundings) (ban : Instant) (event : NotifsHandlerOut)
    {w : Bool} {ids : List ConnectionId} (hk : Kind.of (some state) = .listed w ids) (hc : c ∈ ids)
    (hheeded : ¬ (PairInput.handlerEvent c event ban).Unheeded (some state)) :
    (state.onHandlerEvent peer set env c ban event).Restores := by
  have hne : state ≠ .poisoned := by
    rintro rfl
    cases hk
  cases event with
  | openDesiredByRemote i => exact restores_openDesiredByRemote _ hk hc
  | closeDesired i =>
    exact restores_closeDesired hk hc (by simpa [PairInput.Unheeded] using hheeded)
  | closeResult i => exact restores_mapConnections hne
  | openResultOk i fallback handshake sink =>
    exact restores_openResultOk fallback handshake sink hne
  | openResultErr i => exact restores_openResultErr ban hk
  | notification i message => exact restores_of_ne rfl hne

theorem PairInput.restores_reaction {x : PeerId × SetId} {env : Surroundings} {input : PairInput}
    {entry : Option PeerState} (hinput : input.Ordinary) (hentry : entry ≠ some .poisoned)
    (halive : isIncoming entry → env.alive)
    (hhandler : ∀ c event ban, input = .handlerEvent c event ban →
      ∃ w ids, Kind.of entry = .listed w ids ∧ c ∈ ids)
    (hheeded : ¬ input.Unheeded entry) : (input.reaction x env entry).Restores := by
  rcases entry with _ | state
  · cases input with
    | connectionEstablished c => cases hinput
    | _ => simp [Restores, PairInput.reaction, PeerState.insert, peersetReportConnect, remove]
  · have hne : state ≠ .poisoned := fun h => hentry (h ▸ rfl)
    cases input with
    | accept | reject | connectionEstablished | connectionClosed => cases hinput
    | disconnect now ban => exact restores_disconnectPeerInner now ban hne halive
    | connect now => exact restores_peersetReportConnect now _ hne
    | drop => exact restores_peersetReportDisconnect hne
    | dialFailure now => exact restores_dialFailure now _ hne
    | handlerEvent c event ban =>
      obtain ⟨w, ids, hk, hc⟩ := hhandler c event ban rfl
      exact restores_onHandlerEvent env ban event hk hc hheeded
    | delayElapsed now delayId => exact restores_delayElapsed now delayId hne

end Restored

namespace Pair

variable {p : Pair} {x : PeerId × SetId} {env : Surroundings} {label : PairLabel}
  {input : PairInput}

/-- The entry lists the connections of the peer, and a request is alive if the entry waits for the
answer to it. -/
def Sane (p : Pair) : Prop :=
  match Kind.of p.entry with
  | .unconnected => p.live = [] ∧ p.alive = []
  | .listed w ids => ids = p.live ∧ p.alive.length = w.toNat
  | .poisoned => False

theorem sane_unconnected {p : Pair} (hk : Kind.of p.entry = .unconnected) :
    p.Sane ↔ p.live = [] ∧ p.alive = [] := by
  simp only [Sane, hk]

theorem sane_listed {p : Pair} {w : Bool} {ids : List ConnectionId}
    (hk : Kind.of p.entry = .listed w ids) :
    p.Sane ↔ ids = p.live ∧ p.alive.length = w.toNat := by
  simp only [Sane, hk]

theorem Sane.ne_poisoned (h : p.Sane) : p.entry ≠ some .poisoned := by
  intro hentry
  rw [Sane, kind_poisoned_iff.mpr hentry] at h
  exact h

theorem Sane.exists_listed (h : p.Sane) (hlive : p.live ≠ []) :
    ∃ w, Kind.of p.entry = .listed w p.live := by
  unfold Sane at h
  split at h
  · exact absurd h.1 hlive
  · next w ids hk => exact ⟨w, h.1 ▸ hk⟩
  · exact h.elim

theorem kind_of_isIncoming {entry : Option PeerState} (h : PeerState.isIncoming entry) :
    ∃ ids, Kind.of entry = .listed true ids := by
  obtain ⟨cs, backoffUntil, rfl⟩ := PeerState.exists_incoming h
  exact ⟨cs.ids, rfl⟩

theorem Sane.alive_ne_nil (h : p.Sane) (hincoming : PeerState.isIncoming p.entry) :
    p.alive ≠ [] := by
  obtain ⟨ids, hk⟩ := kind_of_isIncoming hincoming
  have hlength := ((sane_listed hk).mp h).2
  rintro halive
  simp [halive] at hlength

theorem length_between_eq {w : Bool} (w' : Bool) {alive : List IncomingIndex}
    {index : IncomingIndex} (h : alive.length = w.toNat) :
    ((IncomingChange.between w w').apply index alive).length = w'.toNat := by
  cases w <;> cases w' <;> simp_all [IncomingChange.between, IncomingChange.apply]

theorem sane_ordinary (hinput : input.Ordinary)
    (hhandler : ∀ c event ban, input = .handlerEvent c event ban → c ∈ p.live)
    (halive : env.alive ↔ p.alive ≠ []) (hheeded : ¬ input.Unheeded p.entry) (hp : p.Sane) :
    (p.react x env input).Sane := by
  have hlive : (p.react x env input).live = p.live := PairInput.live_of_ordinary hinput p.live
  have hmoves : Reaction.Moves p.entry (input.reaction x env p.entry) := by
    apply PairInput.moves_reaction x env hinput
    rintro hk c event ban rfl
    have hnil := ((sane_unconnected hk).mp hp).1
    exact List.not_mem_nil (hnil ▸ hhandler c event ban rfl)
  cases hmoves with
  | unconnected hk hk' hi =>
    rw [sane_unconnected hk', hlive]
    rw [sane_unconnected hk] at hp
    exact ⟨hp.1, by simp [react, hi, IncomingChange.apply, hp.2]⟩
  | listed hk hk' hi =>
    rw [sane_listed hk', hlive]
    obtain ⟨hids, hlength⟩ := (sane_listed hk).mp hp
    exact ⟨hids, by simpa [react, hi] using length_between_eq _ hlength⟩
  | poisoned hk hr hi =>
    have hrestores : (input.reaction x env p.entry).Restores := by
      apply PairInput.restores_reaction hinput hp.ne_poisoned _ _ hheeded
      · exact fun hincoming => halive.mpr (hp.alive_ne_nil hincoming)
      · intro c event ban h
        have hc := hhandler c event ban h
        obtain ⟨w, hk⟩ := hp.exists_listed (List.ne_nil_of_mem hc)
        exact ⟨w, p.live, hk, hc⟩
    exact absurd hr hrestores

theorem sane_established (c : ConnectionId) (hp : p.Sane) :
    (p.react x env (.connectionEstablished c)).Sane := by
  have hi : ((PairInput.connectionEstablished c).reaction x env p.entry).incoming = .keep :=
    (PairInput.kind_established c).1
  have hkind : Kind.of (p.react x env (.connectionEstablished c)).entry = _ :=
    (PairInput.kind_established c).2
  cases hk : Kind.of p.entry with
  | unconnected =>
    rw [hk] at hkind
    obtain ⟨hlive, halive⟩ := (sane_unconnected hk).mp hp
    rw [sane_listed hkind]
    simp [react, PairInput.live, hi, IncomingChange.apply, hlive, halive]
  | listed w ids =>
    rw [hk] at hkind
    obtain ⟨rfl, halive⟩ := (sane_listed hk).mp hp
    rw [sane_listed hkind]
    simpa [react, PairInput.live, hi, IncomingChange.apply] using halive
  | poisoned => exact absurd (kind_poisoned_iff.mp hk) hp.ne_poisoned

theorem sane_closed {now : Instant} {c : ConnectionId} (hc : c ∈ p.live) (hp : p.Sane) :
    (p.react x env (.connectionClosed now c)).Sane := by
  obtain ⟨w, hk⟩ := hp.exists_listed (List.ne_nil_of_mem hc)
  obtain ⟨-, halive⟩ := (sane_listed hk).mp hp
  have hlive : (p.react x env (.connectionClosed now c)).live = p.live.erase c := rfl
  rcases hentry : p.entry with _ | state
  · rw [hentry] at hk
    cases hk
  rw [hentry] at hk
  cases closes_react x env now c hentry with
  | @last w' ids hk₁ hids _ hk' hi =>
    obtain ⟨rfl, rfl⟩ : w = w' ∧ p.live = ids := by simpa [hk] using hk₁
    rw [sane_unconnected hk', hlive]
    refine ⟨hids, List.eq_nil_of_length_eq_zero ?_⟩
    simpa [react, hi] using length_between_eq false halive
  | @enabled cs hstate hids hk' hi =>
    rw [hstate] at hk
    obtain ⟨rfl, hcs⟩ : false = w ∧ cs.ids = p.live := by simpa [Kind.of] using hk
    rw [sane_listed hk', hlive, ← hcs]
    exact ⟨hids.symm, by simpa [react, hi, IncomingChange.apply] using halive⟩
  | @listed w₁ w' ids hk₁ hids hk' hi =>
    obtain ⟨rfl, rfl⟩ : w = w₁ ∧ p.live = ids := by simpa [hk] using hk₁
    rw [sane_listed hk', hlive]
    exact ⟨rfl, by simpa [react, hi] using length_between_eq _ halive⟩
  | poisoned hk' hr hi => exact absurd hk (hk' w p.live)

theorem sane_answer {index : IncomingIndex} (hinput : input = .accept ∨ input = .reject)
    (hindex : index ∈ p.alive) (hp : p.Sane) : (p.next x env (.answer index input)).Sane := by
  have hlive : (p.next x env (.answer index input)).live = p.live := by
    rcases hinput with rfl | rfl <;> rfl
  cases hk : Kind.of p.entry with
  | unconnected =>
    rw [((sane_unconnected hk).mp hp).2] at hindex
    cases hindex
  | listed w ids =>
    obtain ⟨hids, halive⟩ := (sane_listed hk).mp hp
    obtain rfl : w = true := by
      cases w with
      | true => rfl
      | false =>
        rw [List.eq_nil_of_length_eq_zero halive] at hindex
        cases hindex
    obtain ⟨i, hi⟩ := List.length_eq_one_iff.mp halive
    obtain rfl : index = i := by simpa [hi] using hindex
    obtain ⟨hk', hkeep⟩ : Kind.of (input.reaction x env p.entry).entry = _ ∧ _ :=
      PairInput.kind_answer hinput hk
    rw [sane_listed hk', hlive]
    exact ⟨hids, by simp [next, react, hkeep, IncomingChange.apply, hi]⟩
  | poisoned => exact absurd (kind_poisoned_iff.mp hk) hp.ne_poisoned

/-- A pair stays sane unless its handler asks to close while the entry waits. -/
theorem sane_next (hpossible : p.Possible label)
    (halive : ∀ i, label = .react i → (env.alive ↔ p.alive ≠ []))
    (hheeded : ∀ i, label = .react i → ¬ i.Unheeded p.entry) (hp : p.Sane) :
    (p.next x env label).Sane := by
  cases label with
  | idle | popEvent => exact hp
  | answer index input => exact sane_answer hpossible.2 hpossible.1 hp
  | react input =>
    replace halive := halive input rfl
    replace hheeded := hheeded input rfl
    cases input with
    | accept | reject => cases hpossible
    | connectionEstablished c => exact sane_established c hp
    | connectionClosed now c => exact sane_closed hpossible hp
    | handlerEvent c event ban =>
      have hinput : (PairInput.handlerEvent c event ban).Ordinary := trivial
      apply sane_ordinary hinput _ halive hheeded hp
      rintro _ _ _ ⟨⟩
      exact hpossible
    | _ =>
      refine sane_ordinary ?_ (by simp) halive hheeded hp
      trivial

/-- A pair of a set that does not exist has no connections and no requests. -/
def Vacant (p : Pair) : Prop := Kind.of p.entry = .unconnected ∧ p.alive = []

theorem vacant_react (hinput : input.Ordinary) (hhandler : ∀ c event ban,
    input ≠ .handlerEvent c event ban) (hp : p.Vacant) : (p.react x env input).Vacant := by
  obtain ⟨hk, halive⟩ := hp
  cases PairInput.moves_reaction x env hinput fun _ => hhandler with
  | unconnected _ hk' hi => exact ⟨hk', by simp [react, hi, IncomingChange.apply, halive]⟩
  | listed hk' => rw [hk] at hk'; cases hk'
  | poisoned hk' => exact absurd hk hk'

end Pair

namespace Driven

variable {d d' : Driven} {x : PeerId × SetId} {input : NotificationsInput}

/-- Every pair is sane, and those of sets that do not exist are vacant. -/
def Steady (d : Driven) : Prop :=
  ∀ x : PeerId × SetId, (x.2 < d.notifications.numProtocols → (d.pair x).Sane) ∧
    (d.notifications.numProtocols ≤ x.2 → (d.pair x).Vacant)

/-- A handler asks to close while the entry waits for an answer. -/
def Unheeded (d : Driven) : NotificationsInput → Prop
  | .handlerEvent peer _ (.closeDesired set) _ =>
    PeerState.isIncoming (d.notifications.peers.get? (peer, set))
  | _ => False

instance : DecidablePred d.Unheeded
  | .handlerEvent _ _ (.closeDesired _) _ | .handlerEvent _ _ (.openResultOk ..) _
  | .handlerEvent _ _ (.openResultErr _) _ | .handlerEvent _ _ (.closeResult _) _
  | .handlerEvent _ _ (.openDesiredByRemote _) _ | .handlerEvent _ _ (.notification ..) _
  | .connectionEstablished .. | .connectionClosed .. | .delayElapsed .. | .dialFailure ..
  | .peersetMessage .. | .disconnectPeer .. | .popEvent => by
    dsimp only [Unheeded]; infer_instance

theorem answerLabel_ne_react {index : IncomingIndex} {i i' : PairInput} :
    d.answerLabel x index i ≠ .react i' := by
  unfold answerLabel
  split
  · split <;> simp
  · simp

theorem answerLabel_input? {index : IncomingIndex} {i i' : PairInput}
    (h : (d.answerLabel x index i).input? = some i') : i' = i := by
  unfold answerLabel at h
  split at h
  · split at h
    · exact (Option.some.inj h).symm
    · cases h
  · cases h

theorem label_handlerEvent {c : ConnectionId} {event : NotifsHandlerOut} {ban : Instant}
    (h : (d.label x input).input? = some (.handlerEvent c event ban)) :
    input = .handlerEvent x.1 c event ban ∧ event.index = x.2 := by
  cases input with
  | handlerEvent peer c' event' ban' =>
    simp only [label] at h
    split at h
    · next hx =>
      obtain ⟨rfl, rfl, rfl⟩ : c' = c ∧ event' = event ∧ ban' = ban := by
        simpa [PairLabel.input?] using h
      subst hx
      exact ⟨rfl, rfl⟩
    · cases h
  | peersetMessage now message =>
    cases message with
    | accept | reject => cases answerLabel_input? h
    | _ =>
      simp only [label] at h
      split at h <;> cases h
  | _ =>
    simp only [label] at h
    split at h <;> cases h

theorem heeded_label (h : ¬ d.Unheeded input) (i : PairInput)
    (hlabel : d.label x input = .react i) : ¬ i.Unheeded (d.pair x).entry := by
  intro hi
  cases i with
  | handlerEvent c event ban =>
    cases event with
    | closeDesired set =>
      obtain ⟨rfl, rfl⟩ := label_handlerEvent (congrArg PairLabel.input? hlabel)
      exact h hi
    | _ => exact hi
  | _ => exact hi

theorem label_single (hswarm : input.isSwarm = false) {i : PairInput}
    (h : d.label x input = .react i) : i.Ordinary := by
  cases input with
  | connectionEstablished | connectionClosed | dialFailure => cases hswarm
  | peersetMessage now message =>
    cases message with
    | accept | reject => exact absurd h answerLabel_ne_react
    | _ =>
      simp only [label] at h
      split at h <;> cases h
      trivial
  | popEvent =>
    simp only [label] at h
    split at h <;> cases h
  | _ =>
    simp only [label] at h
    split at h <;> cases h
    trivial

theorem Steady.mem_peers (hd : d.Steady) {peer : PeerId} {c : ConnectionId}
    (hc : c ∈ d.live peer) {set : SetId} (hset : set < d.notifications.numProtocols) :
    (peer, set) ∈ d.notifications.peers := by
  obtain ⟨w, hk⟩ := ((hd (peer, set)).1 hset).exists_listed (List.ne_nil_of_mem hc)
  rcases hentry : d.notifications.peers.get? (peer, set) with _ | state
  · simp [pair, hentry, Kind.of] at hk
  · exact Dict.mem_of_get? hentry

/-- Nothing happens to the pairs of sets that do not exist but requests of the peerset. -/
theorem vacant_next (hadm : d.Admissible input) (hx : d.notifications.numProtocols ≤ x.2)
    (hp : (d.pair x).Vacant) : ((d.next input).pair x).Vacant := by
  by_cases hswarm : input.isSwarm
  · have hleaves := leaves_swarm hswarm hx
    simpa only [Pair.Vacant, pair, hleaves.entry, hleaves.alive] using hp
  · obtain ⟨env, -, hpair⟩ := projects_single (d := d) (x := x) _ (by simpa using hswarm)
    rw [hpair]
    have hpossible : (d.pair x).Possible (d.label x input) := possible_label hadm
    cases hlabel : d.label x input with
    | idle | popEvent => exact hp
    | answer index i =>
      rw [hlabel] at hpossible
      exact absurd (hp.2 ▸ hpossible.1) List.not_mem_nil
    | react i =>
      apply Pair.vacant_react (label_single (by simpa using hswarm) hlabel) _ hp
      rintro c event ban rfl
      obtain ⟨rfl, hindex⟩ := label_handlerEvent (congrArg PairLabel.input? hlabel)
      exact absurd hadm.2 (Nat.not_lt.mpr (hindex ▸ hx))

theorem steady_step (hd : d.Steady) (hstep : d.Step input d') (hheeded : ¬ d.Unheeded input) :
    d'.Steady := by
  obtain ⟨hadm, rfl⟩ := hstep
  intro x
  rw [numProtocols_next]
  constructor
  · intro hx
    obtain ⟨env, halive, hpair⟩ := projects_next hx input fun now c h set hset => by
      subst h
      exact hd.mem_peers hadm hset
    rw [hpair]
    exact Pair.sane_next (possible_label hadm) halive (heeded_label hheeded) ((hd x).1 hx)
  · intro hx
    exact vacant_next hadm hx ((hd x).2 hx)

/-- The entry is not put back where the handler asks in vain. -/
theorem poisoned_of_unheeded (h : d.Unheeded input) :
    ∃ x, (d.next input).notifications.peers.get? x = some .poisoned := by
  cases input with
  | handlerEvent peer c event ban =>
    cases event with
    | closeDesired set =>
      obtain ⟨cs, backoffUntil, hentry⟩ := PeerState.exists_incoming h
      obtain ⟨env, -, hpair⟩ := projects_single (d := d) (x := (peer, set))
        (.handlerEvent peer c (.closeDesired set) ban) rfl
      refine ⟨(peer, set), (congrArg Pair.entry hpair).trans ?_⟩
      have hlabel : d.label (peer, set) (.handlerEvent peer c (.closeDesired set) ban) =
          .react (.handlerEvent c (.closeDesired set) ban) := if_pos rfl
      rw [hlabel]
      simp only [Pair.next, Pair.react, pair, hentry]
      rfl
    | _ => exact h.elim
  | _ => exact h.elim

theorem Steady.restored (hd : d.Steady) (x : PeerId × SetId) :
    d.notifications.peers.get? x ≠ some .poisoned := by
  rcases Nat.lt_or_ge x.2 d.notifications.numProtocols with hx | hx
  · exact ((hd x).1 hx).ne_poisoned
  · intro hentry
    have hk : Kind.of (d.notifications.peers.get? x) = .unconnected := ((hd x).2 hx).1
    rw [hentry] at hk
    cases hk

theorem steady_start (numProtocols : ℕ) : (start numProtocols).Steady :=
  fun _ => ⟨fun _ => ⟨rfl, rfl⟩, fun _ => ⟨rfl, rfl⟩⟩

end Driven

namespace Swarm

variable {s s' : Swarm} {input : SwarmInput} {numProtocols : ℕ} {inputs : List SwarmInput}

def Restored (s : Swarm) : Prop := ∀ x, s.entry x ≠ some .poisoned

/-- No handler's request to close arrives while the entry waits for an answer of the peerset. -/
def Heeds (s : Swarm) (input : SwarmInput) : Prop :=
  ∀ i, s.call? input = some i → ¬ s.driven.Unheeded i

theorem steady_step (hs : s.driven.Steady) (hstep : s.Step input s') (hheeds : s.Heeds input) :
    s'.driven.Steady := by
  rcases hstep.logged with ⟨-, hlogged⟩ | ⟨i, hi, hadm, hnext⟩
  · rwa [driven, hlogged]
  · exact Driven.steady_step hs ⟨hadm, congrArg Logged.driven hnext⟩ (hheeds i hi)

theorem heeds_of_restored (hstep : s.Step input s') (hrestored : s'.Restored) :
    s.Heeds input := by
  intro i hi hunheeded
  rcases hstep.logged with ⟨hnone, -⟩ | ⟨i', hi', -, hnext⟩
  · rw [hnone] at hi
    cases hi
  · obtain rfl : i' = i := Option.some.inj (hi'.symm.trans hi)
    obtain ⟨x, hx⟩ := Driven.poisoned_of_unheeded hunheeded
    apply hrestored x
    rwa [entry, driven, ← hnext]

/-- Every call puts an entry back, in every state of a run, if and only if no handler's request to
close arrives while the entry waits for an answer of the peerset. -/
theorem restored_iff_heeds : Always Step Restored (start numProtocols) inputs ↔
    Along Step (fun s input _ => s.Heeds input) (start numProtocols) inputs := by
  apply always_iff_along_of (I := fun s => s.driven.Steady)
  · intro s input s' hstep hs hheeds
    exact steady_step hs hstep hheeds
  · intro s input s' hstep _ hrestored
    exact heeds_of_restored hstep hrestored
  · exact fun s hs => hs.restored
  · exact Driven.steady_start numProtocols

/-- The sockets have nothing, or our substream is broken. -/
def io (flushFails : Bool) : ℕ → Io := fun _ => ⟨0, flushFails, []⟩

/-- A protocol is opened on one of two connections and breaks. Before the behaviour knows, the
peerset drops the peer and the remote opens a substream on the other connection. -/
def closedBeforeAnswer : List SwarmInput :=
  [.call (.connectionEstablished [7] 0), .call (.connectionEstablished [7] 1),
    .handle [7] 0 (.inbound 0 [] []), .handle [7] 0 (.poll (io false)), .event [7] 0 0,
    .call (.peersetMessage 0 (.accept 0)), .call .popEvent, .command [7] 0 [],
    .handle [7] 0 (.poll (io false)), .handle [7] 0 (.outbound 0 none []),
    .handle [7] 0 (.poll (io false)), .event [7] 0 0, .handle [7] 0 (.poll (io true)),
    .call (.peersetMessage 0 (.drop 0 [7])), .handle [7] 1 (.inbound 0 [] []),
    .handle [7] 1 (.poll (io false)), .event [7] 1 0, .event [7] 0 0]

theorem not_restored_closedBeforeAnswer : ¬ Always Step Restored (start 1) closedBeforeAnswer := by
  intro h
  have hadm : Checks next Admissible (start 1) closedBeforeAnswer := by decide
  have hrestored := h _ _ (List.prefix_refl _) (hadm.run fun _ _ h => ⟨h, rfl⟩)
  exact hrestored ([7], 0) (by decide)

end Swarm

end SwarmHost.Substrate
