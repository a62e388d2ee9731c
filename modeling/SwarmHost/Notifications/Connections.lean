import SwarmHost.Notifications.Kinds
import SwarmHost.Runs.Basic

/-! # The connections that the behaviour lists

The entry of a peer that is connected lists its connections, and a peer without
connections has no entry or one that a later request of the peerset dials from.
The exceptions are peers whose last connection closes while they are enabled, and
entries that were left poisoned.
-/

namespace SwarmHost.Substrate

namespace Pair

/-- A list of connections is that of the peer and not empty, and a peer without connections has no
list and is not poisoned. -/
def Listed (p : Pair) : Prop :=
  (∀ w ids, Kind.of p.entry = .listed w ids → ids = p.live ∧ ids ≠ []) ∧
    (p.live = [] → Kind.of p.entry = .unconnected)

/-- What holds of a pair as long as the lists are right; only an entry that waits for an answer has
a request that is alive. -/
def Fits (p : Pair) : Prop :=
  match Kind.of p.entry with
  | .unconnected => p.live = [] ∧ p.alive = []
  | .listed w ids => ids = p.live ∧ p.live ≠ [] ∧ p.alive.length ≤ w.toNat
  | .poisoned => p.live ≠ [] ∧ p.alive.length ≤ 1

/-- The swarm, the handlers and the peerset may cause the step. -/
def Possible (p : Pair) : PairLabel → Prop
  | .react (.handlerEvent c _ _) | .react (.connectionClosed _ c) => c ∈ p.live
  | .react .accept | .react .reject => False
  | .answer index input => index ∈ p.alive ∧ (input = .accept ∨ input = .reject)
  | _ => True

/-- The last connection does not close while the entry is enabled or poisoned, and no connection is
added to a poisoned entry. -/
def Spared (p : Pair) : PairLabel → Prop
  | .react (.connectionEstablished _) => p.live ≠ [] → p.entry ≠ some .poisoned
  | .react (.connectionClosed _ c) =>
    p.live.erase c = [] → p.entry ≠ some .poisoned ∧ ∀ cs, p.entry ≠ some (.enabled cs)
  | _ => True

variable {p : Pair} {x : PeerId × SetId} {env : Surroundings} {label : PairLabel}
  {input : PairInput} {state : PeerState}

theorem kind_poisoned_iff {entry : Option PeerState} :
    Kind.of entry = .poisoned ↔ entry = some .poisoned := by
  rcases entry with _ | state
  · simp [Kind.of]
  · cases state <;> simp [Kind.of]

theorem Fits.listed (h : p.Fits) : p.Listed := by
  unfold Fits at h
  split at h
  · next hk => exact ⟨by simp [hk], fun _ => hk⟩
  · next w ids hk =>
    obtain ⟨rfl, hne, -⟩ := h
    refine ⟨?_, fun hnil => absurd hnil hne⟩
    intro w' ids' hk'
    obtain ⟨-, rfl⟩ : w = w' ∧ p.live = ids' := by simpa [hk] using hk'
    exact ⟨rfl, hne⟩
  · next hk => exact ⟨by simp [hk], fun hnil => absurd hnil h.1⟩

theorem fits_unconnected {p : Pair} (hk : Kind.of p.entry = .unconnected) :
    p.Fits ↔ p.live = [] ∧ p.alive = [] := by
  simp only [Fits, hk]

theorem fits_listed {p : Pair} {w : Bool} {ids : List ConnectionId}
    (hk : Kind.of p.entry = .listed w ids) :
    p.Fits ↔ ids = p.live ∧ p.live ≠ [] ∧ p.alive.length ≤ w.toNat := by
  simp only [Fits, hk]

theorem fits_poisoned {p : Pair} (hk : Kind.of p.entry = .poisoned) :
    p.Fits ↔ p.live ≠ [] ∧ p.alive.length ≤ 1 := by
  simp only [Fits, hk]

theorem Fits.length_alive (h : p.Fits) : p.alive.length ≤ 1 := by
  unfold Fits at h
  split at h
  · simp [h.2]
  · next w ids hk => exact h.2.2.trans (Bool.toNat_le w)
  · exact h.2

theorem Fits.live_ne_nil (h : p.Fits) (hk : Kind.of p.entry ≠ .unconnected) : p.live ≠ [] := by
  unfold Fits at h
  split at h
  · next hk' => exact absurd hk' hk
  · exact h.2.1
  · exact h.1

theorem length_between {w w' : Bool} {alive : List IncomingIndex} {index : IncomingIndex}
    (h : alive.length ≤ w.toNat) :
    ((IncomingChange.between w w').apply index alive).length ≤ w'.toNat := by
  cases w <;> cases w' <;> simp_all [IncomingChange.between, IncomingChange.apply]

theorem fits_ordinary (hinput : input.Ordinary)
    (hhandler : ∀ c event ban, input = .handlerEvent c event ban → c ∈ p.live) (hp : p.Fits) :
    (p.react x env input).Fits := by
  have hlive : (p.react x env input).live = p.live := PairInput.live_of_ordinary hinput p.live
  have hmoves : Reaction.Moves p.entry (input.reaction x env p.entry) := by
    apply PairInput.moves_reaction x env hinput
    rintro hk c event ban rfl
    have hnil := ((fits_unconnected hk).mp hp).1
    exact List.not_mem_nil (hnil ▸ hhandler c event ban rfl)
  cases hmoves with
  | unconnected hk hk' hi =>
    rw [fits_unconnected hk', hlive]
    rw [fits_unconnected hk] at hp
    exact ⟨hp.1, by simp [react, hi, IncomingChange.apply, hp.2]⟩
  | listed hk hk' hi =>
    rw [fits_listed hk', hlive]
    obtain ⟨hids, hne, halive⟩ := (fits_listed hk).mp hp
    exact ⟨hids, hne, by simpa [react, hi] using length_between halive⟩
  | poisoned hk hr hi =>
    have hk' : Kind.of (p.react x env input).entry = .poisoned := kind_poisoned_iff.mpr hr
    rw [fits_poisoned hk', hlive]
    exact ⟨hp.live_ne_nil hk, by simpa [react, hi, IncomingChange.apply] using hp.length_alive⟩

section Established

variable {c : ConnectionId}

theorem fits_established (hspared : p.Spared (.react (.connectionEstablished c)))
    (hp : p.Fits) : (p.react x env (.connectionEstablished c)).Fits := by
  have hi : ((PairInput.connectionEstablished c).reaction x env p.entry).incoming = .keep :=
    (PairInput.kind_established c).1
  have hkind : Kind.of (p.react x env (.connectionEstablished c)).entry = _ :=
    (PairInput.kind_established c).2
  cases hk : Kind.of p.entry with
  | unconnected =>
    rw [hk] at hkind
    obtain ⟨hlive, halive⟩ := (fits_unconnected hk).mp hp
    rw [fits_listed hkind]
    simp [react, PairInput.live, hi, IncomingChange.apply, hlive, halive]
  | listed w ids =>
    rw [hk] at hkind
    obtain ⟨rfl, hne, halive⟩ := (fits_listed hk).mp hp
    rw [fits_listed hkind]
    simpa [react, PairInput.live, hi, IncomingChange.apply] using halive
  | poisoned => exact absurd (kind_poisoned_iff.mp hk) (hspared (hp.live_ne_nil (by simp [hk])))

theorem spared_established (hl : (p.react x env (.connectionEstablished c)).Listed) :
    p.Spared (.react (.connectionEstablished c)) := by
  intro hne hpoisoned
  have hkind : Kind.of (p.react x env (.connectionEstablished c)).entry = _ :=
    (PairInput.kind_established c).2
  rw [kind_poisoned_iff.mpr hpoisoned] at hkind
  have hids : [c] = p.live ++ [c] := (hl.1 _ _ hkind).1
  exact hne (by simpa using hids)

end Established

section Closed

variable {now : Instant} {c : ConnectionId}

theorem Fits.exists_state (hp : p.Fits) (hc : c ∈ p.live) :
    ∃ state, p.entry = some state ∧ Kind.of (some state) ≠ .unconnected := by
  have hk : Kind.of p.entry ≠ .unconnected := by
    intro hk
    rw [((fits_unconnected hk).mp hp).1] at hc
    cases hc
  rcases hentry : p.entry with _ | state
  · rw [hentry] at hk
    exact absurd rfl hk
  · exact ⟨state, rfl, hentry ▸ hk⟩

theorem closes_react (x : PeerId × SetId) (env : Surroundings) (now : Instant)
    (c : ConnectionId) (hentry : p.entry = some state) :
    Reaction.Closes c state ((PairInput.connectionClosed now c).reaction x env p.entry) := by
  rw [hentry]
  exact PairInput.closes_reaction now c state

theorem fits_closed (hspared : p.Spared (.react (.connectionClosed now c))) (hc : c ∈ p.live)
    (hp : p.Fits) : (p.react x env (.connectionClosed now c)).Fits := by
  obtain ⟨state, hentry, hstate⟩ := hp.exists_state hc
  have hlive : (p.react x env (.connectionClosed now c)).live = p.live.erase c := rfl
  have hcloses : Reaction.Closes c state
      ((PairInput.connectionClosed now c).reaction x env p.entry) := closes_react x env now c hentry
  cases hcloses with
  | last hk hids henabled hk' hi =>
    obtain ⟨rfl, hne, halive⟩ := (fits_listed (hentry ▸ hk)).mp hp
    rw [fits_unconnected hk', hlive]
    have hnil : (((IncomingChange.between _ false).apply env.nextIncomingIndex p.alive).length) ≤
        false.toNat := length_between halive
    refine ⟨hids, List.eq_nil_of_length_eq_zero (Nat.le_zero.mp ?_)⟩
    rwa [react, hi]
  | @enabled cs hstate hids hk' hi =>
    have hk : Kind.of p.entry = .listed false cs.ids := by rw [hentry, hstate]; rfl
    obtain ⟨hlive', -, -⟩ := (fits_listed hk).mp hp
    rw [hlive'] at hids
    exact absurd (hstate ▸ hentry) ((hspared hids).2 _)
  | listed hk hids hk' hi =>
    obtain ⟨rfl, hne, halive⟩ := (fits_listed (hentry ▸ hk)).mp hp
    rw [fits_listed hk', hlive]
    exact ⟨rfl, hids, by simpa [react, hi] using length_between halive⟩
  | poisoned hk hr hi =>
    have hpoisoned : Kind.of p.entry = .poisoned := by
      rw [hentry]
      cases hkind : Kind.of (some state) with
      | unconnected => exact absurd hkind hstate
      | listed w ids => exact absurd hkind (hk w ids)
      | poisoned => rfl
    have hk' : Kind.of (p.react x env (.connectionClosed now c)).entry = .poisoned :=
      kind_poisoned_iff.mpr hr
    rw [fits_poisoned hk', hlive]
    refine ⟨fun hids => (hspared hids).1 (kind_poisoned_iff.mp hpoisoned), ?_⟩
    simpa [react, hi, IncomingChange.apply] using hp.length_alive

theorem spared_closed (hp : p.Fits)
    (hl : (p.react x env (.connectionClosed now c)).Listed) :
    p.Spared (.react (.connectionClosed now c)) := by
  intro hids
  have hkind : Kind.of (p.react x env (.connectionClosed now c)).entry = .unconnected := hl.2 hids
  constructor
  · intro hpoisoned
    simp [react, hpoisoned, PairInput.reaction, PeerState.react, PeerState.connectionClosed,
      Reaction.poison, Kind.of] at hkind
  · intro cs henabled
    have hlive : cs.ids = p.live := by
      have hk : Kind.of p.entry = .listed false cs.ids := by rw [henabled]; rfl
      exact ((fits_listed hk).mp hp).1
    have hempty : (cs.remove c).isEmpty = true := by
      rw [Connections.isEmpty_remove, hlive]
      exact hids
    simp [react, henabled, PairInput.reaction, PeerState.react, PeerState.connectionClosed,
      hempty, Kind.of] at hkind

end Closed

theorem fits_answer {index : IncomingIndex} (hinput : input = .accept ∨ input = .reject)
    (hindex : index ∈ p.alive) (hp : p.Fits) : (p.next x env (.answer index input)).Fits := by
  have hlive : (p.next x env (.answer index input)).live = p.live := by
    rcases hinput with rfl | rfl <;> rfl
  obtain ⟨i, hi⟩ : ∃ i, p.alive = [i] := by
    rw [← List.length_eq_one_iff]
    have hpos := List.length_pos_of_mem hindex
    have hle := hp.length_alive
    omega
  obtain rfl : index = i := by simpa [hi] using hindex
  have herase : p.alive.erase index = [] := by simp [hi]
  cases hk : Kind.of p.entry with
  | unconnected =>
    rw [((fits_unconnected hk).mp hp).2] at hindex
    cases hindex
  | listed w ids =>
    obtain ⟨hids, hne, halive⟩ := (fits_listed hk).mp hp
    obtain rfl : w = true := by
      cases w with
      | true => rfl
      | false => simp [hi] at halive
    obtain ⟨hk', hkeep⟩ : Kind.of (input.reaction x env p.entry).entry = _ ∧ _ :=
      PairInput.kind_answer hinput hk
    rw [fits_listed hk', hlive]
    exact ⟨hids, hne, by simp [next, react, hkeep, IncomingChange.apply, herase]⟩
  | poisoned =>
    have hentry := kind_poisoned_iff.mp hk
    have hr : input.reaction x env p.entry = .poison := by
      rw [hentry]
      rcases hinput with rfl | rfl <;> rfl
    have hk' : Kind.of (p.next x env (.answer index input)).entry = .poisoned := by
      simp only [next, react, hr]
      rfl
    rw [fits_poisoned hk', hlive]
    refine ⟨((fits_poisoned hk).mp hp).1, ?_⟩
    simp [next, react, hr, Reaction.poison, IncomingChange.apply, herase]

theorem fits_next (hpossible : p.Possible label) (hspared : p.Spared label) (hp : p.Fits) :
    (p.next x env label).Fits := by
  cases label with
  | idle | popEvent => exact hp
  | answer index input => exact fits_answer hpossible.2 hpossible.1 hp
  | react input =>
    cases input with
    | accept | reject => cases hpossible
    | connectionEstablished c => exact fits_established hspared hp
    | connectionClosed now c => exact fits_closed hspared hpossible hp
    | handlerEvent c event ban =>
      have hinput : (PairInput.handlerEvent c event ban).Ordinary := trivial
      apply fits_ordinary hinput _ hp
      rintro _ _ _ ⟨⟩
      exact hpossible
    | _ =>
      refine fits_ordinary ?_ (by simp) hp
      trivial

/-- The condition is needed. -/
theorem spared_of_listed (hp : p.Fits)
    (hl : (p.next x env label).Listed) : p.Spared label := by
  cases label with
  | react input =>
    cases input with
    | connectionEstablished c => exact spared_established hl
    | connectionClosed now c => exact spared_closed hp hl
    | _ => trivial
  | _ => trivial

end Pair

namespace Driven

def EveryPair (P : Pair → Prop) (d : Driven) : Prop :=
  ∀ x : PeerId × SetId, x.2 < d.notifications.numProtocols → P (d.pair x)

/-- The last connection of a peer does not close while one of its entries is enabled or poisoned,
and a further connection is not established while one of them is poisoned. -/
def Spares (d : Driven) : NotificationsInput → Prop
  | .connectionEstablished peer _ =>
    d.live peer ≠ [] → ∀ set < d.notifications.numProtocols,
      d.notifications.peers.get? (peer, set) ≠ some .poisoned
  | .connectionClosed _ peer c =>
    (d.live peer).erase c = [] → ∀ set < d.notifications.numProtocols,
      d.notifications.peers.get? (peer, set) ≠ some .poisoned ∧
        ∀ cs, d.notifications.peers.get? (peer, set) ≠ some (.enabled cs)
  | _ => True

variable {d d' : Driven} {x : PeerId × SetId} {input : NotificationsInput} {numProtocols : ℕ}
  {inputs : List NotificationsInput}

theorem possible_answer {index : IncomingIndex} {i : PairInput} (hi : i = .accept ∨ i = .reject) :
    (d.pair x).Possible (d.answerLabel x index i) := by
  unfold answerLabel
  split
  · next request hfind =>
    split
    · next halive =>
      refine ⟨List.mem_map.mpr ⟨request, ?_, ?_⟩, hi⟩
      · exact List.mem_filter.mpr ⟨List.mem_of_find?_eq_some hfind, by simpa using halive⟩
      · simpa using List.find?_some hfind
    · trivial
  · trivial

theorem possible_label (h : d.Admissible input) : (d.pair x).Possible (d.label x input) := by
  cases input with
  | connectionEstablished peer c =>
    simp only [label]
    split <;> trivial
  | connectionClosed now peer c =>
    simp only [label]
    split
    · next hx =>
      subst hx
      exact h
    · trivial
  | handlerEvent peer c event ban =>
    simp only [label]
    split
    · next hx =>
      subst hx
      exact h.1
    · trivial
  | peersetMessage now message =>
    cases message with
    | accept index => exact possible_answer (.inl rfl)
    | reject index => exact possible_answer (.inr rfl)
    | connect | drop =>
      simp only [label]
      split <;> trivial
  | _ =>
    simp only [label]
    split <;> trivial

theorem spared_answer {index : IncomingIndex} {i : PairInput} :
    (d.pair x).Spared (d.answerLabel x index i) := by
  unfold answerLabel
  split
  · split <;> trivial
  · trivial

theorem spares_iff : d.Spares input ↔ ∀ x : PeerId × SetId,
    x.2 < d.notifications.numProtocols → (d.pair x).Spared (d.label x input) := by
  cases input with
  | connectionEstablished peer c =>
    constructor
    · intro h x hx
      simp only [label]
      split
      · next hpeer =>
        subst hpeer
        exact fun hne => h hne x.2 hx
      · trivial
    · intro h hne set hset
      have hpair := h (peer, set) hset
      simp only [label, if_pos] at hpair
      exact hpair hne
  | connectionClosed now peer c =>
    constructor
    · intro h x hx
      simp only [label]
      split
      · next hpeer =>
        subst hpeer
        exact fun hlast => h hlast x.2 hx
      · trivial
    · intro h hlast set hset
      have hpair := h (peer, set) hset
      simp only [label, if_pos] at hpair
      exact hpair hlast
  | peersetMessage now message =>
    refine ⟨fun _ x _ => ?_, fun _ => trivial⟩
    cases message with
    | accept | reject => exact spared_answer
    | connect | drop =>
      simp only [label]
      split <;> trivial
  | _ =>
    refine ⟨fun _ x _ => ?_, fun _ => trivial⟩
    simp only [label]
    split <;> trivial

theorem mem_peers_of_fits (hd : EveryPair Pair.Fits d) (hadm : d.Admissible input) {now : Instant}
    {peer : PeerId} {c : ConnectionId} (hinput : input = .connectionClosed now peer c) :
    ∀ set < d.notifications.numProtocols, (peer, set) ∈ d.notifications.peers := by
  subst hinput
  intro set hset
  obtain ⟨state, hstate, -⟩ := (hd (peer, set) hset).exists_state hadm
  exact Dict.mem_of_get? hstate

theorem fits_step (hd : EveryPair Pair.Fits d) (hstep : d.Step input d')
    (hspares : d.Spares input) : EveryPair Pair.Fits d' := by
  obtain ⟨hadm, rfl⟩ := hstep
  intro x hx
  rw [numProtocols_next] at hx
  obtain ⟨env, -, hpair⟩ := projects_next hx input fun now c h => mem_peers_of_fits hd hadm h
  rw [hpair]
  exact Pair.fits_next (possible_label hadm) (spares_iff.mp hspares x hx) (hd x hx)

theorem spares_of_listed (hd : EveryPair Pair.Fits d) (hstep : d.Step input d')
    (hlisted : EveryPair Pair.Listed d') : d.Spares input := by
  obtain ⟨hadm, rfl⟩ := hstep
  rw [spares_iff]
  intro x hx
  obtain ⟨env, -, hpair⟩ := projects_next hx input fun now c h => mem_peers_of_fits hd hadm h
  have hl := hlisted x (by rwa [numProtocols_next])
  rw [hpair] at hl
  exact Pair.spared_of_listed (hd x hx) hl

theorem fits_start : EveryPair Pair.Fits (start numProtocols) :=
  fun _ _ => ⟨rfl, rfl⟩

/-- The lists of connections are right in every state of a run if and only if no enabled peer loses
its last connection and no connection comes or goes last at a poisoned entry. -/
theorem lists_connections_iff : Always Step (EveryPair Pair.Listed) (start numProtocols) inputs ↔
    Along Step (fun d input _ => d.Spares input) (start numProtocols) inputs := by
  apply always_iff_along_of (I := EveryPair Pair.Fits)
  · intro d input d' hstep hd hspares
    exact fits_step hd hstep hspares
  · intro d input d' hstep hd hlisted
    exact spares_of_listed hd hstep hlisted
  · intro d hd x hx
    exact (hd x hx).listed
  · exact fits_start

/-- The only connection of a peer closes while the peerset wants it. -/
def closedWhileEnabled : List NotificationsInput :=
  [.peersetMessage 0 (.connect 0 [7]), .popEvent, .connectionEstablished [7] 0,
    .connectionClosed 0 [7] 0]

theorem enabled_peer_left_empty :
    ¬ Always Step (EveryPair Pair.Listed) (start 1) closedWhileEnabled := by
  intro h
  have hchecks : Checks next Admissible (start 1) closedWhileEnabled := by decide
  have hlisted := h _ _ (List.prefix_refl _) (hchecks.run fun _ _ hadm => ⟨hadm, rfl⟩)
  have hkind := (hlisted ([7], 0) (by decide)).2 (by decide)
  revert hkind
  decide

end Driven

end SwarmHost.Substrate
