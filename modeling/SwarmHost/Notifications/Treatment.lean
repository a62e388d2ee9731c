import SwarmHost.Notifications.Hearing

/-! # Connections that come and go

A connection that closes is taken out of the lists, and a new one is added. Taken
together with the other reactions: as long as the entry is put back, each of its
connections is turned on its own.
-/

namespace SwarmHost.Substrate

namespace PeerState

open Reaction NetworkBehaviourAction

variable {peer : PeerId} {set : SetId} {x : PeerId × SetId} {cs : Connections}
  {state : PeerState} {entry : Option PeerState} {r : Reaction} {c : ConnectionId}

theorem treats_removed {now : Instant} (hnd : (listed entry).ids.Nodup)
    (hlisted : listed r.entry = (listed entry).remove c)
    (horders : ∀ c, ordersTo x c r.events = [])
    (hallows : ∀ c' s, (listed r.entry).lookup c' = some s → PeerState.allows r.entry s.view) :
    Treats x (.connectionClosed now c) entry r where
  turns := by
    intro c' v v₁ hv hheard
    dsimp only [PairInput.heard] at hheard
    split at hheard
    · cases hheard
    · next hc =>
      obtain rfl := Option.some.inj hheard
      refine ⟨v, ?_, by rw [horders]; exact .keep v⟩
      rw [view, hlisted, Connections.lookup_remove hnd, if_neg (Ne.symm hc)]
      exact hv
  absent := by
    intro c' hv _
    refine ⟨?_, horders c'⟩
    rw [view, hlisted, Connections.lookup_remove hnd]
    split
    · rfl
    · exact hv
  orderly := by
    intro c' v hv
    obtain ⟨s, hs, rfl⟩ := Option.map_eq_some_iff.mp hv
    exact hallows c' s hs

theorem lookup_of_remove {s : ConnectionState} {c' : ConnectionId} (hnd : cs.ids.Nodup)
    (hs : (cs.remove c).lookup c' = some s) : cs.lookup c' = some s := by
  rw [Connections.lookup_remove hnd] at hs
  split at hs
  · cases hs
  · exact hs

theorem listed_leave (now : Instant) (delayId : DelayId) (deadline : Option Instant) :
    listed (leave now delayId deadline).entry = [] := by
  unfold leave
  split
  · split <;> rfl
  · rfl

theorem treats_connectionClosed (now : Instant) (delayId : DelayId)
    (hnd : (listed (some state)).ids.Nodup) (ho : Orderly (some state))
    (hr : (state.connectionClosed peer set now delayId c).Restores) :
    Treats x (.connectionClosed now c) (some state)
      (state.connectionClosed peer set now delayId c) := by
  have hremove : ∀ {c' s}, ((listed (some state)).remove c).lookup c' = some s →
      PeerState.allows (some state) s.view := fun hs => ho.allows (lookup_of_remove hnd hs)
  cases state with
  | disabled cs backoffUntil =>
    simp only [connectionClosed]
    split
    · next hempty =>
      have hlisted := listed_leave now delayId backoffUntil
      apply treats_removed hnd
      · rw [hlisted]
        exact (List.isEmpty_iff.mp hempty).symm
      · intro c
        rw [own_leave]
        rfl
      · intro c' s hs
        rw [hlisted] at hs
        cases hs
    · exact treats_removed hnd rfl (fun _ => rfl) fun _ _ => hremove
  | disabledPendingEnable cs timer deadline =>
    simp only [connectionClosed]
    split
    · next hempty =>
      exact treats_removed hnd (List.isEmpty_iff.mp hempty).symm (fun _ => rfl) fun _ _ _ => rfl
    · exact treats_removed hnd rfl (fun _ => rfl) fun _ _ => hremove
  | incoming cs backoffUntil =>
    simp only [connectionClosed]
    split
    · next hempty =>
      have hlisted := listed_leave now delayId backoffUntil
      apply treats_removed hnd
      · rw [hlisted]
        exact (List.isEmpty_iff.mp hempty).symm
      · intro c
        rw [own_leave]
        rfl
      · intro c' s hs
        rw [hlisted] at hs
        cases hs
    · split
      · exact treats_removed hnd rfl (fun _ => rfl) fun _ _ => hremove
      · next hnone =>
        refine treats_removed hnd rfl (fun _ => rfl) fun c' s hs => ?_
        have hs : (cs.remove c).lookup c' = some s := hs
        have hne : s ≠ .openDesiredByRemote := by
          rintro rfl
          exact hnone (List.any_eq_true.mpr ⟨_, Connections.mem_of_lookup hs, by simp⟩)
        have hallows := hremove hs
        cases s with
        | openDesiredByRemote => exact absurd rfl hne
        | opening | opened => cases hallows
        | _ => rfl
  | enabled cs =>
    have hdone : EnabledOrDone (cs.remove c)
        (connectionClosed peer set now delayId c (.enabled cs)).entry := by
      simp only [connectionClosed]
      split
      · next hempty =>
        rw [List.isEmpty_iff.mp hempty]
        exact .inr ⟨rfl, none, rfl⟩
      · split
        · exact .inl rfl
        · next h => exact .inr ⟨by simpa using h, none, rfl⟩
    refine treats_removed hnd hdone.listed (fun c' => ?_) fun c' s hs => ?_
    · rcases events_connectionClosed now delayId c cs with heq | heq
      · rw [heq]
        exact ordersTo_lostEvents _
      · rw [heq]
        rfl
    · rw [hdone.listed] at hs
      exact hdone.allows hs (ne_openDesired_of_allows (hremove hs))
  | _ => exact absurd rfl hr

/-- A new connection is closed, or gets the order to open. -/
def Greets (x : PeerId × SetId) (c : ConnectionId) (r : Reaction) : Prop :=
  view r.entry c = some .closed ∧ ordersTo x c r.events = [] ∨
    view r.entry c = some .opening ∧ ordersTo x c r.events = [.open]

theorem view_nil (c : ConnectionId) (h : listed entry = []) : view entry c = none := by
  rw [view, h]
  rfl

theorem treats_first {s : ConnectionState} (hlisted : listed entry = [])
    (hlisted' : listed r.entry = [(c, s)])
    (horders : ∀ c', c' ≠ c → ordersTo x c' r.events = [])
    (hallows : PeerState.allows r.entry s.view) :
    Treats x (.connectionEstablished c) entry r where
  turns := by
    intro c' v v₁ hv
    rw [view_nil c' hlisted] at hv
    cases hv
  absent := by
    intro c' _ hne
    have hne : c' ≠ c := fun h => hne (h ▸ rfl)
    refine ⟨?_, horders c' hne⟩
    rw [view, hlisted', Connections.lookup_cons_ne (Ne.symm hne)]
    rfl
  orderly := by
    intro c' v hv
    rw [view, hlisted'] at hv
    by_cases h : c = c'
    · subst h
      rw [Connections.lookup_cons_self] at hv
      cases hv
      exact hallows
    · rw [Connections.lookup_cons_ne h] at hv
      cases hv

theorem treats_further (ho : Orderly (some state)) (hc : view (some state) c = none)
    (hlisted : listed (some (state.mapConnections (· ++ [(c, .closed)]))) =
      listed (some state) ++ [(c, .closed)]) :
    Treats x (.connectionEstablished c) (some state)
        (keep (state.mapConnections (· ++ [(c, .closed)]))) ∧
      Greets x c (keep (state.mapConnections (· ++ [(c, .closed)]))) := by
  have hlookup : ∀ c', view (some (state.mapConnections (· ++ [(c, .closed)]))) c' =
      if c' = c then some .closed else view (some state) c' := by
    intro c'
    rw [view, hlisted, List.lookup_append]
    by_cases h : c' = c
    · subst h
      rw [Option.map_eq_none_iff.mp hc, if_pos rfl]
      simp [ConnectionState.view]
    · rw [Connections.lookup_cons_ne (Ne.symm h), if_neg h]
      simp [view]
  refine ⟨⟨?_, ?_, ?_⟩, .inl ⟨?_, rfl⟩⟩
  · intro c' v v₁ hv hheard
    obtain rfl : v = v₁ := Option.some.inj hheard
    have hne : c' ≠ c := by
      rintro rfl
      rw [hc] at hv
      cases hv
    exact ⟨v, by rw [keep, hlookup, if_neg hne, hv], .keep v⟩
  · intro c' hv hne
    have hne : c' ≠ c := fun h => hne (h ▸ rfl)
    exact ⟨by rw [keep, hlookup, if_neg hne, hv], rfl⟩
  · intro c' v hv
    rw [keep, hlookup] at hv
    rw [keep, allows_mapConnections]
    split at hv
    · cases hv
      exact allows_of_isSettled rfl
    · exact ho c' v hv
  · rw [keep, hlookup, if_pos rfl]

theorem treats_connectionEstablished (ho : Orderly entry) (hc : view entry c = none) :
    Treats (peer, set) (.connectionEstablished c) entry (connectionEstablished peer set c entry) ∧
      Greets (peer, set) c (connectionEstablished peer set c entry) := by
  have hview : ∀ s, (List.lookup c [(c, s)]).map ConnectionState.view = some s.view :=
    fun s => congrArg (Option.map _) (Connections.lookup_cons_self s)
  have hdisabled : ∀ {entry : Option PeerState} (backoffUntil : Option Instant),
      listed entry = [] → Treats (peer, set) (.connectionEstablished c) entry
        (keep (.disabled [(c, .closed)] backoffUntil)) ∧
      Greets (peer, set) c (keep (.disabled [(c, .closed)] backoffUntil)) := by
    intro entry backoffUntil hlisted
    exact ⟨treats_first hlisted rfl (fun _ _ => rfl) rfl, .inl ⟨hview .closed, rfl⟩⟩
  have henabled : ∀ {entry : Option PeerState}, listed entry = [] →
      Treats (peer, set) (.connectionEstablished c) entry
        { entry := some (.enabled [(c, .opening)]), events := [openCommand peer set c] } ∧
      Greets (peer, set) c
        { entry := some (.enabled [(c, .opening)]), events := [openCommand peer set c] } := by
    intro entry hlisted
    refine ⟨treats_first hlisted rfl (fun c' hne => ?_) rfl, .inr ⟨hview .opening, ?_⟩⟩
    · rw [ordersTo_openCommand, if_neg hne]
    · rw [ordersTo_openCommand, if_pos rfl]
  rcases entry with _ | state
  · exact hdisabled none rfl
  · cases state with
    | poisoned => exact hdisabled none rfl
    | backoff timer deadline => exact hdisabled (some deadline) rfl
    | requested | pendingRequest => exact henabled rfl
    | _ => exact treats_further ho hc rfl

end PeerState

open PeerState in
/-- Every reaction that puts an entry back turns the connections one by one. -/
theorem PairInput.treats_reaction {x : PeerId × SetId} {env : Surroundings} {input : PairInput}
    {entry : Option PeerState} (hnd : (listed entry).ids.Nodup) (ho : Orderly entry)
    (hnew : ∀ c, input = .connectionEstablished c → view entry c = none)
    (hr : (input.reaction x env entry).Restores) :
    Reaction.Treats x input entry (input.reaction x env entry) := by
  rcases entry with _ | state
  · cases input with
    | connect now => exact treats_peersetReportConnect now env.nextDelayId trivial hnd ho
    | connectionEstablished c =>
      exact (treats_connectionEstablished ho (hnew c rfl)).1
    | handlerEvent c event ban =>
      exact treats_unmoved rfl (fun _ => rfl) ho (fun _ _ h => by cases h) fun _ _ => rfl
    | connectionClosed now c =>
      exact treats_removed hnd rfl (fun _ => rfl) fun _ _ h => by cases h
    | _ => exact treats_quiet trivial rfl (fun _ => rfl) ho fun _ _ => rfl
  · cases input with
    | disconnect now ban => exact treats_disconnectPeerInner now ban trivial hnd ho hr
    | connect now => exact treats_peersetReportConnect now _ trivial hnd ho
    | drop => exact treats_peersetReportDisconnect trivial hnd ho
    | accept => exact treats_accept trivial hnd ho hr
    | reject => exact treats_reject trivial hnd ho hr
    | connectionEstablished c => exact (treats_connectionEstablished ho (hnew c rfl)).1
    | connectionClosed now c => exact treats_connectionClosed now _ hnd ho hr
    | dialFailure now => exact treats_dialFailure now _ trivial ho
    | handlerEvent c event ban => exact treats_onHandlerEvent env event hnd ho hr
    | delayElapsed now delayId => exact treats_delayElapsed now delayId trivial hnd ho

end SwarmHost.Substrate
