import SwarmHost.Notifications.Views

/-! # The behaviour's side of the dialogues

A reaction turns each connection on its own: the view of a connection changes by
what its handler said, and then by an order that is sent to it.
-/

namespace SwarmHost.Substrate

def PairInput.Quiet : PairInput → Prop
  | .handlerEvent .. | .connectionClosed .. => False
  | _ => True

theorem PairInput.heard_of_quiet {input : PairInput} (h : input.Quiet) (c : ConnectionId)
    (v : View) : input.heard c v = some v := by
  cases input with
  | handlerEvent | connectionClosed => cases h
  | _ => rfl

namespace PeerState

open Reaction NetworkBehaviourAction

variable {peer : PeerId} {set : SetId} {x : PeerId × SetId} {cs cs' : Connections}
  {input : PairInput} {state : PeerState} {entry : Option PeerState} {r : Reaction}
  {c : ConnectionId}

theorem treats_same (hlisted : listed r.entry = listed entry)
    (horders : ∀ c, ordersTo x c r.events = [])
    (hheard : ∀ c s v₁, (listed entry).lookup c = some s → input.heard c s.view = some v₁ →
      v₁ = s.view)
    (hallows : ∀ c s, (listed entry).lookup c = some s → allows r.entry s.view) :
    Treats x input entry r := by
  apply treats_pointwise fun _ s => (s, [])
  · intro c
    rw [hlisted]
    exact Option.map_id'.symm
  · intro c
    rw [horders]
    cases (listed entry).lookup c <;> rfl
  · intro c s v₁ hs hv₁
    rw [hheard c s v₁ hs hv₁]
    exact .keep _
  · exact hallows

theorem Orderly.allows {s : ConnectionState} (ho : Orderly entry)
    (hs : (listed entry).lookup c = some s) : allows entry s.view :=
  ho c s.view (by rw [view, hs]; rfl)

theorem treats_quiet (hq : input.Quiet) (hlisted : listed r.entry = listed entry)
    (horders : ∀ c, ordersTo x c r.events = []) (ho : Orderly entry)
    (hallows : ∀ v, PeerState.allows entry v → PeerState.allows r.entry v) :
    Treats x input entry r := by
  apply treats_same hlisted horders
  · intro c s v₁ _ hv₁
    rw [PairInput.heard_of_quiet hq] at hv₁
    exact (Option.some.inj hv₁).symm
  · exact fun c s hs => hallows _ (ho.allows hs)

theorem treats_turned (hq : input.Quiet) (f : ConnectionState → ConnectionState × List Order)
    (hlookup : ∀ c, (listed r.entry).lookup c = ((listed entry).lookup c).map fun s => (f s).1)
    (horders : ∀ c, ordersTo x c r.events = ((listed entry).lookup c).elim [] fun s => (f s).2)
    (ho : Orderly entry) (hturn : ∀ s, PeerState.allows entry s.view →
      s.view.Turn (f s).2 (f s).1.view ∧ PeerState.allows r.entry (f s).1.view) :
    Treats x input entry r := by
  apply treats_pointwise (fun _ s => f s) hlookup horders
  · intro c s v₁ hs hv₁
    rw [PairInput.heard_of_quiet hq] at hv₁
    rw [← Option.some.inj hv₁]
    exact (hturn s (ho.allows hs)).1
  · exact fun c s hs => (hturn s (ho.allows hs)).2

theorem treats_keep (hq : input.Quiet) (ho : Orderly (some state)) :
    Treats x input (some state) (keep state) :=
  treats_quiet hq rfl (fun _ => rfl) ho fun _ h => h

theorem treats_enable {entry : Option PeerState} {opened : Connections} (hq : input.Quiet)
    (hr : cs.replaceFirst (fun _ s => s = .closed) .opening = some (c, opened))
    (hlisted : listed entry = cs) (hnd : cs.ids.Nodup) (ho : Orderly entry)
    (hallows : ∀ v, PeerState.allows entry v → v ≠ .desired) :
    Treats (peer, set) input entry
      { entry := some (.enabled opened), events := [openCommand peer set c] } := by
  obtain ⟨⟨s₀, hs₀, hclosed⟩, hlookup⟩ := Connections.lookup_replaceFirst hnd hr
  have hclosed : s₀ = .closed := by simpa using hclosed
  subst hclosed hlisted
  apply treats_pointwise fun c' s => if c' = c then (.opening, [.open]) else (s, [])
  · intro c'
    have hopened : listed (some (.enabled opened)) = opened := rfl
    rw [hopened, hlookup]
    dsimp only
    by_cases hc : c' = c
    · rw [hc, hs₀]
      simp
    · simp [hc]
  · intro c'
    rw [ordersTo_openCommand]
    by_cases hc : c' = c
    · rw [hc, hs₀]
      simp
    · cases (listed entry).lookup c' <;> simp [hc]
  · intro c' s v₁ hs hv₁
    rw [PairInput.heard_of_quiet hq] at hv₁
    obtain rfl := Option.some.inj hv₁
    by_cases hc : c' = c
    · subst hc
      obtain rfl : s = .closed := Option.some.inj (hs.symm.trans hs₀)
      rw [if_pos rfl]
      exact .order .openClosed
    · rw [if_neg hc]
      exact .keep _
  · intro c' s hs
    by_cases hc : c' = c
    · simp [hc, PeerState.allows, ConnectionState.view]
    · simpa [hc, PeerState.allows] using hallows _ (ho.allows hs)

theorem treats_desired {backoffUntil : Option Instant} {s' : ConnectionState} {o : Order}
    (hq : input.Quiet) (ho : Orderly (some (.incoming cs backoffUntil)))
    (hlisted : listed r.entry = cs.switch (· = .openDesiredByRemote) s')
    (horders : ∀ c, ordersTo x c r.events =
      (cs.lookup c).elim [] fun s => if s = .openDesiredByRemote then [o] else [])
    (hturn : View.Orders o .desired s'.view)
    (hallows : ∀ v : View, v.isSettled ∨ v = s'.view → PeerState.allows r.entry v) :
    Treats x input (some (.incoming cs backoffUntil)) r := by
  apply treats_turned hq
    (fun s => if s = .openDesiredByRemote then (s', [o]) else (s, [])) _ _ ho
  · intro s hs
    by_cases h : s = .openDesiredByRemote
    · rw [if_pos h, h]
      exact ⟨.order hturn, hallows _ (.inr rfl)⟩
    · rw [if_neg h]
      refine ⟨.keep _, hallows _ (.inl ?_)⟩
      cases s <;> simp_all [PeerState.allows, ConnectionState.view, View.isSettled]
  · intro c
    rw [hlisted, Connections.lookup_switch]
    simp only [listed, Option.bind_some, connections?, Option.getD_some]
    rcases cs.lookup c with _ | s
    · rfl
    · cases s <;> rfl
  · intro c
    rw [horders]
    simp only [listed, Option.bind_some, connections?, Option.getD_some]
    rcases cs.lookup c with _ | s
    · rfl
    · cases s <;> rfl

theorem treats_opened {backoffUntil : Option Instant} (hq : input.Quiet) (hnd : cs.ids.Nodup)
    (ho : Orderly (some (.incoming cs backoffUntil)))
    (hentry : r.entry = some (.enabled (cs.switch (· = .openDesiredByRemote) .opening)))
    (hevents : r.events = (cs.those (· = .openDesiredByRemote)).map (openCommand peer set)) :
    Treats (peer, set) input (some (.incoming cs backoffUntil)) r := by
  apply treats_desired hq ho (by rw [hentry]; rfl) _ .openDesired
  · rintro v (hv | rfl)
    · rw [hentry]
      cases v <;> simp_all [PeerState.allows, View.isSettled]
    · rw [hentry]
      rfl
  · intro c
    rw [hevents, ordersTo_openCommands _ hnd]
    simp

theorem treats_closed {backoffUntil backoffUntil' : Option Instant} (hq : input.Quiet)
    (hnd : cs.ids.Nodup) (ho : Orderly (some (.incoming cs backoffUntil)))
    (hentry : r.entry =
      some (.disabled (cs.switch (· = .openDesiredByRemote) .closing) backoffUntil'))
    (hevents : r.events = (cs.those (· = .openDesiredByRemote)).map (closeCommand peer set)) :
    Treats (peer, set) input (some (.incoming cs backoffUntil)) r := by
  apply treats_desired hq ho (by rw [hentry]; rfl) _ .closeDesired
  · rintro v (hv | rfl)
    · rw [hentry]
      exact hv
    · rw [hentry]
      rfl
  · intro c
    rw [hevents, ordersTo_closeCommands _ hnd]
    simp

def shut : ConnectionState → ConnectionState × List Order
  | .opened _ => (.closing, [.close])
  | .opening => (.openingThenClosing, [.close])
  | s => (s, [])

theorem treats_shut (hq : input.Quiet) (ho : Orderly (some (.enabled cs)))
    (hlookup : ∀ c, (listed r.entry).lookup c = (cs.lookup c).map fun s => (shut s).1)
    (horders : ∀ c, ordersTo x c r.events = (cs.lookup c).elim [] fun s => (shut s).2)
    (hallows : ∀ v : View, v.isSettled → PeerState.allows r.entry v) :
    Treats x input (some (.enabled cs)) r := by
  apply treats_turned hq shut hlookup horders ho
  intro s hs
  cases s with
  | opened sink => exact ⟨.order .closeOpened, hallows _ rfl⟩
  | opening => exact ⟨.order .closeOpening, hallows _ rfl⟩
  | openDesiredByRemote => simp [PeerState.allows, ConnectionState.view] at hs
  | _ => exact ⟨.keep _, hallows _ rfl⟩

theorem treats_disconnectPeerInner (now : Instant) (ban : Option ℕ) {alive : Bool}
    (hq : input.Quiet) (hnd : (listed (some state)).ids.Nodup) (ho : Orderly (some state))
    (hr : (state.disconnectPeerInner peer set now ban alive).Restores) :
    Treats (peer, set) input (some state)
      (state.disconnectPeerInner peer set now ban alive) := by
  cases state with
  | disabledPendingEnable cs timer deadline =>
    exact treats_quiet hq rfl (fun _ => rfl) ho fun _ h => h
  | enabled cs =>
    have hnd : cs.ids.Nodup := hnd
    have hnd' : (cs.switch (·.isOpened) .closing).ids.Nodup := by simpa using hnd
    apply treats_shut hq ho
    · intro c
      simp only [disconnectPeerInner, listed, Option.bind_some, connections?, Option.getD_some,
        Connections.lookup_switch, Option.map_map]
      rcases cs.lookup c with _ | s
      · rfl
      · cases s <;> rfl
    · intro c
      simp only [disconnectPeerInner, ordersTo_append, ordersTo_closedEvent, List.nil_append,
        ordersTo_closeCommands _ hnd, ordersTo_closeCommands _ hnd', Connections.lookup_switch]
      rcases cs.lookup c with _ | s
      · rfl
      · cases s <;> rfl
    · exact fun _ h => h
  | incoming cs backoffUntil =>
    simp only [disconnectPeerInner] at hr ⊢
    split at hr
    · next halive =>
      rw [if_pos halive]
      exact treats_closed hq hnd ho rfl rfl
    · exact absurd rfl hr
  | poisoned => exact absurd rfl hr
  | _ => exact treats_keep hq ho

theorem treats_accept (hq : input.Quiet) (hnd : (listed (some state)).ids.Nodup)
    (ho : Orderly (some state)) (hr : (state.accept peer set).Restores) :
    Treats (peer, set) input (some state) (state.accept peer set) := by
  cases state with
  | incoming cs backoffUntil => exact treats_opened hq hnd ho rfl rfl
  | _ => exact absurd rfl hr

theorem treats_reject (hq : input.Quiet) (hnd : (listed (some state)).ids.Nodup)
    (ho : Orderly (some state)) (hr : (state.reject peer set).Restores) :
    Treats (peer, set) input (some state) (state.reject peer set) := by
  cases state with
  | incoming cs backoffUntil => exact treats_closed hq hnd ho rfl rfl
  | _ => exact absurd rfl hr

theorem ne_desired_of_isSettled {v : View} (h : v.isSettled) : v ≠ .desired := by
  rintro rfl
  cases h

theorem treats_enableOrDelay {backoffUntil : Option Instant} (delayId : DelayId)
    (deadline : Instant) (hq : input.Quiet) (hnd : cs.ids.Nodup)
    (ho : Orderly (some (.disabled cs backoffUntil))) :
    Treats (peer, set) input (some (.disabled cs backoffUntil))
      (enableOrDelay peer set cs delayId deadline) := by
  unfold enableOrDelay
  split
  · next h => exact treats_enable hq h rfl hnd ho fun _ => ne_desired_of_isSettled
  · exact treats_quiet hq rfl (fun _ => rfl) ho fun _ h => h

theorem treats_peersetReportConnect (now : Instant) (delayId : DelayId) (hq : input.Quiet)
    (hnd : (listed entry).ids.Nodup) (ho : Orderly entry) :
    Treats (peer, set) input entry (peersetReportConnect peer set now delayId entry) := by
  unfold peersetReportConnect
  split
  · exact treats_quiet hq rfl (fun _ => rfl) ho fun _ _ => rfl
  · split <;> exact treats_quiet hq rfl (fun _ => rfl) ho fun _ _ => rfl
  · exact treats_enableOrDelay _ _ hq hnd ho
  · split
    · exact treats_quiet hq rfl (fun _ => rfl) ho fun _ h => h
    · exact treats_enableOrDelay _ _ hq hnd ho
  · exact treats_opened hq hnd ho rfl rfl
  · exact treats_keep hq ho

theorem treats_peersetReportDisconnect (hq : input.Quiet) (hnd : (listed (some state)).ids.Nodup)
    (ho : Orderly (some state)) :
    Treats (peer, set) input (some state) (state.peersetReportDisconnect peer set) := by
  cases state with
  | disabledPendingEnable cs timer deadline =>
    exact treats_quiet hq rfl (fun _ => rfl) ho fun _ h => h
  | requested | pendingRequest => exact treats_quiet hq rfl (fun _ => rfl) ho fun _ _ => rfl
  | enabled cs =>
    have hnd : cs.ids.Nodup := hnd
    have hnd' : (cs.switch (· = .opening) .openingThenClosing).ids.Nodup := by simpa using hnd
    apply treats_shut hq ho
    · intro c
      simp only [peersetReportDisconnect, listed, Option.bind_some, connections?, Option.getD_some,
        Connections.lookup_switch, Option.map_map]
      rcases cs.lookup c with _ | s
      · rfl
      · cases s <;> rfl
    · intro c
      simp only [peersetReportDisconnect, ordersTo_append, ordersTo_closedEvent, List.nil_append,
        ordersTo_closeCommands _ hnd, ordersTo_closeCommands _ hnd', Connections.lookup_switch]
      rcases cs.lookup c with _ | s
      · rfl
      · cases s <;> rfl
    · exact fun _ h => h
  | _ => exact treats_keep hq ho

theorem treats_dialFailure (now : Instant) (delayId : DelayId) (hq : input.Quiet)
    (ho : Orderly (some state)) :
    Treats (peer, set) input (some state) (state.dialFailure peer set now delayId) := by
  cases state with
  | requested | pendingRequest => exact treats_quiet hq rfl (fun _ => rfl) ho fun _ _ => rfl
  | _ => exact treats_keep hq ho

theorem treats_delayElapsed (now : Instant) (delayId : DelayId) (hq : input.Quiet)
    (hnd : (listed (some state)).ids.Nodup) (ho : Orderly (some state)) :
    Treats (peer, set) input (some state) (state.delayElapsed peer set now delayId) := by
  unfold delayElapsed
  split
  · split
    · exact treats_quiet hq rfl (fun _ => rfl) ho fun _ _ => rfl
    · exact treats_keep hq ho
  · split
    · exact treats_quiet hq rfl (fun _ => rfl) ho fun _ _ => rfl
    · exact treats_keep hq ho
  · split
    · split
      · next h => exact treats_enable hq h rfl hnd ho fun _ => ne_desired_of_isSettled
      · exact treats_quiet hq rfl (fun _ => rfl) ho fun _ h => h
    · exact treats_keep hq ho
  · exact treats_keep hq ho

end PeerState

end SwarmHost.Substrate
