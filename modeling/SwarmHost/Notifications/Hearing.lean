import SwarmHost.Notifications.Turns

/-! # What is heard from the handlers

An event of a handler turns the connection it comes from and no other. If it is
one that the behaviour expects, the connection gets the view that was expected,
or an order on top of it.
-/

namespace SwarmHost.Substrate

namespace PeerState

open Reaction NetworkBehaviourAction

variable {peer : PeerId} {set : SetId} {x : PeerId × SetId} {cs : Connections}
  {state : PeerState} {entry : Option PeerState} {r : Reaction} {c : ConnectionId}

variable {event : NotifsHandlerOut} {ban : Instant}

theorem treats_one (g : ConnectionState → ConnectionState) (orders : ConnectionState → List Order)
    (hlookup : ∀ c', (listed r.entry).lookup c' =
      ((listed entry).lookup c').map fun s => if c' = c then g s else s)
    (horders : ∀ c', ordersTo x c' r.events =
      ((listed entry).lookup c').elim [] fun s => if c' = c then orders s else [])
    (hturn : ∀ s v₁, (listed entry).lookup c = some s → s.view.hear event.word = some v₁ →
      v₁.Turn (orders s) (g s).view)
    (hallows : ∀ c' s, (listed entry).lookup c' = some s →
      PeerState.allows r.entry (if c' = c then g s else s).view) :
    Treats x (.handlerEvent c event ban) entry r := by
  apply treats_pointwise fun c' s => (if c' = c then g s else s, if c' = c then orders s else [])
  · exact hlookup
  · exact horders
  · intro c' s v₁ hs hv₁
    dsimp only [PairInput.heard] at hv₁ ⊢
    by_cases hc : c' = c
    · subst hc
      rw [if_pos rfl] at hv₁ ⊢
      rw [if_pos rfl]
      exact hturn s v₁ hs hv₁
    · rw [if_neg (Ne.symm hc)] at hv₁
      obtain rfl := Option.some.inj hv₁
      rw [if_neg hc, if_neg hc]
      exact .keep _
  · exact hallows

/-- The handler says nothing new. -/
theorem treats_unmoved (hlisted : listed r.entry = listed entry)
    (horders : ∀ c, ordersTo x c r.events = []) (ho : Orderly entry)
    (hheard : ∀ s v₁, (listed entry).lookup c = some s → s.view.hear event.word = some v₁ →
      v₁ = s.view)
    (hallows : ∀ v, PeerState.allows entry v → PeerState.allows r.entry v) :
    Treats x (.handlerEvent c event ban) entry r := by
  apply treats_same hlisted horders
  · intro c' s v₁ hs hv₁
    dsimp only [PairInput.heard] at hv₁
    split at hv₁
    · next hc =>
      subst hc
      exact hheard s v₁ hs hv₁
    · exact (Option.some.inj hv₁).symm
  · exact fun c s hs => hallows _ (ho.allows hs)

theorem lookup_update_self {s' : ConnectionState} (hnd : cs.ids.Nodup) (c' : ConnectionId) :
    (cs.update (fun c' _ => c' = c) s').lookup c' =
      (cs.lookup c').map fun s => if c' = c then s' else s := by
  have hp : ∀ (c' : ConnectionId) (s : ConnectionState),
      (decide (c' = c)) = (decide (c' = c) && (fun _ => true) s) := by simp
  rw [Connections.lookup_update hp hnd]
  simp

theorem treats_asked {i : ℕ} {backoffUntil : Option Instant} (hlisted : listed entry = cs)
    (hnd : cs.ids.Nodup) (ho : Orderly entry) (hc : cs.lookup c = some .closed)
    (hentry : r.entry =
      some (.incoming (cs.update (fun c' _ => c' = c) .openDesiredByRemote) backoffUntil))
    (hevents : r.events = [])
    (hallows : ∀ v, PeerState.allows entry v → PeerState.allows r.entry v) :
    Treats x (.handlerEvent c (.openDesiredByRemote i) ban) entry r := by
  subst hlisted
  apply treats_one (fun _ => .openDesiredByRemote) fun _ => []
  · intro c'
    rw [hentry]
    exact lookup_update_self hnd c'
  · intro c'
    rw [hevents]
    cases (listed entry).lookup c' <;> simp
  · intro s v₁ hs hv₁
    obtain rfl : ConnectionState.closed = s := Option.some.inj (hc.symm.trans hs)
    obtain rfl : View.desired = v₁ := Option.some.inj hv₁
    exact .keep _
  · intro c' s hs
    split
    · rw [hentry]
      rfl
    · exact hallows _ (ho.allows hs)

theorem treats_granted {i : ℕ} (hlisted : listed entry = cs) (hnd : cs.ids.Nodup)
    (ho : Orderly entry) (hc : cs.lookup c = some .closed)
    (hallows : ∀ v, PeerState.allows entry v → v ≠ .desired) :
    Treats (peer, set) (.handlerEvent c (.openDesiredByRemote i) ban) entry
      { entry := some (.enabled (cs.update (fun c' _ => c' = c) .opening))
        events := [openCommand peer set c] } := by
  subst hlisted
  apply treats_one (fun _ => .opening) fun _ => [.open]
  · exact lookup_update_self hnd
  · intro c'
    rw [ordersTo_openCommand]
    by_cases h : c' = c
    · rw [h, hc]
      simp
    · cases (listed entry).lookup c' <;> simp [h]
  · intro s v₁ hs hv₁
    obtain rfl : ConnectionState.closed = s := Option.some.inj (hc.symm.trans hs)
    obtain rfl : View.desired = v₁ := Option.some.inj hv₁
    exact .order .openDesired
  · intro c' s hs
    split
    · rfl
    · simpa [PeerState.allows] using hallows _ (ho.allows hs)

theorem hear_desired {s : ConnectionState} {v₁ : View} (hs : s ≠ .closed)
    (h : s.view.hear .desired = some v₁) : v₁ = s.view := by
  cases s with
  | closed => exact absurd rfl hs
  | opening | closing | openingThenClosing => cases h; rfl
  | _ => cases h

theorem treats_refused {i : ℕ} (ho : Orderly (some state))
    (hc : (listed (some state)).lookup c ≠ some .closed) :
    Treats x (.handlerEvent c (.openDesiredByRemote i) ban) (some state) (keep state) := by
  refine treats_unmoved rfl (fun _ => rfl) ho ?_ fun _ h => h
  intro s v₁ hs hv₁
  apply hear_desired _ hv₁
  rintro rfl
  exact hc hs

theorem treats_openDesiredByRemote {i : ℕ} (index : IncomingIndex)
    (hnd : (listed (some state)).ids.Nodup) (ho : Orderly (some state))
    (hr : (state.openDesiredByRemote peer set c index).Restores) :
    Treats (peer, set) (.handlerEvent c (.openDesiredByRemote i) ban) (some state)
      (state.openDesiredByRemote peer set c index) := by
  cases state with
  | incoming cs backoffUntil =>
    simp only [openDesiredByRemote]
    split
    · next hc => exact treats_asked rfl hnd ho hc rfl rfl fun _ h => h
    · next hc => exact treats_refused ho hc
  | enabled cs =>
    simp only [openDesiredByRemote]
    split
    · next hc =>
      exact treats_granted rfl hnd ho hc fun v h => by simpa [PeerState.allows] using h
    · next hc => exact treats_refused ho hc
  | disabled cs backoffUntil =>
    simp only [openDesiredByRemote] at hr ⊢
    split
    · next hc =>
      refine treats_asked rfl hnd ho hc rfl rfl fun v h => ?_
      have h : v.isSettled := h
      simp [PeerState.allows, h]
    · next hc hs => exact treats_refused ho fun h => hc (Option.some.inj (hs.symm.trans h))
    · next hc =>
      rw [hc] at hr
      exact absurd rfl hr
  | disabledPendingEnable cs timer deadline =>
    simp only [openDesiredByRemote] at hr ⊢
    split
    · next hc => exact treats_granted rfl hnd ho hc fun _ => ne_desired_of_isSettled
    · next hc hs => exact treats_refused ho fun h => hc (Option.some.inj (hs.symm.trans h))
    · next hc =>
      rw [hc] at hr
      exact absurd rfl hr
  | _ => exact absurd rfl hr

theorem hear_closeDesired {s : ConnectionState} {v₁ : View} (hs : ∀ sink, s ≠ .opened sink)
    (h : s.view.hear .closeDesired = some v₁) : v₁ = s.view := by
  cases s with
  | closing => cases h; rfl
  | opened sink => exact absurd rfl (hs sink)
  | _ => cases h

theorem isSettled_of_anyIn {s : ConnectionState} (hc : cs.lookup c = some s)
    (hnone : cs.anyIn (fun s => s = .opening || s.isOpened) = false)
    (hs : s ≠ .openDesiredByRemote) : s.view.isSettled := by
  have hs' : ¬ (s = .opening || s.isOpened) = true := by
    intro h
    have hany : cs.anyIn (fun s => s = .opening || s.isOpened) = true :=
      List.any_eq_true.mpr ⟨(c, s), Connections.mem_of_lookup hc, h⟩
    rw [hnone] at hany
    cases hany
  cases s <;> simp_all [ConnectionState.view, View.isSettled, ConnectionState.isOpened]

/-- The peer is enabled, or it is disabled and no connection is open or to be opened. -/
def EnabledOrDone (cs : Connections) (entry : Option PeerState) : Prop :=
  entry = some (.enabled cs) ∨
    cs.anyIn (fun s => s = .opening || s.isOpened) = false ∧
      ∃ backoffUntil, entry = some (.disabled cs backoffUntil)

theorem EnabledOrDone.listed (h : EnabledOrDone cs entry) : listed entry = cs := by
  rcases h with rfl | ⟨-, backoffUntil, rfl⟩ <;> rfl

theorem EnabledOrDone.allows {s : ConnectionState} (h : EnabledOrDone cs entry)
    (hc : cs.lookup c = some s) (hs : s ≠ .openDesiredByRemote) :
    PeerState.allows entry s.view := by
  rcases h with rfl | ⟨hnone, backoffUntil, rfl⟩
  · cases s <;> simp_all [PeerState.allows, ConnectionState.view]
  · exact isSettled_of_anyIn hc hnone hs

theorem ne_openDesired_of_allows {s : ConnectionState}
    (h : PeerState.allows (some (.enabled cs)) s.view) : s ≠ .openDesiredByRemote := by
  rintro rfl
  cases h

theorem treats_asksClose {i : ℕ} {cs' : Connections} {position : ℕ}
    (hnd : cs.ids.Nodup) (ho : Orderly (some (.enabled cs)))
    (hcs' : cs' = cs.update (fun c' _ => c' = c) .closing) {s : ConnectionState}
    (hc : cs.lookup c = some s) (hs : s ≠ .closing)
    (hentry : EnabledOrDone cs' r.entry)
    (hevents : r.events = closeCommand peer set c :: lostEvents peer set position cs') :
    Treats (peer, set) (.handlerEvent c (.closeDesired i) ban) (some (.enabled cs)) r := by
  have hlookup : ∀ c', cs'.lookup c' =
      (cs.lookup c').map fun s => if c' = c then ConnectionState.closing else s := by
    rw [hcs']
    exact lookup_update_self hnd
  apply treats_one (fun _ => .closing) fun _ => [.close]
  · rw [hentry.listed]
    exact hlookup
  · intro c'
    rw [hevents, ordersTo_closeCommand, ordersTo_lostEvents, List.append_nil]
    have hlisted : listed (some (.enabled cs)) = cs := rfl
    by_cases h : c' = c
    · rw [h, hlisted, hc]
      simp
    · cases (listed (some (.enabled cs))).lookup c' <;> simp [h]
  · intro s' v₁ hs' hv₁
    obtain rfl : s = s' := Option.some.inj (hc.symm.trans hs')
    cases s with
    | opened sink => cases hv₁; exact .order .closeOpened
    | closing => exact absurd rfl hs
    | _ => cases hv₁
  · intro c' s' hs'
    refine hentry.allows (c := c') ?_ ?_
    · rw [hlookup]
      exact congrArg (Option.map _) hs'
    · split
      · simp
      · exact ne_openDesired_of_allows (ho.allows hs')

theorem treats_closeDesired {i : ℕ} (hnd : (listed (some state)).ids.Nodup)
    (ho : Orderly (some state)) (hr : (state.closeDesired peer set c).Restores) :
    Treats (peer, set) (.handlerEvent c (.closeDesired i) ban) (some state)
      (state.closeDesired peer set c) := by
  cases state with
  | enabled cs =>
    have hnd : cs.ids.Nodup := hnd
    simp only [closeDesired] at hr ⊢
    split
    · next hc =>
      rw [hc] at hr
      exact absurd rfl hr
    · next hc =>
      refine treats_unmoved rfl (fun _ => rfl) ho ?_ fun _ h => h
      intro s v₁ hs hv₁
      obtain rfl : ConnectionState.closing = s := Option.some.inj (hc.symm.trans hs)
      exact hear_closeDesired (by simp) hv₁
    · next s hne hc =>
      split
      · exact treats_asksClose hnd ho rfl hc hne (.inl rfl) rfl
      · next h =>
        exact treats_asksClose hnd ho rfl hc hne (.inr ⟨by simpa using h, none, rfl⟩) rfl
  | disabled | disabledPendingEnable =>
    refine treats_unmoved rfl (fun _ => rfl) ho ?_ fun _ h => h
    intro s v₁ hs hv₁
    apply hear_closeDesired _ hv₁
    rintro sink rfl
    cases ho.allows hs
  | _ => exact absurd rfl hr

theorem allows_of_isSettled {v : View} (h : v.isSettled) : PeerState.allows entry v := by
  rcases entry with _ | state
  · rfl
  · cases state with
    | enabled cs => simpa [PeerState.allows] using ne_desired_of_isSettled h
    | disabled | disabledPendingEnable => exact h
    | incoming cs backoffUntil => simp [PeerState.allows, h]
    | _ => rfl

theorem allows_mapConnections (f : Connections → Connections) (v : View) :
    PeerState.allows (some (state.mapConnections f)) v = PeerState.allows (some state) v := by
  cases state <;> rfl

theorem treats_mapConnections {f : Connections → Connections}
    (g : ConnectionState → ConnectionState)
    (hf : ∀ cs : Connections, cs.ids.Nodup → ∀ c', (f cs).lookup c' =
      (cs.lookup c').map fun s => if c' = c then g s else s)
    (hnd : (listed (some state)).ids.Nodup) (ho : Orderly (some state))
    (hg : ∀ s, g s = s ∨ (g s).view.isSettled)
    (hheard : ∀ s v₁, (listed (some state)).lookup c = some s →
      s.view.hear event.word = some v₁ → v₁ = (g s).view) :
    Treats x (.handlerEvent c event ban) (some state) (keep (state.mapConnections f)) := by
  apply treats_one g fun _ => []
  · cases state with
    | disabled cs backoffUntil | disabledPendingEnable cs timer deadline | enabled cs
    | incoming cs backoffUntil => exact hf cs hnd
    | _ => exact fun _ => rfl
  · intro c'
    cases (listed (some state)).lookup c' <;> simp [keep]
  · intro s v₁ hs hv₁
    rw [hheard s v₁ hs hv₁]
    exact .keep _
  · intro c' s hs
    rw [keep, allows_mapConnections]
    split
    · rcases hg s with h | h
      · rw [h]
        exact ho.allows hs
      · exact allows_of_isSettled h
    · exact ho.allows hs

theorem lookup_update_state {t s' : ConnectionState} (hnd : cs.ids.Nodup) (c' : ConnectionId) :
    (cs.update (fun c' s => c' = c && s = t) s').lookup c' =
      (cs.lookup c').map fun s => if c' = c then (if s = t then s' else s) else s := by
  have hp : ∀ (c' : ConnectionId) (s : ConnectionState),
      (decide (c' = c) && decide (s = t)) = (decide (c' = c) && (fun s => decide (s = t)) s) :=
    fun _ _ => rfl
  rw [Connections.lookup_update hp hnd]
  congr
  funext s
  by_cases h : c' = c <;> simp [h]

theorem treats_closeResult {i : ℕ} (hnd : (listed (some state)).ids.Nodup)
    (ho : Orderly (some state)) :
    Treats x (.handlerEvent c (.closeResult i) ban) (some state) (state.closeResult c) := by
  apply treats_mapConnections (fun s => if s = .closing then .closed else s) _ hnd ho
  · intro s
    by_cases h : s = .closing <;> simp [h, ConnectionState.view, View.isSettled]
  · intro s v₁ hs hv₁
    cases s with
    | closing => cases hv₁; rfl
    | _ => cases hv₁
  · exact fun cs hnd => lookup_update_state hnd

theorem treats_openingThenClosed (state : PeerState) (hevent : event.word = .ok ∨ event.word = .err)
    (hnd : (listed (some state)).ids.Nodup) (ho : Orderly (some state))
    (hc : (listed (some state)).lookup c ≠ some .opening) :
    Treats x (.handlerEvent c event ban) (some state)
      (keep (state.mapConnections (openingThenClosed c))) := by
  apply treats_mapConnections (fun s => if s = .openingThenClosing then .closing else s) _ hnd ho
  · intro s
    by_cases h : s = .openingThenClosing <;> simp [h, ConnectionState.view, View.isSettled]
  · intro s v₁ hs hv₁
    cases s with
    | openingThenClosing =>
      rcases hevent with h | h <;> rw [h] at hv₁ <;> cases hv₁ <;> rfl
    | opening => exact absurd hs hc
    | _ => rcases hevent with h | h <;> rw [h] at hv₁ <;> cases hv₁
  · exact fun cs hnd => lookup_update_state hnd

theorem ne_opening_of_orderly (ho : Orderly (some state)) (hstate : ∀ cs, state ≠ .enabled cs) :
    (listed (some state)).lookup c ≠ some .opening := by
  intro hs
  have h := ho.allows hs
  cases state with
  | enabled cs => exact hstate cs rfl
  | disabled | disabledPendingEnable | incoming => cases h
  | _ => cases hs

theorem treats_openResultOk {i : ℕ} (fallback : Option ProtocolName) (handshake : Bytes)
    (sink : NotificationsSink) (hnd : (listed (some state)).ids.Nodup)
    (ho : Orderly (some state)) :
    Treats (peer, set) (.handlerEvent c (.openResultOk i fallback handshake sink) ban)
      (some state) (state.openResultOk peer set c fallback handshake sink) := by
  unfold openResultOk
  split
  · next cs =>
    have hnd : cs.ids.Nodup := hnd
    split
    · next c₀ opened hreplace =>
      obtain ⟨⟨s₀, hs₀, hp⟩, hlookup⟩ := Connections.lookup_replaceFirst hnd hreplace
      obtain ⟨rfl, rfl⟩ : c₀ = c ∧ s₀ = .opening := by simpa using hp
      apply treats_one (fun _ => .opened sink) fun _ => []
      · intro c'
        have hlisted : listed (some (.enabled opened)) = opened := rfl
        have hlisted' : listed (some (.enabled cs)) = cs := rfl
        rw [hlisted, hlisted', hlookup]
        by_cases h : c' = c₀
        · rw [h, hs₀]
          simp
        · simp [h]
      · intro c'
        cases (listed (some (.enabled cs))).lookup c' <;>
          · dsimp only
            split <;> simp
      · intro s v₁ hs hv₁
        obtain rfl : ConnectionState.opening = s := Option.some.inj (hs₀.symm.trans hs)
        cases hv₁
        exact .keep _
      · intro c' s hs
        by_cases h : c' = c₀
        · rw [if_pos h]
          rfl
        · rw [if_neg h]
          exact ho.allows hs
    · next hreplace =>
      refine treats_openingThenClosed (.enabled cs) (.inl rfl) hnd ho ?_
      intro hs
      simpa using Connections.replaceFirst_eq_none hreplace hs
  · next hstate =>
    exact treats_openingThenClosed _ (.inl rfl) hnd ho (ne_opening_of_orderly ho hstate)

def failed : ConnectionState → ConnectionState
  | .opening => .closed
  | .openingThenClosing => .closing
  | s => s

theorem lookup_openingFailed (hnd : cs.ids.Nodup) (c' : ConnectionId) :
    (openingFailed c cs).lookup c' =
      (cs.lookup c').map fun s => if c' = c then failed s else s := by
  unfold openingFailed
  split
  · next c₀ closed hreplace =>
    obtain ⟨⟨s₀, hs₀, hp⟩, hlookup⟩ := Connections.lookup_replaceFirst hnd hreplace
    obtain ⟨rfl, rfl⟩ : c₀ = c ∧ s₀ = .opening := by simpa using hp
    have hlookup : closed.lookup c' = _ := hlookup c'
    rw [hlookup]
    by_cases h : c' = c₀
    · rw [h, hs₀]
      simp [failed]
    · simp [h]
  · next hreplace =>
    rw [openingThenClosed, lookup_update_state hnd]
    cases hs : cs.lookup c' with
    | none => rfl
    | some s =>
      by_cases h : c' = c
      · subst h
        have hne : s ≠ .opening := by simpa using Connections.replaceFirst_eq_none hreplace hs
        cases s with
        | opening => exact absurd rfl hne
        | _ => simp [failed]
      · simp [h]

theorem treats_openResultErr {i : ℕ} (hnd : (listed (some state)).ids.Nodup)
    (ho : Orderly (some state)) (hr : (state.openResultErr peer set c ban).Restores) :
    Treats (peer, set) (.handlerEvent c (.openResultErr i) ban) (some state)
      (state.openResultErr peer set c ban) := by
  have herr : ∀ hstate : ∀ cs, state ≠ .enabled cs, Treats (peer, set)
      (.handlerEvent c (.openResultErr i) ban) (some state)
      (keep (state.mapConnections (openingThenClosed c))) := fun hstate =>
    treats_openingThenClosed _ (.inr rfl) hnd ho (ne_opening_of_orderly ho hstate)
  cases state with
  | enabled cs =>
    have hnd : cs.ids.Nodup := hnd
    have hdone : EnabledOrDone (openingFailed c cs)
        (openResultErr peer set c ban (.enabled cs)).entry := by
      simp only [openResultErr]
      split
      · exact .inl rfl
      · next h => exact .inr ⟨by simpa using h, some ban, rfl⟩
    have hevents : (openResultErr peer set c ban (.enabled cs)).events = [] := by
      simp only [openResultErr]
      split <;> rfl
    apply treats_one failed fun _ => []
    · rw [hdone.listed]
      exact lookup_openingFailed hnd
    · intro c'
      rw [hevents]
      cases (listed (some (.enabled cs))).lookup c' <;> simp
    · intro s v₁ hs hv₁
      cases s with
      | opening | openingThenClosing => cases hv₁; exact .keep _
      | _ => cases hv₁
    · intro c' s hs
      refine hdone.allows (c := c') ?_ ?_
      · rw [lookup_openingFailed hnd]
        exact congrArg (Option.map _) hs
      · have hne : s ≠ .openDesiredByRemote := ne_openDesired_of_allows (ho.allows hs)
        split
        · cases s <;> simp_all [failed]
        · exact hne
  | incoming | disabled | disabledPendingEnable => exact herr (by simp)
  | _ => exact absurd rfl hr

theorem treats_notification {i : ℕ} (message : Bytes) (ho : Orderly (some state)) :
    Treats x (.handlerEvent c (.notification i message) ban) (some state)
      (state.notification peer set message) := by
  refine treats_unmoved rfl ?_ ho ?_ fun _ h => h
  · intro c
    unfold notification
    dsimp only
    split <;> rfl
  · intro s v₁ _ hv₁
    cases s with
    | opened | closing => cases hv₁; rfl
    | _ => cases hv₁

theorem treats_onHandlerEvent (env : Surroundings) (event : NotifsHandlerOut)
    (hnd : (listed (some state)).ids.Nodup) (ho : Orderly (some state))
    (hr : (state.onHandlerEvent peer set env c ban event).Restores) :
    Treats (peer, set) (.handlerEvent c event ban) (some state)
      (state.onHandlerEvent peer set env c ban event) := by
  cases event with
  | openDesiredByRemote i => exact treats_openDesiredByRemote _ hnd ho hr
  | closeDesired i => exact treats_closeDesired hnd ho hr
  | closeResult i => exact treats_closeResult hnd ho
  | openResultOk i fallback handshake sink =>
    exact treats_openResultOk fallback handshake sink hnd ho
  | openResultErr i => exact treats_openResultErr hnd ho hr
  | notification i message => exact treats_notification message ho

end PeerState

end SwarmHost.Substrate
