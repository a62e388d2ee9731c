import SwarmHost.Notifications.Pairs
import SwarmHost.Notifications.Sinks

/-! # What the user is told of the sinks

The sinks of a pair are those of its open connections while it is enabled. A
reaction opens one, loses one, closes all or leaves them alone, and tells the
user accordingly: when the first sink is lost it is replaced by the next, when
the last is lost the protocol is closed.
-/

namespace SwarmHost.Substrate

namespace PeerState

def sinks : Option PeerState → List (ConnectionId × NotificationsSink)
  | some (.enabled cs) => cs.opens
  | _ => []

def Shuts : Option PeerState → Prop
  | some (.disabled cs _) | some (.disabledPendingEnable cs _ _) | some (.incoming cs _) =>
    cs.opens = []
  | _ => True

end PeerState

def NetworkBehaviourAction.event? : NetworkBehaviourAction → Option NotificationsOut
  | .generateEvent event => some event
  | _ => none

def Reaction.told (r : Reaction) : List NotificationsOut :=
  r.events.filterMap NetworkBehaviourAction.event?

def PairInput.Loses (c : ConnectionId) : PairInput → Prop
  | .connectionClosed _ c' => c' = c
  | .handlerEvent c' (.closeDesired _) _ => c' = c
  | _ => False

open PeerState in
/-- What a reaction does to the sinks, and what the user is told of it. -/
inductive Reaction.Voices (x : PeerId × SetId) (input : PairInput) (entry : Option PeerState)
    (r : Reaction) : Prop where
  | same : sinks r.entry = sinks entry → r.told = [] → Voices x input entry r
  | notified (message : Bytes) : sinks r.entry = sinks entry → sinks entry ≠ [] →
      r.told = [.notification x.1 x.2 message] → Voices x input entry r
  | closed : sinks entry ≠ [] → sinks r.entry = [] →
      r.told = [.customProtocolClosed x.1 x.2] → Voices x input entry r
  | opened {l l' : List (ConnectionId × NotificationsSink)} {c : ConnectionId}
      {sink : NotificationsSink} (fallback : Option ProtocolName) (handshake : Bytes) :
      sinks entry = l ++ l' → sinks r.entry = l ++ (c, sink) :: l' →
      r.told = (if sinks entry = [] then
        [.customProtocolOpen x.1 x.2 fallback handshake sink] else []) → Voices x input entry r
  | lost {cs : Connections} {l : List (ConnectionId × NotificationsSink)} {c : ConnectionId}
      {sink : NotificationsSink} : input.Loses c → entry = some (.enabled cs) →
      cs.lookup c = some (.opened sink) →
      cs.opens = Connections.opens (cs.take (cs.position c)) ++ (c, sink) :: l →
      sinks r.entry = Connections.opens (cs.take (cs.position c)) ++ l →
      r.told = lossEvents x.1 x.2 (Connections.opens (cs.take (cs.position c))) l →
      Voices x input entry r
  /-- A connection asks to be closed that is not open. -/
  | unopened {cs : Connections} {c : ConnectionId} {s : ConnectionState} {i : ℕ} {ban : Instant} :
      input = .handlerEvent c (.closeDesired i) ban → entry = some (.enabled cs) →
      cs.lookup c = some s → s ≠ .closing → s.isOpened = false → sinks r.entry = sinks entry →
      (r.told = [] ∨ r.told = lossEvents x.1 x.2 [] (sinks entry)) → Voices x input entry r
  | poisoned : r.entry = some .poisoned → r.told = [] → Voices x input entry r

namespace PeerState

open Reaction NetworkBehaviourAction

variable {peer : PeerId} {set : SetId} {cs : Connections} {input : PairInput} {state : PeerState}
  {entry : Option PeerState} {r : Reaction}

theorem told_nil (h : r.events = []) : r.told = [] := by
  rw [told, h]
  rfl

theorem filterMap_openCommand (ids : List ConnectionId) :
    (ids.map (openCommand peer set)).filterMap event? = [] := by
  simp [List.filterMap_map, Function.comp_def, openCommand, event?]

theorem filterMap_closeCommand (ids : List ConnectionId) :
    (ids.map (closeCommand peer set)).filterMap event? = [] := by
  simp [List.filterMap_map, Function.comp_def, closeCommand, event?]

theorem filterMap_generateEvent (events : List NotificationsOut) :
    (events.map generateEvent).filterMap event? = events := by
  simp [List.filterMap_map, Function.comp_def, event?]

theorem filterMap_closedEvent : (closedEvent peer set cs).filterMap event? =
    if cs.opens = [] then [] else [.customProtocolClosed peer set] := by
  unfold closedEvent
  by_cases h : cs.opens = []
  · rw [if_pos h, if_neg (by simp [Connections.opens_eq_nil_iff.mp h])]
    rfl
  · have hany : cs.anyIn (·.isOpened) := by simpa [Connections.opens_eq_nil_iff] using h
    rw [if_neg h, if_pos hany]
    rfl

theorem voices_closeAll (hentry : entry = some (.enabled cs)) (hsinks : sinks r.entry = [])
    (htold : r.told = (closedEvent peer set cs).filterMap event?) :
    Voices (peer, set) input entry r := by
  subst hentry
  rw [filterMap_closedEvent] at htold
  by_cases h : cs.opens = []
  · rw [if_pos h] at htold
    exact .same (hsinks.trans h.symm) htold
  · rw [if_neg h] at htold
    exact .closed h hsinks htold

theorem voices_none (h : sinks entry = []) (h' : sinks r.entry = []) (htold : r.told = []) :
    Voices (peer, set) input entry r :=
  .same (h'.trans h.symm) htold

theorem voices_keep (state : PeerState) : Voices (peer, set) input (some state) (keep state) :=
  .same rfl rfl

theorem voices_poison : Voices (peer, set) input entry poison := .poisoned rfl rfl

/-- The reaction keeps open connections to enabled peers, and tells the user about them. -/
def Speaks (x : PeerId × SetId) (input : PairInput) (entry : Option PeerState) (r : Reaction) :
    Prop :=
  Shuts r.entry ∧ Voices x input entry r

theorem speaks_keep (h : Shuts (some state)) :
    Speaks (peer, set) input (some state) (keep state) :=
  ⟨h, voices_keep state⟩

theorem speaks_poison : Speaks (peer, set) input entry poison := ⟨trivial, voices_poison⟩

theorem speaks_disconnectPeerInner (now : Instant) (ban : Option ℕ) (alive : Bool)
    (h : Shuts (some state)) :
    Speaks (peer, set) input (some state)
      (state.disconnectPeerInner peer set now ban alive) := by
  cases state with
  | disabledPendingEnable cs timer deadline => exact ⟨h, voices_none rfl rfl rfl⟩
  | enabled cs =>
    constructor
    · exact (Connections.opens_switch_eq rfl rfl).trans (Connections.opens_switch_isOpened rfl)
    · apply voices_closeAll rfl rfl
      simp only [disconnectPeerInner, told, List.filterMap_append, filterMap_closeCommand,
        List.append_nil]
  | incoming cs backoffUntil =>
    simp only [disconnectPeerInner]
    split
    · refine ⟨?_, voices_none rfl rfl ?_⟩
      · exact (Connections.opens_switch_eq rfl rfl).trans h
      · exact filterMap_closeCommand _
    · exact speaks_poison
  | _ => exact speaks_keep h

theorem opens_openFirst {c : ConnectionId} {cs' : Connections}
    (h : cs.replaceFirst (fun _ s => s = .closed) .opening = some (c, cs')) :
    cs'.opens = cs.opens := by
  refine Connections.opens_replaceFirst (fun _ s hs => ?_) rfl h
  rw [of_decide_eq_true hs]
  rfl

theorem speaks_enableOrDelay {backoffUntil : Option Instant} (delayId : DelayId)
    (deadline : Instant) (h : Shuts (some (.disabled cs backoffUntil))) :
    Speaks (peer, set) input (some (.disabled cs backoffUntil))
      (enableOrDelay peer set cs delayId deadline) := by
  unfold enableOrDelay
  split
  · next hfirst => exact ⟨trivial, voices_none rfl ((opens_openFirst hfirst).trans h) rfl⟩
  · exact ⟨h, voices_none rfl rfl rfl⟩

theorem speaks_peersetReportConnect (now : Instant) (delayId : DelayId) (h : Shuts entry) :
    Speaks (peer, set) input entry (peersetReportConnect peer set now delayId entry) := by
  unfold peersetReportConnect
  split
  · exact ⟨trivial, voices_none rfl rfl rfl⟩
  · split <;> exact ⟨trivial, voices_none rfl rfl rfl⟩
  · exact speaks_enableOrDelay _ _ h
  · split
    · exact ⟨h, voices_none rfl rfl rfl⟩
    · exact speaks_enableOrDelay _ _ h
  · refine ⟨trivial, voices_none rfl ?_ (filterMap_openCommand _)⟩
    exact (Connections.opens_switch_eq rfl rfl).trans h
  · exact speaks_keep h

theorem speaks_peersetReportDisconnect (h : Shuts (some state)) :
    Speaks (peer, set) input (some state) (state.peersetReportDisconnect peer set) := by
  cases state with
  | enabled cs =>
    constructor
    · exact Connections.opens_switch_isOpened rfl
    · apply voices_closeAll rfl rfl
      simp only [peersetReportDisconnect, told, List.filterMap_append, filterMap_closeCommand,
        List.append_nil]
  | disabledPendingEnable cs timer deadline => exact ⟨h, voices_none rfl rfl rfl⟩
  | requested | pendingRequest => exact ⟨trivial, voices_none rfl rfl rfl⟩
  | _ => exact speaks_keep h

theorem speaks_accept (h : Shuts (some state)) :
    Speaks (peer, set) input (some state) (state.accept peer set) := by
  cases state with
  | incoming cs backoffUntil =>
    refine ⟨trivial, voices_none rfl ?_ (filterMap_openCommand _)⟩
    exact (Connections.opens_switch_eq rfl rfl).trans h
  | _ => exact speaks_poison

theorem speaks_reject (h : Shuts (some state)) :
    Speaks (peer, set) input (some state) (state.reject peer set) := by
  cases state with
  | incoming cs backoffUntil =>
    refine ⟨?_, voices_none rfl rfl (filterMap_closeCommand _)⟩
    exact (Connections.opens_switch_eq rfl rfl).trans h
  | _ => exact speaks_poison

theorem speaks_mapConnections {f : Connections → Connections} (hf : ∀ cs, (f cs).opens = cs.opens)
    (h : Shuts (some state)) :
    Speaks (peer, set) input (some state) (keep (state.mapConnections f)) := by
  cases state with
  | enabled cs => exact ⟨trivial, .same (hf cs) rfl⟩
  | disabled cs backoffUntil | disabledPendingEnable cs timer deadline | incoming cs backoffUntil =>
    exact ⟨(hf cs).trans h, voices_none rfl rfl rfl⟩
  | _ => exact speaks_keep h

theorem speaks_connectionEstablished (c : ConnectionId) (h : Shuts entry) :
    Speaks (peer, set) input entry (connectionEstablished peer set c entry) := by
  unfold connectionEstablished
  split
  · exact ⟨trivial, voices_none rfl rfl rfl⟩
  · exact ⟨trivial, voices_none rfl rfl rfl⟩
  · exact ⟨rfl, voices_none rfl rfl rfl⟩
  · exact ⟨rfl, voices_none rfl rfl rfl⟩
  · exact ⟨rfl, voices_none rfl rfl rfl⟩
  · refine speaks_mapConnections (fun cs => ?_) h
    rw [Connections.opens_append]
    exact List.append_nil _

theorem speaks_dialFailure (now : Instant) (delayId : DelayId) (h : Shuts (some state)) :
    Speaks (peer, set) input (some state) (state.dialFailure peer set now delayId) := by
  cases state with
  | requested | pendingRequest => exact ⟨trivial, voices_none rfl rfl rfl⟩
  | _ => exact speaks_keep h

theorem speaks_delayElapsed (now : Instant) (delayId : DelayId) (h : Shuts (some state)) :
    Speaks (peer, set) input (some state) (state.delayElapsed peer set now delayId) := by
  unfold delayElapsed
  split
  · split
    · exact ⟨trivial, voices_none rfl rfl rfl⟩
    · exact speaks_keep h
  · split
    · exact ⟨trivial, voices_none rfl rfl rfl⟩
    · exact speaks_keep h
  · split
    · split
      · next hfirst => exact ⟨trivial, voices_none rfl ((opens_openFirst hfirst).trans h) rfl⟩
      · exact ⟨h, voices_none rfl rfl rfl⟩
    · exact speaks_keep h
  · exact speaks_keep h

theorem opens_of_idle (h : ¬ cs.anyIn fun s => s = .opening || s.isOpened) : cs.opens = [] := by
  rw [Connections.opens_eq_nil_iff]
  by_contra hany
  apply h
  have hany : cs.anyIn (·.isOpened) := by simpa using hany
  obtain ⟨e, he, hopened⟩ := List.any_eq_true.mp hany
  exact List.any_eq_true.mpr ⟨e, he, by simp [hopened]⟩

theorem speaks_leave {now : Instant} {delayId : DelayId} {deadline : Option Instant}
    {change : IncomingChange} (h : sinks entry = []) :
    Speaks (peer, set) input entry { leave now delayId deadline with incoming := change } := by
  unfold leave
  split
  · split
    · exact ⟨trivial, voices_none h rfl rfl⟩
    · exact ⟨trivial, voices_none h rfl rfl⟩
  · exact ⟨trivial, voices_none h rfl rfl⟩

theorem opens_remove_of_nil (c : ConnectionId) (h : cs.opens = []) : (cs.remove c).opens = [] := by
  rw [Connections.opens_eq_nil_iff] at h ⊢
  rw [Connections.anyIn, List.any_eq_false] at h ⊢
  exact fun e he => h e (List.mem_of_mem_eraseP he)

theorem voices_closed {now : Instant} {c : ConnectionId}
    (hsinks : sinks r.entry = (cs.remove c).opens) (hevents : r.events = match cs.lookup c with
      | some (.opened _) => lostEvents peer set (cs.position c) (cs.remove c)
      | _ => []) :
    Voices (peer, set) (.connectionClosed now c) (some (.enabled cs)) r := by
  split at hevents
  · next sink hlookup =>
    obtain ⟨l, h₁, h₂, h₃⟩ : Loss peer set c sink cs (cs.position c) (cs.remove c) :=
      loss_remove hlookup
    refine .lost rfl rfl hlookup h₁ (hsinks.trans h₂) ?_
    rw [told, hevents, h₃]
    exact filterMap_generateEvent _
  · next hlookup =>
    refine .same (hsinks.trans ?_) (told_nil hevents)
    exact Connections.opens_remove_of_not hlookup

theorem speaks_connectionClosed (now : Instant) (delayId : DelayId) (c : ConnectionId)
    (h : Shuts (some state)) : Speaks (peer, set) (.connectionClosed now c) (some state)
      (state.connectionClosed peer set now delayId c) := by
  cases state with
  | disabled cs backoffUntil =>
    simp only [connectionClosed]
    split
    · exact speaks_leave rfl
    · exact ⟨opens_remove_of_nil c h, voices_none rfl rfl rfl⟩
  | disabledPendingEnable cs timer deadline =>
    simp only [connectionClosed]
    split
    · exact ⟨trivial, voices_none rfl rfl rfl⟩
    · exact ⟨opens_remove_of_nil c h, voices_none rfl rfl rfl⟩
  | incoming cs backoffUntil =>
    simp only [connectionClosed]
    split
    · exact speaks_leave rfl
    · split
      · exact ⟨opens_remove_of_nil c h, voices_none rfl rfl rfl⟩
      · exact ⟨opens_remove_of_nil c h, voices_none rfl rfl rfl⟩
  | enabled cs =>
    simp only [connectionClosed]
    split
    · next hempty =>
      have hnil : (cs.remove c).opens = [] := by
        rw [List.isEmpty_iff.mp hempty]
        rfl
      exact ⟨hnil, voices_closed hnil.symm rfl⟩
    · split
      · exact ⟨trivial, voices_closed rfl rfl⟩
      · next hidle =>
        have hnil := opens_of_idle hidle
        exact ⟨hnil, voices_closed hnil.symm rfl⟩
  | _ => exact speaks_poison

theorem opens_setState {c : ConnectionId} {s s' : ConnectionState} (h : cs.lookup c = some s)
    (hs : s.isOpened = false) (hs' : s'.isOpened = false) :
    (cs.update (fun c' _ => c' = c) s').opens = cs.opens := by
  refine Connections.opens_update_of_not hs' ?_
  rintro sink hopened
  obtain rfl := Option.some.inj (h.symm.trans hopened)
  cases hs

theorem speaks_openDesiredByRemote (c : ConnectionId) (index : IncomingIndex)
    (h : Shuts (some state)) :
    Speaks (peer, set) input (some state) (state.openDesiredByRemote peer set c index) := by
  cases state with
  | incoming cs backoffUntil =>
    simp only [openDesiredByRemote]
    split
    · next hlookup =>
      exact ⟨(opens_setState hlookup rfl rfl).trans h, voices_none rfl rfl rfl⟩
    · exact speaks_keep h
  | enabled cs =>
    simp only [openDesiredByRemote]
    split
    · next hlookup => exact ⟨trivial, .same (opens_setState hlookup rfl rfl) rfl⟩
    · exact speaks_keep h
  | disabled cs backoffUntil =>
    simp only [openDesiredByRemote]
    split
    · next hlookup =>
      exact ⟨(opens_setState hlookup rfl rfl).trans h, voices_none rfl rfl rfl⟩
    · exact speaks_keep h
    · exact speaks_poison
  | disabledPendingEnable cs timer deadline =>
    simp only [openDesiredByRemote]
    split
    · next hlookup =>
      exact ⟨trivial, voices_none rfl ((opens_setState hlookup rfl rfl).trans h) rfl⟩
    · exact speaks_keep h
    · exact speaks_poison
  | _ => exact speaks_poison

theorem voices_closing {c : ConnectionId} {s : ConnectionState} {i : ℕ} {ban : Instant}
    (hlookup : cs.lookup c = some s) (hclosing : s ≠ .closing)
    (hsinks : sinks r.entry = (cs.update (fun c' _ => c' = c) .closing).opens)
    (hevents : r.events = closeCommand peer set c ::
      lostEvents peer set (cs.position c) (cs.update (fun c' _ => c' = c) .closing)) :
    Voices (peer, set) (.handlerEvent c (.closeDesired i) ban) (some (.enabled cs)) r := by
  have htold : r.told = (lostEvents peer set (cs.position c)
      (cs.update (fun c' _ => c' = c) .closing)).filterMap event? := by
    rw [told, hevents]
    rfl
  by_cases hs : s.isOpened
  · obtain ⟨sink, rfl⟩ := ConnectionState.isOpened_iff.mp hs
    obtain ⟨l, h₁, h₂, h₃⟩ : Loss peer set c sink cs (cs.position c)
      (cs.update (fun c' _ => c' = c) .closing) := loss_update rfl hlookup
    refine .lost rfl rfl hlookup h₁ (hsinks.trans h₂) ?_
    rw [htold, h₃]
    exact filterMap_generateEvent _
  · have hs : s.isOpened = false := by simpa using hs
    have hopens := opens_setState hlookup hs (rfl : ConnectionState.closing.isOpened = false)
    refine .unopened rfl rfl hlookup hclosing hs (hsinks.trans hopens) ?_
    rw [htold]
    rcases lostEvents_cases (cs.position c) with hnil | hloss
    · exact .inl (by rw [hnil]; rfl)
    · refine .inr ?_
      rw [hloss, filterMap_generateEvent, hopens]
      rfl

theorem speaks_closeDesired (c : ConnectionId) (i : ℕ) (ban : Instant) (h : Shuts (some state)) :
    Speaks (peer, set) (.handlerEvent c (.closeDesired i) ban) (some state)
      (state.closeDesired peer set c) := by
  cases state with
  | enabled cs =>
    simp only [closeDesired]
    split
    · exact speaks_poison
    · exact speaks_keep h
    · next s hclosing hlookup =>
      have hclosing : s ≠ .closing := hclosing
      split
      · exact ⟨trivial, voices_closing hlookup hclosing rfl rfl⟩
      · next hidle =>
        have hnil := opens_of_idle hidle
        exact ⟨hnil, voices_closing hlookup hclosing hnil.symm rfl⟩
  | disabled | disabledPendingEnable => exact speaks_keep h
  | _ => exact speaks_poison

theorem isOpened_of_and {c c' : ConnectionId} {s s' : ConnectionState} (hs' : s'.isOpened = false)
    (h : (decide (c' = c) && decide (s = s')) = true) : s.isOpened = false := by
  have heq : s = s' := of_decide_eq_true (Bool.and_eq_true_iff.mp h).2
  rw [heq]
  exact hs'

theorem opens_openingThenClosed (c : ConnectionId) (cs : Connections) :
    (openingThenClosed c cs).opens = cs.opens :=
  Connections.opens_update (fun _ _ h => isOpened_of_and rfl h) rfl

theorem opens_openingFailed (c : ConnectionId) (cs : Connections) :
    (openingFailed c cs).opens = cs.opens := by
  unfold openingFailed
  split
  · next h => exact Connections.opens_replaceFirst (fun _ _ h => isOpened_of_and rfl h) rfl h
  · exact opens_openingThenClosed c cs

theorem speaks_openResultOk (c : ConnectionId) (fallback : Option ProtocolName) (handshake : Bytes)
    (sink : NotificationsSink) (h : Shuts (some state)) :
    Speaks (peer, set) input (some state)
      (state.openResultOk peer set c fallback handshake sink) := by
  cases state with
  | enabled cs =>
    simp only [openResultOk]
    split
    · next c' opened hfirst =>
      obtain ⟨l, l', h₁, h₂⟩ :=
        Connections.opens_replaceFirst_opened (fun _ _ h => isOpened_of_and rfl h) hfirst
      refine ⟨trivial, .opened fallback handshake h₁ h₂ ?_⟩
      simp only [told]
      by_cases hopens : sinks (some (.enabled cs)) = []
      · have hany : cs.anyIn (·.isOpened) = false := Connections.opens_eq_nil_iff.mp hopens
        rw [if_pos hopens, if_neg (by simp [hany])]
        rfl
      · have hany : cs.anyIn (·.isOpened) := by
          simpa [sinks, Connections.opens_eq_nil_iff] using hopens
        rw [if_neg hopens, if_pos hany]
        rfl
    · exact ⟨trivial, .same (opens_openingThenClosed c cs) rfl⟩
  | _ => exact speaks_mapConnections (opens_openingThenClosed c) h

theorem speaks_openResultErr (c : ConnectionId) (ban : Instant) (h : Shuts (some state)) :
    Speaks (peer, set) input (some state) (state.openResultErr peer set c ban) := by
  cases state with
  | enabled cs =>
    simp only [openResultErr]
    split
    · exact ⟨trivial, .same (opens_openingFailed c cs) rfl⟩
    · next hidle =>
      have hnil := opens_of_idle hidle
      have hcs : sinks (some (.enabled cs)) = [] := (opens_openingFailed c cs).symm.trans hnil
      exact ⟨hnil, voices_none hcs rfl rfl⟩
  | incoming cs backoffUntil | disabledPendingEnable cs timer deadline | disabled cs backoffUntil =>
    exact ⟨(opens_openingThenClosed c cs).trans h, voices_none rfl rfl rfl⟩
  | _ => exact speaks_poison

theorem isOpen_iff : state.isOpen ↔ sinks (some state) ≠ [] := by
  cases state with
  | enabled cs =>
    simp only [isOpen, sinks, ne_eq, Connections.opens_eq_nil_iff]
    simp
  | _ => simp [isOpen, sinks]

theorem speaks_notification (message : Bytes) (h : Shuts (some state)) :
    Speaks (peer, set) input (some state) (state.notification peer set message) := by
  refine ⟨h, ?_⟩
  unfold notification
  split
  · next hopen => exact .notified message rfl (isOpen_iff.mp hopen) rfl
  · exact .same rfl rfl

theorem speaks_onHandlerEvent (env : Surroundings) (c : ConnectionId) (ban : Instant)
    (event : NotifsHandlerOut) (h : Shuts (some state)) :
    Speaks (peer, set) (.handlerEvent c event ban) (some state)
      (state.onHandlerEvent peer set env c ban event) := by
  cases event with
  | openDesiredByRemote i => exact speaks_openDesiredByRemote c _ h
  | closeDesired i => exact speaks_closeDesired c i ban h
  | closeResult i =>
    refine speaks_mapConnections (fun cs => ?_) h
    exact Connections.opens_update (fun _ _ h => isOpened_of_and rfl h) rfl
  | openResultOk i fallback handshake sink => exact speaks_openResultOk c fallback handshake sink h
  | openResultErr i => exact speaks_openResultErr c ban h
  | notification i message => exact speaks_notification message h

end PeerState

open PeerState in
theorem PairInput.speaks_reaction (x : PeerId × SetId) (env : Surroundings)
    {entry : Option PeerState} (input : PairInput) (h : Shuts entry) :
    Speaks x input entry (input.reaction x env entry) := by
  rcases entry with _ | state
  · cases input with
    | connectionEstablished c => exact ⟨rfl, voices_none rfl rfl rfl⟩
    | _ => exact ⟨trivial, voices_none rfl rfl rfl⟩
  · cases input with
    | disconnect now ban => exact speaks_disconnectPeerInner now ban _ h
    | connect now => exact speaks_peersetReportConnect now _ h
    | drop => exact speaks_peersetReportDisconnect h
    | accept => exact speaks_accept h
    | reject => exact speaks_reject h
    | connectionEstablished c => exact speaks_connectionEstablished c h
    | connectionClosed now c => exact speaks_connectionClosed now _ c h
    | dialFailure now => exact speaks_dialFailure now _ h
    | handlerEvent c event ban => exact speaks_onHandlerEvent env c ban event h
    | delayElapsed now delayId => exact speaks_delayElapsed now delayId h

end SwarmHost.Substrate
