import SwarmHost.Notifications.Projection

/-! # Kinds of entries

An entry lists the connections of its peer or belongs to a peer without
connections. Apart from connections that come and go, an input keeps the list;
an entry starts and stops waiting for an answer of the peerset together with the
request that is alive, or it is left poisoned.
-/

namespace SwarmHost.Substrate

inductive Kind where
  /-- There is no entry, or one from which the peer is dialed. -/
  | unconnected
  /-- The connections are listed; `waiting` for an answer of the peerset or not. -/
  | listed (waiting : Bool) (ids : List ConnectionId)
  | poisoned
  deriving DecidableEq

namespace Kind

def of : Option PeerState → Kind
  | none | some .requested | some (.pendingRequest ..) | some (.backoff ..) => .unconnected
  | some (.disabled cs _) | some (.disabledPendingEnable cs _ _) | some (.enabled cs) =>
    .listed false cs.ids
  | some (.incoming cs _) => .listed true cs.ids
  | some .poisoned => .poisoned

end Kind

def IncomingChange.between : Bool → Bool → IncomingChange
  | false, true => .ask
  | true, false => .retire
  | _, _ => .keep

/-- What an input does that is neither a connection that comes or goes nor an answer. -/
inductive Reaction.Moves (entry : Option PeerState) (r : Reaction) : Prop where
  | unconnected : Kind.of entry = .unconnected → Kind.of r.entry = .unconnected →
      r.incoming = .keep → Moves entry r
  | listed {w w' : Bool} {ids : List ConnectionId} : Kind.of entry = .listed w ids →
      Kind.of r.entry = .listed w' ids → r.incoming = .between w w' → Moves entry r
  | poisoned : Kind.of entry ≠ .unconnected → r.entry = some .poisoned → r.incoming = .keep →
      Moves entry r

namespace PeerState

open Reaction

variable {peer : PeerId} {set : SetId} {state : PeerState} {cs : Connections}

theorem moves_keep (state : PeerState) : Moves (some state) (keep state) := by
  cases state with
  | poisoned => exact .poisoned (by simp [Kind.of]) rfl rfl
  | requested | backoff | pendingRequest => exact .unconnected rfl rfl rfl
  | disabled | disabledPendingEnable | enabled | incoming => exact .listed rfl rfl rfl

theorem moves_poison {entry : Option PeerState} (h : Kind.of entry ≠ .unconnected) :
    Moves entry poison :=
  .poisoned h rfl rfl

theorem moves_of_ids {w w' : Bool} {cs cs' : Connections} {entry : Option PeerState} {r : Reaction}
    (h : Kind.of entry = .listed w cs.ids) (h' : Kind.of r.entry = .listed w' cs'.ids)
    (hids : cs'.ids = cs.ids) (hi : r.incoming = .between w w') : Moves entry r :=
  .listed h (hids ▸ h') hi

theorem moves_disconnectPeerInner (now : Instant) (ban : Option ℕ) (alive : Bool)
    (state : PeerState) :
    Moves (some state) (state.disconnectPeerInner peer set now ban alive) := by
  cases state with
  | disabledPendingEnable cs timer deadline => exact .listed rfl rfl rfl
  | enabled cs => exact moves_of_ids rfl rfl (by simp) rfl
  | incoming cs backoffUntil =>
    simp only [disconnectPeerInner]
    split
    · exact moves_of_ids rfl rfl (by simp) rfl
    · exact moves_poison (by simp [Kind.of])
  | _ => exact moves_keep _

theorem moves_enableOrDelay {backoffUntil : Option Instant} (delayId : DelayId)
    (deadline : Instant) :
    Moves (some (.disabled cs backoffUntil)) (enableOrDelay peer set cs delayId deadline) := by
  unfold enableOrDelay
  split
  · next h => exact moves_of_ids rfl rfl (Connections.ids_replaceFirst h) rfl
  · exact .listed rfl rfl rfl

theorem moves_peersetReportConnect (now : Instant) (delayId : DelayId) (entry : Option PeerState) :
    Moves entry (peersetReportConnect peer set now delayId entry) := by
  unfold peersetReportConnect
  split
  · exact .unconnected rfl rfl rfl
  · split <;> exact .unconnected rfl rfl rfl
  · exact moves_enableOrDelay _ _
  · split
    · exact .listed rfl rfl rfl
    · exact moves_enableOrDelay _ _
  · exact moves_of_ids rfl rfl (by simp) rfl
  · exact moves_keep _

theorem moves_peersetReportDisconnect (state : PeerState) :
    Moves (some state) (state.peersetReportDisconnect peer set) := by
  cases state with
  | disabledPendingEnable cs timer deadline => exact .listed rfl rfl rfl
  | enabled cs => exact moves_of_ids rfl rfl (by simp) rfl
  | requested | pendingRequest => exact .unconnected rfl rfl rfl
  | _ => exact moves_keep _

theorem moves_dialFailure (now : Instant) (delayId : DelayId) (state : PeerState) :
    Moves (some state) (state.dialFailure peer set now delayId) := by
  cases state with
  | requested | pendingRequest => exact .unconnected rfl rfl rfl
  | _ => exact moves_keep _

theorem moves_delayElapsed (now : Instant) (delayId : DelayId) (state : PeerState) :
    Moves (some state) (state.delayElapsed peer set now delayId) := by
  unfold delayElapsed
  split
  · split
    · exact .unconnected rfl rfl rfl
    · exact moves_keep _
  · split
    · exact .unconnected rfl rfl rfl
    · exact moves_keep _
  · split
    · split
      · next h => exact moves_of_ids rfl rfl (Connections.ids_replaceFirst h) rfl
      · exact .listed rfl rfl rfl
    · exact moves_keep _
  · exact moves_keep _

theorem moves_mapConnections {f : Connections → Connections} (hf : ∀ cs, (f cs).ids = cs.ids)
    (state : PeerState) : Moves (some state) (keep (state.mapConnections f)) := by
  cases state with
  | disabled cs backoffUntil | disabledPendingEnable cs timer deadline | enabled cs
  | incoming cs backoffUntil => exact moves_of_ids rfl rfl (hf cs) rfl
  | _ => exact moves_keep _

theorem ids_openingThenClosed (c : ConnectionId) (cs : Connections) :
    (openingThenClosed c cs).ids = cs.ids :=
  Connections.ids_update

theorem ids_openingFailed (c : ConnectionId) (cs : Connections) :
    (openingFailed c cs).ids = cs.ids := by
  unfold openingFailed
  split
  · next h => exact Connections.ids_replaceFirst h
  · exact ids_openingThenClosed c cs

theorem moves_openDesiredByRemote (c : ConnectionId) (index : IncomingIndex) {state : PeerState}
    (hstate : Kind.of (some state) ≠ .unconnected) :
    Moves (some state) (state.openDesiredByRemote peer set c index) := by
  unfold openDesiredByRemote
  split
  · split
    · exact moves_of_ids rfl rfl (by simp) rfl
    · exact moves_keep _
  · split
    · exact moves_of_ids rfl rfl (by simp) rfl
    · exact moves_keep _
  · split
    · exact moves_of_ids rfl rfl (by simp) rfl
    · exact moves_keep _
    · exact moves_poison hstate
  · split
    · exact moves_of_ids rfl rfl (by simp) rfl
    · exact moves_keep _
    · exact moves_poison hstate
  · exact moves_poison hstate

theorem moves_closeDesired (c : ConnectionId) {state : PeerState}
    (hstate : Kind.of (some state) ≠ .unconnected) :
    Moves (some state) (state.closeDesired peer set c) := by
  cases state with
  | enabled cs =>
    simp only [closeDesired]
    split
    · exact moves_poison hstate
    · exact moves_keep _
    · split
      · exact moves_of_ids rfl rfl (by simp) rfl
      · exact moves_of_ids rfl rfl (by simp) rfl
  | disabled | disabledPendingEnable => exact moves_keep _
  | _ => exact moves_poison hstate

theorem moves_openResultOk (c : ConnectionId) (fallback : Option ProtocolName) (handshake : Bytes)
    (sink : NotificationsSink) (state : PeerState) :
    Moves (some state) (state.openResultOk peer set c fallback handshake sink) := by
  unfold openResultOk
  split
  · split
    · next h => exact moves_of_ids rfl rfl (Connections.ids_replaceFirst h) rfl
    · exact moves_of_ids rfl rfl (ids_openingThenClosed c _) rfl
  · exact moves_mapConnections (ids_openingThenClosed c) _

theorem moves_openResultErr (c : ConnectionId) (ban : Instant) {state : PeerState}
    (hstate : Kind.of (some state) ≠ .unconnected) :
    Moves (some state) (state.openResultErr peer set c ban) := by
  unfold openResultErr
  split
  · dsimp only
    split
    · exact moves_of_ids rfl rfl (ids_openingFailed c _) rfl
    · exact moves_of_ids rfl rfl (ids_openingFailed c _) rfl
  · exact moves_of_ids rfl rfl (ids_openingThenClosed c _) rfl
  · exact moves_of_ids rfl rfl (ids_openingThenClosed c _) rfl
  · exact moves_of_ids rfl rfl (ids_openingThenClosed c _) rfl
  · exact moves_poison hstate

theorem moves_onHandlerEvent (env : Surroundings) (c : ConnectionId) (ban : Instant)
    {state : PeerState} (hstate : Kind.of (some state) ≠ .unconnected)
    (event : NotifsHandlerOut) :
    Moves (some state) (state.onHandlerEvent peer set env c ban event) := by
  cases event with
  | openDesiredByRemote i => exact moves_openDesiredByRemote c _ hstate
  | closeDesired i => exact moves_closeDesired c hstate
  | closeResult i => exact moves_mapConnections (fun _ => Connections.ids_update) state
  | openResultOk i fallback handshake sink =>
    exact moves_openResultOk c fallback handshake sink state
  | openResultErr i => exact moves_openResultErr c ban hstate
  | notification i message =>
    cases state with
    | poisoned => exact .poisoned hstate rfl rfl
    | disabled | disabledPendingEnable | enabled | incoming => exact .listed rfl rfl rfl
    | _ => exact .unconnected rfl rfl rfl

theorem kind_connectionEstablished (c : ConnectionId) (entry : Option PeerState) :
    (connectionEstablished peer set c entry).incoming = .keep ∧
    Kind.of (connectionEstablished peer set c entry).entry =
      match Kind.of entry with
      | .listed w ids => .listed w (ids ++ [c])
      | _ => .listed false [c] := by
  rcases entry with _ | state
  · exact ⟨rfl, rfl⟩
  · cases state <;> refine ⟨rfl, ?_⟩ <;>
      simp [connectionEstablished, keep, mapConnections, Kind.of, Connections.ids]

end PeerState

inductive Reaction.Closes (c : ConnectionId) (state : PeerState) (r : Reaction) : Prop where
  | last {w : Bool} {ids : List ConnectionId} : Kind.of (some state) = .listed w ids →
      ids.erase c = [] → (∀ cs, state ≠ .enabled cs) → Kind.of r.entry = .unconnected →
      r.incoming = .between w false → Closes c state r
  /-- The last connection of an enabled peer leaves an empty list behind. -/
  | enabled {cs : Connections} : state = .enabled cs → cs.ids.erase c = [] →
      Kind.of r.entry = .listed false [] → r.incoming = .keep → Closes c state r
  | listed {w w' : Bool} {ids : List ConnectionId} : Kind.of (some state) = .listed w ids →
      ids.erase c ≠ [] → Kind.of r.entry = .listed w' (ids.erase c) →
      r.incoming = .between w w' → Closes c state r
  | poisoned : (∀ w ids, Kind.of (some state) ≠ .listed w ids) → r.entry = some .poisoned →
      r.incoming = .keep → Closes c state r

namespace PeerState

open Reaction

variable {peer : PeerId} {set : SetId} {c : ConnectionId}

theorem kind_leave (now : Instant) (delayId : DelayId) (deadline : Option Instant) :
    Kind.of (leave now delayId deadline).entry = .unconnected ∧
      (leave now delayId deadline).incoming = .keep := by
  unfold leave
  split
  · split <;> exact ⟨rfl, rfl⟩
  · exact ⟨rfl, rfl⟩

theorem closes_connectionClosed (now : Instant) (delayId : DelayId) (c : ConnectionId)
    (state : PeerState) : Closes c state (state.connectionClosed peer set now delayId c) := by
  cases state with
  | disabled cs backoffUntil =>
    simp only [connectionClosed]
    split
    · next hempty =>
      have hleave := kind_leave now delayId backoffUntil
      exact .last rfl ((Connections.isEmpty_remove c).mp hempty) (by simp) hleave.1 hleave.2
    · next hempty =>
      exact .listed rfl (mt (Connections.isEmpty_remove c).mpr hempty)
        (congrArg (Kind.listed false) (Connections.ids_remove c)) rfl
  | disabledPendingEnable cs timer deadline =>
    simp only [connectionClosed]
    split
    · next hempty =>
      exact .last rfl ((Connections.isEmpty_remove c).mp hempty) (by simp) rfl rfl
    · next hempty =>
      exact .listed rfl (mt (Connections.isEmpty_remove c).mpr hempty)
        (congrArg (Kind.listed false) (Connections.ids_remove c)) rfl
  | incoming cs backoffUntil =>
    simp only [connectionClosed]
    split
    · next hempty =>
      have hleave := kind_leave now delayId backoffUntil
      exact .last rfl ((Connections.isEmpty_remove c).mp hempty) (by simp) hleave.1 rfl
    · next hempty =>
      have hne := mt (Connections.isEmpty_remove c).mpr hempty
      split
      · exact .listed rfl hne (congrArg (Kind.listed true) (Connections.ids_remove c)) rfl
      · exact .listed rfl hne (congrArg (Kind.listed false) (Connections.ids_remove c)) rfl
  | enabled cs =>
    simp only [connectionClosed]
    split
    · next hempty =>
      have hids := (Connections.isEmpty_remove c).mp hempty
      exact .enabled rfl hids (congrArg (Kind.listed false) ((Connections.ids_remove c).trans hids))
        rfl
    · next hempty =>
      have hne := mt (Connections.isEmpty_remove c).mpr hempty
      split
      · exact .listed rfl hne (congrArg (Kind.listed false) (Connections.ids_remove c)) rfl
      · exact .listed rfl hne (congrArg (Kind.listed false) (Connections.ids_remove c)) rfl
  | _ => exact .poisoned (by simp [Kind.of]) rfl rfl

end PeerState

namespace PairInput

open PeerState

variable {x : PeerId × SetId} {env : Surroundings} {entry : Option PeerState} {input : PairInput}

/-- The input concerns neither the connections of the peer nor a request. -/
def Ordinary : PairInput → Prop
  | .accept | .reject | .connectionEstablished _ | .connectionClosed .. => False
  | _ => True

theorem live_of_ordinary (h : input.Ordinary) (live : List ConnectionId) :
    input.live live = live := by
  cases input with
  | connectionEstablished | connectionClosed => cases h
  | _ => rfl

theorem moves_reaction (x : PeerId × SetId) (env : Surroundings) (h : input.Ordinary)
    (hhandler : Kind.of entry = .unconnected → ∀ c event ban, input ≠ .handlerEvent c event ban) :
    Reaction.Moves entry (input.reaction x env entry) := by
  rcases entry with _ | state
  · cases input with
    | accept | reject | connectionEstablished | connectionClosed => cases h
    | _ => exact .unconnected rfl rfl rfl
  · cases input with
    | disconnect now ban => exact moves_disconnectPeerInner _ _ _ _
    | connect now => exact moves_peersetReportConnect _ _ _
    | drop => exact moves_peersetReportDisconnect _
    | accept | reject | connectionEstablished | connectionClosed => cases h
    | dialFailure now => exact moves_dialFailure _ _ _
    | handlerEvent c event ban =>
      have hstate : Kind.of (some state) ≠ .unconnected := fun hk => hhandler hk c event ban rfl
      exact moves_onHandlerEvent _ _ _ hstate _
    | delayElapsed now delayId => exact moves_delayElapsed _ _ _

theorem kind_established (c : ConnectionId) :
    ((connectionEstablished c).reaction x env entry).incoming = .keep ∧
    Kind.of ((connectionEstablished c).reaction x env entry).entry =
      match Kind.of entry with
      | .listed w ids => .listed w (ids ++ [c])
      | _ => .listed false [c] := by
  have heq : (connectionEstablished c).reaction x env entry =
      PeerState.connectionEstablished x.1 x.2 c entry := by cases entry <;> rfl
  rw [heq]
  exact kind_connectionEstablished c entry

theorem closes_reaction (now : Instant) (c : ConnectionId) (state : PeerState) :
    Reaction.Closes c state ((connectionClosed now c).reaction x env (some state)) :=
  closes_connectionClosed now env.nextDelayId c state

theorem kind_answer (hinput : input = .accept ∨ input = .reject) {ids : List ConnectionId}
    (h : Kind.of entry = .listed true ids) :
    Kind.of (input.reaction x env entry).entry = .listed false ids ∧
      (input.reaction x env entry).incoming = .keep := by
  rcases entry with _ | state
  · cases h
  · cases state with
    | incoming cs backoffUntil =>
      obtain ⟨-, rfl⟩ : true = true ∧ cs.ids = ids := by simpa [Kind.of] using h
      rcases hinput with rfl | rfl
      · exact ⟨congrArg (Kind.listed false) (Connections.ids_switch _), rfl⟩
      · exact ⟨congrArg (Kind.listed false) (Connections.ids_switch _), rfl⟩
    | _ => simp [Kind.of] at h

end PairInput

end SwarmHost.Substrate
