import SwarmHost.Notifications.Handler
import SwarmHost.Peerset.Basic

/-! # The entry of one peer in one set

Every call into `Notifications` that concerns a peer in a set replaces the entry
of that pair and puts back a new one on each path it takes; a path that puts
nothing back leaves the entry poisoned. A `Reaction` is the new entry with
everything else that the call does on behalf of the pair.
-/

namespace SwarmHost.Substrate

abbrev ConnectionId := ℕ

/-- The number of a timer. -/
abbrev DelayId := ℕ

inductive ConnectionState where
  | closed
  | closing
  | opening
  | openingThenClosing
  | openDesiredByRemote
  | opened (sink : NotificationsSink)
  deriving DecidableEq

def ConnectionState.isOpened : ConnectionState → Bool
  | .opened _ => true
  | _ => false

abbrev Connections := List (ConnectionId × ConnectionState)

inductive PeerState where
  /-- The entry was taken out and not put back. -/
  | poisoned
  | backoff (timer : DelayId) (timerDeadline : Instant)
  | pendingRequest (timer : DelayId) (timerDeadline : Instant)
  | requested
  | disabled (connections : Connections) (backoffUntil : Option Instant)
  | disabledPendingEnable (connections : Connections) (timer : DelayId) (timerDeadline : Instant)
  | enabled (connections : Connections)
  | incoming (connections : Connections) (backoffUntil : Option Instant)
  deriving DecidableEq

/-- The events for the user of the behaviour. -/
inductive NotificationsOut where
  | customProtocolOpen (peer : PeerId) (set : SetId) (negotiatedFallback : Option ProtocolName)
      (receivedHandshake : Bytes) (notificationsSink : NotificationsSink)
  | customProtocolReplaced (peer : PeerId) (set : SetId) (notificationsSink : NotificationsSink)
  | customProtocolClosed (peer : PeerId) (set : SetId)
  | notification (peer : PeerId) (set : SetId) (message : Bytes)
  deriving DecidableEq

inductive NetworkBehaviourAction where
  | generateEvent (event : NotificationsOut)
  | notifyHandler (peer : PeerId) (handler : ConnectionId) (event : NotifsHandlerIn)
  | dial (peer : PeerId)
  deriving DecidableEq

inductive PeersetCall where
  | incoming (set : SetId) (peer : PeerId) (index : IncomingIndex)
  | dropped (set : SetId) (peer : PeerId) (reason : DropReason)
  deriving DecidableEq

inductive DelayStart where
  | none
  /-- One with a new number. -/
  | fresh
  | again (timer : DelayId)
  deriving DecidableEq

/-- What happens to the requests of the remote that wait for an answer of the peerset. -/
inductive IncomingChange where
  | keep
  /-- A new one is made. -/
  | ask
  /-- The one that is alive no longer is. -/
  | retire
  deriving DecidableEq

structure Reaction where
  /-- The new entry; `none` if there is none. -/
  entry : Option PeerState
  events : List NetworkBehaviourAction := []
  calls : List PeersetCall := []
  delay : DelayStart := .none
  incoming : IncomingChange := .keep

namespace Reaction

def keep (state : PeerState) : Reaction := { entry := some state }

def remove : Reaction := { entry := none }

def poison : Reaction := { entry := some .poisoned }

end Reaction

namespace Connections

def replaceFirst (p : ConnectionId → ConnectionState → Bool) (s' : ConnectionState) :
    Connections → Option (ConnectionId × Connections)
  | [] => none
  | (c, s) :: cs =>
    if p c s then some (c, (c, s') :: cs)
    else (replaceFirst p s' cs).map fun (c', cs') => (c', (c, s) :: cs')

variable (cs : Connections)

def update (p : ConnectionId → ConnectionState → Bool) (s' : ConnectionState) : Connections :=
  (replaceFirst p s' cs).elim cs Prod.snd

def switch (p : ConnectionState → Bool) (s' : ConnectionState) : Connections :=
  cs.map fun (c, s) => (c, if p s then s' else s)

def those (p : ConnectionState → Bool) : List ConnectionId := (cs.filter (p ·.2)).map Prod.fst

def anyIn (p : ConnectionState → Bool) : Bool := cs.any (p ·.2)

def remove (c : ConnectionId) : Connections := cs.eraseP (·.1 = c)

/-- The first open connection: its position and its sink. -/
def firstOpen : Connections → Option (ℕ × NotificationsSink)
  | [] => none
  | (_, .opened sink) :: _ => some (0, sink)
  | _ :: cs => (firstOpen cs).map fun (i, sink) => (i + 1, sink)

def position (c : ConnectionId) : ℕ := cs.findIdx (·.1 = c)

def ids : List ConnectionId := cs.map Prod.fst

variable {cs : Connections} {p : ConnectionId → ConnectionState → Bool} {s' : ConnectionState}

theorem ids_replaceFirst {r : ConnectionId × Connections} (h : replaceFirst p s' cs = some r) :
    r.2.ids = cs.ids := by
  induction cs generalizing r with
  | nil => cases h
  | cons cs₀ cs ih =>
    obtain ⟨c, s⟩ := cs₀
    rw [replaceFirst] at h
    split at h
    · obtain rfl := Option.some.inj h
      rfl
    · obtain ⟨r', hr', rfl⟩ := Option.map_eq_some_iff.mp h
      exact congrArg (c :: ·) (ih hr')

@[simp] theorem ids_update : (cs.update p s').ids = cs.ids := by
  rw [update]
  cases h : replaceFirst p s' cs with
  | none => rfl
  | some r => exact ids_replaceFirst h

@[simp] theorem ids_switch (q : ConnectionState → Bool) : (cs.switch q s').ids = cs.ids := by
  simp [ids, switch, Function.comp_def]

theorem ids_remove (c : ConnectionId) : (cs.remove c).ids = cs.ids.erase c := by
  induction cs with
  | nil => rfl
  | cons cs₀ cs ih =>
    obtain ⟨c', s⟩ := cs₀
    by_cases h : c' = c
    · simp [remove, ids, h]
    · simpa [remove, ids, h, List.erase_cons_tail] using ih

theorem ids_eq_nil_iff : cs.ids = [] ↔ cs = [] := by
  simp [ids]

theorem isEmpty_remove (c : ConnectionId) : (cs.remove c).isEmpty ↔ cs.ids.erase c = [] := by
  rw [← ids_remove, ids_eq_nil_iff, List.isEmpty_iff]

end Connections

namespace PeerState

open Connections

variable (peer : PeerId) (set : SetId)

def openCommand (c : ConnectionId) : NetworkBehaviourAction := .notifyHandler peer c (.open set)

def closeCommand (c : ConnectionId) : NetworkBehaviourAction := .notifyHandler peer c (.close set)

def connections? : PeerState → Option Connections
  | .disabled cs _ | .disabledPendingEnable cs _ _ | .enabled cs | .incoming cs _ => some cs
  | _ => none

def mapConnections (f : Connections → Connections) : PeerState → PeerState
  | .disabled cs backoffUntil => .disabled (f cs) backoffUntil
  | .disabledPendingEnable cs timer deadline => .disabledPendingEnable (f cs) timer deadline
  | .enabled cs => .enabled (f cs)
  | .incoming cs backoffUntil => .incoming (f cs) backoffUntil
  | state => state

def isOpen : PeerState → Bool
  | .enabled cs => cs.anyIn (·.isOpened)
  | _ => false

def closedEvent (cs : Connections) : List NetworkBehaviourAction :=
  if cs.anyIn (·.isOpened) then [.generateEvent (.customProtocolClosed peer set)] else []

/-- `alive` tells whether a request of the pair is alive. -/
def disconnectPeerInner (now : Instant) (ban : Option ℕ) (alive : Bool) : PeerState → Reaction
  | .disabledPendingEnable cs _ deadline =>
    { entry := some (.disabled cs (some (ban.elim deadline fun ban => max deadline (now + ban))))
      calls := [.dropped set peer .unknown] }
  | .enabled cs =>
    let closing := cs.switch (·.isOpened) .closing
    { entry := some (.disabled (closing.switch (· = .opening) .openingThenClosing)
        (ban.map (now + ·)))
      events := closedEvent peer set cs ++ (cs.those (·.isOpened)).map (closeCommand peer set) ++
        (closing.those (· = .opening)).map (closeCommand peer set)
      calls := [.dropped set peer .unknown] }
  | .incoming cs backoffUntil =>
    if alive then
      { entry := some (.disabled (cs.switch (· = .openDesiredByRemote) .closing)
          (match backoffUntil, ban with
            | some a, some b => some (max a (now + b))
            | some a, none => some a
            | none, some b => some (now + b)
            | none, none => none))
        events := (cs.those (· = .openDesiredByRemote)).map (closeCommand peer set)
        incoming := .retire }
    else .poison
  | .poisoned => .poison
  | state => .keep state

/-- Enable the peer on its first closed connection, or try again at the deadline. -/
def enableOrDelay (cs : Connections) (delayId : DelayId) (deadline : Instant) : Reaction :=
  match cs.replaceFirst (fun _ s => s = .closed) .opening with
  | some (c, cs) => { entry := some (.enabled cs), events := [openCommand peer set c] }
  | none => { entry := some (.disabledPendingEnable cs delayId deadline), delay := .fresh }

def peersetReportConnect (now : Instant) (delayId : DelayId) : Option PeerState → Reaction
  | none => { entry := some .requested, events := [.dial peer] }
  | some (.backoff timer deadline) =>
    if now < deadline then .keep (.pendingRequest timer deadline)
    else { entry := some .requested, events := [.dial peer] }
  | some (.disabled cs none) =>
    enableOrDelay peer set cs delayId (now + 5 * secondsToNanos)
  | some (.disabled cs (some backoffUntil)) =>
    if now < backoffUntil then
      { entry := some (.disabledPendingEnable cs delayId backoffUntil), delay := .fresh }
    else enableOrDelay peer set cs delayId (max (now + 5 * secondsToNanos) backoffUntil)
  | some (.incoming cs _) =>
    { entry := some (.enabled (cs.switch (· = .openDesiredByRemote) .opening))
      events := (cs.those (· = .openDesiredByRemote)).map (openCommand peer set)
      incoming := .retire }
  | some state => .keep state

/-- The peerset wants no connection any more. -/
def peersetReportDisconnect : PeerState → Reaction
  | .disabledPendingEnable cs _ deadline => .keep (.disabled cs (some deadline))
  | .enabled cs =>
    let closing := cs.switch (· = .opening) .openingThenClosing
    { entry := some (.disabled (closing.switch (·.isOpened) .closing) none)
      events := closedEvent peer set cs ++ (cs.those (· = .opening)).map (closeCommand peer set) ++
        (closing.those (·.isOpened)).map (closeCommand peer set) }
  | .requested => .remove
  | .pendingRequest timer deadline => .keep (.backoff timer deadline)
  | state => .keep state

def accept : PeerState → Reaction
  | .incoming cs _ =>
    { entry := some (.enabled (cs.switch (· = .openDesiredByRemote) .opening))
      events := (cs.those (· = .openDesiredByRemote)).map (openCommand peer set) }
  | _ => .poison

def reject : PeerState → Reaction
  | .incoming cs backoffUntil =>
    { entry := some (.disabled (cs.switch (· = .openDesiredByRemote) .closing) backoffUntil)
      events := (cs.those (· = .openDesiredByRemote)).map (closeCommand peer set) }
  | _ => .poison

def connectionEstablished (c : ConnectionId) : Option PeerState → Reaction
  | some .requested | some (.pendingRequest ..) =>
    { entry := some (.enabled [(c, .opening)]), events := [openCommand peer set c] }
  -- a missing entry is inserted as a poisoned one
  | none | some .poisoned => .keep (.disabled [(c, .closed)] none)
  | some (.backoff _ deadline) => .keep (.disabled [(c, .closed)] (some deadline))
  | some state => .keep (state.mapConnections (· ++ [(c, .closed)]))

/-- The last connection is gone. -/
def leave (now : Instant) (delayId : DelayId) : Option Instant → Reaction
  | some deadline =>
    if now < deadline then { entry := some (.backoff delayId deadline), delay := .fresh }
    else .remove
  | none => .remove

/-- What the user is told when a connection is no longer open, `rest` being the connections as they
are then; the sink is replaced if the connection did not come after the first open one. -/
def lostEvents (position : ℕ) (rest : Connections) : List NetworkBehaviourAction :=
  match rest.firstOpen with
  | some (replacement, sink) =>
    if position ≤ replacement then [.generateEvent (.customProtocolReplaced peer set sink)] else []
  | none => [.generateEvent (.customProtocolClosed peer set)]

def connectionClosed (now : Instant) (delayId : DelayId) (c : ConnectionId) :
    PeerState → Reaction
  | .disabled cs backoffUntil =>
    if (cs.remove c).isEmpty then leave now delayId backoffUntil
    else .keep (.disabled (cs.remove c) backoffUntil)
  | .disabledPendingEnable cs timer deadline =>
    if (cs.remove c).isEmpty then
      { entry := some (.backoff timer deadline), calls := [.dropped set peer .unknown] }
    else .keep (.disabledPendingEnable (cs.remove c) timer deadline)
  | .incoming cs backoffUntil =>
    if (cs.remove c).isEmpty then { leave now delayId backoffUntil with incoming := .retire }
    else if (cs.remove c).anyIn (· = .openDesiredByRemote) then
      .keep (.incoming (cs.remove c) backoffUntil)
    else { entry := some (.disabled (cs.remove c) backoffUntil), incoming := .retire }
  | .enabled cs =>
    let events := match cs.lookup c with
      | some (.opened _) => lostEvents peer set (cs.position c) (cs.remove c)
      | _ => []
    if (cs.remove c).isEmpty then
      -- the peer is backed off in the comment of the source, but only the timer is started
      { entry := some (.disabled (cs.remove c) none), events := events
        calls := [.dropped set peer .unknown], delay := .fresh }
    else if (cs.remove c).anyIn fun s => s = .opening || s.isOpened then
      { entry := some (.enabled (cs.remove c)), events := events }
    else
      { entry := some (.disabled (cs.remove c) none), events := events
        calls := [.dropped set peer .unknown] }
  | .requested | .pendingRequest .. | .backoff .. | .poisoned => .poison

def dialFailure (now : Instant) (delayId : DelayId) : PeerState → Reaction
  | .requested =>
    { entry := some (.backoff delayId (now + 5 * secondsToNanos))
      calls := [.dropped set peer .unknown], delay := .fresh }
  | .pendingRequest _ deadline =>
    let ban := if now < deadline then max (deadline - now) (5 * secondsToNanos)
      else 5 * secondsToNanos
    { entry := some (.backoff delayId (now + ban))
      calls := [.dropped set peer .unknown], delay := .fresh }
  | state => .keep state

/-- The remote opened a substream; `index` is the number of the next request. -/
def openDesiredByRemote (c : ConnectionId) (index : IncomingIndex) : PeerState → Reaction
  | .incoming cs backoffUntil =>
    match cs.lookup c with
    | some .closed =>
      .keep (.incoming (cs.update (fun c' _ => c' = c) .openDesiredByRemote) backoffUntil)
    | _ => .keep (.incoming cs backoffUntil)
  | .enabled cs =>
    match cs.lookup c with
    | some .closed =>
      { entry := some (.enabled (cs.update (fun c' _ => c' = c) .opening))
        events := [openCommand peer set c] }
    | _ => .keep (.enabled cs)
  | .disabled cs backoffUntil =>
    match cs.lookup c with
    | some .closed =>
      { entry := some (.incoming (cs.update (fun c' _ => c' = c) .openDesiredByRemote) backoffUntil)
        calls := [.incoming set peer index], incoming := .ask }
    | some _ => .keep (.disabled cs backoffUntil)
    | none => .poison
  | .disabledPendingEnable cs timer deadline =>
    match cs.lookup c with
    | some .closed =>
      { entry := some (.enabled (cs.update (fun c' _ => c' = c) .opening))
        events := [openCommand peer set c] }
    | some _ => .keep (.disabledPendingEnable cs timer deadline)
    | none => .poison
  | _ => .poison

def closeDesired (c : ConnectionId) : PeerState → Reaction
  | .enabled cs =>
    match cs.lookup c with
    | none => .poison
    | some .closing => .keep (.enabled cs)
    | some _ =>
      let closing := cs.update (fun c' _ => c' = c) .closing
      let events := closeCommand peer set c :: lostEvents peer set (cs.position c) closing
      if closing.anyIn fun s => s = .opening || s.isOpened then
        { entry := some (.enabled closing), events := events }
      else
        { entry := some (.disabled closing none), events := events
          calls := [.dropped set peer .refused] }
  | .disabled cs backoffUntil => .keep (.disabled cs backoffUntil)
  | .disabledPendingEnable cs timer deadline => .keep (.disabledPendingEnable cs timer deadline)
  | _ => .poison

def closeResult (c : ConnectionId) (state : PeerState) : Reaction :=
  .keep (state.mapConnections (·.update (fun c' s => c' = c && s = .closing) .closed))

def openingThenClosed (c : ConnectionId) (cs : Connections) : Connections :=
  cs.update (fun c' s => c' = c && s = .openingThenClosing) .closing

def openResultOk (c : ConnectionId) (fallback : Option ProtocolName) (handshake : Bytes)
    (sink : NotificationsSink) : PeerState → Reaction
  | .enabled cs =>
    match cs.replaceFirst (fun c' s => c' = c && s = .opening) (.opened sink) with
    | some (_, opened) =>
      { entry := some (.enabled opened)
        events := if cs.anyIn (·.isOpened) then []
          else [.generateEvent (.customProtocolOpen peer set fallback handshake sink)] }
    | none => .keep (.enabled (openingThenClosed c cs))
  | state => .keep (state.mapConnections (openingThenClosed c))

def openingFailed (c : ConnectionId) (cs : Connections) : Connections :=
  match cs.replaceFirst (fun c' s => c' = c && s = .opening) .closed with
  | some (_, closed) => closed
  | none => openingThenClosed c cs

/-- `ban` is the time until which the peer is backed off. -/
def openResultErr (c : ConnectionId) (ban : Instant) : PeerState → Reaction
  | .enabled cs =>
    let closed := openingFailed c cs
    if closed.anyIn fun s => s = .opening || s.isOpened then .keep (.enabled closed)
    else { entry := some (.disabled closed (some ban)), calls := [.dropped set peer .refused] }
  | .incoming cs backoffUntil => .keep (.incoming (openingThenClosed c cs) backoffUntil)
  | .disabledPendingEnable cs timer deadline =>
    .keep (.disabledPendingEnable (openingThenClosed c cs) timer deadline)
  | .disabled cs backoffUntil => .keep (.disabled (openingThenClosed c cs) backoffUntil)
  | _ => .poison

def notification (message : Bytes) (state : PeerState) : Reaction :=
  { entry := some state
    -- `is_open` of the behaviour looks up the entry, which is `state` here
    events := if state.isOpen then [.generateEvent (.notification peer set message)] else [] }

def delayElapsed (now : Instant) (delayId : DelayId) : PeerState → Reaction
  | .backoff timer deadline => if timer = delayId then .remove else .keep (.backoff timer deadline)
  | .pendingRequest timer deadline =>
    if timer = delayId then { entry := some .requested, events := [.dial peer] }
    else .keep (.pendingRequest timer deadline)
  | .disabledPendingEnable cs timer deadline =>
    if timer = delayId then
      match cs.replaceFirst (fun _ s => s = .closed) .opening with
      | some (c, cs) => { entry := some (.enabled cs), events := [openCommand peer set c] }
      | none =>
        { entry := some (.disabledPendingEnable cs timer (now + 5 * secondsToNanos))
          delay := .again timer }
    else .keep (.disabledPendingEnable cs timer deadline)
  | state => .keep state

end PeerState

/-- What can happen to one entry. -/
inductive PairInput where
  | disconnect (now : Instant) (ban : Option ℕ)
  | connect (now : Instant)
  | drop
  | accept
  | reject
  | connectionEstablished (c : ConnectionId)
  | connectionClosed (now : Instant) (c : ConnectionId)
  | dialFailure (now : Instant)
  /-- `ban` is the time until which the peer is backed off if the event says so. -/
  | handlerEvent (c : ConnectionId) (event : NotifsHandlerOut) (ban : Instant)
  | delayElapsed (now : Instant) (delayId : DelayId)

/-- What a call reads besides the entry. -/
structure Surroundings where
  /-- A request of the pair is alive. -/
  alive : Bool
  nextDelayId : DelayId
  nextIncomingIndex : IncomingIndex

namespace PeerState

variable (peer : PeerId) (set : SetId) (env : Surroundings)

def onHandlerEvent (c : ConnectionId) (ban : Instant) (state : PeerState) :
    NotifsHandlerOut → Reaction
  | .openDesiredByRemote _ => state.openDesiredByRemote peer set c env.nextIncomingIndex
  | .closeDesired _ => state.closeDesired peer set c
  | .closeResult _ => state.closeResult c
  | .openResultOk _ fallback handshake sink => state.openResultOk peer set c fallback handshake sink
  | .openResultErr _ => state.openResultErr peer set c ban
  | .notification _ message => state.notification peer set message

/-- What happens to an entry that exists. -/
def react (state : PeerState) : PairInput → Reaction
  | .disconnect now ban => state.disconnectPeerInner peer set now ban env.alive
  | .connect now => peersetReportConnect peer set now env.nextDelayId (some state)
  | .drop => state.peersetReportDisconnect peer set
  | .accept => state.accept peer set
  | .reject => state.reject peer set
  | .connectionEstablished c => connectionEstablished peer set c (some state)
  | .connectionClosed now c => state.connectionClosed peer set now env.nextDelayId c
  | .dialFailure now => state.dialFailure peer set now env.nextDelayId
  | .handlerEvent c event ban => state.onHandlerEvent peer set env c ban event
  | .delayElapsed now delayId => state.delayElapsed peer set now delayId

/-- What happens where there is no entry. -/
def insert : PairInput → Reaction
  | .connect now => peersetReportConnect peer set now env.nextDelayId none
  | .connectionEstablished c => connectionEstablished peer set c none
  | _ => .remove

end PeerState

end SwarmHost.Substrate
