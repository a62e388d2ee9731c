import Mathlib.Data.List.Basic
import SwarmHost.Backend.Substrate

/-! # The handler of one connection

For each notifications protocol the handler opens and closes an outbound
substream on command and takes the inbound substream of the remote. What the
sockets answer in a poll is an input of the model, as are the substreams that
the network library negotiates.
-/

namespace SwarmHost.Substrate

/-- How far the handshake of an inbound substream is sent back. -/
inductive Handshake where
  | notSent
  | pendingSend (message : Bytes)
  | flush
  | sent
  | closingInResponseToRemote
  | bothSidesClosed
  deriving DecidableEq

structure InSubstream where
  handshake : Handshake
  receivedHandshake : Bytes
  deriving DecidableEq

inductive SocketResult where
  | pending
  | ok
  | item (message : Bytes)
  | closed
  | error
  deriving DecidableEq

inductive ReadResult where
  | pending
  | message (message : Bytes)
  | closed
  | error
  deriving DecidableEq

namespace InSubstream

def new (receivedHandshake : Bytes) : InSubstream := ⟨.notSent, receivedHandshake⟩

def sendHandshake (s : InSubstream) (message : Bytes) : InSubstream :=
  match s.handshake with
  | .notSent => { s with handshake := .pendingSend message }
  | _ => s

def pollNext (s : InSubstream) : List SocketResult → ReadResult × InSubstream
  | [] =>
    match s.handshake with
    | .bothSidesClosed => (.closed, { s with handshake := .sent })
    | _ => (.pending, s)
  | result :: results =>
    match s.handshake, result with
    | .notSent, _ => (.pending, s)
    | .bothSidesClosed, _ => (.closed, { s with handshake := .sent })
    | _, .pending => (.pending, s)
    | .pendingSend _, .error => (.error, { s with handshake := .flush })
    | .pendingSend _, _ => pollNext { s with handshake := .flush } results
    | .flush, .error => (.error, { s with handshake := .sent })
    | .flush, _ => pollNext { s with handshake := .sent } results
    | .sent, .item message => (.message message, s)
    | .sent, .error => (.error, s)
    | .sent, .closed => pollNext { s with handshake := .closingInResponseToRemote } results
    | .sent, .ok => (.pending, s)
    | .closingInResponseToRemote, .error => (.error, { s with handshake := .sent })
    | .closingInResponseToRemote, _ => pollNext { s with handshake := .bothSidesClosed } results

/-- Only send the handshake; `true` if that failed. -/
def pollProcess (s : InSubstream) : List SocketResult → Bool × InSubstream
  | [] => (false, s)
  | result :: results =>
    match s.handshake, result with
    | .pendingSend _, .pending => (false, s)
    | .pendingSend _, .error => (true, { s with handshake := .flush })
    | .pendingSend _, _ => pollProcess { s with handshake := .flush } results
    | .flush, .pending => (false, s)
    | .flush, .error => (true, { s with handshake := .sent })
    | .flush, _ => pollProcess { s with handshake := .sent } results
    | _, _ => (false, s)

end InSubstream

structure OutSubstream where
  written : List Bytes
  deriving DecidableEq

/-- The sending side of an open protocol, told apart by the number of its channel. -/
structure NotificationsSink where
  peer : PeerId
  channel : ℕ
  deriving DecidableEq

inductive NotificationsSinkMessage where
  | notification (message : Bytes)
  | forceClose
  deriving DecidableEq

inductive NotifsHandlerIn where
  | open (protocolIndex : ℕ)
  | close (protocolIndex : ℕ)
  deriving DecidableEq

inductive NotifsHandlerOut where
  | openResultOk (protocolIndex : ℕ) (negotiatedFallback : Option ProtocolName)
      (receivedHandshake : Bytes) (notificationsSink : NotificationsSink)
  | openResultErr (protocolIndex : ℕ)
  | closeResult (protocolIndex : ℕ)
  | openDesiredByRemote (protocolIndex : ℕ)
  | closeDesired (protocolIndex : ℕ)
  | notification (protocolIndex : ℕ) (message : Bytes)
  deriving DecidableEq

/-- The protocol that the event is about. -/
def NotifsHandlerOut.index : NotifsHandlerOut → ℕ
  | .openResultOk i .. | .openResultErr i | .closeResult i | .openDesiredByRemote i
  | .closeDesired i | .notification i _ => i

inductive ConnectionHandlerEvent where
  | custom (event : NotifsHandlerOut)
  | outboundSubstreamRequest (protocolIndex : ℕ) (initialMessage : Bytes)
  /-- The connection is closed, as the channel of synchronous notifications is full. -/
  | close
  deriving DecidableEq

/-- The substreams of one protocol. -/
inductive HandlerState where
  | closed (pendingOpening : Bool)
  | openDesiredByRemote (inSubstream : InSubstream) (pendingOpening : Bool)
  | opening (inSubstream : Option InSubstream)
  | opened (notificationsSinkRx : List NotificationsSinkMessage)
      (outSubstream : Option OutSubstream) (inSubstream : Option InSubstream)
  deriving DecidableEq

structure NotifsHandler where
  protocols : List HandlerState
  eventsQueue : List ConnectionHandlerEvent
  peerId : PeerId
  /-- The number of the next channel. -/
  nextChannel : ℕ
  deriving DecidableEq

/-- Visit the elements of a list in order, up to the first that yields a result. -/
def visit {α β : Type*} (f : ℕ → α → α × Option β) : ℕ → List α → List α × Option β
  | _, [] => ([], none)
  | i, a :: as =>
    match f i a with
    | (a, some b) => (a :: as, some b)
    | (a, none) =>
      let (as, b) := visit f (i + 1) as
      (a :: as, b)

/-- What the sockets of one protocol answer in a poll. -/
structure Io where
  /-- The number of messages the outbound substream is ready for. -/
  ready : ℕ
  flushFails : Bool
  inbound : List SocketResult

namespace HandlerState

/-- Take messages of the sink as long as the substream is ready: what is written, what is left, and
whether the connection is to be closed. -/
def takeMessages : ℕ → List NotificationsSinkMessage →
    List Bytes × List NotificationsSinkMessage × Bool
  | _, [] => ([], [], false)
  | _, .forceClose :: rx => ([], .forceClose :: rx, true)
  | 0, .notification message :: rx => ([], .notification message :: rx, false)
  | n + 1, .notification message :: rx =>
    let (written, rx, close) := takeMessages n rx
    (message :: written, rx, close)

def sendMessages (io : ℕ → Io) (i : ℕ) : HandlerState → HandlerState × Option ConnectionHandlerEvent
  | .opened rx (some out) inSubstream =>
    let (written, rx, close) := takeMessages (io i).ready rx
    (.opened rx (some ⟨out.written ++ written⟩) inSubstream, if close then some .close else none)
  | state => (state, none)

def flush (io : ℕ → Io) (i : ℕ) : HandlerState → HandlerState × Option ConnectionHandlerEvent
  | .opened rx (some out) inSubstream =>
    if (io i).flushFails then
      (.opened rx none inSubstream, some (.custom (.closeDesired i)))
    else (.opened rx (some out) inSubstream, none)
  | state => (state, none)

def pollInbound (io : ℕ → Io) (i : ℕ) :
    HandlerState → HandlerState × Option ConnectionHandlerEvent
  | .closed pendingOpening => (.closed pendingOpening, none)
  | .opening none => (.opening none, none)
  | .opened rx out none => (.opened rx out none, some (.custom (.closeDesired i)))
  | .opened rx out (some substream) =>
    match substream.pollNext (io i).inbound with
    | (.pending, substream) => (.opened rx out (some substream), none)
    | (.message message, substream) =>
      (.opened rx out (some substream), some (.custom (.notification i message)))
    | (.closed, _) => (.opened rx out none, none)
    | (.error, _) => (.opened rx out none, none)
  | .openDesiredByRemote substream pendingOpening =>
    match substream.pollProcess (io i).inbound with
    | (false, substream) => (.openDesiredByRemote substream pendingOpening, none)
    | (true, _) => (.closed pendingOpening, some (.custom (.closeDesired i)))
  | .opening (some substream) =>
    match substream.pollProcess (io i).inbound with
    | (false, substream) => (.opening (some substream), none)
    | (true, _) => (.opening none, none)

end HandlerState

namespace NotifsHandler

def new (peerId : PeerId) (numProtocols : ℕ) : NotifsHandler where
  protocols := List.replicate numProtocols (.closed false)
  eventsQueue := []
  peerId := peerId
  nextChannel := 0

variable (h : NotifsHandler) (i : ℕ)

def push (event : ConnectionHandlerEvent) : NotifsHandler :=
  { h with eventsQueue := h.eventsQueue ++ [event] }

def setState (state : HandlerState) : NotifsHandler :=
  { h with protocols := h.protocols.set i state }

/-- The remote opened an inbound substream; `handshake` is the current handshake of the protocol. -/
def onFullyNegotiatedInbound (received handshake : Bytes) : NotifsHandler :=
  match h.protocols[i]? with
  | some (.closed pendingOpening) =>
    (h.push (.custom (.openDesiredByRemote i))).setState i
      (.openDesiredByRemote (.new received) pendingOpening)
  | some (.opening none) =>
    h.setState i (.opening (some ((InSubstream.new received).sendHandshake handshake)))
  | some (.opened rx out none) =>
    h.setState i (.opened rx out (some ((InSubstream.new received).sendHandshake handshake)))
  -- a second substream is dropped
  | some (.openDesiredByRemote _ _) | some (.opening (some _)) | some (.opened _ _ (some _))
  | none => h

def onFullyNegotiatedOutbound (fallback : Option ProtocolName) (handshake : Bytes) :
    NotifsHandler :=
  match h.protocols[i]? with
  | some (.closed _) => h.setState i (.closed false)
  | some (.openDesiredByRemote substream _) =>
    h.setState i (.openDesiredByRemote substream false)
  | some (.opening inSubstream) =>
    { h.setState i (.opened [] (some ⟨[]⟩) inSubstream) with
      nextChannel := h.nextChannel + 1 }.push
        (.custom (.openResultOk i fallback handshake ⟨h.peerId, h.nextChannel⟩))
  -- a state mismatch
  | some (.opened ..) | none => h

/-- Opening our outbound substream failed. -/
def onDialUpgradeError : NotifsHandler :=
  match h.protocols[i]? with
  | some (.closed _) => h.setState i (.closed false)
  | some (.openDesiredByRemote substream _) =>
    h.setState i (.openDesiredByRemote substream false)
  | some (.opening _) =>
    (h.setState i (.closed false)).push (.custom (.openResultErr i))
  | some (.opened ..) | none => h

/-- Ask for an outbound substream unless one is on its way. -/
def requestSubstream (pendingOpening : Bool) (initialMessage : Bytes) : NotifsHandler :=
  if pendingOpening then h else h.push (.outboundSubstreamRequest i initialMessage)

/-- A command of the behaviour; `handshake` is the current handshake of the protocol. -/
def onBehaviourEvent (handshake : Bytes) : NotifsHandlerIn → NotifsHandler
  | .open i =>
    match h.protocols[i]? with
    | some (.closed pendingOpening) =>
      (h.requestSubstream i pendingOpening handshake).setState i (.opening none)
    | some (.openDesiredByRemote substream pendingOpening) =>
      -- the handshake of the remote is sent back to it
      (h.requestSubstream i pendingOpening substream.receivedHandshake).setState i
        (.opening (some (substream.sendHandshake substream.receivedHandshake)))
    | some (.opening _) | some (.opened ..) | none => h
  | .close i =>
    let h := match h.protocols[i]? with
      | some (.opened ..) => h.setState i (.closed false)
      | some (.opening _) => (h.setState i (.closed true)).push (.custom (.openResultErr i))
      | some (.openDesiredByRemote _ pendingOpening) => h.setState i (.closed pendingOpening)
      | some (.closed _) | none => h
    h.push (.custom (.closeResult i))

def onSinkMessage (message : NotificationsSinkMessage) : NotifsHandler :=
  match h.protocols[i]? with
  | some (.opened rx out inSubstream) => h.setState i (.opened (rx ++ [message]) out inSubstream)
  | _ => h

def poll (io : ℕ → Io) : Option ConnectionHandlerEvent × NotifsHandler :=
  match h.eventsQueue with
  | event :: queue => (some event, { h with eventsQueue := queue })
  | [] =>
    match visit (HandlerState.sendMessages io) 0 h.protocols with
    | (protocols, some event) => (some event, { h with protocols := protocols })
    | (protocols, none) =>
      match visit (HandlerState.flush io) 0 protocols with
      | (protocols, some event) => (some event, { h with protocols := protocols })
      | (protocols, none) =>
        let (protocols, event) := visit (HandlerState.pollInbound io) 0 protocols
        (event, { h with protocols := protocols })

end NotifsHandler

inductive HandlerInput where
  | command (handshake : Bytes) (command : NotifsHandlerIn)
  | inbound (protocolIndex : ℕ) (received handshake : Bytes)
  | outbound (protocolIndex : ℕ) (fallback : Option ProtocolName) (handshake : Bytes)
  | dialUpgradeError (protocolIndex : ℕ)
  | sinkMessage (protocolIndex : ℕ) (message : NotificationsSinkMessage)
  | poll (io : ℕ → Io)

/-- Handle one input; only a poll returns an event. -/
def NotifsHandler.handle (h : NotifsHandler) :
    HandlerInput → Option ConnectionHandlerEvent × NotifsHandler
  | .command handshake command => (none, h.onBehaviourEvent handshake command)
  | .inbound i received handshake => (none, h.onFullyNegotiatedInbound i received handshake)
  | .outbound i fallback handshake => (none, h.onFullyNegotiatedOutbound i fallback handshake)
  | .dialUpgradeError i => (none, h.onDialUpgradeError i)
  | .sinkMessage i message => (none, h.onSinkMessage i message)
  | .poll io => h.poll io

section Visit

variable {α β : Type*} {f : ℕ → α → α × Option β} {P : ℕ → β → Prop}

theorem visit_result (hf : ∀ j a b, (f j a).2 = some b → P j b) {i : ℕ} {as : List α} {b : β}
    (h : (visit f i as).2 = some b) : ∃ j, i ≤ j ∧ P j b := by
  induction as generalizing i with
  | nil => cases h
  | cons x as ih =>
    rcases hx : f i x with ⟨x', _ | b'⟩
    · rw [visit, hx] at h
      obtain ⟨j, hj, hP⟩ := ih h
      exact ⟨j, by omega, hP⟩
    · rw [visit, hx] at h
      cases h
      exact ⟨i, Nat.le_refl i, hf i x b (by rw [hx])⟩

/-- What a visit does at one position, where a result tells the position it came from. -/
theorem visit_at (hf : ∀ j a b, (f j a).2 = some b → P j b) (i : ℕ) {as : List α} {k : ℕ} {a : α}
    (h : as[k]? = some a) : ∃ a', (visit f i as).1[k]? = some a' ∧
      (a' = (f (i + k) a).1 ∧ (visit f i as).2 = (f (i + k) a).2 ∧ (f (i + k) a).2.isSome ∨
        (∀ b, (visit f i as).2 = some b → ∃ j, j ≠ i + k ∧ P j b) ∧
          (a' = a ∨ a' = (f (i + k) a).1 ∧ (f (i + k) a).2 = none)) := by
  induction as generalizing i k with
  | nil => simp at h
  | cons x as ih =>
    rcases hx : f i x with ⟨x', _ | b⟩
    · rw [visit, hx]
      cases k with
      | zero =>
        obtain rfl : x = a := by simpa using h
        refine ⟨x', by simp, .inr ⟨?_, .inr (by simp [hx])⟩⟩
        intro b hb
        obtain ⟨j, hj, hP⟩ := visit_result hf hb
        exact ⟨j, by omega, hP⟩
      | succ k =>
        obtain ⟨a', ha', hcase⟩ := ih (i + 1) (by simpa using h)
        rw [Nat.add_right_comm, Nat.add_assoc] at hcase
        exact ⟨a', by simpa using ha', hcase⟩
    · rw [visit, hx]
      cases k with
      | zero =>
        obtain rfl : x = a := by simpa using h
        exact ⟨x', by simp, .inl (by simp [hx])⟩
      | succ k =>
        refine ⟨a, by simpa using h, .inr ⟨?_, .inl rfl⟩⟩
        rintro _ ⟨⟩
        exact ⟨i, by omega, hf i x b (by rw [hx])⟩

/-- No element yields a result, or there is a first one that does. -/
theorem visit_cases (f : ℕ → α → α × Option β) (i : ℕ) (as : List α) :
    (∀ j, ∀ a ∈ as[j]?, (f (i + j) a).2 = none) ∨
      ∃ k a b, as[k]? = some a ∧ (f (i + k) a).2 = some b ∧
        ∀ j < k, ∀ x ∈ as[j]?, (f (i + j) x).2 = none := by
  induction as generalizing i with
  | nil => exact .inl (by simp)
  | cons x as ih =>
    cases hx : (f i x).2 with
    | some b => exact .inr ⟨0, x, b, rfl, hx, by simp⟩
    | none =>
      have hcons : ∀ {j : ℕ}, (∀ a ∈ as[j]?, (f (i + 1 + j) a).2 = none) →
          ∀ a ∈ (x :: as)[j + 1]?, (f (i + (j + 1)) a).2 = none := by
        intro j hj a ha
        rw [show i + (j + 1) = i + 1 + j by omega]
        exact hj a ha
      have hzero : ∀ a ∈ (x :: as)[0]?, (f (i + 0) a).2 = none := by
        intro a ha
        obtain rfl := Option.some.inj ha
        exact hx
      rcases ih (i + 1) with hnone | ⟨k, a, b, ha, hb, hbefore⟩
      · refine .inl fun j => ?_
        cases j with
        | zero => exact hzero
        | succ j => exact hcons (hnone j)
      · refine .inr ⟨k + 1, a, b, ha, ?_, fun j hj => ?_⟩
        · rwa [show i + (k + 1) = i + 1 + k by omega]
        cases j with
        | zero => exact hzero
        | succ j => exact hcons (hbefore j (by omega))

theorem visit_of_silent {i : ℕ} {as : List α} (h : ∀ j, ∀ a ∈ as[j]?, (f (i + j) a).2 = none) :
    (visit f i as).2 = none ∧ ∀ j, (visit f i as).1[j]? = as[j]?.map fun a => (f (i + j) a).1 := by
  induction as generalizing i with
  | nil => simp [visit]
  | cons x as ih =>
    have hx : f i x = ((f i x).1, none) := Prod.ext rfl (h 0 x rfl)
    obtain ⟨hnone, hget⟩ := @ih (i + 1) fun j a ha => by
      rw [show i + 1 + j = i + (j + 1) by omega]
      exact h (j + 1) a ha
    rw [visit, hx]
    refine ⟨hnone, fun j => ?_⟩
    cases j with
    | zero => rfl
    | succ j =>
      rw [show i + (j + 1) = i + 1 + j by omega]
      exact hget j

theorem visit_of_first {i k : ℕ} {as : List α} {a : α} {b : β} (ha : as[k]? = some a)
    (hb : (f (i + k) a).2 = some b) (hbefore : ∀ j < k, ∀ x ∈ as[j]?, (f (i + j) x).2 = none) :
    (visit f i as).2 = some b ∧ (visit f i as).1[k]? = some (f (i + k) a).1 := by
  induction as generalizing i k with
  | nil => cases ha
  | cons x as ih =>
    cases k with
    | zero =>
      obtain rfl := Option.some.inj ha
      have hx : f i x = ((f i x).1, some b) := Prod.ext rfl hb
      rw [visit, hx]
      exact ⟨rfl, rfl⟩
    | succ k =>
      have hx : f i x = ((f i x).1, none) := Prod.ext rfl (hbefore 0 (by omega) x rfl)
      rw [show i + (k + 1) = i + 1 + k by omega] at hb ⊢
      rw [visit, hx]
      refine ih ha hb fun j hj y hy => ?_
      rw [show i + 1 + j = i + (j + 1) by omega]
      exact hbefore (j + 1) (by omega) y hy

end Visit

end SwarmHost.Substrate
