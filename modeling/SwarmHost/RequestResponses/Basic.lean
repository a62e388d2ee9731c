import SwarmHost.Peerset.Basic
import SwarmHost.Runs.Basic

/-! # The request-response behaviour

The library numbers the outbound requests of each protocol, and their answers are
awaited on a oneshot channel each. An inbound request first waits for the reputation
of its peer, and nothing else is polled until that has come; it is then submitted to
the queue of its protocol with a fresh channel, on which the outcome is awaited.
-/

namespace SwarmHost.Substrate

structure ProtocolRequestId where
  protocol : ProtocolName
  requestId : ℕ
  deriving DecidableEq

inductive OutboundFailure where
  | dialFailure
  | timeout
  | connectionClosed
  | unsupportedProtocols

inductive InboundFailure where
  | timeout
  | connectionClosed
  | unsupportedProtocols
  | responseOmission

inductive RequestFailure where
  | notConnected
  | unknownProtocol
  | refused
  | obsolete
  | network (error : OutboundFailure)

inductive IfDisconnected where
  | tryConnect
  | immediateError

def IfDisconnected.shouldConnect : IfDisconnected → Bool
  | .tryConnect => true
  | .immediateError => false

structure ProtocolConfig where
  name : ProtocolName
  /-- Requests of peers are submitted to a queue. -/
  inboundQueue : Bool

structure OutgoingResponse where
  /-- `none` refuses the request. -/
  result : Option Bytes
  reputationChanges : List ℤ
  /-- The channel that hears when the response has been sent. -/
  sentFeedback : Option ℕ

namespace RequestResponses

/-- What the library behaviour of a protocol reports when it is polled. -/
inductive LibraryEvent where
  | request (peer : PeerId) (requestId : ℕ) (request : Bytes) (channel : ℕ)
  /-- `none` is a refusal by the remote. -/
  | response (peer : PeerId) (requestId : ℕ) (response : Option Bytes)
  | outboundFailure (peer : PeerId) (requestId : ℕ) (error : OutboundFailure)
  | inboundFailure (peer : PeerId) (requestId : ℕ) (error : InboundFailure)
  | responseSent (peer : PeerId) (requestId : ℕ)
  /-- An action that is passed through. -/
  | other

/-- What the behaviour reports. -/
inductive Event where
  | inboundRequest (peer : PeerId) (protocol : ProtocolName) (result : Except InboundFailure ℕ)
  | requestFinished (peer : PeerId) (protocol : ProtocolName) (duration : ℕ)
      (result : Except RequestFailure Unit)
  | reputationChanges (peer : PeerId) (changes : List ℤ)

/-- An inbound request whose outcome is awaited. -/
structure PendingResponse where
  peer : PeerId
  requestId : ℕ
  protocol : ProtocolName
  /-- The channel of the library that takes the response. -/
  innerChannel : ℕ

/-- An inbound request that waits for the reputation of its peer. -/
structure MessageRequest extends PendingResponse where
  request : Bytes
  respBuilder : Bool

structure Registered where
  respBuilder : Bool

inductive Input where
  /-- The library numbers the request with `requestId` if it is sent. -/
  | sendRequest (target : PeerId) (protocol : ProtocolName) (request : Bytes) (channel : ℕ)
      (connect : IfDisconnected) (connected : Bool) (requestId : ℕ) (now : Instant)
  /-- The reputation has come, `none` if the peerset is gone; the queue takes the request or not. -/
  | reputation (value : Option ℤ) (accepted : Bool)
  /-- The outcome on the channel is ready, `none` if its sender was dropped; the library takes
  the response or not. -/
  | outcome (rx : ℕ) (response : Option OutgoingResponse) (taken : Bool)
  /-- An event of the library behaviour of a protocol; `heard` tells whether the local
  requester still waits. -/
  | event (protocol : ProtocolName) (event : LibraryEvent) (heard : Bool) (now : Instant)

inductive Effect where
  /-- The oneshot channel of a request is used. -/
  | answer (channel : ℕ) (result : Except RequestFailure Bytes)
  | request (protocol : ProtocolName) (requestId : ℕ) (target : PeerId) (request : Bytes)
  | submit (protocol : ProtocolName) (peer : PeerId) (payload : Bytes) (pendingResponse : ℕ)
  | respond (protocol : ProtocolName) (channel : ℕ) (payload : Bytes)
  /-- The channel of the library goes without a response. -/
  | omit (protocol : ProtocolName) (channel : ℕ)
  | feedback (channel : ℕ)
  | generate (event : Event)
  | passThrough (protocol : ProtocolName)

end RequestResponses

open RequestResponses

structure RequestResponsesBehaviour where
  protocols : Dict ProtocolName Registered
  /-- The time and the channel of each outbound request without an answer. -/
  pendingRequests : Dict ProtocolRequestId (Instant × ℕ)
  pendingResponses : Dict ℕ PendingResponse
  pendingResponsesArrivalTime : Dict ProtocolRequestId Instant
  sendFeedback : Dict ProtocolRequestId ℕ
  messageRequest : Option MessageRequest
  /-- The number of the next oneshot channel made by the behaviour. -/
  nextChannel : ℕ

namespace RequestResponsesBehaviour

def register (protocols : Dict ProtocolName Registered) (protocol : ProtocolConfig) :
    Except ProtocolName (Dict ProtocolName Registered) :=
  if protocol.name ∈ protocols then .error protocol.name
  else .ok (protocols.insert protocol.name ⟨protocol.inboundQueue⟩)

/-- The behaviour with the given protocols; the error names the first one given twice. -/
def new (list : List ProtocolConfig) : Except ProtocolName RequestResponsesBehaviour := do
  let protocols ← list.foldlM register ∅
  return ⟨protocols, ∅, ∅, ∅, ∅, none, 0⟩

variable (b : RequestResponsesBehaviour)

def sendRequest (target : PeerId) (protocol : ProtocolName) (request : Bytes) (channel : ℕ)
    (connect : IfDisconnected) (connected : Bool) (requestId : ℕ) (now : Instant) :
    RequestResponsesBehaviour × List Effect :=
  if protocol ∈ b.protocols then
    if connected || connect.shouldConnect then
      ({ b with
        pendingRequests := b.pendingRequests.insert ⟨protocol, requestId⟩ (now, channel) },
        [.request protocol requestId target request])
    else (b, [.answer channel (.error .notConnected)])
  else (b, [.answer channel (.error .unknownProtocol)])

def onReputation (message : MessageRequest) (reputation : ℤ) (accepted : Bool) :
    RequestResponsesBehaviour × List Effect :=
  if reputation < bannedThreshold then
    ({ b with messageRequest := none }, [.omit message.protocol message.innerChannel])
  else
    let rx := b.nextChannel
    ({ b with
      messageRequest := none
      pendingResponses := b.pendingResponses.insert rx message.toPendingResponse
      nextChannel := rx + 1 },
      -- otherwise the sender is dropped, and the outcome is `none`
      if message.respBuilder && accepted then
        [.submit message.protocol message.peer message.request rx] else [])

def payload? (pending : PendingResponse) (outcome : Option OutgoingResponse) (taken : Bool) :
    Option Bytes :=
  if pending.protocol ∈ b.protocols ∧ taken then outcome.bind (·.result) else none

def onOutcome (rx : ℕ) (pending : PendingResponse) (outcome : Option OutgoingResponse)
    (taken : Bool) : RequestResponsesBehaviour × List Effect :=
  let payload := b.payload? pending outcome taken
  let changes := outcome.elim [] (·.reputationChanges)
  ({ b with
    pendingResponses := b.pendingResponses.erase rx
    sendFeedback :=
      match payload, outcome.bind (·.sentFeedback) with
      | some _, some feedback =>
        b.sendFeedback.insert ⟨pending.protocol, pending.requestId⟩ feedback
      | _, _ => b.sendFeedback },
    payload.elim (.omit pending.protocol pending.innerChannel)
        (.respond pending.protocol pending.innerChannel) ::
      if changes.isEmpty then [] else [.generate (.reputationChanges pending.peer changes)])

/-- An outbound request has got its result; a request that is not known is skipped. -/
def finish (protocol : ProtocolName) (peer : PeerId) (requestId : ℕ)
    (result : Except RequestFailure Bytes) (delivered : Except RequestFailure Unit)
    (now : Instant) : RequestResponsesBehaviour × List Effect :=
  match b.pendingRequests.get? ⟨protocol, requestId⟩ with
  | none => (b, [])
  | some (started, channel) =>
    ({ b with pendingRequests := b.pendingRequests.erase ⟨protocol, requestId⟩ },
      [.answer channel result,
        .generate (.requestFinished peer protocol (now - started) delivered)])

def forget (id : ProtocolRequestId) : RequestResponsesBehaviour :=
  { b with
    pendingResponsesArrivalTime := b.pendingResponsesArrivalTime.erase id
    sendFeedback := b.sendFeedback.erase id }

/-- An event of the library; `none` if an expectation fails. -/
def onEvent (protocol : ProtocolName) (heard : Bool) (now : Instant) :
    LibraryEvent → Option (RequestResponsesBehaviour × List Effect)
  | .request peer requestId request channel =>
    some ({ b with
      pendingResponsesArrivalTime :=
        b.pendingResponsesArrivalTime.insert ⟨protocol, requestId⟩ now
      messageRequest := some
        ⟨⟨peer, requestId, protocol, channel⟩, request,
          (b.protocols.get? protocol).any (·.respBuilder)⟩ }, [])
  | .response peer requestId response =>
    some (b.finish protocol peer requestId (response.elim (.error .refused) .ok)
      (if heard then .ok () else .error .obsolete) now)
  | .outboundFailure peer requestId error =>
    some (b.finish protocol peer requestId (.error (.network error)) (.error (.network error)) now)
  | .inboundFailure peer requestId error =>
    some (b.forget ⟨protocol, requestId⟩,
      [.generate (.inboundRequest peer protocol (.error error))])
  | .responseSent peer requestId =>
    -- the arrival time is expected to be there
    (b.pendingResponsesArrivalTime.get? ⟨protocol, requestId⟩).map fun arrived =>
      (b.forget ⟨protocol, requestId⟩,
        (b.sendFeedback.get? ⟨protocol, requestId⟩).toList.map .feedback ++
          [.generate (.inboundRequest peer protocol (.ok (now - arrived)))])
  | .other => some (b, [.passThrough protocol])

/-- Handle one input; `none` if it cannot come next or an expectation fails. While a request waits
for a reputation nothing else is polled. -/
def handle : Input → Option (RequestResponsesBehaviour × List Effect)
  | .sendRequest target protocol request channel connect connected requestId now =>
    some (b.sendRequest target protocol request channel connect connected requestId now)
  | .reputation value accepted =>
    b.messageRequest.bind fun message =>
      value.map fun reputation => b.onReputation message reputation accepted
  | .outcome rx response taken =>
    if b.messageRequest.isNone then
      (b.pendingResponses.get? rx).map fun pending => b.onOutcome rx pending response taken
    else none
  | .event protocol event heard now =>
    if b.messageRequest.isNone ∧ protocol ∈ b.protocols then b.onEvent protocol heard now event
    else none

abbrev Label := Input × List Effect

def Step (b : RequestResponsesBehaviour) (a : Label) (b' : RequestResponsesBehaviour) : Prop :=
  b.handle a.1 = some (b', a.2)

end RequestResponsesBehaviour

end SwarmHost.Substrate
