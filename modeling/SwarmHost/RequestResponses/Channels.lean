import SwarmHost.Collections.Tokens
import SwarmHost.RequestResponses.Basic

/-! # Every channel is used once

A oneshot channel is gone when it is used or dropped. The behaviour holds the
channels of the outbound requests without an answer and those of the inbound
requests without a response. None is lost: what a step takes in and does not use
is held after it.
-/

namespace SwarmHost.Substrate

namespace RequestResponses

def Effect.sent? : Effect → Option ProtocolRequestId
  | .request protocol requestId .. => some ⟨protocol, requestId⟩
  | _ => none

def Effect.answered? : Effect → Option ℕ
  | .answer channel _ => some channel
  | _ => none

def Effect.closed? : Effect → Option (ProtocolName × ℕ)
  | .respond protocol channel _ | .omit protocol channel => some (protocol, channel)
  | _ => none

def Input.reported? : Input → Option ProtocolRequestId
  | .event protocol (.response _ requestId _) ..
  | .event protocol (.outboundFailure _ requestId _) .. => some ⟨protocol, requestId⟩
  | _ => none

def PendingResponse.channel (p : PendingResponse) : ProtocolName × ℕ := (p.protocol, p.innerChannel)

end RequestResponses

open RequestResponses

namespace RequestResponsesBehaviour

def asked : Label → Multiset (Option ProtocolRequestId × ℕ)
  | (.sendRequest _ _ _ channel .., effects) => {(effects.findSome? Effect.sent?, channel)}
  | _ => 0

def answered (label : Label) : Multiset (Option ProtocolRequestId × ℕ) :=
  carried (fun effect => effect.answered?.map fun channel => (label.1.reported?, channel)) label.2

def received : Label → Multiset (ProtocolName × ℕ)
  | (.event protocol (.request _ _ _ channel) .., _) => {(protocol, channel)}
  | _ => 0

def closed (label : Label) : Multiset (ProtocolName × ℕ) := carried Effect.closed? label.2

/-- The number that the library gives a request. -/
def numbers (label : Label) : List ProtocolRequestId := label.2.filterMap Effect.sent?

/-- The library gives no number of a protocol twice. -/
def UniqueNumbers (labels : List Label) : Prop := (labels.flatMap numbers).Nodup

variable (b : RequestResponsesBehaviour)

def awaiting : Multiset (Option ProtocolRequestId × ℕ) :=
  (b.pendingRequests.entries.map fun e => (some e.1, e.2.2) : List _)

def held : Multiset (ProtocolName × ℕ) :=
  (b.messageRequest.toList.map (·.channel) : List _) +
    (b.pendingResponses.entries.map fun e => e.2.channel : List _)

/-- The channels that are yet to be made are not in use. -/
def Fresh : Prop := ∀ rx ∈ b.pendingResponses, rx < b.nextChannel

/-- What the step takes in and does not use is held after it. -/
structure Balanced (label : Label) (b' : RequestResponsesBehaviour) : Prop where
  fresh : b'.Fresh
  numbered : ∀ id ∈ b'.pendingRequests, id ∈ b.pendingRequests ∨ id ∈ numbers label
  outbound : (∀ id ∈ numbers label, id ∉ b.pendingRequests) →
    asked label + b.awaiting = answered label + b'.awaiting
  inbound : received label + b.held = closed label + b'.held

variable {b} {b' : RequestResponsesBehaviour} {effects : List Effect} {labels : List Label}

theorem sendRequest_balanced {target : PeerId} {protocol : ProtocolName} {request : Bytes}
    {channel : ℕ} {connect : IfDisconnected} {connected : Bool} {requestId : ℕ} {now : Instant}
    (hb : b.Fresh) (h : b.sendRequest target protocol request channel connect connected requestId
      now = (b', effects)) : b.Balanced
      (.sendRequest target protocol request channel connect connected requestId now, effects)
      b' := by
  unfold sendRequest at h
  split at h
  · split at h
    · cases h
      refine ⟨hb, fun id hmem => ?_, fun hunused => ?_, rfl⟩
      · rcases Dict.mem_insert.mp hmem with rfl | hmem
        · exact .inr (List.mem_singleton_self _)
        · exact .inl hmem
      · have hid := hunused ⟨protocol, requestId⟩ (List.mem_singleton_self _)
        exact (coe_map_entries_insert (fun e => (some e.1, e.2.2)) hid (now, channel)).symm.trans
          (zero_add _).symm
    · cases h
      exact ⟨hb, fun _ => .inl, fun _ => rfl, rfl⟩
  · cases h
    exact ⟨hb, fun _ => .inl, fun _ => rfl, rfl⟩

theorem onReputation_balanced {message : MessageRequest} {value : ℤ} {accepted : Bool}
    (hb : b.Fresh) (hmessage : b.messageRequest = some message)
    (h : b.onReputation message value accepted = (b', effects)) :
    b.Balanced (.reputation (some value) accepted, effects) b' := by
  have hheld : b.held = message.channel ::ₘ { b with messageRequest := none }.held := by
    rw [held, hmessage]
    rfl
  unfold onReputation at h
  split at h
  · cases h
    exact ⟨hb, fun _ => .inl, fun _ => rfl, (zero_add _).trans hheld⟩
  · cases h
    have hrx : b.nextChannel ∉ b.pendingResponses := fun hmem => Nat.lt_irrefl _ (hb _ hmem)
    refine ⟨fun rx hmem => ?_, fun _ => .inl, fun _ => ?_, ?_⟩
    · rcases Dict.mem_insert.mp hmem with rfl | hmem
      · exact Nat.lt_succ_self _
      · exact Nat.lt_succ_of_lt (hb rx hmem)
    · split <;> rfl
    · have hinsert := coe_map_entries_insert (fun e => e.2.channel) hrx message.toPendingResponse
      have hclosed : closed (.reputation (some value) accepted,
          if message.respBuilder && accepted then
            [.submit message.protocol message.peer message.request b.nextChannel] else []) = 0 := by
        split <;> rfl
      rw [hclosed, hheld, held, held, hinsert]
      rfl

theorem onOutcome_balanced {rx : ℕ} {pending : PendingResponse} {outcome : Option OutgoingResponse}
    {taken : Bool} (hb : b.Fresh) (hpending : b.pendingResponses.get? rx = some pending)
    (h : b.onOutcome rx pending outcome taken = (b', effects)) :
    b.Balanced (.outcome rx outcome taken, effects) b' := by
  cases h
  refine ⟨fun rx' hmem => hb rx' (Dict.mem_erase.mp hmem).2, fun _ => .inl, fun _ => ?_, ?_⟩
  · cases b.payload? pending outcome taken <;> split <;> rfl
  · have herase := coe_map_entries_erase (fun e => e.2.channel) hpending
    rw [held, herase, Multiset.add_cons]
    cases b.payload? pending outcome taken <;> split <;> exact zero_add _

theorem finish_balanced {input : Input} {protocol : ProtocolName} {peer : PeerId} {requestId : ℕ}
    {result : Except RequestFailure Bytes} {delivered : Except RequestFailure Unit} {now : Instant}
    (hb : b.Fresh) (hreported : input.reported? = some ⟨protocol, requestId⟩)
    (h : b.finish protocol peer requestId result delivered now = (b', effects)) :
    b.Balanced (input, effects) b' := by
  have hasked : asked (input, effects) = 0 ∧ received (input, effects) = 0 := by
    cases input with
    | event protocol event heard now => cases event <;> cases hreported <;> exact ⟨rfl, rfl⟩
    | _ => cases hreported
  unfold finish at h
  split at h
  · cases h
    exact ⟨hb, fun _ => .inl, fun _ => congrArg (· + _) hasked.1, congrArg (· + _) hasked.2⟩
  · next started channel hget =>
    cases h
    refine ⟨hb, fun id hmem => .inl (Dict.mem_erase.mp hmem).2, fun _ => ?_,
      congrArg (· + _) hasked.2⟩
    have herase := coe_map_entries_erase (fun e => (some e.1, e.2.2)) hget
    rw [hasked.1, zero_add, awaiting, herase]
    simp only [answered, hreported]
    rfl

theorem onEvent_balanced {protocol : ProtocolName} {event : LibraryEvent} {heard : Bool}
    {now : Instant} (hb : b.Fresh) (hmessage : b.messageRequest = none)
    (h : b.onEvent protocol heard now event = some (b', effects)) :
    b.Balanced (.event protocol event heard now, effects) b' := by
  cases event with
  | request peer requestId request channel =>
    cases h
    refine ⟨hb, fun _ => .inl, fun _ => rfl, ?_⟩
    rw [held, hmessage]
    rfl
  | response | outboundFailure => exact finish_balanced hb rfl (Option.some.inj h)
  | inboundFailure peer requestId error =>
    cases h
    exact ⟨hb, fun _ => .inl, fun _ => rfl, rfl⟩
  | responseSent peer requestId =>
    obtain ⟨arrived, -, h⟩ := Option.map_eq_some_iff.mp h
    cases h
    refine ⟨hb, fun _ => .inl, fun _ => ?_, ?_⟩
    all_goals cases b.sendFeedback.get? ⟨protocol, requestId⟩ <;> rfl
  | other =>
    cases h
    exact ⟨hb, fun _ => .inl, fun _ => rfl, rfl⟩

theorem step_balanced {label : Label} (h : Step b label b') (hb : b.Fresh) :
    b.Balanced label b' := by
  obtain ⟨input, effects⟩ := label
  unfold Step at h
  cases input with
  | sendRequest => exact sendRequest_balanced hb (Option.some.inj h)
  | reputation value accepted =>
    obtain ⟨message, hmessage, h⟩ := Option.bind_eq_some_iff.mp h
    obtain ⟨reputation, rfl, h⟩ := Option.map_eq_some_iff.mp h
    exact onReputation_balanced hb hmessage h
  | outcome rx response taken =>
    rw [handle] at h
    split at h
    · obtain ⟨pending, hpending, h⟩ := Option.map_eq_some_iff.mp h
      exact onOutcome_balanced hb hpending h
    · cases h
  | event protocol event heard now =>
    rw [handle] at h
    split at h
    · next hadmits => exact onEvent_balanced hb (Option.isNone_iff_eq_none.mp hadmits.1) h
    · cases h

/-- The numbers that are yet to be given out are not in use. -/
structure Unused (b : RequestResponsesBehaviour) (labels : List Label) : Prop where
  fresh : b.Fresh
  unique : UniqueNumbers labels
  unused : ∀ id ∈ b.pendingRequests, id ∉ labels.flatMap numbers

theorem Unused.head {label : Label} (hs : b.Unused (label :: labels)) :
    ∀ id ∈ numbers label, id ∉ b.pendingRequests := by
  intro id hid hmem
  exact hs.unused id hmem (List.mem_append_left _ hid)

theorem Unused.step {label : Label} (hs : b.Unused (label :: labels)) (h : Step b label b') :
    b'.Unused labels := by
  have hbalanced := step_balanced h hs.fresh
  obtain ⟨-, hunique, hdisjoint⟩ := List.nodup_append'.mp hs.unique
  refine ⟨hbalanced.fresh, hunique, fun id hmem hid => ?_⟩
  rcases hbalanced.numbered id hmem with hold | hnew
  · exact hs.unused id hold (List.mem_append_right _ hid)
  · exact hdisjoint hnew hid

theorem new_eq_ok {list : List ProtocolConfig} (h : new list = .ok b) :
    b.Fresh ∧ b.pendingRequests = ∅ ∧ b.held = 0 := by
  unfold new at h
  cases hp : list.foldlM register ∅ with
  | error e => rw [hp] at h; cases h
  | ok protocols =>
    rw [hp] at h
    cases h
    exact ⟨fun _ hmem => absurd hmem (Dict.notMem_empty _), rfl, rfl⟩

/-- Every channel that came with an outbound request was answered once or is awaited still: at once
if the request was not sent, and otherwise on the report about its own number. -/
theorem sendRequest_answered {list : List ProtocolConfig} (hnew : new list = .ok b)
    (hunique : UniqueNumbers labels) (hrun : Run Step b labels b') :
    (labels.map asked).sum = (labels.map answered).sum + b'.awaiting := by
  obtain ⟨hb, hpending, -⟩ := new_eq_ok hnew
  have hunused : b.Unused labels := by
    refine ⟨hb, hunique, fun id hmem => ?_⟩
    rw [hpending] at hmem
    exact absurd hmem (Dict.notMem_empty id)
  have hbalance := hrun.balance asked answered awaiting
    (fun _ _ _ _ h hs => ⟨hs.step h, (step_balanced h hs.fresh).outbound hs.head⟩) hunused
  have hawaiting : b.awaiting = 0 := by rw [awaiting, hpending]; rfl
  rwa [hawaiting, add_zero] at hbalance

/-- Every channel that came with an inbound request got one response or was dropped, or the request
waits for a reputation or an outcome. -/
theorem request_responded {list : List ProtocolConfig} (hnew : new list = .ok b)
    (hrun : Run Step b labels b') :
    (labels.map received).sum = (labels.map closed).sum + b'.held := by
  obtain ⟨hb, -, hheld⟩ := new_eq_ok hnew
  have hbalance := hrun.balance received closed held (I := fun b _ => b.Fresh)
    (fun _ _ _ _ h hs => ⟨(step_balanced h hs).fresh, (step_balanced h hs).inbound⟩) hb
  rwa [hheld, add_zero] at hbalance

/-- A request of a peer is served while one to the same peer is under way. -/
def exchange : List Label :=
  [(.sendRequest [7] "/sync/2" [8] 0 .tryConnect false 1 0, [.request "/sync/2" 1 [7] [8]]),
    (.event "/sync/2" (.request [7] 1 [9] 4) true 1, []),
    (.reputation (some 0) true, [.submit "/sync/2" [7] [9] 0]),
    (.outcome 0 (some ⟨some [3], [], none⟩) true, [.respond "/sync/2" 4 [3]]),
    (.event "/sync/2" (.response [7] 1 (some [2])) true 5,
      [.answer 0 (.ok [2]), .generate (.requestFinished [7] "/sync/2" 5 (.ok ()))])]

theorem exchange_run :
    ∃ b b', new [⟨"/sync/2", true⟩] = .ok b ∧ Run Step b exchange b' :=
  ⟨_, _, rfl, .cons rfl (.cons rfl (.cons rfl (.cons rfl (.cons rfl (.nil _)))))⟩

theorem sendRequest_answered_exchange :
    ∃ b b', new [⟨"/sync/2", true⟩] = .ok b ∧ UniqueNumbers exchange ∧ Run Step b exchange b' ∧
      (exchange.map asked).sum = (exchange.map answered).sum + b'.awaiting := by
  obtain ⟨b, b', hnew, hrun⟩ := exchange_run
  have hunique : UniqueNumbers exchange := List.nodup_singleton _
  exact ⟨b, b', hnew, hunique, hrun, sendRequest_answered hnew hunique hrun⟩

theorem request_responded_exchange :
    ∃ b b', new [⟨"/sync/2", true⟩] = .ok b ∧ Run Step b exchange b' ∧
      (exchange.map received).sum = (exchange.map closed).sum + b'.held := by
  obtain ⟨b, b', hnew, hrun⟩ := exchange_run
  exact ⟨b, b', hnew, hrun, request_responded hnew hrun⟩

end RequestResponsesBehaviour

end SwarmHost.Substrate
