import SwarmHost.Network.Basic
import SwarmHost.Runs.Basic

/-! # The response cache

Responses to inbound requests are cached under the digest of the payload and
feed later outbound requests. The digest does not cover the protocol, so a
cached response is right only if the last answered request with the same
payload came in on the protocol of the outbound request.
-/

namespace SwarmHost.Substrate

/-- The state of the standard library's default hasher, SipHash with one and three rounds. -/
structure SipState where
  v0 : UInt64
  v1 : UInt64
  v2 : UInt64
  v3 : UInt64

namespace SipState

def rotateLeft (x n : UInt64) : UInt64 := x <<< n ||| x >>> (64 - n)

def new : SipState :=
  ⟨0x736f6d6570736575, 0x646f72616e646f6d, 0x6c7967656e657261, 0x7465646279746573⟩

def round (s : SipState) : SipState :=
  let v0 := s.v0 + s.v1
  let v1 := rotateLeft s.v1 13 ^^^ v0
  let v2 := s.v2 + s.v3
  let v3 := rotateLeft s.v3 16 ^^^ v2
  let v0 := rotateLeft v0 32 + v3
  let v2 := v2 + v1
  ⟨v0, rotateLeft v1 17 ^^^ v2, rotateLeft v2 32, rotateLeft v3 21 ^^^ v0⟩

def absorb (s : SipState) (word : UInt64) : SipState :=
  let s := { s with v3 := s.v3 ^^^ word }.round
  { s with v0 := s.v0 ^^^ word }

def word (bytes : Bytes) : UInt64 := bytes.foldr (fun b acc => acc <<< 8 ||| b.toUInt64) 0

def write (s : SipState) (length : UInt64) : Bytes → SipState
  | b0 :: b1 :: b2 :: b3 :: b4 :: b5 :: b6 :: b7 :: rest =>
    (s.absorb (word [b0, b1, b2, b3, b4, b5, b6, b7])).write length rest
  | rest => s.absorb (length <<< 56 ||| word rest)

def finish (s : SipState) : UInt64 :=
  let s := { s with v2 := s.v2 ^^^ 0xff }.round.round.round
  s.v0 ^^^ s.v1 ^^^ s.v2 ^^^ s.v3

end SipState

def defaultHasher (payload : Bytes) : UInt64 :=
  (SipState.new.write (.ofNat payload.length) payload).finish

/-- A response to an inbound request, with the protocol and the payload of the request. -/
structure Answer where
  protocol : ProtocolName
  payload : Bytes
  response : Bytes
  deriving DecidableEq

/-- The network beside the inbound requests it received and the responses it sent. -/
structure Traced where
  network : Network
  /-- Protocol and payload of the inbound requests, by identifier. -/
  inbound : Dict ℕ (ProtocolName × Bytes)
  /-- The responses that were sent on a channel, in order. -/
  answers : List Answer

namespace Traced

variable {digest : Bytes → UInt64} {t u : Traced} {input : NetworkInput}

def new : Traced := ⟨.new, ∅, []⟩

def receives (t : Traced) : NetworkInput → Dict ℕ (ProtocolName × Bytes)
  | .inboundRequest _ protocol payload _ =>
    t.inbound.insert t.network.nextRequestId (protocol, payload)
  | _ => t.inbound

def sends (t : Traced) : NetworkInput → List Answer
  | .command (.sendResponse _ requestId response) =>
    if requestId ∈ t.network.pendingRequests then
      (t.inbound.get? requestId).toList.map fun (protocol, payload) =>
        ⟨protocol, payload, response⟩
    else []
  | _ => []

def step (digest : Bytes → UInt64) (t : Traced) (input : NetworkInput) : Traced where
  network := (t.network.turn digest input).1
  inbound := t.receives input
  answers := t.answers ++ t.sends input

def Step (digest : Bytes → UInt64) (t : Traced) (input : NetworkInput) (u : Traced) : Prop :=
  u = t.step digest input

/-- An outbound request that is answered from the cache gets a response that was sent before for an
inbound request with the same protocol and payload. -/
def CacheSound (digest : Bytes → UInt64) (t : Traced) (input : NetworkInput) : Prop :=
  ∀ peer protocol request requestId response,
    input = .command (.sendRequest peer protocol request) →
    .responseReceived peer protocol requestId response ∈ (t.network.turn digest input).2.1 →
      ⟨protocol, request, response⟩ ∈ t.answers

def lastAnswer (t : Traced) (payload : Bytes) : Option Answer :=
  (t.answers.filter (·.payload = payload)).getLast?

/-- If inbound requests with the payload of an outbound request were answered, the last of them came
in on the protocol of the outbound request. -/
def SameProtocol (t : Traced) (input : NetworkInput) : Prop :=
  ∀ peer protocol request, input = .command (.sendRequest peer protocol request) →
    ∀ answer ∈ t.lastAnswer request, answer.protocol = protocol

def payload : NetworkInput → Option Bytes
  | .inboundRequest _ _ payload _ => some payload
  | .command (.sendRequest _ _ request) => some request
  | _ => none

def payloads (inputs : List NetworkInput) : List Bytes := inputs.filterMap payload

def lastResponse (digest : Bytes → UInt64) (answers : List Answer) (d : UInt64) : Option Bytes :=
  ((answers.filter fun answer => digest answer.payload = d).getLast?).map Answer.response

/-- The tables agree with the requests received and the responses sent. -/
structure Agrees (digest : Bytes → UInt64) (t : Traced) : Prop where
  fresh : ∀ id ∈ t.network.pendingRequests, id < t.network.nextRequestId
  pending : ∀ id d channel, t.network.pendingRequests.get? id = some (d, channel) →
    ∃ protocol payload, t.inbound.get? id = some (protocol, payload) ∧ d = digest payload
  cached : ∀ d, t.network.cachedResponses.get? d = lastResponse digest t.answers d

theorem agrees_new : Agrees digest new where
  fresh id h := by cases h
  pending id d channel h := by cases h
  cached d := rfl

def Passive : NetworkInput → Prop
  | .inboundRequest .. | .command (.sendResponse ..) => False
  | _ => True

/-- Such an input leaves the pending requests and the cache alone. -/
structure Untouched (n n' : Network) : Prop where
  pending : n'.pendingRequests = n.pendingRequests
  cached : n'.cachedResponses = n.cachedResponses
  next : n.nextRequestId ≤ n'.nextRequestId

theorem Untouched.refl (n : Network) : Untouched n n := ⟨rfl, rfl, le_rfl⟩

theorem finish_emit (n : Network) (events : List NetworkEvent) :
    n.finish (events.map .emit) = (n, events) := by
  induction events with
  | nil => rfl
  | cons event events ih => rw [List.map_cons, Network.finish, ih]

theorem untouched_swarm (digest : Bytes → UInt64) (n : Network) (event : SwarmEvent) :
    Untouched n (n.turn digest (.swarm event)).1 := by
  cases event with
  | discovered peer =>
    simp only [Network.turn, Network.receive, Network.onSwarmEvent]
    split <;> exact ⟨rfl, rfl, le_rfl⟩
  | notificationsReceived remote messages =>
    simp only [Network.turn, Network.receive, Network.onSwarmEvent]
    have hmap : (messages.map fun (protocol, bytes) =>
        Task.emit (.notificationReceived remote protocol bytes)) =
          (messages.map fun (protocol, bytes) =>
            NetworkEvent.notificationReceived remote protocol bytes).map .emit := by
      rw [List.map_map]
      rfl
    rw [hmap, finish_emit]
    exact .refl n
  | _ => exact ⟨rfl, rfl, le_rfl⟩

theorem untouched_turn (digest : Bytes → UInt64) (n : Network) (h : Passive input) :
    Untouched n (n.turn digest input).1 := by
  cases input with
  | inboundRequest => cases h
  | responseResolved position result =>
    simp only [Network.turn, Network.receive]
    split
    · exact .refl n
    · cases result <;> exact ⟨rfl, rfl, le_rfl⟩
  | swarm event => exact untouched_swarm digest n event
  | command command =>
    cases command with
    | sendResponse => cases h
    | sendRequest peer protocol request =>
      simp only [Network.turn, Network.receive, Network.onCommand, Network.takeRequestId]
      split <;> exact ⟨rfl, rfl, Nat.le_succ _⟩
    | _ => exact .refl n

theorem Agrees.passive (ht : Agrees digest t) (h : Passive input) :
    Agrees digest (t.step digest input) := by
  have hu := untouched_turn digest t.network h
  have hin : t.receives input = t.inbound := by
    cases input with
    | inboundRequest => cases h
    | _ => rfl
  have hans : t.sends input = [] := by
    cases input with
    | command command =>
      cases command with
      | sendResponse => cases h
      | _ => rfl
    | _ => rfl
  constructor
  · intro id hid
    exact (ht.fresh id (hu.pending ▸ hid)).trans_le hu.next
  · intro id d channel hget
    change t.receives input = _ at hin
    simp only [step, hin]
    exact ht.pending id d channel (hu.pending ▸ hget)
  · intro d
    simp only [step, hans, List.append_nil, hu.cached]
    exact ht.cached d

theorem Agrees.inboundRequest (ht : Agrees digest t) (peer : PeerId) (protocol : ProtocolName)
    (payload : Bytes) (channel : ℕ) :
    Agrees digest (t.step digest (.inboundRequest peer protocol payload channel)) := by
  have hpending : (t.step digest (.inboundRequest peer protocol payload channel)).network =
      { t.network with
        nextRequestId := t.network.nextRequestId + 1
        pendingRequests := t.network.pendingRequests.insert t.network.nextRequestId
          (digest payload, channel) } := rfl
  constructor
  · rw [hpending]
    intro id hid
    rcases Dict.mem_insert.mp hid with rfl | hid
    · exact Nat.lt_succ_self _
    · exact (ht.fresh id hid).trans (Nat.lt_succ_self _)
  · rw [hpending]
    intro id d channel' hget
    change ∃ protocol' payload', (t.inbound.insert t.network.nextRequestId
      (protocol, payload)).get? id = some (protocol', payload') ∧ d = digest payload'
    rw [Dict.get?_insert] at hget ⊢
    split at hget
    · cases hget
      exact ⟨protocol, payload, if_pos ‹_›, rfl⟩
    · rename_i hne
      rw [if_neg hne]
      exact ht.pending id d channel' hget
  · intro d
    rw [hpending]
    change t.network.cachedResponses.get? d = lastResponse digest (t.answers ++ []) d
    rw [List.append_nil]
    exact ht.cached d

theorem lastResponse_concat (answers : List Answer) (answer : Answer) (d : UInt64) :
    lastResponse digest (answers ++ [answer]) d =
      if d = digest answer.payload then some answer.response
      else lastResponse digest answers d := by
  unfold lastResponse
  rw [List.filter_append]
  by_cases h : digest answer.payload = d
  · rw [List.filter_cons_of_pos (by simpa using h), if_pos h.symm]
    simp
  · rw [List.filter_cons_of_neg (by simpa using h), if_neg (Ne.symm h)]
    simp

theorem Agrees.sendResponse (ht : Agrees digest t) (peer : PeerId) (id : ℕ) (response : Bytes) :
    Agrees digest (t.step digest (.command (.sendResponse peer id response))) := by
  cases hget : t.network.pendingRequests.get? id with
  | none =>
    have hid : id ∉ t.network.pendingRequests := Dict.notMem_iff.mpr hget
    have hstep : t.step digest (.command (.sendResponse peer id response)) = t := by
      simp [step, Network.turn, Network.receive, Network.onCommand, hget, Network.finish, receives,
        sends, hid]
    rw [hstep]
    exact ht
  | some entry =>
    obtain ⟨d, channel⟩ := entry
    obtain ⟨protocol, payload, hin, rfl⟩ := ht.pending id d channel hget
    have hid : id ∈ t.network.pendingRequests := Dict.mem_of_get? hget
    have hstep : t.step digest (.command (.sendResponse peer id response)) =
        { t with
          network := { t.network with
            pendingRequests := t.network.pendingRequests.erase id
            cachedResponses := t.network.cachedResponses.insert (digest payload) response }
          answers := t.answers ++ [⟨protocol, payload, response⟩] } := by
      simp [step, Network.turn, Network.receive, Network.onCommand, hget, Network.finish, receives,
        sends, hid, hin]
    rw [hstep]
    constructor
    · intro id' hid'
      exact ht.fresh id' (Dict.mem_erase.mp hid').2
    · intro id' d' channel' hget'
      rw [Dict.get?_erase] at hget'
      split at hget'
      · cases hget'
      · exact ht.pending id' d' channel' hget'
    · intro d'
      rw [lastResponse_concat, Dict.get?_insert, ht.cached]

theorem agrees_step (t : Traced) (input : NetworkInput) (u : Traced) (hu : Step digest t input u)
    (ht : Agrees digest t) : Agrees digest u := by
  subst hu
  cases input with
  | inboundRequest peer protocol payload channel =>
    exact ht.inboundRequest peer protocol payload channel
  | command command =>
    cases command with
    | sendResponse peer id response => exact ht.sendResponse peer id response
    | _ => exact ht.passive trivial
  | _ => exact ht.passive trivial

/-- The requests received and answered are requests of the run. -/
structure Known (inputs : List NetworkInput) (t : Traced) : Prop where
  inbound : ∀ id protocol payload, t.inbound.get? id = some (protocol, payload) →
    payload ∈ payloads inputs
  answers : ∀ answer ∈ t.answers, answer.payload ∈ payloads inputs

theorem Known.step {inputs : List NetworkInput} (hk : Known inputs t)
    (hp : ∀ p ∈ payload input, p ∈ payloads inputs) : Known inputs (t.step digest input) := by
  constructor
  · intro id protocol p hget
    change (t.receives input).get? id = _ at hget
    unfold receives at hget
    split at hget
    · rw [Dict.get?_insert] at hget
      split at hget
      · cases hget
        exact hp p rfl
      · exact hk.inbound id protocol p hget
    · exact hk.inbound id protocol p hget
  · intro answer ha
    rcases List.mem_append.mp ha with ha | ha
    · exact hk.answers answer ha
    · unfold sends at ha
      split at ha
      · split at ha
        · obtain ⟨⟨protocol, p⟩, hget, rfl⟩ := List.mem_map.mp ha
          exact hk.inbound _ protocol p (Option.mem_toList.mp hget)
        · cases ha
      · cases ha

theorem known_run {inputs pre : List NetworkInput} (hpre : pre <+: inputs)
    (hrun : Run (Step digest) new pre t) : Known inputs t := by
  induction pre using List.reverseRecOn generalizing t with
  | nil =>
    rw [Run.nil_iff.mp hrun]
    constructor
    · intro id protocol payload h
      cases h
    · intro answer h
      cases h
  | append_singleton pre input ih =>
    obtain ⟨u, hu, rfl⟩ := Run.snoc_iff.mp hrun
    apply (ih ((List.prefix_append _ _).trans hpre) hu).step
    intro p hp
    have hmem : input ∈ inputs := hpre.subset (by simp)
    exact List.mem_filterMap.mpr ⟨input, hmem, hp⟩

/-- A cached response is the last response to a request with the digest of the payload. -/
theorem lastResponse_of_hit (ht : Agrees digest t) {peer : PeerId} {protocol : ProtocolName}
    {request response : Bytes} {id : ℕ} (h : .responseReceived peer protocol id response ∈
      (t.network.turn digest (.command (.sendRequest peer protocol request))).2.1) :
    lastResponse digest t.answers (digest request) = some response := by
  rw [← ht.cached]
  simp only [Network.turn, Network.receive, Network.onCommand, Network.takeRequestId] at h
  split at h
  · rename_i response' hget
    simp only [Network.finish, List.mem_singleton, NetworkEvent.responseReceived.injEq] at h
    rw [hget, h.2.2.2]
  · cases h

/-- Along a run whose payloads have different digests, every response from the cache was sent for an
inbound request with the same protocol and payload, provided that the last answered request with the
payload of an outbound request came in on the protocol of the outbound request. -/
theorem cache_sound (digest : Bytes → UInt64) (inputs : List NetworkInput)
    (hdigest : ∀ p ∈ payloads inputs, ∀ q ∈ payloads inputs, digest p = digest q → p = q)
    (hsame : Along (Step digest) (fun t input _ => SameProtocol t input) new inputs) :
    Along (Step digest) (fun t input _ => CacheSound digest t input) new inputs := by
  intro pre input t u hpre hrun hu peer protocol request id response hinput hhit
  have ht : Agrees digest t := hrun.invariant agrees_step agrees_new
  have hk : Known inputs t := known_run ((List.prefix_append _ _).trans hpre) hrun
  have hreq : request ∈ payloads inputs := by
    refine List.mem_filterMap.mpr ⟨input, hpre.subset (by simp), ?_⟩
    rw [hinput]
    rfl
  subst hinput
  have hfilter : (t.answers.filter fun answer => digest answer.payload = digest request) =
      t.answers.filter fun answer => answer.payload = request := by
    apply List.filter_congr
    intro answer ha
    rw [decide_eq_decide]
    exact ⟨fun h => hdigest _ (hk.answers answer ha) _ hreq h, fun h => by rw [h]⟩
  have hlast := lastResponse_of_hit ht hhit
  rw [lastResponse, hfilter] at hlast
  obtain ⟨answer, ha, rfl⟩ := Option.map_eq_some_iff.mp hlast
  have hmem := List.mem_filter.mp (List.mem_of_getLast? ha)
  obtain rfl : answer.payload = request := by simpa using hmem.2
  obtain rfl := hsame pre _ t u hpre hrun hu peer protocol _ rfl answer ha
  exact hmem.1

def syncInputs : List NetworkInput :=
  [.inboundRequest [1] "/sup/sync/2" [7] 0, .command (.sendResponse [1] 0 [9]),
    .command (.sendRequest [2] "/sup/sync/2" [7])]

theorem cache_sound_sync :
    (∀ p ∈ payloads syncInputs, ∀ q ∈ payloads syncInputs,
      defaultHasher p = defaultHasher q → p = q) ∧
    Along (Step defaultHasher) (fun t input _ => CacheSound defaultHasher t input) new
      syncInputs := by
  have hdigest : ∀ p ∈ payloads syncInputs, ∀ q ∈ payloads syncInputs,
      defaultHasher p = defaultHasher q → p = q := by decide
  refine ⟨hdigest, cache_sound defaultHasher syncInputs hdigest ?_⟩
  refine along_cons_iff.mpr ?_
  rintro _ rfl
  refine ⟨fun _ _ _ h => by simp at h, along_cons_iff.mpr ?_⟩
  rintro _ rfl
  refine ⟨fun _ _ _ h => by simp at h, along_cons_iff.mpr ?_⟩
  rintro _ rfl
  refine ⟨?_, along_nil⟩
  rintro peer protocol request h
  obtain ⟨rfl, rfl, rfl⟩ : [2] = peer ∧ "/sup/sync/2" = protocol ∧ [7] = request := by
    simpa using h
  decide +kernel

/-- A state request that is answered, and a sync request with the same payload. -/
def stateInputs : List NetworkInput :=
  [.inboundRequest [1] "/sup/state/2" [7] 0, .command (.sendResponse [1] 0 [9]),
    .command (.sendRequest [2] "/sup/sync/2" [7])]

theorem cache_unsound_state :
    (∀ p ∈ payloads stateInputs, ∀ q ∈ payloads stateInputs,
      defaultHasher p = defaultHasher q → p = q) ∧
    ¬ Along (Step defaultHasher) (fun t input _ => CacheSound defaultHasher t input) new
      stateInputs := by
  refine ⟨by decide, fun h => ?_⟩
  obtain ⟨t, hrun, hhit, hnot⟩ : ∃ t, Run (Step defaultHasher) new (stateInputs.take 2) t ∧
      .responseReceived [2] "/sup/sync/2" 1 [9] ∈
        (t.network.turn defaultHasher (.command (.sendRequest [2] "/sup/sync/2" [7]))).2.1 ∧
      ⟨"/sup/sync/2", [7], [9]⟩ ∉ t.answers := by
    refine ⟨_, .cons rfl (.cons rfl (.nil _)), ?_, ?_⟩
    · exact List.mem_singleton.mpr rfl
    · decide +kernel
  exact hnot (h _ _ t _ List.prefix_rfl hrun rfl [2] "/sup/sync/2" [7] 1 [9] rfl hhit)

end Traced

end SwarmHost.Substrate
