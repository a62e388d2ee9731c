import SwarmHost.Backend.Substrate
import SwarmHost.Python.Values

/-! # The events of a filter script

After each call a script is polled, and what it returns is converted to a list of
events. The conversion raises an error for some malformed values and panics for
others; an error in one event hides the events after it. `Converts` describes the
values that are converted without a panic by their shape alone.
-/

namespace SwarmHost

open Python PyResult

variable {env : Substrate.Environment}

namespace Substrate

/-- What the conversion of peer ids takes from the network library. -/
structure Addresses where
  Multiaddr : Type
  parse : String → Option Multiaddr
  tryFromMultiaddr : Multiaddr → Option PeerId

variable (A : Addresses)

def PeerId.fromExecutorObject (value : PyValue) : PyResult PeerId := do
  let text ← unwrap value.extractString?
  let multiaddr ← unwrap (A.parse ("/p2p/" ++ text))
  unwrap (A.tryFromMultiaddr multiaddr)

def Message.fromExecutorObject (value : PyValue) : PyResult Message := do
  let payload ← unwrap value.extractVecU8?
  return ⟨payload⟩

def ProtocolName.fromExecutorObject (value : PyValue) : PyResult ProtocolName := do
  let text ← unwrap value.downcastStr?
  unwrap (PyValue.toStr? text)

end Substrate

open Substrate

namespace ExecutorEvents

section Extract

variable (A : Addresses)

def extractForward (info : PyDict) : PyResult (ExecutorEvent (substrate env)) := do
  let notification ← Message.fromExecutorObject (← unwrap (info.getItem? "notification"))
  let peers ← unwrap (info.getItem? "peers")
  let peers ← okOr peers.downcastList? (.downcast peers "PyList")
  let peers ← peers.mapM (PeerId.fromExecutorObject A)
  let protocol ← ProtocolName.fromExecutorObject (← unwrap (info.getItem? "protocol"))
  return .forward peers protocol notification

def extractSendRequest (info : PyDict) : PyResult (ExecutorEvent (substrate env)) := do
  let request ← unwrap (info.getItem? "request")
  let payload ← okOr request.extractVecU8? (.extract request "Vec<u8>")
  let peer ← PeerId.fromExecutorObject A (← unwrap (info.getItem? "peer"))
  let protocol ← ProtocolName.fromExecutorObject (← unwrap (info.getItem? "protocol"))
  return .sendRequest peer protocol payload

def extractSendResponse (info : PyDict) : PyResult (ExecutorEvent (substrate env)) := do
  let response ← unwrap (info.getItem? "response")
  let payload ← okOr response.extractVecU8? (.extract response "Vec<u8>")
  let peer ← PeerId.fromExecutorObject A (← unwrap (info.getItem? "peer"))
  return .sendResponse peer payload

/-- The event of one dictionary, named by the first of the four keys it has. -/
def extractEvent (dict : PyDict) : PyResult (Option (ExecutorEvent (substrate env))) := do
  if let some peer := dict.getItem? "Connect" then
    return some (.connect (← PeerId.fromExecutorObject A peer))
  else if let some info := dict.getItem? "Forward" then
    return some (← extractForward A (← okOr info.downcastDict? (.downcast info "PyDict")))
  else if let some info := dict.getItem? "SendRequest" then
    return some (← extractSendRequest A (← okOr info.downcastDict? (.downcast info "PyDict")))
  else if let some info := dict.getItem? "SendResponse" then
    return some (← extractSendResponse A (← okOr info.downcastDict? (.downcast info "PyDict")))
  else
    return none

def extractItems : List PyValue → PyResult (List (ExecutorEvent (substrate env)))
  | [] => return []
  | item :: items => do
    let dict ← okOr item.downcastDict? (.downcast item "PyDict")
    let event ← extractEvent A dict
    let events ← extractItems items
    return event.toList ++ events

def extract : PyValue → PyResult (List (ExecutorEvent (substrate env)))
  | .pyNone => return []
  | object => do extractItems A (← unwrap object.downcastList?)

end Extract

section Shapes

variable (A : Addresses)

def IsPeer (value : PyValue) : Prop :=
  ∃ text, value.extractString? = some text ∧
    ∃ multiaddr, A.parse ("/p2p/" ++ text) = some multiaddr ∧
      ∃ peer, A.tryFromMultiaddr multiaddr = some peer

def IsBytes (value : PyValue) : Prop := ∃ data, value.extractVecU8? = some data

def IsText (value : PyValue) : Prop := ∃ text, value.extractString? = some text

/-- A dictionary has the field, and it is as required. -/
def Has (info : PyDict) (key : String) (P : PyValue → Prop) : Prop :=
  ∃ value, info.getItem? key = some value ∧ P value

/-- A `Forward` has a payload and peers; if the peers are a list then they are peer ids, and it
names a protocol. -/
def FitsForward (info : PyDict) : Prop :=
  Has info "notification" IsBytes ∧ Has info "peers" fun peers =>
    ∀ items, peers.downcastList? = some items →
      (∀ peer ∈ items, IsPeer A peer) ∧ Has info "protocol" IsText

/-- A `SendRequest` has a request; if it is a payload then the event names a peer id and a
protocol. -/
def FitsSendRequest (info : PyDict) : Prop :=
  Has info "request" fun request =>
    IsBytes request → Has info "peer" (IsPeer A) ∧ Has info "protocol" IsText

def FitsSendResponse (info : PyDict) : Prop :=
  Has info "response" fun response => IsBytes response → Has info "peer" (IsPeer A)

/-- The event of a dictionary is complete up to the point where it is rejected. -/
def Fits (dict : PyDict) : Prop :=
  match dict.getItem? "Connect", dict.getItem? "Forward", dict.getItem? "SendRequest",
    dict.getItem? "SendResponse" with
  | some peer, _, _, _ => IsPeer A peer
  | none, some info, _, _ => ∀ fields, info.downcastDict? = some fields → FitsForward A fields
  | none, none, some info, _ =>
    ∀ fields, info.downcastDict? = some fields → FitsSendRequest A fields
  | none, none, none, some info =>
    ∀ fields, info.downcastDict? = some fields → FitsSendResponse A fields
  | none, none, none, none => True

/-- The event of a dictionary is rejected: its fields are no dictionary, its peers are no list or
its payload is no sequence of bytes. -/
def Rejected (dict : PyDict) : Prop :=
  match dict.getItem? "Connect", dict.getItem? "Forward", dict.getItem? "SendRequest",
    dict.getItem? "SendResponse" with
  | some _, _, _, _ => False
  | none, some info, _, _ => ∀ fields, info.downcastDict? = some fields →
    Has fields "peers" fun peers => peers.downcastList? = none
  | none, none, some info, _ => ∀ fields, info.downcastDict? = some fields →
    Has fields "request" fun request => ¬ IsBytes request
  | none, none, none, some info => ∀ fields, info.downcastDict? = some fields →
    Has fields "response" fun response => ¬ IsBytes response
  | none, none, none, none => False

/-- Every item is complete, up to the first that is rejected. -/
def FitsItems : List PyValue → Prop
  | [] => True
  | item :: items => ∀ dict, item.downcastDict? = some dict →
    Fits A dict ∧ (Rejected dict ∨ FitsItems items)

/-- The value is `None` or a list whose items are complete, up to the first that is rejected. -/
def Converts : PyValue → Prop
  | .pyNone => True
  | .list items => FitsItems A items
  | _ => False

end Shapes

variable {A : Addresses}

section Safety

variable {dict info : PyDict} {value : PyValue} {items : List PyValue}

def peerId? (A : Addresses) (value : PyValue) : Option PeerId :=
  value.extractString?.bind fun text =>
    (A.parse ("/p2p/" ++ text)).bind A.tryFromMultiaddr

theorem peerId_eq_unwrap : PeerId.fromExecutorObject A value = unwrap (peerId? A value) := by
  simp only [PeerId.fromExecutorObject, unwrap_bind]
  rfl

theorem isPeer_iff : IsPeer A value ↔ ∃ peer, peerId? A value = some peer := by
  simp only [IsPeer, peerId?, Option.bind_eq_some_iff]
  constructor
  · rintro ⟨text, htext, multiaddr, hparse, peer, hpeer⟩
    exact ⟨peer, text, htext, multiaddr, hparse, hpeer⟩
  · rintro ⟨peer, text, htext, multiaddr, hparse, hpeer⟩
    exact ⟨text, htext, multiaddr, hparse, peer, hpeer⟩

theorem mapM_peerId :
    items.mapM (PeerId.fromExecutorObject A) = unwrap (items.mapM (peerId? A)) := by
  rw [← mapM_unwrap]
  congr 1
  funext value
  exact peerId_eq_unwrap

theorem mapM_peerId?_isSome :
    (∃ peers, items.mapM (peerId? A) = some peers) ↔ ∀ peer ∈ items, IsPeer A peer := by
  induction items with
  | nil => simp
  | cons item items ih =>
    rw [List.forall_mem_cons, ← ih, isPeer_iff]
    cases hitem : peerId? A item <;> cases hitems : items.mapM (peerId? A) <;>
      simp [List.mapM_cons, hitem, hitems]

theorem protocolName_eq_unwrap :
    ProtocolName.fromExecutorObject value = unwrap value.extractString? := by
  cases value <;> rfl

theorem safe_forward : (extractForward A info : PyResult (ExecutorEvent (substrate env))).Safe ↔
    FitsForward A info := by
  simp only [extractForward, FitsForward, Has, Message.fromExecutorObject, IsBytes, IsText,
    mapM_peerId, protocolName_eq_unwrap, ← mapM_peerId?_isSome, bind_pure_comp, bind_map_left,
    safe_unwrap_bind, safe_okOr_bind, safe_map, safe_unwrap]
  constructor
  · rintro ⟨n, hn, data, hdata, peers, hpeers, h⟩
    refine ⟨⟨n, hn, data, hdata⟩, peers, hpeers, fun items hitems => ?_⟩
    obtain ⟨ids, hids, protocol, hprotocol, text, htext⟩ := h items hitems
    exact ⟨⟨ids, hids⟩, protocol, hprotocol, text, htext⟩
  · rintro ⟨⟨n, hn, data, hdata⟩, peers, hpeers, h⟩
    refine ⟨n, hn, data, hdata, peers, hpeers, fun items hitems => ?_⟩
    obtain ⟨⟨ids, hids⟩, protocol, hprotocol, text, htext⟩ := h items hitems
    exact ⟨ids, hids, protocol, hprotocol, text, htext⟩

theorem safe_sendRequest :
    (extractSendRequest A info : PyResult (ExecutorEvent (substrate env))).Safe ↔
      FitsSendRequest A info := by
  simp only [extractSendRequest, FitsSendRequest, Has, IsBytes, IsText, peerId_eq_unwrap,
    protocolName_eq_unwrap, isPeer_iff, bind_pure_comp, safe_unwrap_bind, safe_okOr_bind, safe_map,
    safe_unwrap]
  constructor
  · rintro ⟨request, hrequest, h⟩
    refine ⟨request, hrequest, ?_⟩
    rintro ⟨data, hdata⟩
    obtain ⟨peer, hpeer, id, hid, protocol, hprotocol, text, htext⟩ := h data hdata
    exact ⟨⟨peer, hpeer, id, hid⟩, protocol, hprotocol, text, htext⟩
  · rintro ⟨request, hrequest, h⟩
    refine ⟨request, hrequest, fun data hdata => ?_⟩
    obtain ⟨⟨peer, hpeer, id, hid⟩, protocol, hprotocol, text, htext⟩ := h ⟨data, hdata⟩
    exact ⟨peer, hpeer, id, hid, protocol, hprotocol, text, htext⟩

theorem safe_sendResponse :
    (extractSendResponse A info : PyResult (ExecutorEvent (substrate env))).Safe ↔
      FitsSendResponse A info := by
  simp only [extractSendResponse, FitsSendResponse, Has, IsBytes, peerId_eq_unwrap, isPeer_iff,
    bind_pure_comp, safe_unwrap_bind, safe_okOr_bind, safe_map, safe_unwrap, forall_exists_index]

theorem raises_forward (h : FitsForward A info) :
    (extractForward A info : PyResult (ExecutorEvent (substrate env))).Raises ↔
      Has info "peers" fun peers => peers.downcastList? = none := by
  simp only [extractForward, Has, Message.fromExecutorObject, mapM_peerId, protocolName_eq_unwrap,
    bind_pure_comp, bind_map_left, raises_unwrap_bind, raises_okOr_bind, raises_map,
    not_raises_unwrap, and_false, exists_false, imp_false]
  obtain ⟨⟨n, hn, data, hdata⟩, -⟩ := h
  constructor
  · rintro ⟨_, _, _, _, peers, hpeers, hnone⟩
    exact ⟨peers, hpeers, Option.eq_none_iff_forall_ne_some.mpr hnone⟩
  · rintro ⟨peers, hpeers, hnone⟩
    exact ⟨n, hn, data, hdata, peers, hpeers, Option.eq_none_iff_forall_ne_some.mp hnone⟩

theorem raises_sendRequest :
    (extractSendRequest A info : PyResult (ExecutorEvent (substrate env))).Raises ↔
      Has info "request" fun request => ¬ IsBytes request := by
  simp only [extractSendRequest, Has, IsBytes, peerId_eq_unwrap, protocolName_eq_unwrap,
    bind_pure_comp, raises_unwrap_bind, raises_okOr_bind, raises_map, not_raises_unwrap, and_false,
    exists_false, imp_false, not_exists]

theorem raises_sendResponse :
    (extractSendResponse A info : PyResult (ExecutorEvent (substrate env))).Raises ↔
      Has info "response" fun response => ¬ IsBytes response := by
  simp only [extractSendResponse, Has, IsBytes, peerId_eq_unwrap, bind_pure_comp,
    raises_unwrap_bind, raises_okOr_bind, raises_map, not_raises_unwrap, and_false, exists_false,
    imp_false, not_exists]

theorem safe_event :
    (extractEvent A dict : PyResult (Option (ExecutorEvent (substrate env)))).Safe ↔
      Fits A dict := by
  unfold extractEvent Fits
  cases dict.getItem? "Connect" with
  | some peer => simp [peerId_eq_unwrap, isPeer_iff]
  | none =>
    cases dict.getItem? "Forward" with
    | some info => simp [safe_forward]
    | none =>
      cases dict.getItem? "SendRequest" with
      | some info => simp [safe_sendRequest]
      | none =>
        cases dict.getItem? "SendResponse" with
        | some info => simp [safe_sendResponse]
        | none => simp

theorem raises_event (h : Fits A dict) :
    (extractEvent A dict : PyResult (Option (ExecutorEvent (substrate env)))).Raises ↔
      Rejected dict := by
  unfold extractEvent Rejected
  unfold Fits at h
  cases hconnect : dict.getItem? "Connect" with
  | some peer => simp [peerId_eq_unwrap]
  | none =>
    cases hforward : dict.getItem? "Forward" with
    | some info =>
      simp only [hconnect, hforward] at h
      simp only [bind_pure_comp, raises_okOr_bind, raises_map]
      exact forall₂_congr fun fields hfields => raises_forward (h fields hfields)
    | none =>
      cases dict.getItem? "SendRequest" with
      | some info => simp [raises_sendRequest]
      | none =>
        cases dict.getItem? "SendResponse" with
        | some info => simp [raises_sendResponse]
        | none => simp

theorem safe_items :
    (extractItems A items : PyResult (List (ExecutorEvent (substrate env)))).Safe ↔
      FitsItems A items := by
  induction items with
  | nil => simp [extractItems, FitsItems]
  | cons item items ih =>
    simp only [extractItems, FitsItems, safe_okOr_bind, safe_bind (x := extractEvent A _),
      safe_event]
    refine forall₂_congr fun dict _ => and_congr_right fun hfits => ?_
    let event : PyResult (Option (ExecutorEvent (substrate env))) := extractEvent A dict
    have hsafe : event.Safe := safe_event.mpr hfits
    have hrejected : event.Raises ↔ Rejected dict := raises_event hfits
    simp only [← hrejected, bind_pure_comp, safe_map, ih]
    constructor
    · intro h
      by_cases hraises : event.Raises
      · exact .inl hraises
      · obtain ⟨event, hevent⟩ := hsafe.not_raises_iff.mp hraises
        exact .inr (h event hevent)
    · rintro (hraises | h) event hevent
      · exact absurd hraises (hsafe.not_raises_iff.mpr ⟨event, hevent⟩)
      · exact h

/-- What a script returned is converted without a panic exactly if it has the shape. -/
theorem safe_extract_iff :
    (extract A value : PyResult (List (ExecutorEvent (substrate env)))).Safe ↔
      Converts A value := by
  cases value with
  | pyNone => exact ⟨fun _ => trivial, fun _ => safe_pure⟩
  | list items =>
    change (unwrap (some items) >>= fun items => extractItems A items).Safe ↔ _
    rw [unwrap_some_bind, safe_items]
    rfl
  | _ =>
    simp only [extract, PyValue.downcastList?, unwrap_none_bind, safe_unwrap, Converts]
    simp

end Safety

end ExecutorEvents

end SwarmHost
