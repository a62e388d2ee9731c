import SwarmHost.Filter.Requests

/-! # The open protocols of the registered peers

A filter keeps the protocols of a peer from the registration of the peer until it is
unregistered. Opening and closing a protocol both add it; nothing else changes them.
-/

namespace SwarmHost.Filter

variable {T : NetworkBackend} {f : Filter T} {p : T.PeerId}

/-- The protocols kept for a peer, none if the peer is not registered. -/
def protocols? (f : Filter T) (p : T.PeerId) : Option (Finset T.Protocol) :=
  (f.peers.get? p).map (·.protocols)

theorem isSome_protocols? : (f.protocols? p).isSome ↔ p ∈ f.peers := by
  rw [protocols?, Option.isSome_map, Dict.mem_iff_isSome]

theorem protocols?_eq_none_iff : f.protocols? p = none ↔ p ∉ f.peers := by
  rw [← isSome_protocols?, Option.not_isSome_iff_eq_none]

def protocolsAfter (f : Filter T) (turn : Turn T) (p : T.PeerId) : Option (Finset T.Protocol) :=
  match turn.input with
  | .command (.registerPeer q _) =>
    if q = p ∧ p ∉ f.peers ∧ turn.answer.isOk then some ∅ else f.protocols? p
  | .command (.unregisterPeer q) => if q = p then none else f.protocols? p
  | .command (.protocolOpened q protocol) | .command (.protocolClosed q protocol) =>
    if q = p then (f.protocols? p).map (insert protocol) else f.protocols? p
  | _ => f.protocols? p

theorem protocols?_insert {d : Dict T.PeerId (PeerInfo T)} {q : T.PeerId} {info info' : PeerInfo T}
    (hq : d.get? q = some info) (hinfo : info'.protocols = info.protocols) :
    ((d.insert q info').get? p).map (·.protocols) = (d.get? p).map (·.protocols) := by
  rw [Dict.get?_insert]
  split
  · next hp => simp [hp, hq, hinfo]
  · rfl

theorem protocols?_sendPacket (f : Filter T) (protocol : T.Protocol) (notification : T.Message)
    (q : T.PeerId) : (f.sendPacket protocol notification q).1.protocols? p = f.protocols? p := by
  unfold sendPacket
  cases hq : f.peers.get? q with
  | none => rfl
  | some info => exact protocols?_insert hq rfl

theorem protocols?_forward (f : Filter T) (protocol : T.Protocol) (notification : T.Message)
    (peers : List T.PeerId) :
    (f.forward protocol notification peers).1.protocols? p = f.protocols? p := by
  induction peers generalizing f with
  | nil => rfl
  | cons q peers ih => exact (ih _).trans (protocols?_sendPacket f protocol notification q)

theorem protocols?_processEvent (f : Filter T) (e : ExecutorEvent T) :
    (f.processEvent e).2.1.protocols? p = f.protocols? p := by
  cases e with
  | connect => rfl
  | forward peers protocol notification => exact protocols?_forward f protocol notification peers
  | sendRequest q protocol payload =>
    simp only [processEvent]
    cases f.peers.get? q <;> rfl
  | sendResponse q payload =>
    simp only [processEvent]
    cases f.pendingInbound.get? q with
    | none => rfl
    | some id => cases f.peers.get? q <;> rfl

theorem protocols?_processEvents (f : Filter T) (es : List (ExecutorEvent T)) :
    (f.processEvents es).2.1.protocols? p = f.protocols? p := by
  induction es generalizing f with
  | nil => rfl
  | cons e es ih =>
    have hone := protocols?_processEvent (p := p) f e
    rcases hout : f.processEvent e with ⟨_ | ⟨⟨⟩⟩, f', effects⟩
    · rw [processEvents_cons_of_error hout]
      rwa [hout] at hone
    · rw [processEvents_cons_of_ok hout]
      rw [hout] at hone
      exact (ih f').trans hone

theorem protocols?_addProtocol (f : Filter T) (answer : ExecutorAnswer T) (q : T.PeerId)
    (protocol : T.Protocol) : (f.addProtocol answer q protocol).filter.protocols? p =
      if q = p then (f.protocols? p).map (insert protocol) else f.protocols? p := by
  unfold addProtocol
  cases hq : f.peers.get? q with
  | none =>
    by_cases hp : q = p
    · subst hp
      simp [protocols?, hq]
    · simp [hp]
  | some info =>
    simp only [protocols?, Dict.get?_insert]
    by_cases hp : p = q
    · subst hp
      simp [hq]
    · simp [hp, Ne.symm hp]

theorem protocols?_prepared (f : Filter T) (turn : Turn T) :
    (f.prepared turn).protocols? p = f.protocolsAfter turn p := by
  obtain ⟨input, answer⟩ := turn
  cases input with
  | poll => rfl
  | command command =>
    cases command with
    | registerPeer q sink =>
      simp only [prepared, prepare, registerPeer, protocolsAfter]
      by_cases hq : q ∈ f.peers
      · have hcond : ¬ (q = p ∧ p ∉ f.peers ∧ answer.isOk) := by
          rintro ⟨rfl, hp, -⟩
          exact hp hq
        rw [if_pos hq, if_neg hcond]
      · rw [if_neg hq]
        cases answer with
        | error error => simp [Except.isOk, Except.toBool]
        | ok events =>
          simp only [protocols?, Dict.get?_insert]
          by_cases hp : p = q
          · subst hp
            simp [hq, Except.isOk, Except.toBool]
          · simp [hp, Ne.symm hp]
    | unregisterPeer q =>
      simp only [prepared, prepare, unregisterPeer, protocolsAfter]
      by_cases hq : q ∈ f.peers
      · rw [if_pos hq]
        simp only [protocols?, Dict.get?_erase]
        by_cases hp : p = q
        · simp [hp]
        · simp [hp, Ne.symm hp]
      · rw [if_neg hq]
        split
        · next hp => exact protocols?_eq_none_iff.mpr (hp ▸ hq)
        · rfl
    | protocolOpened q protocol | protocolClosed q protocol =>
      exact protocols?_addProtocol f answer q protocol
    | injectNotification protocol q notification =>
      simp only [prepared, prepare, injectNotification, sendToAll_entries, protocolsAfter]
      split
      · rfl
      · exact protocols?_forward f protocol notification _
      · rfl
    | discoverPeer | installNotificationFilter | installRequestResponseFilter | injectRequest
    | injectResponse => rfl

theorem protocols?_next (f : Filter T) (turn : Turn T) :
    (f.next turn).protocols? p = f.protocolsAfter turn p := by
  rw [next_eq, protocols?_processEvents, protocols?_prepared]

theorem mem_prepared_iff {turn : Turn T} :
    p ∈ (f.prepared turn).peers ↔ p ∈ (f.next turn).peers := by
  rw [← isSome_protocols?, ← isSome_protocols?, protocols?_next, protocols?_prepared]

theorem mem_of_mem_next {turn : Turn T} (h : p ∈ (f.next turn).peers) :
    p ∈ f.peers ∨ ∃ sink, turn.input = .command (.registerPeer p sink) := by
  rw [← isSome_protocols?, protocols?_next, protocolsAfter] at h
  rw [← isSome_protocols?]
  split at h
  · next q sink hinput =>
    split at h
    · next hq => exact .inr ⟨sink, hq.1 ▸ hinput⟩
    · exact .inl h
  · split at h
    · cases h
    · exact .inl h
  · split at h
    · rw [Option.isSome_map] at h
      exact .inl h
    · exact .inl h
  · split at h
    · rw [Option.isSome_map] at h
      exact .inl h
    · exact .inl h
  · exact .inl h

end SwarmHost.Filter
