import Mathlib.Logic.Relation
import SwarmHost.Filter.Requests

/-! # The sinks of a filter

Handing packets to a sink may change it. Apart from registering and unregistering
peers, a filter keeps its peers, and only uses their sinks.
-/

namespace SwarmHost

variable {T : NetworkBackend}

def NetworkBackend.Uses (T : NetworkBackend) : T.PacketSink → T.PacketSink → Prop :=
  Relation.ReflTransGen fun sink sink' =>
    ∃ protocol notification, (T.sendPacket sink protocol notification).2 = sink'

namespace Filter

variable {f f' f'' : Filter T} {p q : T.PeerId}

def sink? (f : Filter T) (p : T.PeerId) : Option T.PacketSink := (f.peers.get? p).map (·.sink)

theorem isSome_sink? : (f.sink? p).isSome ↔ p ∈ f.peers := by
  rw [sink?, Option.isSome_map, Dict.mem_iff_isSome]

def Keeps (p : T.PeerId) (f f' : Filter T) : Prop := Option.Rel T.Uses (f.sink? p) (f'.sink? p)

theorem rel_uses_refl (o : Option T.PacketSink) : Option.Rel T.Uses o o := by
  cases o with
  | none => exact .none
  | some sink => exact .some .refl

theorem rel_uses_trans {a b c : Option T.PacketSink} (h : Option.Rel T.Uses a b)
    (h' : Option.Rel T.Uses b c) : Option.Rel T.Uses a c := by
  cases h with
  | none => exact h'
  | some h =>
    cases h' with
    | some h' => exact .some (h.trans h')

theorem isSome_of_rel {a b : Option T.PacketSink} (h : Option.Rel T.Uses a b) :
    a.isSome = b.isSome := by
  cases h <;> rfl

theorem Keeps.trans (h : Keeps p f f') (h' : Keeps p f' f'') : Keeps p f f'' := rel_uses_trans h h'

theorem Keeps.of_get? (h : f'.peers.get? p = f.peers.get? p) : Keeps p f f' := by
  rw [Keeps, sink?, sink?, h]
  exact rel_uses_refl _

theorem Keeps.refl (f : Filter T) : Keeps p f f := .of_get? rfl

theorem keeps_insert {info info' : PeerInfo T} (hq : f.peers.get? q = some info)
    (h : T.Uses info.sink info'.sink) : Keeps p f { f with peers := f.peers.insert q info' } := by
  simp only [Keeps, sink?, Dict.get?_insert]
  split
  · next heq =>
    subst heq
    rw [hq]
    exact .some h
  · exact rel_uses_refl _

theorem keeps_sendPacket (f : Filter T) (protocol : T.Protocol) (notification : T.Message)
    (p q : T.PeerId) : Keeps p f (f.sendPacket protocol notification q).1 := by
  unfold sendPacket
  cases hq : f.peers.get? q with
  | none => exact .refl f
  | some info => exact keeps_insert hq (.single ⟨some protocol, notification, rfl⟩)

theorem keeps_forward (f : Filter T) (protocol : T.Protocol) (notification : T.Message)
    (peers : List T.PeerId) : Keeps p f (f.forward protocol notification peers).1 := by
  induction peers generalizing f with
  | nil => exact .refl f
  | cons q peers ih => exact (keeps_sendPacket f protocol notification p q).trans (ih _)

theorem keeps_processEvent (f : Filter T) (e : ExecutorEvent T) :
    Keeps p f (f.processEvent e).2.1 := by
  cases e with
  | connect q => exact .refl f
  | forward peers protocol notification => exact keeps_forward f protocol notification peers
  | sendRequest q protocol payload =>
    simp only [processEvent]
    cases f.peers.get? q <;> exact .refl f
  | sendResponse q payload =>
    simp only [processEvent]
    cases f.pendingInbound.get? q with
    | none => exact .refl f
    | some id =>
      dsimp only
      cases f.peers.get? q <;> exact .of_get? rfl

theorem keeps_processEvents (f : Filter T) (es : List (ExecutorEvent T)) :
    Keeps p f (f.processEvents es).2.1 := by
  induction es generalizing f with
  | nil => exact .refl f
  | cons e es ih =>
    have hone : Keeps p f _ := keeps_processEvent f e
    rcases hout : f.processEvent e with ⟨_ | ⟨⟨⟩⟩, f', effects⟩
    · rw [processEvents_cons_of_error hout]
      rwa [hout] at hone
    · rw [processEvents_cons_of_ok hout]
      rw [hout] at hone
      exact hone.trans (ih f')

section Turns

theorem keeps_next_of_prepared {turn : Turn T} (h : Keeps p f (f.prepared turn)) :
    Keeps p f (f.next turn) := by
  rw [next_eq]
  exact h.trans (keeps_processEvents _ _)

def concerned : FilterInput T → Option T.PeerId
  | .command (.registerPeer p _) | .command (.unregisterPeer p) => some p
  | _ => none

theorem keeps_addProtocol (f : Filter T) (answer : ExecutorAnswer T) (q : T.PeerId)
    (protocol : T.Protocol) : Keeps p f (f.addProtocol answer q protocol).filter := by
  unfold addProtocol
  cases hq : f.peers.get? q with
  | none => exact .refl f
  | some info => exact keeps_insert hq .refl

theorem keeps_next {turn : Turn T} (h : concerned turn.input ≠ some p) :
    Keeps p f (f.next turn) := by
  apply keeps_next_of_prepared
  obtain ⟨input, answer⟩ := turn
  cases input with
  | poll => exact .refl f
  | command command =>
    cases command with
    | registerPeer q sink =>
      have hne : p ≠ q := fun heq => h (congrArg some heq.symm)
      simp only [prepared, prepare, registerPeer]
      split
      · exact .refl f
      · cases answer with
        | error => exact .refl f
        | ok events => exact .of_get? (Dict.get?_insert_ne _ hne)
    | unregisterPeer q =>
      have hne : p ≠ q := fun heq => h (congrArg some heq.symm)
      simp only [prepared, prepare, unregisterPeer]
      split
      · exact .of_get? (Dict.get?_erase_ne hne)
      · exact .refl f
    | protocolOpened q protocol | protocolClosed q protocol =>
      exact keeps_addProtocol f answer q protocol
    | injectNotification protocol q notification =>
      simp only [prepared, prepare, injectNotification, sendToAll_entries]
      split
      · exact .refl f
      · exact keeps_forward f protocol notification _
      · exact .refl f
    | _ => exact .of_get? rfl

theorem sink?_unregisterPeer (f : Filter T) (p : T.PeerId) (answer : ExecutorAnswer T) :
    (f.next ⟨.command (.unregisterPeer p), answer⟩).sink? p = none := by
  have hprepared : (f.prepared ⟨.command (.unregisterPeer p), answer⟩).sink? p = none := by
    simp only [prepared, prepare, unregisterPeer]
    split
    · simp [sink?]
    · next hp => simp [sink?, Dict.notMem_iff.mp hp]
  have hkeeps : Keeps p (f.prepared ⟨.command (.unregisterPeer p), answer⟩) _ :=
    keeps_processEvents _ (f.events ⟨.command (.unregisterPeer p), answer⟩)
  rw [← next_eq, Keeps, hprepared] at hkeeps
  cases hnext : (f.next ⟨.command (.unregisterPeer p), answer⟩).sink? p with
  | none => rfl
  | some sink =>
    rw [hnext] at hkeeps
    cases hkeeps

theorem rel_registerPeer (hp : p ∉ f.peers) (sink : T.PacketSink)
    (events : List (ExecutorEvent T)) :
    Option.Rel T.Uses (some sink)
      ((f.next ⟨.command (.registerPeer p sink), .ok events⟩).sink? p) := by
  have hprepared : (f.prepared ⟨.command (.registerPeer p sink), .ok events⟩).sink? p =
      some sink := by
    simp [prepared, prepare, registerPeer, hp, sink?]
  rw [← hprepared, next_eq]
  exact keeps_processEvents _ _

theorem keeps_registerPeer (hp : p ∈ f.peers) (sink : T.PacketSink) (answer : ExecutorAnswer T) :
    Keeps p f (f.next ⟨.command (.registerPeer p sink), answer⟩) := by
  apply keeps_next_of_prepared
  simp only [prepared, prepare, registerPeer, if_pos hp]
  exact .refl f

end Turns

end Filter

end SwarmHost
