import SwarmHost.Backend.Mockchain
import SwarmHost.Executor.Filters

/-! # Forwarding by default

A notification on a protocol without a filter is handed to all registered peers. That
is the same as if a filter had asked to forward it to each of them: the peers are
served independently of each other, in whatever order, and whether a sink refuses the
notification concerns nobody else.
-/

namespace SwarmHost

variable {T : NetworkBackend}

theorem PyO3Executor.missing_iff {answer : ExecutorAnswer T} :
    missing answer = true ↔ answer = .error (.executorError .filterDoesntExist) := by
  constructor
  · intro h
    unfold missing at h
    split at h
    · rfl
    · cases h
  · rintro rfl
    rfl

/-- Traffic without a filter is answered by the executor. -/
theorem PyO3Executor.answer_of_no_code {x : PyO3Executor T} {protocol : T.Protocol}
    {peer : T.PeerId} {notification : T.Message} {answer : ExecutorAnswer T}
    (hx : x.code .notification protocol = none)
    (h : x.permits (.injectNotification protocol peer notification) answer) :
    answer = .error (.executorError .filterDoesntExist) := by
  rw [permits, FilterCommand.injection] at h
  dsimp only at h
  rw [hx, beq_iff_eq] at h
  exact missing_iff.mp h.symm

namespace Filter

variable {f : Filter T} {protocol : T.Protocol} {notification : T.Message} {p q : T.PeerId}
  {peers peers' : List T.PeerId}

def handedTo : List (FilterEffect T) → List (T.PeerId × T.PacketSink)
  | [] => []
  | .sendPacket peer sink _ _ :: effects => (peer, sink) :: handedTo effects
  | .connect _ :: effects | .sendRequest .. :: effects | .sendResponse .. :: effects
  | .heuristics _ :: effects => handedTo effects

theorem handedTo_append (es es' : List (FilterEffect T)) :
    handedTo (es ++ es') = handedTo es ++ handedTo es' := by
  induction es with
  | nil => rfl
  | cons e es ih => cases e <;> simp [handedTo, ih]

def used (protocol : T.Protocol) (notification : T.Message) (info : PeerInfo T) : PeerInfo T :=
  { info with sink := (T.sendPacket info.sink (some protocol) notification).2 }

theorem get?_sendPacket (f : Filter T) (protocol : T.Protocol) (notification : T.Message)
    (p q : T.PeerId) : (f.sendPacket protocol notification p).1.peers.get? q =
      if q = p then (f.peers.get? p).map (used protocol notification) else f.peers.get? q := by
  unfold sendPacket
  cases hp : f.peers.get? p with
  | none =>
    dsimp only
    split
    · next h => rw [h, hp]; rfl
    · rfl
  | some info => exact Dict.get?_insert ..

theorem effects_sendPacket_congr {f' : Filter T} (hi : f'.interface = f.interface)
    (hp : f'.peers.get? p = f.peers.get? p) :
    (f'.sendPacket protocol notification p).2 = (f.sendPacket protocol notification p).2 := by
  unfold sendPacket
  rw [hp, hi]
  cases f.peers.get? p <;> rfl

theorem interface_sendPacket (f : Filter T) (protocol : T.Protocol) (notification : T.Message)
    (p : T.PeerId) : (f.sendPacket protocol notification p).1.interface = f.interface := by
  unfold sendPacket
  cases f.peers.get? p <;> rfl

theorem effects_forward_cons (f : Filter T) (protocol : T.Protocol) (notification : T.Message)
    (p : T.PeerId) (peers : List T.PeerId) :
    (f.forward protocol notification (p :: peers)).2 =
      (f.sendPacket protocol notification p).2 ++
        ((f.sendPacket protocol notification p).1.forward protocol notification peers).2 := rfl

/-- Distinct peers are served as if each were the only one. -/
theorem effects_forward (hnd : peers.Nodup) :
    (f.forward protocol notification peers).2 =
      peers.flatMap fun p => (f.sendPacket protocol notification p).2 := by
  induction peers generalizing f with
  | nil => rfl
  | cons p peers ih =>
    obtain ⟨hp, hnd⟩ := List.nodup_cons.mp hnd
    rw [effects_forward_cons, ih hnd, List.flatMap_cons]
    congr 1
    apply List.flatMap_congr
    intro q hq
    apply effects_sendPacket_congr (interface_sendPacket f protocol notification p)
    rw [get?_sendPacket, if_neg]
    rintro rfl
    exact hp hq

theorem get?_forward (hnd : peers.Nodup) (q : T.PeerId) :
    (f.forward protocol notification peers).1.peers.get? q =
      if q ∈ peers then (f.peers.get? q).map (used protocol notification)
      else f.peers.get? q := by
  induction peers generalizing f with
  | nil => rfl
  | cons p peers ih =>
    obtain ⟨hp, hnd⟩ := List.nodup_cons.mp hnd
    rw [forward, ih hnd, get?_sendPacket]
    by_cases hq : q = p
    · subst hq
      simp [hp]
    · simp [hq]

/-- The order of distinct peers makes no difference to what is done. -/
theorem effects_forward_perm (hnd : peers.Nodup) (h : peers.Perm peers') :
    (f.forward protocol notification peers).2.Perm (f.forward protocol notification peers').2 := by
  rw [effects_forward hnd, effects_forward (h.nodup_iff.mp hnd)]
  exact h.flatMap_right _

theorem handedTo_sendPacket {info : PeerInfo T} (hp : f.peers.get? p = some info) :
    handedTo (f.sendPacket protocol notification p).2 = [(p, info.sink)] := by
  unfold sendPacket
  rw [hp]
  dsimp only
  cases (T.sendPacket info.sink (some protocol) notification).1 <;> rfl

/-- Every registered peer is served, whatever the sinks answer. -/
theorem handedTo_forward_keys (f : Filter T) (protocol : T.Protocol) (notification : T.Message) :
    handedTo (f.forward protocol notification f.peers.keys).2 =
      f.peers.entries.map fun e => (e.1, e.2.sink) := by
  have hall : ∀ es : List (T.PeerId × PeerInfo T), (∀ e ∈ es, f.peers.get? e.1 = some e.2) →
      handedTo ((es.map Prod.fst).flatMap fun p => (f.sendPacket protocol notification p).2) =
        es.map fun e => (e.1, e.2.sink) := by
    intro es
    induction es with
    | nil => exact fun _ => rfl
    | cons e es ih =>
      intro hes
      rw [List.map_cons, List.flatMap_cons, handedTo_append,
        handedTo_sendPacket (hes e List.mem_cons_self),
        ih fun e' he' => hes e' (List.mem_cons_of_mem _ he')]
      rfl
  have hkeys : f.peers.keys.Nodup := f.peers.nodup
  rw [effects_forward hkeys]
  exact hall f.peers.entries fun e he => Dict.mem_entries.mp he

theorem handle_injectNotification (f : Filter T) (protocol : T.Protocol) (peer : T.PeerId)
    (notification : T.Message) :
    f.handle (.error (.executorError .filterDoesntExist))
        (.command (.injectNotification protocol peer notification)) =
      (.ok (), (f.forward protocol notification f.peers.keys).1,
        .heuristics (.messageReceived f.interface protocol peer (T.messageInfo notification)) ::
          (f.forward protocol notification f.peers.keys).2) := by
  simp [handle, prepare, injectNotification, sendToAll_entries, processEvents]

theorem processEvents_forward (f : Filter T) (peers : List T.PeerId) (protocol : T.Protocol)
    (notification : T.Message) :
    f.processEvents [.forward peers protocol notification] =
      (.ok (), f.forward protocol notification peers) := by
  simp [processEvents, processEvent]

/-- Without a filter for its protocol, a notification is treated as if a filter had asked to forward
it to every registered peer, in any order: the same sinks are called, the same is reported, and the
result is the same. Every registered peer is served, also after a sink that fails. -/
theorem injectNotification_eq_forward (f : Filter T) (x : PyO3Executor T) (protocol : T.Protocol)
    (peer : T.PeerId) (notification : T.Message) (answer : ExecutorAnswer T)
    (peers : List T.PeerId) (hx : x.code .notification protocol = none)
    (ha : x.permits (.injectNotification protocol peer notification) answer)
    (hpeers : peers.Perm f.peers.keys) :
    let default := f.handle answer (.command (.injectNotification protocol peer notification))
    let explicit := f.processEvents [.forward peers protocol notification]
    default.1 = explicit.1 ∧
    default.2.2.Perm (.heuristics
      (.messageReceived f.interface protocol peer (T.messageInfo notification)) ::
        explicit.2.2) ∧
    (∀ q, default.2.1.peers.get? q = explicit.2.1.peers.get? q) ∧
    handedTo default.2.2 = f.peers.entries.map fun e => (e.1, e.2.sink) := by
  obtain rfl := x.answer_of_no_code hx ha
  have hkeys : f.peers.keys.Nodup := f.peers.nodup
  have hnd : peers.Nodup := hpeers.nodup_iff.mpr hkeys
  rw [handle_injectNotification, processEvents_forward]
  refine ⟨rfl, (effects_forward_perm hkeys hpeers.symm).cons _, fun q => ?_, ?_⟩
  · dsimp only
    rw [get?_forward hnd, get?_forward hkeys]
    simp only [hpeers.mem_iff]
  · exact handedTo_forward_keys f protocol notification

/-- The socket of one peer is closed. -/
def hungUp : Mockchain.Environment where
  digest payload := UInt64.ofNat payload.length
  bind _ _ := .ok ()
  write sink _ := if sink.peer = 1 then .error (.io "broken pipe") else .ok ()

/-- Two registered peers, the first with a closed socket. -/
def half : Filter (mockchain hungUp) :=
  ⟨0, ((∅ : Dict Mockchain.PeerId (PeerInfo (mockchain hungUp))).insert 1 ⟨⟨0, 1⟩, ∅⟩).insert 2
    ⟨⟨0, 2⟩, ∅⟩, ∅⟩

theorem injectNotification_eq_forward_half :
    (half.handle (.error (.executorError .filterDoesntExist))
      (.command (.injectNotification .block 3 ⟨[7]⟩))).1 =
        (half.processEvents [.forward [2, 1] .block ⟨[7]⟩]).1 ∧
    handedTo (half.handle (.error (.executorError .filterDoesntExist))
      (.command (.injectNotification .block 3 ⟨[7]⟩))).2.2 =
        [((1 : Mockchain.PeerId), ⟨0, 1⟩), (2, ⟨0, 2⟩)] := by
  obtain ⟨hresult, -, -, hserved⟩ := injectNotification_eq_forward half PyO3Executor.new .block 3
    ⟨[7]⟩ (.error (.executorError .filterDoesntExist)) [2, 1] rfl rfl (by decide)
  exact ⟨hresult, hserved⟩

end Filter

end SwarmHost
