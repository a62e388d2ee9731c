import SwarmHost.Overseer.Broadcast
import SwarmHost.Overseer.Queues
import SwarmHost.Runs.Unwinding

/-! # Interfaces without links do not influence each other

A call reads and writes one interface, except for a notification, which reaches the
component of the interface that received it. A set of interfaces that no link leaves is
therefore unaffected by what happens at the others.
-/

namespace SwarmHost

variable {T : NetworkBackend}

def Call.interfaces : Call T → List T.InterfaceId
  | .createInterface .. => []
  | .linkInterfaces first second | .unlinkInterfaces first second => [first, second]
  | .installNotificationFilter i .. | .installRequestResponseFilter i .. | .connectToPeer i _ => [i]
  | .interfaceEvent event =>
    match event with
    | .peerConnected i .. | .peerDisconnected i _ | .messageReceived i .. | .requestReceived i ..
    | .responseReceived i .. | .connectionUpgraded i .. => [i]
    | .peerDiscovered _ => []

def Call.single? : Call T → Option T.InterfaceId
  | .installNotificationFilter i .. | .installRequestResponseFilter i .. | .connectToPeer i _ =>
    some i
  | .interfaceEvent event =>
    match event with
    | .peerConnected i .. | .peerDisconnected i _ | .requestReceived i .. | .responseReceived i ..
    | .connectionUpgraded i .. => some i
    | .messageReceived .. | .peerDiscovered _ => none
  | .createInterface .. | .linkInterfaces .. | .unlinkInterfaces .. => none

namespace Overseer

section Definitions

variable (S : Finset T.InterfaceId)

def Concerns (call : Call T) : Prop := ∃ i ∈ call.interfaces, i ∈ S

instance : DecidablePred (Concerns (T := T) S) :=
  fun call => inferInstanceAs (Decidable (∃ i ∈ call.interfaces, i ∈ S))

/-- No interface is created, unlinked or told of a discovered peer, and no interface of the set is
linked with one that is not in it. -/
def Permits (s : Overseer T) : Call T → Prop
  | .createInterface .. | .unlinkInterfaces .. | .interfaceEvent (.peerDiscovered _) => False
  | .linkInterfaces first second =>
    first ∈ s.interfaces → second ∈ s.interfaces → (first ∈ S ↔ second ∈ S)
  | _ => True

/-- No edge of the graph leaves the set. -/
def Separate (s : Overseer T) : Prop :=
  ∀ i j n m, s.index? i = some n → s.index? j = some m → s.links.Adj n m → (i ∈ S ↔ j ∈ S)

end Definitions

variable {E : Executor T} {s s' t t' : Overseer T} {i j : T.InterfaceId} {r r' : Except Error Unit}

section Methods

/-- A method touches one interface and neither the graph nor the peer ids. -/
structure Touches (j : T.InterfaceId) (s s' : Overseer T) : Prop where
  others : ∀ i, i ≠ j → s'.interfaces.get? i = s.interfaces.get? i
  peerIds : s'.interfacePeerIds = s.interfacePeerIds

theorem Touches.refl (j : T.InterfaceId) (s : Overseer T) : Touches j s s :=
  ⟨fun _ _ => rfl, rfl⟩

/-- In both states a method answers the same and leaves the same of an interface. -/
def Matches (j : T.InterfaceId) (out out' : Except Error Unit × Overseer T) : Prop :=
  out.1 = out'.1 ∧ out.2.interfaces.get? j = out'.2.interfaces.get? j

theorem touches_send (s : Overseer T) (j : T.InterfaceId) (c : FilterCommand T) :
    Touches j s (s.send j c) :=
  ⟨fun i hi => by rw [get?_send, if_neg hi], rfl⟩

theorem touches_sendChecked (s : Overseer T) (j : T.InterfaceId) (c : FilterCommand T) :
    Touches j s (s.sendChecked j c).2 := by
  unfold sendChecked
  split
  · exact touches_send s j c
  · exact .refl j s

theorem matches_sendChecked (hj : s.interfaces.get? j = t.interfaces.get? j)
    (c : FilterCommand T) : Matches j (s.sendChecked j c) (t.sendChecked j c) := by
  have hmem : j ∈ s.interfaces ↔ j ∈ t.interfaces := by
    rw [Dict.mem_iff_isSome, Dict.mem_iff_isSome, hj]
  unfold sendChecked
  by_cases h : j ∈ t.interfaces
  · rw [if_pos (hmem.mpr h), if_pos h]
    exact ⟨rfl, by rw [get?_send, get?_send, hj]⟩
  · rw [if_neg (mt hmem.mp h), if_neg h]
    exact ⟨rfl, hj⟩

theorem touches_registerPeer (s : Overseer T) (j : T.InterfaceId) (peer : T.PeerId)
    (protocols : List T.Protocol) (sink : T.PacketSink) :
    Touches j s (s.registerPeer j peer protocols sink).2 := by
  unfold registerPeer
  split
  · exact .refl j s
  · cases s.interfaces.get? j with
    | none => exact .refl j s
    | some info => exact ⟨fun i hi => Dict.get?_insert_ne _ hi, rfl⟩

theorem matches_registerPeer (hids : s.interfacePeerIds = t.interfacePeerIds)
    (hj : s.interfaces.get? j = t.interfaces.get? j) (peer : T.PeerId)
    (protocols : List T.Protocol) (sink : T.PacketSink) :
    Matches j (s.registerPeer j peer protocols sink) (t.registerPeer j peer protocols sink) := by
  unfold registerPeer
  rw [hids, hj]
  split
  · exact ⟨rfl, hj⟩
  · cases h : t.interfaces.get? j with
    | none => exact ⟨rfl, hj⟩
    | some info => exact ⟨rfl, by simp⟩

theorem touches_unregisterPeer (s : Overseer T) (j : T.InterfaceId) (peer : T.PeerId) :
    Touches j s (s.unregisterPeer j peer).2 := by
  unfold unregisterPeer
  split
  · exact .refl j s
  · cases s.interfaces.get? j with
    | none => exact .refl j s
    | some info =>
      dsimp only
      split
      · exact ⟨fun i hi => Dict.get?_insert_ne _ hi, rfl⟩
      · exact .refl j s

theorem matches_unregisterPeer (hids : s.interfacePeerIds = t.interfacePeerIds)
    (hj : s.interfaces.get? j = t.interfaces.get? j) (peer : T.PeerId) :
    Matches j (s.unregisterPeer j peer) (t.unregisterPeer j peer) := by
  unfold unregisterPeer
  rw [hids, hj]
  split
  · exact ⟨rfl, hj⟩
  · cases h : t.interfaces.get? j with
    | none => exact ⟨rfl, hj⟩
    | some info =>
      dsimp only
      split
      · exact ⟨rfl, by simp⟩
      · exact ⟨rfl, hj⟩

theorem touches_connectToPeer (s : Overseer T) (j : T.InterfaceId) (peer : T.PeerId) :
    Touches j s (s.connectToPeer j peer).2 := by
  unfold connectToPeer
  cases s.interfaces.get? j with
  | none => exact .refl j s
  | some info => exact ⟨fun i hi => Dict.get?_insert_ne _ hi, rfl⟩

theorem matches_connectToPeer (hj : s.interfaces.get? j = t.interfaces.get? j)
    (peer : T.PeerId) : Matches j (s.connectToPeer j peer) (t.connectToPeer j peer) := by
  unfold connectToPeer
  rw [hj]
  cases h : t.interfaces.get? j with
  | none => exact ⟨rfl, hj⟩
  | some info => exact ⟨rfl, by simp⟩

theorem get?_upgradeProtocols (s : Overseer T) (j : T.InterfaceId)
    (command : T.Protocol → FilterCommand T) (event : T.Protocol → HeuristicsEvent T)
    (protocols : List T.Protocol) (i : T.InterfaceId) :
    (s.upgradeProtocols j command event protocols).interfaces.get? i =
      if i = j then (s.interfaces.get? i).map fun info =>
        protocols.foldl (fun info protocol => info.send (command protocol)) info
      else s.interfaces.get? i := by
  unfold upgradeProtocols
  induction protocols generalizing s with
  | nil => simp
  | cons protocol protocols ih =>
    rw [List.foldl_cons, ih]
    dsimp only
    rw [get?_send]
    split
    · rw [Option.map_map]
      rfl
    · rfl

theorem touches_applyConnectionUpgrade {peer : T.PeerId} {upgrade : ConnectionUpgrade T}
    (h : s.applyConnectionUpgrade j peer upgrade = some (r, s')) : Touches j s s' := by
  have hupgrade : ∀ (command : T.Protocol → FilterCommand T)
      (event : T.Protocol → HeuristicsEvent T) (protocols : List T.Protocol),
      Touches j s (s.upgradeProtocols j command event protocols) := by
    intro command event protocols
    refine ⟨fun i hi => by rw [get?_upgradeProtocols, if_neg hi], ?_⟩
    exact List.foldlRecOn (motive := fun t : Overseer T => t.interfacePeerIds = _) protocols _ rfl
      fun _ ht _ _ => ht
  obtain ⟨-, h⟩ := Option.ite_none_right_eq_some.mp h
  cases upgrade with
  | protocolOpened | protocolClosed =>
    obtain rfl := snd_eq_of_some h
    exact hupgrade _ _ _

theorem matches_applyConnectionUpgrade {peer : T.PeerId} {upgrade : ConnectionUpgrade T}
    (hj : s.interfaces.get? j = t.interfaces.get? j)
    (hs : s.applyConnectionUpgrade j peer upgrade = some (r, s'))
    (ht : t.applyConnectionUpgrade j peer upgrade = some (r', t')) :
    Matches j (r, s') (r', t') := by
  obtain ⟨-, hs⟩ := Option.ite_none_right_eq_some.mp hs
  obtain ⟨-, ht⟩ := Option.ite_none_right_eq_some.mp ht
  cases upgrade with
  | protocolOpened | protocolClosed =>
    obtain ⟨rfl, rfl⟩ := Prod.mk.inj (Option.some.inj hs)
    obtain ⟨rfl, rfl⟩ := Prod.mk.inj (Option.some.inj ht)
    exact ⟨rfl, by rw [get?_upgradeProtocols, get?_upgradeProtocols, hj]⟩

variable {call : Call T}

theorem touches_handle (hcall : call.single? = some j) (h : s.handle E call = some (r, s')) :
    Touches j s s' := by
  cases call with
  | createInterface | linkInterfaces | unlinkInterfaces => cases hcall
  | installNotificationFilter | installRequestResponseFilter =>
    obtain rfl := Option.some.inj hcall
    obtain rfl := snd_eq_of_some h
    exact touches_sendChecked s _ _
  | connectToPeer =>
    obtain rfl := Option.some.inj hcall
    obtain rfl := snd_eq_of_some h
    exact touches_connectToPeer s _ _
  | interfaceEvent event =>
    cases event with
    | messageReceived | peerDiscovered => cases hcall
    | peerConnected =>
      obtain rfl := Option.some.inj hcall
      obtain rfl := snd_eq_of_some h
      exact touches_registerPeer s _ _ _ _
    | peerDisconnected =>
      obtain rfl := Option.some.inj hcall
      obtain rfl := snd_eq_of_some h
      exact touches_unregisterPeer s _ _
    | requestReceived | responseReceived =>
      obtain rfl := Option.some.inj hcall
      obtain rfl := snd_eq_of_some h
      exact touches_sendChecked s _ _
    | connectionUpgraded =>
      obtain rfl := Option.some.inj hcall
      exact touches_applyConnectionUpgrade h

theorem matches_handle (hcall : call.single? = some j)
    (hids : s.interfacePeerIds = t.interfacePeerIds)
    (hj : s.interfaces.get? j = t.interfaces.get? j) (hs : s.handle E call = some (r, s'))
    (ht : t.handle E call = some (r', t')) : Matches j (r, s') (r', t') := by
  cases call with
  | createInterface | linkInterfaces | unlinkInterfaces => cases hcall
  | installNotificationFilter | installRequestResponseFilter =>
    obtain rfl := Option.some.inj hcall
    rw [← Option.some.inj hs, ← Option.some.inj ht]
    exact matches_sendChecked hj _
  | connectToPeer =>
    obtain rfl := Option.some.inj hcall
    rw [← Option.some.inj hs, ← Option.some.inj ht]
    exact matches_connectToPeer hj _
  | interfaceEvent event =>
    cases event with
    | messageReceived | peerDiscovered => cases hcall
    | peerConnected =>
      obtain rfl := Option.some.inj hcall
      rw [← Option.some.inj hs, ← Option.some.inj ht]
      exact matches_registerPeer hids hj _ _ _
    | peerDisconnected =>
      obtain rfl := Option.some.inj hcall
      rw [← Option.some.inj hs, ← Option.some.inj ht]
      exact matches_unregisterPeer hids hj _
    | requestReceived | responseReceived =>
      obtain rfl := Option.some.inj hcall
      rw [← Option.some.inj hs, ← Option.some.inj ht]
      exact matches_sendChecked hj _
    | connectionUpgraded =>
      obtain rfl := Option.some.inj hcall
      exact matches_applyConnectionUpgrade hj hs ht

end Methods

section Notifications

variable {peer : T.PeerId} {protocol : T.Protocol} {notification : T.Message}

/-- What a notification does, if the nodes of the graph are in order. -/
structure Spreads (s : Overseer T) (j : T.InterfaceId) (c : FilterCommand T) (r : Except Error Unit)
    (s' : Overseer T) : Prop where
  result : r = if j ∈ s.interfaces then .ok () else .error .interfaceDoesntExist
  inside : ∀ i, s.SameComponent j i → s'.interfaces.get? i = (s.interfaces.get? i).map (·.send c)
  outside : ∀ i, ¬ s.SameComponent j i → s'.interfaces.get? i = s.interfaces.get? i
  peerIds : s'.interfacePeerIds = s.interfacePeerIds

theorem WellFormed.spreads (h : WellFormed s)
    (hs : s.injectNotification j peer protocol notification = some (r, s')) :
    Spreads s j (.injectNotification protocol peer notification) r s' := by
  unfold injectNotification at hs
  cases hj : s.interfaces.get? j with
  | none =>
    rw [hj] at hs
    obtain ⟨rfl, rfl⟩ := Prod.mk.inj (Option.some.inj hs)
    have hnot : ∀ i, ¬ s.SameComponent j i := by
      rintro i ⟨n, m, hn, -⟩
      rw [index?, hj] at hn
      cases hn
    refine ⟨?_, fun i hi => absurd hi (hnot i), fun _ _ => rfl, rfl⟩
    rw [if_neg (Dict.notMem_iff.mpr hj)]
  | some info =>
    have hn : s.index? j = some info.index := index?_eq_some_iff.mpr ⟨info, hj, rfl⟩
    obtain ⟨ids, hids, hnd, hmem⟩ := h.linkedInterfaces_spec hn
    have hex : ∀ i ∈ ids, i ∈ s.interfaces := by
      intro i hi
      obtain ⟨_, m, _, him, _⟩ := (hmem i).mp hi
      exact index?_isSome_iff.mp (by simp [him])
    obtain ⟨t, ht, heq, hget⟩ :=
      sendAll_spec (.injectNotification protocol peer notification) hnd hex
    rw [hj] at hs
    simp only [hids, ht, bind, Option.bind_some, pure, Option.some.injEq, Prod.mk.injEq] at hs
    obtain ⟨rfl, rfl⟩ := hs
    refine ⟨?_, fun i hi => ?_, fun i hi => ?_, ?_⟩
    · rw [if_pos (Dict.mem_of_get? hj)]
    · rw [hget, if_pos ((hmem i).mpr hi)]
    · rw [hget, if_neg (mt (hmem i).mp hi)]
    · rw [heq]

end Notifications

section Links

structure Joins (s : Overseer T) (a b : T.InterfaceId) (r : Except Error Unit) (s' : Overseer T) :
    Prop where
  result : r =
    if a ∈ s.interfaces ∧ b ∈ s.interfaces then .ok () else .error .interfaceDoesntExist
  interfaces : s'.interfaces = s.interfaces
  peerIds : s'.interfacePeerIds = s.interfacePeerIds
  adj : ∀ n m, s'.links.Adj n m ↔ s.links.Adj n m ∨
    (s.index? a = some n ∧ s.index? b = some m) ∨ (s.index? a = some m ∧ s.index? b = some n)

theorem joins_linkInterfaces {a b : T.InterfaceId} (h : s.linkInterfaces a b = some (r, s')) :
    Joins s a b r s' := by
  unfold linkInterfaces at h
  cases ha : s.interfaces.get? a with
  | none =>
    rw [ha] at h
    obtain ⟨rfl, rfl⟩ := Prod.mk.inj (Option.some.inj h)
    have hmem : a ∉ s.interfaces := Dict.notMem_iff.mpr ha
    exact ⟨by simp [hmem], rfl, rfl, fun n m => by simp [index?, ha]⟩
  | some infoa =>
    cases hb : s.interfaces.get? b with
    | none =>
      rw [ha, hb] at h
      obtain ⟨rfl, rfl⟩ := Prod.mk.inj (Option.some.inj h)
      have hmem : b ∉ s.interfaces := Dict.notMem_iff.mpr hb
      exact ⟨by simp [hmem], rfl, rfl, fun n m => by simp [index?, hb]⟩
    | some infob =>
      rw [ha, hb] at h
      obtain ⟨⟨links, edge⟩, hedge, heq⟩ := Option.map_eq_some_iff.mp h
      obtain ⟨rfl, rfl⟩ := Prod.mk.inj heq
      obtain ⟨-, hedges, -⟩ := Multigraph.addEdge_eq_some hedge
      refine ⟨?_, rfl, rfl, fun n m => ?_⟩
      · rw [if_pos ⟨Dict.mem_of_get? ha, Dict.mem_of_get? hb⟩]
      · simp only [Multigraph.Adj, hedges, index?, ha, hb, List.mem_append, List.mem_singleton,
          Prod.mk.injEq, Option.map_some, Option.some.injEq, eq_comm]
        tauto

end Links

section Views

variable {S : Finset T.InterfaceId} {s₀ : Overseer T} {call : Call T}

/-- What stays along the runs that are compared. -/
structure Sound (S : Finset T.InterfaceId) (s₀ s : Overseer T) : Prop where
  wellFormed : s.WellFormed
  index : ∀ i, s.index? i = s₀.index? i
  peerIds : s.interfacePeerIds = s₀.interfacePeerIds
  separate : s.Separate S

structure Alike (S : Finset T.InterfaceId) (s₀ s t : Overseer T) : Prop where
  left : Sound S s₀ s
  right : Sound S s₀ t
  info : ∀ i ∈ S, s.interfaces.get? i = t.interfaces.get? i
  adj : ∀ i ∈ S, ∀ j ∈ S, ∀ n m, s₀.index? i = some n → s₀.index? j = some m →
    (s.links.Adj n m ↔ t.links.Adj n m)

theorem Alike.symm (h : Alike S s₀ s t) : Alike S s₀ t s where
  left := h.right
  right := h.left
  info i hi := (h.info i hi).symm
  adj i hi j hj n m hn hm := (h.adj i hi j hj n m hn hm).symm

theorem permits_cases (h : s₀.Permits S call) :
    (∃ a b, call = .linkInterfaces a b) ∨
    (∃ j peer protocol message, call = .interfaceEvent (.messageReceived j peer protocol message)) ∨
    ∃ j, call.single? = some j ∧ call.interfaces = [j] := by
  cases call with
  | createInterface | unlinkInterfaces => exact h.elim
  | linkInterfaces a b => exact .inl ⟨a, b, rfl⟩
  | installNotificationFilter | installRequestResponseFilter | connectToPeer =>
    exact .inr (.inr ⟨_, rfl, rfl⟩)
  | interfaceEvent event =>
    cases event with
    | peerDiscovered => exact h.elim
    | messageReceived => exact .inr (.inl ⟨_, _, _, _, rfl⟩)
    | _ => exact .inr (.inr ⟨_, rfl, rfl⟩)

theorem concerns_of_interfaces (h : call.interfaces = [j]) : Concerns S call ↔ j ∈ S := by
  simp [Concerns, h]

section Components

variable {n m : ℕ}

theorem Sound.interface_of_connected (h : Sound S s₀ s) (hn : s.index? i = some n)
    (hc : s.links.Connected n m) : ∃ j, s.index? j = some m ∧ (j ∈ S ↔ i ∈ S) := by
  induction hc with
  | refl => exact ⟨i, hn, Iff.rfl⟩
  | @tail k m hk hadj ih =>
    obtain ⟨j, hj, hjS⟩ := ih
    obtain ⟨l, hl⟩ := h.wellFormed.interface_of_connected hj (.single hadj)
    exact ⟨l, hl, (h.separate j l k m hj hl hadj).symm.trans hjS⟩

theorem Sound.sameComponent (h : Sound S s₀ s) (hc : s.SameComponent i j) : j ∈ S ↔ i ∈ S := by
  obtain ⟨n, m, hn, hm, hnm⟩ := hc
  obtain ⟨k, hk, hkS⟩ := h.interface_of_connected hn hnm
  rwa [h.wellFormed.index_inj hk hm] at hkS

theorem Alike.sameComponent (h : Alike S s₀ s t) (hi : i ∈ S) (hc : s.SameComponent i j) :
    t.SameComponent i j := by
  obtain ⟨n, m, hn, hm, hnm⟩ := hc
  rw [h.left.index] at hn hm
  refine ⟨n, m, by rw [h.right.index, hn], by rw [h.right.index, hm], ?_⟩
  clear hm
  induction hnm with
  | refl => exact .refl
  | @tail k m hk hadj ih =>
    have hn' : s.index? i = some n := by rw [h.left.index, hn]
    obtain ⟨a, ha, haS⟩ := h.left.interface_of_connected hn' hk
    obtain ⟨b, hb, hbS⟩ := h.left.interface_of_connected hn' (hk.tail hadj)
    rw [h.left.index] at ha hb
    exact ih.tail ((h.adj a (haS.mpr hi) b (hbS.mpr hi) k m ha hb).mp hadj)

end Components

section Steps

theorem step_of_handle (h : s.handle E call = some (r, s')) : Step E s call s' := by
  simp [Step, h]

theorem frame_of_permits (hcall : s₀.Permits S call) (h : s.handle E call = some (r, s'))
    (hlink : ∀ a b, call ≠ .linkInterfaces a b) : Frame s s' := by
  cases (step_of_handle h).change with
  | frame hframe => exact hframe
  | addNode | addInterface | unlink | unlinkStale => exact hcall.elim
  | link => exact absurd rfl (hlink _ _)

theorem Sound.of_frame (hs : Sound S s₀ s) (h : Frame s s') (hwf : s'.WellFormed)
    (hids : s'.interfacePeerIds = s.interfacePeerIds) : Sound S s₀ s' where
  wellFormed := hwf
  index i := (h.index i).trans (hs.index i)
  peerIds := hids.trans hs.peerIds
  separate i j n m hn hm hadj := by
    rw [h.index] at hn hm
    rw [h.links] at hadj
    exact hs.separate i j n m hn hm hadj

theorem Sound.of_joins {a b : T.InterfaceId} (hs : Sound S s₀ s)
    (hcall : s₀.Permits S (.linkInterfaces a b)) (h : Joins s a b r s') (hwf : s'.WellFormed) :
    Sound S s₀ s' := by
  have hindex : ∀ i, s'.index? i = s.index? i := fun i => by rw [index?, index?, h.interfaces]
  have hmem : ∀ {i n}, s.index? i = some n → i ∈ s₀.interfaces := by
    intro i n hn
    rw [← index?_isSome_iff, ← hs.index, hn]
    rfl
  refine ⟨hwf, fun i => (hindex i).trans (hs.index i), h.peerIds.trans hs.peerIds, ?_⟩
  intro i j n m hn hm hadj
  rw [hindex] at hn hm
  rcases (h.adj n m).mp hadj with hadj | ⟨ha, hb⟩ | ⟨ha, hb⟩
  · exact hs.separate i j n m hn hm hadj
  · rw [hs.wellFormed.index_inj hn ha, hs.wellFormed.index_inj hm hb]
    exact hcall (hmem ha) (hmem hb)
  · rw [hs.wellFormed.index_inj hn hb, hs.wellFormed.index_inj hm ha]
    exact (hcall (hmem ha) (hmem hb)).symm

theorem Alike.skip (h : Alike S s₀ s t) (hcall : s₀.Permits S call) (hnot : ¬ Concerns S call)
    (hs : s.handle E call = some (r, s')) : Alike S s₀ s' t := by
  have hwf : s'.WellFormed := wellFormed_step _ _ _ (step_of_handle hs) h.left.wellFormed
  rcases permits_cases hcall with ⟨a, b, rfl⟩ | ⟨j, peer, protocol, message, rfl⟩ | ⟨j, hj, hi⟩
  · have hjoins := joins_linkInterfaces hs
    obtain ⟨ha, hb⟩ : a ∉ S ∧ b ∉ S := by simpa [Concerns, Call.interfaces] using hnot
    refine ⟨h.left.of_joins hcall hjoins hwf, h.right, fun i hi => ?_, ?_⟩
    · rw [hjoins.interfaces]
      exact h.info i hi
    · intro i hi j hj n m hn hm
      rw [hjoins.adj, or_iff_left]
      · exact h.adj i hi j hj n m hn hm
      · rw [← h.left.index] at hn hm
        rintro (⟨han, -⟩ | ⟨ham, -⟩)
        · exact ha (h.left.wellFormed.index_inj han hn ▸ hi)
        · exact ha (h.left.wellFormed.index_inj ham hm ▸ hj)
  · have hspreads := h.left.wellFormed.spreads hs
    have hframe := frame_of_permits hcall hs (by simp)
    have hj : j ∉ S := mt (concerns_of_interfaces rfl).mpr hnot
    refine ⟨h.left.of_frame hframe hwf hspreads.peerIds, h.right, fun i hi => ?_, ?_⟩
    · rw [hspreads.outside i fun hc => hj ((h.left.sameComponent hc).mp hi)]
      exact h.info i hi
    · rw [hframe.links]
      exact h.adj
  · have htouches := touches_handle hj hs
    have hframe := frame_of_permits hcall hs (by rintro a b rfl; cases hj)
    have hjS : j ∉ S := mt (concerns_of_interfaces hi).mpr hnot
    refine ⟨h.left.of_frame hframe hwf htouches.peerIds, h.right, fun i hi => ?_, ?_⟩
    · rw [htouches.others i (ne_of_mem_of_not_mem hi hjS)]
      exact h.info i hi
    · rw [hframe.links]
      exact h.adj

theorem Alike.follow (h : Alike S s₀ s t) (hcall : s₀.Permits S call) (hyes : Concerns S call)
    (hs : s.handle E call = some (r, s')) (ht : t.handle E call = some (r', t')) :
    r = r' ∧ Alike S s₀ s' t' := by
  have hwf : s'.WellFormed := wellFormed_step _ _ _ (step_of_handle hs) h.left.wellFormed
  have hwf' : t'.WellFormed := wellFormed_step _ _ _ (step_of_handle ht) h.right.wellFormed
  have hmem : ∀ i, i ∈ s.interfaces ↔ i ∈ t.interfaces := by
    intro i
    rw [← index?_isSome_iff, ← index?_isSome_iff, h.left.index, h.right.index]
  rcases permits_cases hcall with ⟨a, b, rfl⟩ | ⟨j, peer, protocol, message, rfl⟩ | ⟨j, hj, hi⟩
  · have hjoins := joins_linkInterfaces hs
    have hjoins' := joins_linkInterfaces ht
    refine ⟨?_, h.left.of_joins hcall hjoins hwf, h.right.of_joins hcall hjoins' hwf', ?_, ?_⟩
    · simp only [hjoins.result, hjoins'.result, hmem]
    · intro i hi
      rw [hjoins.interfaces, hjoins'.interfaces]
      exact h.info i hi
    · intro i hi j hj n m hn hm
      rw [hjoins.adj, hjoins'.adj, h.adj i hi j hj n m hn hm, h.left.index, h.left.index,
        h.right.index, h.right.index]
  · have hspreads := h.left.wellFormed.spreads hs
    have hspreads' := h.right.wellFormed.spreads ht
    have hframe := frame_of_permits hcall hs (by simp)
    have hframe' := frame_of_permits hcall ht (by simp)
    have hj : j ∈ S := (concerns_of_interfaces rfl).mp hyes
    refine ⟨?_, h.left.of_frame hframe hwf hspreads.peerIds,
      h.right.of_frame hframe' hwf' hspreads'.peerIds, fun i hi => ?_, ?_⟩
    · simp only [hspreads.result, hspreads'.result, hmem]
    · by_cases hc : s.SameComponent j i
      · rw [hspreads.inside i hc, hspreads'.inside i (h.sameComponent hj hc), h.info i hi]
      · have hc' : ¬ t.SameComponent j i := mt (h.symm.sameComponent hj) hc
        rw [hspreads.outside i hc, hspreads'.outside i hc', h.info i hi]
    · rw [hframe.links, hframe'.links]
      exact h.adj
  · have hjS : j ∈ S := (concerns_of_interfaces hi).mp hyes
    have hids : s.interfacePeerIds = t.interfacePeerIds :=
      h.left.peerIds.trans h.right.peerIds.symm
    have hmatches := matches_handle hj hids (h.info j hjS) hs ht
    have htouches := touches_handle hj hs
    have htouches' := touches_handle hj ht
    have hframe := frame_of_permits hcall hs (by rintro a b rfl; cases hj)
    have hframe' := frame_of_permits hcall ht (by rintro a b rfl; cases hj)
    refine ⟨hmatches.1, h.left.of_frame hframe hwf htouches.peerIds,
      h.right.of_frame hframe' hwf' htouches'.peerIds, fun i hi => ?_, ?_⟩
    · by_cases hij : i = j
      · rw [hij]
        exact hmatches.2
      · rw [htouches.others i hij, htouches'.others i hij]
        exact h.info i hi
    · rw [hframe.links, hframe'.links]
      exact h.adj

end Steps

end Views

/-- Two runs from one state that agree on the calls that concern a set of interfaces send the same
commands to its filters and have the same results for these calls, if no link leaves the set. -/
theorem isolated (E : Executor T) (parameters : T.NetworkParameters) (before : List (Call T))
    (hs : Run (Step E) (new parameters) before s) (S : Finset T.InterfaceId)
    (hsep : s.Separate S) {calls calls' : List (Call T)}
    (hcalls : ∀ call ∈ calls, s.Permits S call) (hcalls' : ∀ call ∈ calls', s.Permits S call)
    (hagree : calls.filter (Concerns S ·) = calls'.filter (Concerns S ·))
    (ht : Run (Step E) s calls t) (ht' : Run (Step E) s calls' t') :
    (∀ i ∈ S, t.queue i = t'.queue i) ∧
      answers (handle E) (Concerns S) s calls = answers (handle E) (Concerns S) s calls' := by
  have hsound : Sound S s s := ⟨wellFormed_run hs, fun _ => rfl, rfl, hsep⟩
  have hunwinds : Unwinds (handle E) (Concerns S) (s.Permits S) (Alike S s) :=
    ⟨fun h => h.symm, fun hcall hnot h hs => h.skip hcall hnot hs,
      fun hcall hyes h hs ht => h.follow hcall hyes hs ht⟩
  obtain ⟨halike, hanswers⟩ := hunwinds.run hcalls hcalls'
    ⟨hsound, hsound, fun _ _ => rfl, fun _ _ _ _ _ _ _ _ => Iff.rfl⟩ ht ht' hagree
  refine ⟨fun i hi => ?_, hanswers⟩
  rw [queue, queue, halike.info i hi]

/-- What a peer sends to interface 1 is not noticed at interface 0. -/
theorem isolated_pair : ∃ s t t' : Overseer loopback,
    Run (Step (.loading loopback)) (new ⟨[]⟩)
      [.createInterface ⟨[127, 0, 0, 1], 0⟩ "" none,
        .createInterface ⟨[127, 0, 0, 1], 0⟩ "" none] s ∧
    Run (Step (.loading loopback)) s
      [.interfaceEvent (.messageReceived 1 [8] "/block-announces/1" ⟨[2]⟩),
        .interfaceEvent (.messageReceived 0 [7] "/block-announces/1" ⟨[1]⟩)] t ∧
    Run (Step (.loading loopback)) s
      [.interfaceEvent (.messageReceived 0 [7] "/block-announces/1" ⟨[1]⟩)] t' ∧
    queue (T := loopback) t 0 = [.injectNotification "/block-announces/1" [7] ⟨[1]⟩] ∧
    queue (T := loopback) t 0 = queue (T := loopback) t' 0 := by
  obtain ⟨s, t, t', hs, ht, ht', hsep, hqueue⟩ : ∃ s t t' : Overseer loopback,
      Run (Step (.loading loopback)) (new ⟨[]⟩)
        [.createInterface ⟨[127, 0, 0, 1], 0⟩ "" none,
          .createInterface ⟨[127, 0, 0, 1], 0⟩ "" none] s ∧
      Run (Step (.loading loopback)) s
        [.interfaceEvent (.messageReceived 1 [8] "/block-announces/1" ⟨[2]⟩),
          .interfaceEvent (.messageReceived 0 [7] "/block-announces/1" ⟨[1]⟩)] t ∧
      Run (Step (.loading loopback)) s
        [.interfaceEvent (.messageReceived 0 [7] "/block-announces/1" ⟨[1]⟩)] t' ∧
      Separate (T := loopback) {0} s ∧
      queue (T := loopback) t 0 = [.injectNotification "/block-announces/1" [7] ⟨[1]⟩] := by
    refine ⟨_, _, _, Run.foldlM_iff.mpr rfl, Run.foldlM_iff.mpr rfl, Run.foldlM_iff.mpr rfl,
      ?_, rfl⟩
    rintro i j n m - - (hadj | hadj) <;> cases hadj
  refine ⟨s, t, t', hs, ht, ht', hqueue, ?_⟩
  refine (isolated _ _ _ hs {0} hsep ?_ ?_ (by rfl) ht ht').1 0 (Finset.mem_singleton_self _)
  · intro call hcall
    simp only [List.mem_cons, List.not_mem_nil, or_false] at hcall
    rcases hcall with rfl | rfl <;> trivial
  · intro call hcall
    obtain rfl := List.mem_singleton.mp hcall
    trivial

end Overseer

end SwarmHost
