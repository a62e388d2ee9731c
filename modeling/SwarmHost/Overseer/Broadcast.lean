import SwarmHost.Backend.Substrate
import SwarmHost.Overseer.Topology

/-! # Forwarding notifications over the link graph

A notification is forwarded to the filter of every interface in the connected
component of the interface that received it. Nodes left behind by failed
creations stay isolated, so every node the traversal visits has an interface.
-/

namespace SwarmHost.Overseer

variable {T : NetworkBackend} {E : Executor T} {s s' : Overseer T} {i j : T.InterfaceId}

/-- The nodes of the two interfaces lie in one component of the graph. -/
def SameComponent (s : Overseer T) (i j : T.InterfaceId) : Prop :=
  ∃ n m, s.index? i = some n ∧ s.index? j = some m ∧ s.links.Connected n m

theorem WellFormed.interface_of_connected (h : WellFormed s) {n m : ℕ}
    (hn : s.index? i = some n) (hc : s.links.Connected n m) : ∃ j, s.index? j = some m := by
  induction hc with
  | refl => exact ⟨i, hn⟩
  | tail _ hadj _ =>
    rcases hadj with hadj | hadj
    · exact (h.endpoints _ _ hadj).2
    · exact (h.endpoints _ _ hadj).1

theorem WellFormed.mapM_nodeWeight (h : WellFormed s) {l : List ℕ} (hnd : l.Nodup)
    (hl : ∀ n ∈ l, ∃ j, s.index? j = some n) :
    ∃ ids, l.mapM s.links.nodeWeight = some ids ∧ ids.Nodup ∧
      ∀ j, j ∈ ids ↔ ∃ n ∈ l, s.index? j = some n := by
  induction l with
  | nil => exact ⟨[], rfl, List.nodup_nil, by simp⟩
  | cons n l ih =>
    obtain ⟨hnot, hnd⟩ := List.nodup_cons.mp hnd
    obtain ⟨ids, hids, hidsnd, hmem⟩ := ih hnd fun m hm => hl m (List.mem_cons_of_mem _ hm)
    obtain ⟨k, hk⟩ := hl n List.mem_cons_self
    have hw : s.links.nodeWeight n = some k := h.weight k n hk
    refine ⟨k :: ids, by simp [List.mapM_cons, hw, hids], ?_, ?_⟩
    · refine List.nodup_cons.mpr ⟨?_, hidsnd⟩
      rw [hmem]
      rintro ⟨m, hm, hkm⟩
      rw [hk] at hkm
      cases hkm
      exact hnot hm
    · intro j
      rw [List.mem_cons, hmem]
      constructor
      · rintro (rfl | ⟨m, hm, hj⟩)
        · exact ⟨n, List.mem_cons_self, hk⟩
        · exact ⟨m, List.mem_cons_of_mem _ hm, hj⟩
      · rintro ⟨m, hm, hj⟩
        rcases List.mem_cons.mp hm with rfl | hm
        · exact Or.inl (h.index_inj hj hk)
        · exact Or.inr ⟨m, hm, hj⟩

/-- The traversal from an interface yields the interfaces of its component, once each. -/
theorem WellFormed.linkedInterfaces_spec (h : WellFormed s) {n : ℕ} (hn : s.index? i = some n) :
    ∃ ids, s.linkedInterfaces n = some ids ∧ ids.Nodup ∧
      ∀ j, j ∈ ids ↔ s.SameComponent i j := by
  obtain ⟨l, hl, hnd, hmem⟩ := Multigraph.dfs_spec (h.index_lt hn)
  have hnodes : ∀ m ∈ l, ∃ j, s.index? j = some m := fun m hm =>
    h.interface_of_connected hn ((hmem m).mp hm)
  obtain ⟨ids, hids, hidsnd, hidsmem⟩ := h.mapM_nodeWeight hnd hnodes
  refine ⟨ids, by simp [linkedInterfaces, hl, hids], hidsnd, fun j => ?_⟩
  rw [hidsmem]
  constructor
  · rintro ⟨m, hm, hj⟩
    exact ⟨n, m, hn, hj, (hmem m).mp hm⟩
  · rintro ⟨n', m, hn', hj, hc⟩
    rw [hn] at hn'
    cases hn'
    exact ⟨m, (hmem m).mpr hc, hj⟩

theorem get?_send (s : Overseer T) (i j : T.InterfaceId) (command : FilterCommand T) :
    (s.send i command).interfaces.get? j =
      if j = i then (s.interfaces.get? j).map (·.send command) else s.interfaces.get? j := by
  rw [send, Dict.get?_modify]
  split
  · subst j; rfl
  · rfl

theorem sendAll_spec (command : FilterCommand T) {ids : List T.InterfaceId} (hnd : ids.Nodup)
    (hids : ∀ j ∈ ids, j ∈ s.interfaces) :
    ∃ s', s.sendAll command ids = some s' ∧
      s' = { s with interfaces := s'.interfaces } ∧
      ∀ j, s'.interfaces.get? j =
        if j ∈ ids then (s.interfaces.get? j).map (·.send command) else s.interfaces.get? j := by
  induction ids generalizing s with
  | nil => exact ⟨s, rfl, rfl, by simp⟩
  | cons i ids ih =>
    obtain ⟨hnot, hnd⟩ := List.nodup_cons.mp hnd
    have hkeep : ∀ j ∈ ids, j ∈ (s.send i command).interfaces := fun j hj => by
      rw [Frame.mem_interfaces (frame_send s i command).index]
      exact hids j (List.mem_cons_of_mem _ hj)
    obtain ⟨s', hs', heq, hget⟩ := ih hnd hkeep
    refine ⟨s', ?_, heq, fun j => ?_⟩
    · rw [sendAll, if_pos (hids i List.mem_cons_self)]
      exact hs'
    · rw [hget, get?_send]
      by_cases hj : j = i
      · subst hj
        simp [hnot]
      · simp [hj]

/-- In every state a run reaches, injecting a notification at an existing interface returns and
appends the command to the filters of the component of the interface, once each, and to no other;
all nodes of the component belong to interfaces. -/
theorem injectNotification_component (E : Executor T) (parameters : T.NetworkParameters)
    (calls : List (Call T)) (hrun : Run (Step E) (new parameters) calls s)
    {info : InterfaceInfo T} (hi : s.interfaces.get? i = some info) (peer : T.PeerId)
    (protocol : T.Protocol) (notification : T.Message) :
    (∀ m, s.links.Connected info.index m → ∃ j infoj, s.links.nodeWeight m = some j ∧
      s.interfaces.get? j = some infoj ∧ infoj.index = m) ∧
    ∃ s', s.injectNotification i peer protocol notification = some (.ok (), s') ∧
      s' = { s with interfaces := s'.interfaces } ∧
      ∀ j, (s.SameComponent i j → s'.interfaces.get? j =
          (s.interfaces.get? j).map (·.send (.injectNotification protocol peer notification))) ∧
        (¬ s.SameComponent i j → s'.interfaces.get? j = s.interfaces.get? j) := by
  have h := wellFormed_run hrun
  have hn : s.index? i = some info.index := index?_eq_some_iff.mpr ⟨info, hi, rfl⟩
  constructor
  · intro m hc
    obtain ⟨j, hj⟩ := h.interface_of_connected hn hc
    obtain ⟨infoj, hget, hidx⟩ := index?_eq_some_iff.mp hj
    exact ⟨j, infoj, h.weight j m hj, hget, hidx⟩
  · obtain ⟨ids, hids, hnd, hmem⟩ := h.linkedInterfaces_spec hn
    have hex : ∀ j ∈ ids, j ∈ s.interfaces := by
      intro j hj
      obtain ⟨_, m, _, hjm, _⟩ := (hmem j).mp hj
      exact index?_isSome_iff.mp (by simp [hjm])
    obtain ⟨s', hs', heq, hget⟩ :=
      sendAll_spec (.injectNotification protocol peer notification) hnd hex
    refine ⟨s', by simp [injectNotification, hi, hids, hs'], heq, fun j => ⟨?_, ?_⟩⟩
    · intro hj
      rw [hget, if_pos ((hmem j).mpr hj)]
    · intro hj
      rw [hget, if_neg (mt (hmem j).mp hj)]

/-- A notification at interface 0 reaches the filter of interface 1 over the link between them. -/
theorem injectNotification_component_pair : ∃ s s',
    Run (Step (.loading loopback)) (new ⟨[]⟩)
      [.createInterface ⟨[127, 0, 0, 1], 0⟩ "" none, .createInterface ⟨[127, 0, 0, 1], 0⟩ "" none,
        .linkInterfaces 0 1] s ∧
    s.injectNotification 0 [7] "/block-announces/1" ⟨[1]⟩ = some (.ok (), s') ∧
    (s'.interfaces.get? 1).map (·.filter) =
      some [.injectNotification "/block-announces/1" [7] ⟨[1]⟩] := by
  obtain ⟨s, info, hrun, hi, hc, hq⟩ : ∃ s info,
      Run (Step (.loading loopback)) (new ⟨[]⟩)
        [.createInterface ⟨[127, 0, 0, 1], 0⟩ "" none,
          .createInterface ⟨[127, 0, 0, 1], 0⟩ "" none, .linkInterfaces 0 1] s ∧
      s.interfaces.get? 0 = some info ∧ s.SameComponent 0 1 ∧
      (s.interfaces.get? 1).map (·.filter) = some [] :=
    ⟨_, _, Run.foldlM_iff.mpr rfl, rfl, ⟨0, 1, rfl, rfl, .single (by decide)⟩, rfl⟩
  obtain ⟨-, s', hs', -, hget⟩ :=
    injectNotification_component _ _ _ hrun hi [7] "/block-announces/1" ⟨[1]⟩
  refine ⟨s, s', hrun, hs', ?_⟩
  rw [(hget 1).1 hc]
  obtain ⟨info₁, h₁, hf⟩ := Option.map_eq_some_iff.mp hq
  simp [h₁, InterfaceInfo.send, hf]

end SwarmHost.Overseer
