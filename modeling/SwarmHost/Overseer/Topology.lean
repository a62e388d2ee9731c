import SwarmHost.Overseer.Basic

/-! # The link graph along runs of the overseer

Only creating, linking and unlinking interfaces touches the graph. In every
state reached, the node of an interface carries its identifier and every edge
joins the nodes of two interfaces, whatever nodes failed creations left behind.
-/

namespace SwarmHost.Overseer

variable {T : NetworkBackend} {E : Executor T} {s s' : Overseer T}

def index? (s : Overseer T) (i : T.InterfaceId) : Option ℕ :=
  (s.interfaces.get? i).map (·.index)

theorem index?_isSome_iff {i : T.InterfaceId} : (s.index? i).isSome ↔ i ∈ s.interfaces := by
  rw [index?, Option.isSome_map, Dict.mem_iff_isSome]

theorem index?_eq_some_iff {i : T.InterfaceId} {n : ℕ} :
    s.index? i = some n ↔ ∃ info, s.interfaces.get? i = some info ∧ info.index = n := by
  simp [index?]

/-- The graph, the recorded edges and the nodes of the interfaces are the same. -/
structure Frame (s s' : Overseer T) : Prop where
  links : s'.links = s.links
  edges : s'.edges = s.edges
  index : ∀ i, s'.index? i = s.index? i

theorem Frame.refl (s : Overseer T) : Frame s s := ⟨rfl, rfl, fun _ => rfl⟩

theorem Frame.trans {t : Overseer T} (h : Frame s s') (h' : Frame s' t) : Frame s t :=
  ⟨h'.links.trans h.links, h'.edges.trans h.edges, fun i => (h'.index i).trans (h.index i)⟩

theorem index?_insert {d : Dict T.InterfaceId (InterfaceInfo T)} {i j : T.InterfaceId}
    {info info' : InterfaceInfo T} (h : d.get? i = some info) (hi : info'.index = info.index) :
    ((d.insert i info').get? j).map (·.index) = (d.get? j).map (·.index) := by
  rw [Dict.get?_insert]
  split
  · subst j; simp [h, hi]
  · rfl

theorem frame_send (s : Overseer T) (i : T.InterfaceId) (command : FilterCommand T) :
    Frame s (s.send i command) where
  links := rfl
  edges := rfl
  index j := by
    simp only [index?, send, Dict.get?_modify]
    split
    · subst j; cases s.interfaces.get? i <;> rfl
    · rfl

theorem frame_sendChecked (s : Overseer T) (i : T.InterfaceId) (command : FilterCommand T) :
    Frame s (s.sendChecked i command).2 := by
  unfold sendChecked
  split
  · exact frame_send s i command
  · exact .refl s

theorem frame_registerPeer (s : Overseer T) (i : T.InterfaceId) (peer : T.PeerId)
    (protocols : List T.Protocol) (sink : T.PacketSink) :
    Frame s (s.registerPeer i peer protocols sink).2 := by
  unfold registerPeer
  split
  · exact .refl s
  · cases h : s.interfaces.get? i with
    | none => exact .refl s
    | some info => exact ⟨rfl, rfl, fun _ => index?_insert h rfl⟩

theorem frame_unregisterPeer (s : Overseer T) (i : T.InterfaceId) (peer : T.PeerId) :
    Frame s (s.unregisterPeer i peer).2 := by
  unfold unregisterPeer
  split
  · exact .refl s
  · cases h : s.interfaces.get? i with
    | none => exact .refl s
    | some info =>
      dsimp only
      split
      · exact ⟨rfl, rfl, fun _ => index?_insert h rfl⟩
      · exact .refl s

theorem frame_discoverPeer (s : Overseer T) (peer : T.PeerId) :
    Frame s (s.discoverPeer peer).2 := by
  unfold discoverPeer
  split
  · exact .refl s
  · refine ⟨rfl, rfl, fun i => ?_⟩
    simp only [index?, Dict.get?_map]
    cases s.interfaces.get? i with
    | none => rfl
    | some info =>
      simp only [Option.map_some, Option.some.injEq]
      split <;> rfl

theorem frame_connectToPeer (s : Overseer T) (i : T.InterfaceId) (peer : T.PeerId) :
    Frame s (s.connectToPeer i peer).2 := by
  unfold connectToPeer
  cases h : s.interfaces.get? i with
  | none => exact .refl s
  | some info => exact ⟨rfl, rfl, fun _ => index?_insert h rfl⟩

theorem frame_upgradeProtocols (s : Overseer T) (i : T.InterfaceId)
    (command : T.Protocol → FilterCommand T) (event : T.Protocol → HeuristicsEvent T)
    (protocols : List T.Protocol) : Frame s (s.upgradeProtocols i command event protocols) := by
  unfold upgradeProtocols
  induction protocols generalizing s with
  | nil => exact .refl s
  | cons protocol protocols ih =>
    have hsend := frame_send s i (command protocol)
    rw [List.foldl_cons]
    refine Frame.trans ?_ (ih _)
    exact ⟨hsend.links, hsend.edges, hsend.index⟩

theorem frame_sendAll {command : FilterCommand T} {l : List T.InterfaceId}
    (h : s.sendAll command l = some s') : Frame s s' := by
  induction l generalizing s with
  | nil => cases h; exact .refl _
  | cons i l ih =>
    rw [sendAll] at h
    split at h
    · exact (frame_send s i command).trans (ih h)
    · cases h

theorem frame_injectNotification {i : T.InterfaceId} {peer : T.PeerId} {protocol : T.Protocol}
    {notification : T.Message} {r : Except Error Unit}
    (h : s.injectNotification i peer protocol notification = some (r, s')) : Frame s s' := by
  unfold injectNotification at h
  split at h
  · cases h; exact .refl s
  · simp only [bind, Option.bind_eq_some_iff, pure, Option.some.injEq, Prod.mk.injEq] at h
    obtain ⟨l, -, t, ht, -, rfl⟩ := h
    exact frame_sendAll ht

theorem frame_applyConnectionUpgrade {i : T.InterfaceId} {peer : T.PeerId}
    {upgrade : ConnectionUpgrade T} {r : Except Error Unit}
    (h : s.applyConnectionUpgrade i peer upgrade = some (r, s')) : Frame s s' := by
  unfold applyConnectionUpgrade at h
  split at h
  · cases upgrade <;> cases h <;> exact frame_upgradeProtocols s _ _ _ _
  · cases h

theorem frame_onInterfaceEvent {event : InterfaceEvent T} {r : Except Error Unit}
    (h : s.onInterfaceEvent event = some (r, s')) : Frame s s' := by
  cases event with
  | peerConnected i peer protocols sink =>
    obtain rfl := snd_eq_of_some h
    exact frame_registerPeer s i peer protocols sink
  | peerDisconnected i peer =>
    obtain rfl := snd_eq_of_some h
    exact frame_unregisterPeer s i peer
  | connectionUpgraded i peer upgrade => exact frame_applyConnectionUpgrade h
  | messageReceived i peer protocol message => exact frame_injectNotification h
  | requestReceived i peer protocol request | responseReceived i peer protocol id response =>
    obtain rfl := snd_eq_of_some h
    exact frame_sendChecked s i _
  | peerDiscovered peer =>
    obtain rfl := snd_eq_of_some h
    exact frame_discoverPeer s peer

/-- What one call can do to the graph, the recorded edges and the nodes of the interfaces. -/
inductive Change (s : Overseer T) : Call T → Overseer T → Prop where
  | frame {call : Call T} {s' : Overseer T} : Frame s s' →
      (∀ a b, call = .unlinkInterfaces a b → s.edges.get? (a, b) = none) →
      (∀ a b, call = .linkInterfaces a b → ¬ (a ∈ s.interfaces ∧ b ∈ s.interfaces)) →
      Change s call s'
  | addNode {address : T.Address} {filter : String} {preinit : Option String} {s' : Overseer T}
      {i : T.InterfaceId} : s'.links = (s.links.addNode i).1 → s'.edges = s.edges →
      (∀ j, s'.index? j = s.index? j) → Change s (.createInterface address filter preinit) s'
  | addInterface {address : T.Address} {filter : String} {preinit : Option String}
      {s' : Overseer T} {i : T.InterfaceId} : i ∉ s.interfaces →
      s'.links = (s.links.addNode i).1 → s'.edges = s.edges →
      (∀ j, s'.index? j = if j = i then some s.links.nodes.length else s.index? j) →
      Change s (.createInterface address filter preinit) s'
  | link {a b : T.InterfaceId} {n m : ℕ} {s' : Overseer T} :
      s.index? a = some n → s.index? b = some m → s'.links.nodes = s.links.nodes →
      s'.links.edges = s.links.edges ++ [(n, m)] →
      s'.edges = s.edges.insert (a, b) s.links.edges.length →
      (∀ j, s'.index? j = s.index? j) → Change s (.linkInterfaces a b) s'
  | unlink {a b : T.InterfaceId} {e : ℕ} {s' : Overseer T} :
      s.edges.get? (a, b) = some e → e < s.links.edges.length →
      s'.links.nodes = s.links.nodes → s'.links.edges = swapRemove s.links.edges e →
      s'.edges = s.edges.erase (a, b) → (∀ j, s'.index? j = s.index? j) →
      Change s (.unlinkInterfaces a b) s'
  | unlinkStale {a b : T.InterfaceId} {e : ℕ} {s' : Overseer T} :
      s.edges.get? (a, b) = some e → s.links.edges.length ≤ e → s'.links = s.links →
      s'.edges = s.edges.erase (a, b) → (∀ j, s'.index? j = s.index? j) →
      Change s (.unlinkInterfaces a b) s'

theorem change_createInterface (E : Executor T) (s : Overseer T) (address : T.Address)
    (filter : String) (preinit : Option String) :
    Change s (.createInterface address filter preinit)
      (s.createInterface E address filter preinit).2 := by
  unfold createInterface
  split
  · exact .frame (.refl s) (by simp) (by simp)
  · split
    · exact .frame ⟨rfl, rfl, fun _ => rfl⟩ (by simp) (by simp)
    · dsimp only
      split
      · exact .frame ⟨rfl, rfl, fun _ => rfl⟩ (by simp) (by simp)
      · rename_i hi
        split
        · exact .addNode rfl rfl fun _ => rfl
        · refine .addInterface hi rfl rfl fun j => ?_
          simp only [index?, Dict.get?_insert]
          split <;> rfl

theorem change_linkInterfaces {a b : T.InterfaceId} {r : Except Error Unit}
    (h : s.linkInterfaces a b = some (r, s')) : Change s (.linkInterfaces a b) s' := by
  unfold linkInterfaces at h
  split at h
  · rename_i ia ib ha hb
    obtain ⟨⟨g, e⟩, hg, h⟩ := Option.map_eq_some_iff.mp h
    obtain ⟨-, rfl⟩ := Prod.mk.inj h
    obtain ⟨hn, he, rfl⟩ := Multigraph.addEdge_eq_some hg
    exact .link (index?_eq_some_iff.mpr ⟨ia, ha, rfl⟩) (index?_eq_some_iff.mpr ⟨ib, hb, rfl⟩)
      hn he rfl fun _ => rfl
  · rename_i hnone
    obtain rfl := snd_eq_of_some h
    refine .frame (.refl s) (by simp) ?_
    rintro _ _ ⟨⟩ ⟨ha, hb⟩
    obtain ⟨ia, ha⟩ := Dict.mem_iff.mp ha
    obtain ⟨ib, hb⟩ := Dict.mem_iff.mp hb
    exact hnone ia ib ha hb

theorem change_unlinkInterfaces (s : Overseer T) (a b : T.InterfaceId) :
    Change s (.unlinkInterfaces a b) (s.unlinkInterfaces a b).2 := by
  unfold unlinkInterfaces
  split
  · rename_i hnone
    refine .frame (.refl s) ?_ (by simp)
    rintro _ _ ⟨⟩
    exact hnone
  · rename_i e he
    dsimp only
    split
    · rename_i hr
      have hlen : ¬ e < s.links.edges.length := by
        rw [← Multigraph.removeEdge_isSome_iff, hr]
        simp
      exact .unlinkStale he (by omega) rfl rfl fun _ => rfl
    · rename_i g hg
      obtain ⟨hlt, hn, hed⟩ := Multigraph.removeEdge_eq_some hg
      exact .unlink he hlt hn hed rfl fun _ => rfl

theorem Step.change {call : Call T} (hs : Step E s call s') : Change s call s' := by
  obtain ⟨⟨r, t⟩, h, rfl⟩ := Option.map_eq_some_iff.mp hs
  cases call with
  | createInterface address filter preinit =>
    obtain rfl := snd_eq_of_some h
    exact change_createInterface E s address filter preinit
  | linkInterfaces a b => exact change_linkInterfaces h
  | unlinkInterfaces a b =>
    obtain rfl := snd_eq_of_some h
    exact change_unlinkInterfaces s a b
  | installNotificationFilter i protocol code context
  | installRequestResponseFilter i protocol code context =>
    obtain rfl := snd_eq_of_some h
    exact .frame (frame_sendChecked s i _) (by simp) (by simp)
  | interfaceEvent event => exact .frame (frame_onInterfaceEvent h) (by simp) (by simp)
  | connectToPeer i peer =>
    obtain rfl := snd_eq_of_some h
    exact .frame (frame_connectToPeer s i peer) (by simp) (by simp)

/-- Nodes and edges of the link graph belong to interfaces. -/
structure WellFormed (s : Overseer T) : Prop where
  weight : ∀ i n, s.index? i = some n → s.links.nodes[n]? = some i
  endpoints : ∀ x y, (x, y) ∈ s.links.edges →
    (∃ i, s.index? i = some x) ∧ ∃ j, s.index? j = some y
  entries : ∀ a b e, s.edges.get? (a, b) = some e → a ∈ s.interfaces ∧ b ∈ s.interfaces

theorem wellFormed_new (parameters : T.NetworkParameters) :
    WellFormed (new parameters : Overseer T) where
  weight i n h := by simp [index?, new] at h
  endpoints x y h := by cases h
  entries a b e h := by simp [new] at h

theorem Frame.mem_interfaces (h : ∀ j, s'.index? j = s.index? j) {i : T.InterfaceId} :
    i ∈ s'.interfaces ↔ i ∈ s.interfaces := by
  rw [← index?_isSome_iff, ← index?_isSome_iff, h]

theorem mem_interfaces_or_creates {call : Call T} (h : Step E s call s') :
    (∀ i, i ∈ s'.interfaces ↔ i ∈ s.interfaces) ∨
      ∃ address filter preinit, call = .createInterface address filter preinit := by
  cases h.change with
  | frame hframe => exact .inl fun _ => Frame.mem_interfaces hframe.index
  | addNode | addInterface => exact .inr ⟨_, _, _, rfl⟩
  | link _ _ _ _ _ hindex | unlink _ _ _ _ _ hindex | unlinkStale _ _ _ _ hindex =>
    exact .inl fun _ => Frame.mem_interfaces hindex

theorem WellFormed.index_lt (h : WellFormed s) {i : T.InterfaceId} {n : ℕ}
    (hi : s.index? i = some n) : n < s.links.nodes.length :=
  (List.getElem?_eq_some_iff.mp (h.weight i n hi)).1

theorem WellFormed.index_inj (h : WellFormed s) {i j : T.InterfaceId} {n : ℕ}
    (hi : s.index? i = some n) (hj : s.index? j = some n) : i = j :=
  Option.some.inj ((h.weight i n hi).symm.trans (h.weight j n hj))

theorem WellFormed.of_same_nodes (h : WellFormed s) (hn : s'.links.nodes = s.links.nodes)
    (hi : ∀ j, s'.index? j = s.index? j)
    (he : ∀ x y, (x, y) ∈ s'.links.edges → (x, y) ∈ s.links.edges ∨
      (∃ i, s.index? i = some x) ∧ ∃ j, s.index? j = some y)
    (hk : ∀ a b e, s'.edges.get? (a, b) = some e →
      a ∈ s.interfaces ∧ b ∈ s.interfaces) : WellFormed s' where
  weight i n hin := by
    rw [hn]
    exact h.weight i n (hi i ▸ hin)
  endpoints x y hxy := by
    simp only [hi]
    rcases he x y hxy with hold | hnew
    · exact h.endpoints x y hold
    · exact hnew
  entries a b e hab := by
    rw [Frame.mem_interfaces hi, Frame.mem_interfaces hi]
    exact hk a b e hab

theorem WellFormed.addNode {i : T.InterfaceId} (h : WellFormed s)
    (hl : s'.links = (s.links.addNode i).1) (he : s'.edges = s.edges)
    (hi : ∀ j n, s'.index? j = some n → s.index? j = some n ∨
      (j = i ∧ n = s.links.nodes.length))
    (hmono : ∀ j n, s.index? j = some n → s'.index? j = some n) : WellFormed s' where
  weight j n hj := by
    rw [hl]
    change (s.links.nodes ++ [i])[n]? = some j
    rcases hi j n hj with hold | ⟨rfl, rfl⟩
    · rw [List.getElem?_append_left (h.index_lt hold)]
      exact h.weight j n hold
    · exact List.getElem?_concat_length
  endpoints x y hxy := by
    rw [hl] at hxy
    obtain ⟨⟨j, hj⟩, k, hk⟩ := h.endpoints x y hxy
    exact ⟨⟨j, hmono j x hj⟩, k, hmono k y hk⟩
  entries a b e hab := by
    rw [he] at hab
    obtain ⟨ha, hb⟩ := h.entries a b e hab
    rw [← index?_isSome_iff, Option.isSome_iff_exists] at ha hb ⊢
    rw [← index?_isSome_iff, Option.isSome_iff_exists]
    obtain ⟨n, hn⟩ := ha
    obtain ⟨m, hm⟩ := hb
    exact ⟨⟨n, hmono a n hn⟩, m, hmono b m hm⟩

theorem Change.wellFormed {call : Call T} (hc : Change s call s') (h : WellFormed s) :
    WellFormed s' := by
  cases hc with
  | frame hf =>
    refine h.of_same_nodes (by rw [hf.links]) hf.index ?_ ?_
    · intro x y hxy
      rw [hf.links] at hxy
      exact Or.inl hxy
    · intro a b e hab
      rw [hf.edges] at hab
      exact h.entries a b e hab
  | addNode hl he hi =>
    exact h.addNode hl he (fun j n hj => Or.inl (hi j ▸ hj)) fun j n hj => by rw [hi, hj]
  | @addInterface _ _ _ _ i hnew hl he hi =>
    refine h.addNode hl he ?_ ?_
    · intro j n hj
      rw [hi] at hj
      split at hj
      · exact Or.inr ⟨‹_›, (Option.some.inj hj).symm⟩
      · exact Or.inl hj
    · intro j n hj
      have hne : j ≠ i := by
        rintro rfl
        exact hnew (index?_isSome_iff.mp (by simp [hj]))
      rw [hi, if_neg hne, hj]
  | @link a b n m _ ha hb hn hed hk hi =>
    refine h.of_same_nodes hn hi ?_ ?_
    · intro x y hxy
      rw [hed, List.mem_append, List.mem_singleton] at hxy
      rcases hxy with hxy | hxy
      · exact Or.inl hxy
      · cases hxy
        exact Or.inr ⟨⟨a, ha⟩, b, hb⟩
    · intro c d e hcd
      rw [hk, Dict.get?_insert] at hcd
      split at hcd
      · rename_i heq
        cases heq
        exact ⟨index?_isSome_iff.mp (by simp [ha]), index?_isSome_iff.mp (by simp [hb])⟩
      · exact h.entries c d e hcd
  | @unlink a b e _ he hlt hn hed hk hi =>
    refine h.of_same_nodes hn hi ?_ ?_
    · intro x y hxy
      rw [hed] at hxy
      exact Or.inl ((perm_swapRemove (List.getElem?_eq_getElem hlt)).mem_iff.mpr
        (List.mem_cons_of_mem _ hxy))
    · intro c d e' hcd
      rw [hk, Dict.get?_erase] at hcd
      split at hcd
      · cases hcd
      · exact h.entries c d e' hcd
  | @unlinkStale a b e _ he _ hl hk hi =>
    refine h.of_same_nodes (by rw [hl]) hi ?_ ?_
    · intro x y hxy
      rw [hl] at hxy
      exact Or.inl hxy
    · intro c d e' hcd
      rw [hk, Dict.get?_erase] at hcd
      split at hcd
      · cases hcd
      · exact h.entries c d e' hcd

theorem wellFormed_step (s : Overseer T) (call : Call T) (s' : Overseer T)
    (h : Step E s call s') (hs : WellFormed s) : WellFormed s' :=
  h.change.wellFormed hs

/-- The graph is well formed in every state that any run of calls reaches. -/
theorem wellFormed_run {parameters : T.NetworkParameters} {calls : List (Call T)}
    (h : Run (Step E) (new parameters) calls s) : WellFormed s :=
  h.invariant wellFormed_step (wellFormed_new parameters)

end SwarmHost.Overseer
