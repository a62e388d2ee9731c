import SwarmHost.Peerset.Basic

/-! # Who is connected

What the functions of the peerset do to the connected peers. Handling an action
only disconnects, and queues one message for every peer that it disconnects;
only an incoming connection connects a peer, and then it is accepted.
-/

namespace SwarmHost.Substrate

namespace PeersState

variable {s s' t : PeersState} {set : SetId} {p : PeerId} {now : Instant}

def Connected (s : PeersState) (x : SetId × PeerId) : Prop :=
  (s.membership x.1 x.2).isConnected = true

instance (s : PeersState) (x : SetId × PeerId) : Decidable (s.Connected x) :=
  inferInstanceAs (Decidable (_ = true))

theorem peer_eq_connected : s.peer set p = .connected ↔ s.Connected (set, p) := by
  unfold peer Connected
  cases s.membership set p <;> simp [MembershipState.isConnected]

theorem Connected.member (h : s.Connected (set, p)) : s.membership set p ≠ .notMember := by
  intro hm
  simp [Connected, hm, MembershipState.isConnected] at h

theorem lt_numSets_of_member (hs : s.Sized) (h : s.membership set p ≠ .notMember) :
    set < s.numSets := by
  obtain ⟨node, hnode⟩ := Dict.mem_iff.mp (mem_nodes_of_membership h)
  rw [← hs p node hnode]
  by_contra hlt
  apply h
  rw [membership_of_get? hnode, Node.state, List.getD_eq_getElem?_getD,
    List.getElem?_eq_none (not_lt.mp hlt)]
  rfl

structure SameConnected (s s' : PeersState) : Prop where
  numSets : s'.numSets = s.numSets
  sized : s'.Sized
  connected : ∀ x, s'.Connected x ↔ s.Connected x

theorem SameConnected.refl (hs : s.Sized) : SameConnected s s := ⟨rfl, hs, fun _ => Iff.rfl⟩

theorem SameConnected.trans (h : SameConnected s s') (h' : SameConnected s' t) :
    SameConnected s t :=
  ⟨h'.numSets.trans h.numSets, h'.sized, fun x => (h'.connected x).trans (h.connected x)⟩

theorem SameMembers.sameConnected (h : SameMembers s s') : SameConnected s s' :=
  ⟨h.numSets, h.sized, fun x => by rw [Connected, h.membership, Connected]⟩

theorem Moves.connected_iff {m : MembershipState} (h : Moves s set p m s') (x : SetId × PeerId) :
    s'.Connected x ↔ if x = (set, p) then m.isConnected = true else s.Connected x := by
  obtain ⟨set', p'⟩ := x
  simp only [Connected, h.membership, Prod.mk.injEq]
  split <;> rfl

theorem Moves.sameConnected {m : MembershipState} (h : Moves s set p m s')
    (hm : m.isConnected = false) (hp : ¬ s.Connected (set, p)) : SameConnected s s' := by
  refine ⟨h.numSets, h.sized, fun x => ?_⟩
  rw [h.connected_iff]
  split
  · next hx => simp [hx, hm, hp]
  · rfl

theorem sameConnected_foldl {α : Type*} {f : PeersState → α → PeersState}
    (hf : ∀ t a, t.Sized → t.numSets = s.numSets → SameConnected t (f t a)) (l : List α)
    (hs : s.Sized) : SameConnected s (l.foldl f s) := by
  induction l generalizing s with
  | nil => exact .refl hs
  | cons a l ih =>
    have h := hf s a hs rfl
    exact h.trans (ih (fun t b ht hn => hf t b ht (hn.trans h.numSets)) h.sized)

theorem sameConnected_forgetPeer (hs : s.Sized) (hm : s.membership set p ≠ .notMember)
    (hc : ¬ s.Connected (set, p)) : SameConnected s (s.forgetPeer set p) :=
  (moves_forgetPeer hs (lt_numSets_of_member hs hm) (mem_nodes_of_membership hm)).sameConnected
    rfl hc

end PeersState

namespace Peerset

open PeersState

variable {order : HashOrder} {now : Instant} {s s' t : Peerset} {set : SetId} {p : PeerId}

section Time

theorem sameConnected_forgetOld {data : PeersState} (hs : data.Sized) (p : PeerId) :
    SameConnected data (forgetOld now data p) := by
  apply sameConnected_foldl _ _ hs
  intro d set hd _
  split
  · next last hm =>
    split
    · apply sameConnected_forgetPeer hd
      · simp [hm]
      · simp [Connected, hm, MembershipState.isConnected]
    · exact .refl hd
  · exact .refl hd

theorem sameConnected_fade {data : PeersState} (hs : data.Sized) (p : PeerId) :
    SameConnected data (fade now data p) := by
  have h := (sameMembers_peerReputation hs p fun _ => reputTick (data.reputation p)).sameConnected
  unfold fade
  dsimp only
  split
  · exact h
  · exact h.trans (sameConnected_forgetOld h.sized p)

theorem sameConnected_updateTime (hs : s.data.Sized) (now : Instant) :
    SameConnected s.data (s.updateTime now).data := by
  simp only [updateTime]
  induction s.secsDiff now with
  | zero => exact .refl hs
  | succ n ih =>
    rw [Function.iterate_succ_apply']
    exact ih.trans (sameConnected_foldl (fun d p hd _ => sameConnected_fade hd p) _ ih.sized)

end Time

structure Drops (s : Peerset) (xs : List (SetId × PeerId)) (s' : Peerset) : Prop where
  numSets : s'.data.numSets = s.data.numSets
  sized : s'.data.Sized
  connected : ∀ x, s'.data.Connected x ↔ s.data.Connected x ∧ x ∉ xs
  queue : s'.messageQueue = s.messageQueue ++ xs.map fun x => .drop x.1 x.2
  rx : s'.rx = s.rx

theorem Drops.of_same (h : SameConnected s.data s'.data)
    (hq : s'.messageQueue = s.messageQueue) (hrx : s'.rx = s.rx) : Drops s [] s' where
  numSets := h.numSets
  sized := h.sized
  connected x := by simp [h.connected x]
  queue := by simp [hq]
  rx := hrx

theorem Drops.refl (hs : s.data.Sized) : Drops s [] s := .of_same (.refl hs) rfl rfl

theorem Drops.trans {xs ys : List (SetId × PeerId)} (h : Drops s xs s') (h' : Drops s' ys t) :
    Drops s (xs ++ ys) t where
  numSets := h'.numSets.trans h.numSets
  sized := h'.sized
  connected x := by rw [h'.connected, h.connected, List.mem_append, not_or, and_assoc]
  queue := by rw [h'.queue, h.queue, List.map_append, List.append_assoc]
  rx := h'.rx.trans h.rx

/-- A loop of steps that only disconnect only disconnects. -/
theorem drops_foldl {α : Type*} {f : Peerset → α → Peerset}
    (hf : ∀ s a, s.data.Sized → ∃ xs, Drops s xs (f s a)) (l : List α) (hs : s.data.Sized) :
    ∃ xs, Drops s xs (l.foldl f s) := by
  induction l generalizing s with
  | nil => exact ⟨[], .refl hs⟩
  | cons a l ih =>
    obtain ⟨xs, hxs⟩ := hf s a hs
    obtain ⟨ys, hys⟩ := ih hxs.sized
    exact ⟨xs ++ ys, hxs.trans hys⟩

theorem drops_disconnectAndDrop (hs : s.data.Sized) (hc : s.data.Connected (set, p))
    (now : Instant) : Drops s [(set, p)] (s.disconnectAndDrop now set p) := by
  have h := moves_disconnect hs (lt_numSets_of_member hs hc.member) hc.member now
  refine ⟨h.numSets, h.sized, fun x => ?_, rfl, rfl⟩
  refine (h.connected_iff x).trans ?_
  by_cases hx : x = (set, p) <;> simp [hx, MembershipState.isConnected]

theorem drops_onAddReservedPeer (hs : s.data.Sized) (set : SetId) (p : PeerId) :
    Drops s [] (s.onAddReservedPeer set p) := by
  unfold onAddReservedPeer allocSlots
  split
  · exact .refl hs
  · exact .of_same (sameMembers_addNoSlotNode hs set p).sameConnected rfl rfl

theorem drops_onRemoveReservedPeer (hs : s.data.Sized) (now : Instant) (set : SetId)
    (p : PeerId) : ∃ xs, Drops s xs (s.onRemoveReservedPeer now set p) := by
  unfold onRemoveReservedPeer
  split
  · have h : Drops s [] { s with
        reservedNodes := s.reservedNodes.modify set fun r => (r.1.erase p, r.2)
        data := s.data.removeNoSlotNode set p } :=
      .of_same (sameMembers_removeNoSlotNode hs set p).sameConnected rfl rfl
    dsimp only
    split
    · next hc =>
      exact ⟨_, h.trans (drops_disconnectAndDrop h.sized (peer_eq_connected.mp hc.2) now)⟩
    · exact ⟨_, h⟩
  · exact ⟨[], .refl hs⟩

theorem drops_onSetReservedPeers (hs : s.data.Sized) (order : HashOrder) (now : Instant)
    (set : SetId) (peers : Finset PeerId) :
    ∃ xs, Drops s xs (s.onSetReservedPeers order now set peers) := by
  unfold onSetReservedPeers
  obtain ⟨xs, hxs⟩ := drops_foldl (fun s p hs => ⟨[], drops_onAddReservedPeer hs set p⟩)
    (order.enumerate (peers \ s.reserved set)) hs
  obtain ⟨ys, hys⟩ := drops_foldl (fun s p hs => drops_onRemoveReservedPeer hs now set p)
    (order.enumerate (s.reserved set \ peers)) hxs.sized
  exact ⟨xs ++ ys, hxs.trans hys⟩

theorem mem_connectedPeers (data : PeersState) :
    p ∈ data.connectedPeers set ↔ data.Connected (set, p) := by
  simp only [connectedPeers, List.mem_toFinset, List.mem_map, List.mem_filter, Prod.exists]
  constructor
  · rintro ⟨_, node, ⟨hmem, hc⟩, rfl⟩
    rw [Connected, membership_of_get? (Dict.mem_entries.mp hmem)]
    exact hc
  · intro hc
    obtain ⟨node, hnode⟩ := Dict.mem_iff.mp (mem_nodes_of_membership hc.member)
    rw [Connected, membership_of_get? hnode] at hc
    exact ⟨p, node, ⟨Dict.mem_entries.mpr hnode, hc⟩, rfl⟩

theorem connected_of_enumerate (data : PeersState) (order : HashOrder) (set : SetId) :
    ∀ p ∈ order.enumerate (data.connectedPeers set), data.Connected (set, p) :=
  fun p hp => (mem_connectedPeers data).mp ((order.mem_enumerate _ p).mp hp)

theorem drops_unreserved (hs : s.data.Sized) (now : Instant) {l : List PeerId} (hnd : l.Nodup)
    (hl : ∀ p ∈ l, s.data.Connected (set, p)) :
    ∃ xs, Drops s xs (l.foldl (fun s p =>
      if p ∈ s.reserved set then s else s.disconnectAndDrop now set p) s) := by
  induction l generalizing s with
  | nil => exact ⟨[], .refl hs⟩
  | cons p l ih =>
    obtain ⟨hp, hnd⟩ := List.nodup_cons.mp hnd
    rw [List.foldl_cons]
    split
    · exact ih hs hnd fun q hq => hl q (List.mem_cons_of_mem _ hq)
    · have h := drops_disconnectAndDrop hs (hl p List.mem_cons_self) now
      obtain ⟨ys, hys⟩ := ih h.sized hnd (by
        intro q hq
        rw [h.connected]
        refine ⟨hl q (List.mem_cons_of_mem _ hq), ?_⟩
        simp only [List.mem_singleton, Prod.mk.injEq, true_and]
        rintro rfl
        exact hp hq)
      exact ⟨_, h.trans hys⟩

theorem drops_onSetReservedOnly (hs : s.data.Sized) (order : HashOrder) (now : Instant)
    (set : SetId) (reservedOnly : Bool) :
    ∃ xs, Drops s xs (s.onSetReservedOnly order now set reservedOnly) := by
  have h : Drops s [] { s with
      reservedNodes := s.reservedNodes.modify set fun r => (r.1, reservedOnly) } :=
    .of_same (.refl hs) rfl rfl
  unfold onSetReservedOnly allocSlots
  dsimp only
  split
  · obtain ⟨xs, hxs⟩ :=
      drops_unreserved h.sized now (order.nodup _) (connected_of_enumerate s.data order set)
    exact ⟨_, h.trans hxs⟩
  · exact ⟨_, h⟩

theorem drops_updateTime (hs : s.data.Sized) (now : Instant) : Drops s [] (s.updateTime now) :=
  .of_same (sameConnected_updateTime hs now) rfl rfl

theorem drops_peerReputation (hs : s.data.Sized) (p : PeerId) (f : ℤ → ℤ) :
    Drops s [] { s with data := s.data.peerReputation p f } :=
  .of_same (sameMembers_peerReputation hs p f).sameConnected rfl rfl

theorem drops_disconnectAll (hs : s.data.Sized) (now : Instant) (p : PeerId) (l : List SetId) :
    ∃ xs, Drops s xs (l.foldl (fun s set =>
      if s.data.peer set p = .connected then (s.disconnectAndDrop now set p).allocSlots set
      else s) s) := by
  apply drops_foldl _ l hs
  intro s set hs
  split
  · next hc => exact ⟨_, drops_disconnectAndDrop hs (peer_eq_connected.mp hc) now⟩
  · exact ⟨_, .refl hs⟩

theorem drops_onReportPeer (hs : s.data.Sized) (now : Instant) (p : PeerId) (change : ℤ) :
    ∃ xs, Drops s xs (s.onReportPeer now p change) := by
  have htime := drops_updateTime hs now
  have hrep := htime.trans (drops_peerReputation htime.sized p fun _ =>
    saturatingAdd ((s.updateTime now).data.reputation p) change)
  unfold onReportPeer
  dsimp only
  split
  · exact ⟨_, hrep⟩
  · obtain ⟨xs, hxs⟩ := drops_disconnectAll hrep.sized now p _
    exact ⟨_, hrep.trans hxs⟩

theorem drops_addToPeersSet (hs : s.data.Sized) (hset : set < s.data.numSets) (now : Instant)
    (p : PeerId) : Drops s [] (s.addToPeersSet now set p) := by
  unfold addToPeersSet allocSlots
  split
  · next hp =>
    have hc : ¬ s.data.Connected (set, p) := by
      rw [← peer_eq_connected, hp]
      simp
    exact .of_same ((moves_discover hs hset p now).sameConnected rfl hc) rfl rfl
  · exact .refl hs

theorem drops_onRemoveFromPeersSet (hs : s.data.Sized) (now : Instant) (set : SetId)
    (p : PeerId) : ∃ xs, Drops s xs (s.onRemoveFromPeersSet now set p) ∧
      (¬ s.data.Connected (set, p) → xs = []) := by
  unfold onRemoveFromPeersSet
  split
  · exact ⟨[], .refl hs, fun _ => rfl⟩
  · split
    · next hp =>
      have hc := peer_eq_connected.mp hp
      have h := drops_disconnectAndDrop hs hc now
      have hforget : SameConnected (s.data.disconnect set p now)
          ((s.data.disconnect set p now).forgetPeer set p) := by
        have hmove := moves_disconnect hs (lt_numSets_of_member hs hc.member) hc.member now
        apply sameConnected_forgetPeer hmove.sized
        · rw [hmove.membership]
          simp
        · rw [hmove.connected_iff]
          simp [MembershipState.isConnected]
      exact ⟨_, h.trans (.of_same hforget rfl rfl), fun hn => absurd hc hn⟩
    · next hp =>
      have hc : ¬ s.data.Connected (set, p) := by
        rw [← peer_eq_connected, hp]
        simp
      have hm : s.data.membership set p ≠ .notMember := by
        intro hm
        simp [peer, hm] at hp
      exact ⟨[], .of_same (sameConnected_forgetPeer hs hm hc) rfl rfl, fun _ => rfl⟩
    · exact ⟨[], .refl hs, fun _ => rfl⟩

theorem drops_onAction (hs : s.data.Sized) (order : HashOrder) (now : Instant) {action : Action}
    (hset : ∀ set ∈ action.set?, set < s.data.numSets)
    (hconnect : ∀ p, action ≠ .connectToPeer p) :
    ∃ xs, Drops s xs (s.onAction order now action) := by
  cases action with
  | addReservedPeer set p => exact ⟨[], drops_onAddReservedPeer hs set p⟩
  | removeReservedPeer set p => exact drops_onRemoveReservedPeer hs now set p
  | setReservedPeers set peers => exact drops_onSetReservedPeers hs order now set peers
  | setReservedOnly set reserved => exact drops_onSetReservedOnly hs order now set reserved
  | reportPeer p change => exact drops_onReportPeer hs now p change
  | addToPeersSet set p => exact ⟨[], drops_addToPeersSet hs (hset set rfl) now p⟩
  | removeFromPeersSet set p =>
    obtain ⟨xs, hxs, -⟩ := drops_onRemoveFromPeersSet hs now set p
    exact ⟨xs, hxs⟩
  | peerReputation p channel =>
    exact ⟨[], .of_same (sameMembers_peerReputation hs p id).sameConnected rfl rfl⟩
  | connectToPeer p => exact absurd rfl (hconnect p)

/-- The calls of the network leave the channel of the actions alone. -/
structure Answers (s : Peerset) (x : SetId × PeerId) (index : IncomingIndex) (s' : Peerset) :
    Prop where
  numSets : s'.data.numSets = s.data.numSets
  sized : s'.data.Sized
  rx : s'.rx = s.rx
  /-- A new peer is accepted and connected, or rejected; a connected one may get no answer. -/
  answer :
    s'.messageQueue = s.messageQueue ++ [.accept index] ∧ ¬ s.data.Connected x ∧
      (∀ y, s'.data.Connected y ↔ y = x ∨ s.data.Connected y) ∨
    s'.messageQueue = s.messageQueue ++ [.reject index] ∧
      (∀ y, s'.data.Connected y ↔ s.data.Connected y) ∨
    s'.messageQueue = s.messageQueue ∧ s.data.Connected x ∧
      ∀ y, s'.data.Connected y ↔ s.data.Connected y

theorem answers_reject {x : SetId × PeerId} {index : IncomingIndex}
    (h : SameConnected s.data t.data) (hrx : t.rx = s.rx)
    (hq : t.messageQueue = s.messageQueue) : Answers s x index (t.push (.reject index)) :=
  ⟨h.numSets, h.sized, hrx, .inr (.inl ⟨by simp [push, hq], h.connected⟩)⟩

theorem moves_enter {data : PeersState} (hs : data.Sized) (hset : set < data.numSets)
    (hc : ¬ data.Connected (set, p)) (now : Instant) :
    Moves data set p (.notConnected now) (enter now set p data) := by
  unfold Connected at hc
  unfold enter
  cases hm : data.membership set p with
  | notMember =>
    rw [if_pos (by simp [peer, hm])]
    exact moves_discover hs hset p now
  | notConnected last =>
    rw [if_neg (by simp [peer, hm]), bumpLastConnectedOrDiscovered, hm]
    have hmem : data.membership set p ≠ .notMember := by simp [hm]
    exact moves_setState hs hset (mem_nodes_of_membership hmem)
  | ingoing | outgoing => simp [hm, MembershipState.isConnected] at hc

theorem answers_answer (hs : s.data.Sized) (hset : set < s.data.numSets) (hp : p ∈ s.data.nodes)
    (hc : ¬ s.data.Connected (set, p)) (index : IncomingIndex) :
    Answers s (set, p) index (s.answer set p index) := by
  unfold answer
  split
  · exact answers_reject (.refl hs) rfl rfl
  · have hspec := tryAcceptIncoming_spec hs hset hp
    rcases htry : s.data.tryAcceptIncoming set p with ⟨_ | _, data⟩
    · rw [htry] at hspec
      obtain ⟨h, -⟩ | ⟨-, rfl⟩ := hspec
      · cases h
      · exact answers_reject (.refl hs) rfl rfl
    · rw [htry] at hspec
      obtain ⟨-, h⟩ | ⟨h, -⟩ := hspec
      · refine ⟨h.numSets, h.sized, rfl, .inl ⟨rfl, hc, fun y => ?_⟩⟩
        refine (h.connected_iff y).trans ?_
        by_cases hy : y = (set, p) <;> simp [hy, MembershipState.isConnected]
      · cases h

theorem Answers.of_same {x : SetId × PeerId} {index : IncomingIndex}
    (h : SameConnected s.data s'.data) (hrx : s'.rx = s.rx)
    (hq : s'.messageQueue = s.messageQueue) (ha : Answers s' x index t) :
    Answers s x index t := by
  have hans := ha.answer
  simp only [h.connected, hq] at hans
  exact ⟨ha.numSets.trans h.numSets, ha.sized, ha.rx.trans hrx, hans⟩

theorem answers_incoming (hs : s.data.Sized) (hset : set < s.data.numSets) (now : Instant)
    (p : PeerId) (index : IncomingIndex) :
    Answers s (set, p) index (s.incoming now set p index) := by
  have htime := sameConnected_updateTime hs now
  unfold incoming
  dsimp only
  split
  · exact answers_reject htime rfl rfl
  · split
    · next hp =>
      have hc := (htime.connected _).mp (peer_eq_connected.mp hp)
      exact ⟨htime.numSets, htime.sized, rfl, .inr (.inr ⟨rfl, hc, htime.connected⟩)⟩
    · next hp =>
      have hc : ¬ (s.updateTime now).data.Connected (set, p) := mt peer_eq_connected.mpr hp
      have henter := moves_enter htime.sized (htime.numSets ▸ hset) hc now
      have hsame := henter.sameConnected rfl hc
      have hmem : p ∈ (enter now set p (s.updateTime now).data).nodes := by
        apply mem_nodes_of_membership
        rw [henter.membership set p]
        simp
      have hset' : set < (enter now set p (s.updateTime now).data).numSets := by
        rw [henter.numSets, htime.numSets]
        exact hset
      have hans : ∀ u : Peerset, u.data = enter now set p (s.updateTime now).data →
          u.rx = s.rx → u.messageQueue = s.messageQueue →
          Answers s (set, p) index (u.answer set p index) := by
        intro u hu hrx hq
        rw [← hu] at hsame henter hmem hset'
        refine .of_same (htime.trans hsame) hrx hq (answers_answer henter.sized hset' hmem ?_ index)
        rwa [hsame.connected]
      exact hans _ rfl rfl rfl

structure Forgets (s : Peerset) (x : SetId × PeerId) (s' : Peerset) : Prop where
  numSets : s'.data.numSets = s.data.numSets
  sized : s'.data.Sized
  rx : s'.rx = s.rx
  queue : s'.messageQueue = s.messageQueue
  connected : ∀ y, s'.data.Connected y ↔ s.data.Connected y ∧ y ≠ x

theorem forgets_penalize (hs : s.data.Sized) (now : Instant) (set : SetId) (p : PeerId) :
    Forgets s (set, p) (s.penalize now set p) := by
  unfold penalize
  split
  · next hp =>
    have hrep := sameMembers_addReputation hs p disconnectReputationChange
    have hc := (hrep.sameConnected.connected _).mpr (peer_eq_connected.mp hp)
    have hset := lt_numSets_of_member hrep.sized hc.member
    have hmove := moves_disconnect hrep.sized hset hc.member now
    refine ⟨hmove.numSets.trans hrep.numSets, hmove.sized, rfl, rfl, fun y => ?_⟩
    refine (hmove.connected_iff y).trans ?_
    rw [hrep.sameConnected.connected]
    by_cases hy : y = (set, p) <;> simp [hy, MembershipState.isConnected]
  · next hp =>
    have hc := mt peer_eq_connected.mpr hp
    refine ⟨rfl, hs, rfl, rfl, fun y => (and_iff_left_of_imp ?_).symm⟩
    rintro hy rfl
    exact hc hy

theorem forgets_dropped (hs : s.data.Sized) (now : Instant) (set : SetId) (p : PeerId)
    (reason : DropReason) : Forgets s (set, p) (s.dropped now set p reason) := by
  have htime := drops_updateTime hs now
  have h := forgets_penalize htime.sized now set p
  have hc : ¬ ((s.updateTime now).penalize now set p).data.Connected (set, p) := by
    simp [h.connected]
  obtain ⟨xs, hxs, hnil⟩ := drops_onRemoveFromPeersSet h.sized now set p
  obtain rfl := hnil hc
  have hconn : ∀ y, ((s.updateTime now).penalize now set p).data.Connected y ↔
      s.data.Connected y ∧ y ≠ (set, p) := by
    intro y
    rw [h.connected, htime.connected]
    simp
  have hnum := h.numSets.trans htime.numSets
  unfold dropped allocSlots
  dsimp only
  split
  · refine ⟨hxs.numSets.trans hnum, hxs.sized, hxs.rx.trans h.rx, ?_, fun y => ?_⟩
    · rw [hxs.queue, h.queue]
      exact List.append_nil _
    · rw [hxs.connected, hconn]
      simp
  · exact ⟨hnum, h.sized, h.rx, h.queue, hconn⟩

section Config

theorem sized_new (sets : List SetConfig) : (PeersState.new sets).Sized := by
  intro p node h
  cases h

theorem sameConnected_bootnodes (now : Instant) {data : PeersState} (hs : data.Sized)
    {set : SetId} (hset : set < data.numSets) (bootnodes : List PeerId) :
    SameConnected data (bootnodes.foldl (fun data p =>
      if data.peer set p = .unknown then data.discover set p now else data) data) := by
  apply sameConnected_foldl _ _ hs
  intro d p hd hn
  split
  · next hp =>
    refine (moves_discover hd (hn ▸ hset) p now).sameConnected rfl ?_
    rw [← peer_eq_connected, hp]
    simp
  · exact .refl hd

theorem sameConnected_initSets (order : HashOrder) (now : Instant) {data : PeersState}
    (hs : data.Sized) (set : ℕ) (sets : List SetConfig)
    (hlen : set + sets.length = data.numSets) :
    SameConnected data (initSets order now data set sets) := by
  induction sets generalizing data set with
  | nil => exact .refl hs
  | cons config sets ih =>
    rw [List.length_cons] at hlen
    have hslots : SameConnected data
        ((order.enumerate config.reservedNodes).foldl (·.addNoSlotNode set) data) :=
      sameConnected_foldl (fun d p hd _ => (sameMembers_addNoSlotNode hd set p).sameConnected) _ hs
    have hset : set < data.numSets := by omega
    have hboot := hslots.trans
      (sameConnected_bootnodes now hslots.sized (hslots.numSets ▸ hset) config.bootnodes)
    rw [initSets]
    apply hboot.trans
    apply ih hboot.sized
    have hnum := hboot.numSets
    omega

theorem fromConfig_spec (order : HashOrder) (now : Instant) (sets : List SetConfig) :
    (fromConfig order now sets).data.Sized ∧
      ∀ x, ¬ (fromConfig order now sets).data.Connected x := by
  have h := sameConnected_initSets order now (sized_new sets) 0 sets
    (by simp [PeersState.new, numSets])
  refine ⟨h.sized, fun x => ?_⟩
  rw [fromConfig, h.connected]
  simp [Connected, membership, PeersState.new, MembershipState.isConnected]

theorem numSets_fromConfig (order : HashOrder) (now : Instant) (sets : List SetConfig) :
    (fromConfig order now sets).data.numSets = sets.length := by
  have h := sameConnected_initSets order now (sized_new sets) 0 sets
    (by simp [PeersState.new, numSets])
  rw [fromConfig, h.numSets]
  simp [PeersState.new, numSets]

end Config

end Peerset

end SwarmHost.Substrate
