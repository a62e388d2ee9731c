import SwarmHost.Peerset.Reputation

/-! # Who is admitted

A peer gets connected only by an incoming connection that is accepted. In a set
that is for reserved peers only, nobody else is connected; and as long as no
connected peer loses its reservation, the incoming slots of a set suffice.
-/

namespace SwarmHost.Substrate

namespace PeersState

variable {d d' : PeersState} {op : Operation} {P : Operation → Prop} {set : SetId} {p : PeerId}
  {m : MembershipState}

def NoOutgoing (d : PeersState) : Prop := ∀ set p, d.membership set p ≠ .outgoing

theorem SameMembers.noOutgoing (h : SameMembers d d') (hd : d.NoOutgoing) : d'.NoOutgoing := by
  intro set p
  rw [h.membership]
  exact hd set p

theorem Moves.noOutgoing (h : Moves d set p m d') (hd : d.NoOutgoing) (hm : m ≠ .outgoing) :
    d'.NoOutgoing := by
  intro set' p'
  rw [h.membership]
  split
  · exact hm
  · exact hd set' p'

theorem noOutgoing_exec (hd : d.NoOutgoing) (hs : d.Sized) (h : d.Allowed op)
    (hop : ∀ set p, op ≠ .tryOutgoing set p) : (d.exec op).NoOutgoing := by
  cases op with
  | addNoSlotNode set p => exact (sameMembers_addNoSlotNode hs set p).noOutgoing hd
  | removeNoSlotNode set p => exact (sameMembers_removeNoSlotNode hs set p).noOutgoing hd
  | disconnect set p now =>
    have hc := peer_eq_connected.mp h.2
    exact (moves_disconnect hs h.1 hc.member now).noOutgoing hd (by simp)
  | addReputation set p modifier => exact (sameMembers_addReputation hs p modifier).noOutgoing hd
  | bumpLastConnectedOrDiscovered set p now =>
    have hp : p ∈ d.nodes := mem_nodes_of_peer (by rw [h.2]; simp)
    simp only [exec, bumpLastConnectedOrDiscovered]
    split
    · exact (moves_setState hs h.1 hp).noOutgoing hd (by simp)
    · exact hd
  | tryOutgoing set p => exact absurd rfl (hop set p)
  | tryAcceptIncoming set p =>
    have hp : p ∈ d.nodes := mem_nodes_of_peer (by rw [h.2]; simp)
    rcases tryAcceptIncoming_spec hs h.1 hp with ⟨-, hmoves⟩ | ⟨-, heq⟩
    · exact hmoves.noOutgoing hd (by simp)
    · rw [exec, heq]
      exact hd
  | forgetPeer set p =>
    have hp : p ∈ d.nodes := mem_nodes_of_peer (by rw [h.2]; simp)
    exact (moves_forgetPeer hs h.1 hp).noOutgoing hd (by simp)
  | discover set p now => exact (moves_discover hs h.1 p now).noOutgoing hd (by simp)
  | peerReputation p f => exact (sameMembers_peerReputation hs p f).noOutgoing hd

theorem Issues.noOutgoing (h : Issues P d d') (hP : ∀ op, P op → ∀ set p, op ≠ .tryOutgoing set p)
    (hd : d.NoOutgoing) (hacc : d.Accounted) : d'.NoOutgoing := by
  refine (h.invariant (I := fun e => e.Accounted ∧ e.NoOutgoing) ?_ ⟨hacc, hd⟩).2
  rintro e op hop hallowed ⟨he, hout⟩
  exact ⟨accounted_exec he hallowed, noOutgoing_exec hout he.sized hallowed (hP op hop)⟩

/-- The incoming slots suffice. -/
def WithinSlots (d : PeersState) : Prop :=
  ∀ set, (d.setInfo set).numIn ≤ (d.setInfo set).maxIn

theorem WithinSlots.of_sets (hd : d.WithinSlots) (h : d'.sets = d.sets) : d'.WithinSlots := by
  intro set
  rw [setInfo_of_sets h]
  exact hd set

theorem WithinSlots.modifySet (hd : d.WithinSlots) (set : SetId) {f : SetInfo → SetInfo}
    (hin : ∀ info, (f info).numIn = info.numIn) (hmax : ∀ info, (f info).maxIn = info.maxIn) :
    (d.modifySet set f).WithinSlots := by
  intro set'
  rw [field_modifySet SetInfo.numIn hin, field_modifySet SetInfo.maxIn hmax]
  exact hd set'

theorem WithinSlots.adjustSlots {f : ℕ → ℕ} (hd : d.WithinSlots) (hset : set < d.numSets)
    (hf : m = .ingoing → f (d.setInfo set).numIn ≤ (d.setInfo set).maxIn) :
    (d.adjustSlots set m f).WithinSlots := by
  intro set'
  rw [setInfo_adjustSlots hset]
  split
  · cases m with
    | ingoing => exact hf rfl
    | outgoing | notMember | notConnected => exact hd set
  · exact hd set'

theorem WithinSlots.release (hd : d.WithinSlots) (hset : set < d.numSets) (m : MembershipState) :
    (d.adjustSlots set m (· - 1)).WithinSlots :=
  hd.adjustSlots hset fun _ => (Nat.sub_le _ 1).trans (hd set)

/-- Only a connected peer that loses its reservation may take a slot that there is not. -/
theorem withinSlots_exec (hd : d.WithinSlots) (h : d.Allowed op)
    (hop : ∀ set p, op = .removeNoSlotNode set p → d.noSlot set p → ¬ d.Connected (set, p)) :
    (d.exec op).WithinSlots := by
  cases op with
  | addNoSlotNode set p =>
    simp only [exec, addNoSlotNode]
    split
    · exact hd
    · have hmod : (d.modifySet set fun info =>
          { info with noSlotNodes := insert p info.noSlotNodes }).WithinSlots :=
        hd.modifySet set (fun _ => rfl) fun _ => rfl
      apply hmod.release
      rw [numSets, PeersState.modifySet, List.length_modify]
      exact h
  | removeNoSlotNode set p =>
    simp only [exec, removeNoSlotNode]
    split
    · next hno =>
      have hmod : (d.modifySet set fun info =>
          { info with noSlotNodes := info.noSlotNodes.erase p }).WithinSlots :=
        hd.modifySet set (fun _ => rfl) fun _ => rfl
      apply hmod.adjustSlots
      · rw [numSets, PeersState.modifySet, List.length_modify]
        exact h
      · intro hm
        refine absurd ?_ (hop set p rfl hno)
        rw [Connected, hm]
        rfl
    · exact hd
  | disconnect set p now =>
    simp only [exec, disconnect]
    split
    · exact hd
    · exact hd.release h.1 _
  | addReputation set p modifier => exact hd
  | bumpLastConnectedOrDiscovered set p now =>
    simp only [exec, bumpLastConnectedOrDiscovered]
    split <;> exact hd
  | tryOutgoing set p =>
    simp only [exec, tryOutgoing]
    split
    · exact hd
    · split
      · have hstate : (d.setState set p .outgoing).WithinSlots := hd
        exact hstate.adjustSlots h.1 (by simp)
      · exact hd
  | tryAcceptIncoming set p =>
    simp only [exec, tryAcceptIncoming]
    split
    · exact hd
    · next hfull =>
      split
      · next hp =>
        have hstate : (d.setState set p .ingoing).WithinSlots := hd
        refine hstate.adjustSlots h.1 fun _ => ?_
        by_contra hgt
        exact hfull ⟨Nat.lt_succ_iff.mp (not_le.mp hgt), hp.2⟩
      · exact hd
  | forgetPeer set p => exact hd.of_sets (sets_cleanUp _ p)
  | discover set p now => exact hd
  | peerReputation p f => exact hd.of_sets (sets_cleanUp _ p)

theorem Issues.withinSlots (h : Issues P d d')
    (hP : ∀ op, P op → ∀ set p, op ≠ .removeNoSlotNode set p) (hd : d.WithinSlots) :
    d'.WithinSlots :=
  h.invariant (fun _ op hop hallowed he => withinSlots_exec he hallowed fun set p heq =>
    absurd heq (hP op hop set p)) hd

end PeersState

namespace Peerset

open PeersState

section Guarded

variable {order : HashOrder} {now : Instant} {s s' : Peerset} {set : SetId} {p : PeerId}

/-- In a set that is for reserved peers only, nobody else is connected. -/
def Guarded (s : Peerset) : Prop :=
  ∀ set p, s.reservedOnly set → s.data.Connected (set, p) → p ∈ s.reserved set

theorem Guarded.mono (h : s.Guarded) (hc : ∀ x, s'.data.Connected x → s.data.Connected x)
    (hr : ∀ set, s.reserved set ⊆ s'.reserved set)
    (honly : ∀ set, s'.reservedOnly set = s.reservedOnly set) : s'.Guarded :=
  fun set p ho hp => hr set (h set p (honly set ▸ ho) (hc (set, p) hp))

theorem Guarded.keep (h : s.Guarded) (hc : ∀ x, s'.data.Connected x → s.data.Connected x)
    (hr : s'.reservedNodes = s.reservedNodes) : s'.Guarded := by
  apply h.mono hc
  · intro set
    rw [reserved, reserved, hr]
  · intro set
    rw [reservedOnly, reservedOnly, hr]

theorem Drops.connected_of {xs : List (SetId × PeerId)} (h : Drops s xs s') (x : SetId × PeerId)
    (hx : s'.data.Connected x) : s.data.Connected x :=
  ((h.connected x).mp hx).1

theorem guarded_onAddReservedPeer (h : s.Guarded) (hs : s.Sound) (hset : set < s.data.numSets)
    (p : PeerId) : (s.onAddReservedPeer set p).Guarded := by
  apply h.mono (drops_onAddReservedPeer hs.accounted.sized set p).connected_of
  · intro set'
    unfold onAddReservedPeer allocSlots
    split
    · exact subset_rfl
    · simp only [reserved, reserved_modify (hs.length ▸ hset)]
      split
      · next heq =>
        rw [heq]
        exact Finset.subset_insert p _
      · exact subset_rfl
  · intro set'
    unfold onAddReservedPeer allocSlots
    split
    · rfl
    · simp only [reservedOnly, reserved_modify (hs.length ▸ hset)]
      split
      · next heq => rw [heq]
      · rfl

theorem guarded_onRemoveReservedPeer (h : s.Guarded) (hs : s.Sound) (hset : set < s.data.numSets)
    (p : PeerId) : (s.onRemoveReservedPeer now set p).Guarded := by
  unfold onRemoveReservedPeer
  split
  · dsimp only
    have hsame := sameMembers_removeNoSlotNode hs.accounted.sized set p
    -- the peer itself is looked at below
    have hbut : ∀ set' q, (set', q) ≠ (set, p) →
        reservedOnly { s with
          reservedNodes := s.reservedNodes.modify set fun r => (r.1.erase p, r.2)
          data := s.data.removeNoSlotNode set p } set' →
        (s.data.removeNoSlotNode set p).Connected (set', q) →
        q ∈ reserved { s with
          reservedNodes := s.reservedNodes.modify set fun r => (r.1.erase p, r.2)
          data := s.data.removeNoSlotNode set p } set' := by
      intro set' q hne honly hc
      have hold := h set' q
      rw [hsame.sameConnected.connected] at hc
      simp only [reservedOnly, reserved, reserved_modify (hs.length ▸ hset)] at honly hold ⊢
      split at honly
      · next heq =>
        subst heq
        rw [if_pos rfl]
        refine Finset.mem_erase.mpr ⟨?_, hold honly hc⟩
        rintro rfl
        exact hne rfl
      · next heq =>
        rw [if_neg heq]
        exact hold honly hc
    split
    · next hc =>
      have hdrops := drops_disconnectAndDrop hsame.sized (peer_eq_connected.mp hc.2) now
        (s := { s with
          reservedNodes := s.reservedNodes.modify set fun r => (r.1.erase p, r.2)
          data := s.data.removeNoSlotNode set p })
      intro set' q honly hx
      obtain ⟨hold, hne⟩ := (hdrops.connected _).mp hx
      exact hbut set' q (by simpa using hne) honly hold
    · next hc =>
      intro set' q honly hx
      by_cases heq : (set', q) = (set, p)
      · obtain ⟨rfl, rfl⟩ := Prod.mk.inj heq
        exact absurd ⟨honly, peer_eq_connected.mpr hx⟩ hc
      · exact hbut set' q heq honly hx
  · exact h

theorem onSetReservedPeers_invariant {I : Peerset → Prop} {peers : Finset PeerId} (hs : s.Sound)
    (hset : set < s.data.numSets)
    (hadd : ∀ (t : Peerset) p, t.Sound → set < t.data.numSets → I t → I (t.onAddReservedPeer set p))
    (hremove : ∀ (t : Peerset), ∀ p ∈ s.reserved set \ peers, t.Sound → set < t.data.numSets → I t →
      I (t.onRemoveReservedPeer now set p))
    (h : I s) : I (s.onSetReservedPeers order now set peers) := by
  let J : Peerset → Prop := fun t => I t ∧ t.Sound ∧ t.data.numSets = s.data.numSets
  unfold onSetReservedPeers
  have hadds : J ((order.enumerate (peers \ s.reserved set)).foldl
      (fun s node => s.onAddReservedPeer set node) s) := by
    apply List.foldlRecOn (motive := J) _ _ ⟨h, hs, rfl⟩
    rintro t ⟨ht, hts, hnum⟩ a -
    have hd := does_onAddReservedPeer hts (hnum ▸ hset) a
    exact ⟨hadd t a hts (hnum ▸ hset) ht, hd.sound, (hd.numSets hts).trans hnum⟩
  apply And.left
  apply List.foldlRecOn (motive := J) _ _ hadds
  rintro t ⟨ht, hts, hnum⟩ a ha
  have hd : Does _ t _ (t.onRemoveReservedPeer now set a) :=
    does_onRemoveReservedPeer hts (hnum ▸ hset) a
  exact ⟨hremove t a ((order.mem_enumerate _ a).mp ha) hts (hnum ▸ hset) ht, hd.sound,
    (hd.numSets hts).trans hnum⟩

theorem not_connected_unreserved (hs : s.data.Sized) {l : List PeerId} (hnd : l.Nodup)
    (hl : ∀ p ∈ l, s.data.Connected (set, p)) (hp : p ∈ l) (hr : p ∉ s.reserved set) :
    ¬ (l.foldl (fun s p =>
      if p ∈ s.reserved set then s else s.disconnectAndDrop now set p) s).data.Connected
        (set, p) := by
  induction l generalizing s with
  | nil => cases hp
  | cons q l ih =>
    obtain ⟨hq, hl'⟩ := List.nodup_cons.mp hnd
    rw [List.foldl_cons]
    split
    · next hqr =>
      have hpl : p ∈ l := by
        rcases List.mem_cons.mp hp with rfl | hp
        · exact absurd hqr hr
        · exact hp
      exact ih hs hl' (fun a ha => hl a (List.mem_cons_of_mem _ ha)) hpl hr
    · have h := drops_disconnectAndDrop hs (hl q List.mem_cons_self) now
      have hrest : ∀ a ∈ l, (s.disconnectAndDrop now set q).data.Connected (set, a) := by
        intro a ha
        rw [h.connected]
        refine ⟨hl a (List.mem_cons_of_mem _ ha), ?_⟩
        simp only [List.mem_singleton, Prod.mk.injEq, true_and]
        rintro rfl
        exact hq ha
      rcases List.mem_cons.mp hp with rfl | hp
      · obtain ⟨xs, hxs⟩ := drops_unreserved h.sized now hl' hrest
        intro hc
        exact ((h.connected _).mp (hxs.connected_of _ hc)).2 (by simp)
      · exact ih h.sized hl' hrest hp hr

theorem reservedNodes_unreserved (s : Peerset) (l : List PeerId) :
    (l.foldl (fun s p =>
      if p ∈ s.reserved set then s else s.disconnectAndDrop now set p) s).reservedNodes =
        s.reservedNodes := by
  apply List.foldlRecOn (motive := fun t : Peerset => t.reservedNodes = s.reservedNodes) _ _ rfl
  intro t ht a _
  split <;> exact ht

theorem guarded_onSetReservedOnly (h : s.Guarded) (hs : s.Sound) (hset : set < s.data.numSets)
    (only : Bool) : (s.onSetReservedOnly order now set only).Guarded := by
  have hlen : set < s.reservedNodes.length := hs.length ▸ hset
  have hother : ∀ set' ≠ set, reservedOnly { s with
      reservedNodes := s.reservedNodes.modify set fun r => (r.1, only) } set' =
        s.reservedOnly set' := by
    intro set' hne
    rw [reservedOnly, reserved_modify hlen, if_neg hne]
    rfl
  unfold onSetReservedOnly allocSlots
  dsimp only
  split
  · have hall := connected_of_enumerate s.data order set
    intro set' q honly hc
    obtain ⟨xs, hxs⟩ := drops_unreserved (s := { s with
      reservedNodes := s.reservedNodes.modify set fun r => (r.1, only) }) hs.accounted.sized now
      (order.nodup _) hall
    have hold : s.data.Connected (set', q) := hxs.connected_of _ hc
    rw [reservedOnly, reservedNodes_unreserved] at honly
    rw [reserved, reservedNodes_unreserved]
    change q ∈ reserved { s with
      reservedNodes := s.reservedNodes.modify set fun r => (r.1, only) } set'
    by_cases heq : set' = set
    · subst heq
      by_contra hq
      have hmem : q ∈ order.enumerate (s.data.connectedPeers set') :=
        (order.mem_enumerate _ q).mpr ((mem_connectedPeers s.data).mpr hold)
      exact not_connected_unreserved (s := { s with
        reservedNodes := s.reservedNodes.modify set' fun r => (r.1, only) }) hs.accounted.sized
        (order.nodup _) hall hmem hq hc
    · rw [reserved_flag hlen]
      exact h set' q (hother set' heq ▸ honly) hold
  · next hfalse =>
    intro set' q honly hc
    rw [reserved_flag hlen]
    by_cases heq : set' = set
    · rw [heq, reservedOnly, reserved_modify hlen, if_pos rfl] at honly
      exact absurd honly hfalse
    · exact h set' q (hother set' heq ▸ honly) hc

theorem reservedNodes_onReportPeer (s : Peerset) (p : PeerId) (change : ℤ) :
    (s.onReportPeer now p change).reservedNodes = s.reservedNodes := by
  unfold onReportPeer
  dsimp only
  split
  · rfl
  · refine List.foldlRecOn (motive := fun t : Peerset => t.reservedNodes = s.reservedNodes)
      _ _ ?_ ?_
    · rfl
    · intro t ht a _
      split <;> exact ht

theorem reservedNodes_onRemoveFromPeersSet (s : Peerset) (p : PeerId) :
    (s.onRemoveFromPeersSet now set p).reservedNodes = s.reservedNodes := by
  unfold onRemoveFromPeersSet
  split
  · rfl
  · split <;> rfl

theorem guarded_onAction (h : s.Guarded) (hs : s.Sound) {action : Action}
    (hset : ∀ set ∈ action.set?, set < s.data.numSets) :
    (s.onAction order now action).Guarded := by
  have hc : (∀ p, action ≠ .connectToPeer p) →
      ∀ x, (s.onAction order now action).data.Connected x → s.data.Connected x := by
    intro hne
    obtain ⟨xs, hxs⟩ := drops_onAction hs.accounted.sized order now hset hne
    exact hxs.connected_of
  cases action with
  | addReservedPeer set p => exact guarded_onAddReservedPeer h hs (hset set rfl) p
  | removeReservedPeer set p => exact guarded_onRemoveReservedPeer h hs (hset set rfl) p
  | setReservedPeers set peers =>
    exact onSetReservedPeers_invariant hs (hset set rfl)
      (fun _ p ht hlt hg => guarded_onAddReservedPeer hg ht hlt p)
      (fun _ p _ ht hlt hg => guarded_onRemoveReservedPeer hg ht hlt p) h
  | setReservedOnly set only => exact guarded_onSetReservedOnly h hs (hset set rfl) only
  | reportPeer p change => exact h.keep (hc (by simp)) (reservedNodes_onReportPeer s p change)
  | addToPeersSet set p =>
    apply h.keep (hc (by simp))
    simp only [onAction, addToPeersSet, allocSlots]
    split <;> rfl
  | removeFromPeersSet set p =>
    exact h.keep (hc (by simp)) (reservedNodes_onRemoveFromPeersSet s p)
  | peerReputation p channel => exact h.keep (hc (by simp)) rfl
  | connectToPeer p => exact h

theorem reservedNodes_incoming (s : Peerset) (p : PeerId) (index : IncomingIndex) :
    (s.incoming now set p index).reservedNodes = s.reservedNodes := by
  unfold incoming answer
  dsimp only
  split
  · rfl
  · split
    · rfl
    · split
      · rfl
      · split <;> rfl

theorem guarded_incoming (h : s.Guarded) (hs : s.Sound) (hset : set < s.data.numSets) (p : PeerId)
    (index : IncomingIndex) : (s.incoming now set p index).Guarded := by
  have hr : (s.incoming now set p index).reservedNodes = s.reservedNodes :=
    reservedNodes_incoming s p index
  rcases (answers_incoming hs.accounted.sized hset now p index).answer with
    ⟨hq, -, hc⟩ | ⟨-, hc⟩ | ⟨-, -, hc⟩
  · intro set' q honly hx
    rw [reservedOnly, hr] at honly
    rw [reserved, hr]
    rcases (hc _).mp hx with heq | hx
    · obtain ⟨rfl, rfl⟩ := Prod.mk.inj heq
      exact (admitted_of_accept hs hset hq).reserved honly
    · exact h set' q honly hx
  · exact h.keep (fun x => (hc x).mp) hr
  · exact h.keep (fun x => (hc x).mp) hr

theorem reservedNodes_dropped (s : Peerset) (p : PeerId) (reason : DropReason) :
    (s.dropped now set p reason).reservedNodes = s.reservedNodes := by
  have hpen : ((s.updateTime now).penalize now set p).reservedNodes = s.reservedNodes := by
    unfold penalize
    split <;> rfl
  unfold dropped allocSlots
  dsimp only
  split
  · rw [reservedNodes_onRemoveFromPeersSet, hpen]
  · exact hpen

theorem guarded_dropped (h : s.Guarded) (hs : s.Sound) (p : PeerId) (reason : DropReason) :
    (s.dropped now set p reason).Guarded :=
  h.keep (fun x hx => (((forgets_dropped hs.accounted.sized now set p reason).connected x).mp hx).1)
    (reservedNodes_dropped s p reason)

theorem guarded_next {event : Event} (h : s.Guarded) (hs : s.Sound) (hrx : s.Pending s.rx)
    (hrange : s.InRange event) : (s.next event).Guarded := by
  cases event with
  | send action => exact h
  | incoming now set p index => exact guarded_incoming h hs hrange p index
  | dropped now set p reason => exact guarded_dropped h hs p reason
  | poll order now =>
    exact pollLoop_invariant (C := fun _ _ => True)
      (fun _ _ ht hset _ hg => guarded_onAction hg ht hset) (fun _ _ _ hg => hg) hs hrx
      (handles_of_forall (fun _ _ => trivial) s s.rx) h

end Guarded

section Accepting

variable {order : HashOrder} {now : Instant} {s : Peerset}

def emitted (s : Peerset) : Event → Option Message
  | .poll order now => (s.pollNext order now).1
  | .send _ | .incoming .. | .dropped .. => none

/-- The event queues a message that accepts a connection. -/
def Accepts (s : Peerset) (event : Event) (index : IncomingIndex) : Prop :=
  s.messageQueue.count (.accept index) <
    ((s.emitted event).toList ++ (s.next event).messageQueue).count (.accept index)

theorem count_accept_onAction (hs : s.data.Sized) {action : Action}
    (hset : ∀ set ∈ action.set?, set < s.data.numSets) (index : IncomingIndex) :
    (s.onAction order now action).messageQueue.count (.accept index) =
      s.messageQueue.count (.accept index) := by
  by_cases hconnect : ∃ p, action = .connectToPeer p
  · obtain ⟨p, rfl⟩ := hconnect
    simp [onAction, connectToPeer, push]
  · obtain ⟨xs, hxs⟩ := drops_onAction hs order now hset fun p hp => hconnect ⟨p, hp⟩
    have hdrop : (xs.map fun x => Message.drop x.1 x.2).count (.accept index) = 0 :=
      List.count_eq_zero.mpr (by simp)
    rw [hxs.queue, List.count_append, hdrop, Nat.add_zero]

theorem count_accept_pollLoop (hs : s.Sound) {actions : List Action} (ha : s.Pending actions)
    (index : IncomingIndex) :
    ((s.pollLoop order now actions).1.toList ++
        (s.pollLoop order now actions).2.messageQueue).count (.accept index) =
      s.messageQueue.count (.accept index) := by
  induction actions generalizing s with
  | nil =>
    unfold pollLoop
    split
    · next hq => simp [hq]
    · next hq =>
      rw [hq]
      rfl
  | cons action actions ih =>
    unfold pollLoop
    split
    · have hset := ha action List.mem_cons_self
      have hd :
          Does (¬ ·.connects) s (s.onAction? order now action) (s.onAction order now action) :=
        does_onAction hs hset
      rw [← count_accept_onAction hs.accounted.sized hset index]
      apply ih hd.sound
      intro a hmem
      rw [hd.numSets hs]
      exact ha a (List.mem_cons_of_mem _ hmem)
    · next hq =>
      rw [hq]
      rfl

theorem admitted_of_accepts {event : Event} {index : IncomingIndex} (hs : s.Sound)
    (hrx : s.Pending s.rx) (hrange : s.InRange event) (h : s.Accepts event index) :
    ∃ now set p, event = .incoming now set p index ∧ ¬ s.data.Connected (set, p) ∧
      s.Admitted now set p := by
  unfold Accepts at h
  cases event with
  | send action => exact absurd h (lt_irrefl _)
  | incoming now set p i =>
    simp only [emitted, next, Option.toList_none, List.nil_append] at h
    rcases (answers_incoming hs.accounted.sized hrange now p i).answer with
      ⟨hq, hc, -⟩ | ⟨hq, -⟩ | ⟨hq, -, -⟩
    · have hi : i = index := by
        by_contra hne
        simp [hq, hne] at h
      subst hi
      exact ⟨now, set, p, rfl, hc, admitted_of_accept hs hrange hq⟩
    · simp [hq] at h
    · simp [hq] at h
  | dropped now set p reason =>
    simp [emitted, next, (forgets_dropped hs.accounted.sized now set p reason).queue] at h
  | poll order now =>
    rw [emitted, next, pollNext, count_accept_pollLoop hs hrx] at h
    exact absurd h (lt_irrefl _)

end Accepting

section Slots

variable {order : HashOrder} {now : Instant} {s s' : Peerset} {set : SetId} {p : PeerId}

def Retains (s : Peerset) : Action → Prop
  | .removeReservedPeer set p => p ∈ s.reserved set → ¬ s.data.Connected (set, p)
  | .setReservedPeers set peers => ∀ p ∈ s.reserved set \ peers, ¬ s.data.Connected (set, p)
  | _ => True

instance (s : Peerset) : DecidablePred s.Retains
  | .removeReservedPeer .. | .setReservedPeers .. => by unfold Retains; infer_instance
  | .addReservedPeer .. | .setReservedOnly .. | .reportPeer .. | .addToPeersSet ..
  | .removeFromPeersSet .. | .peerReputation .. | .connectToPeer _ => .isTrue trivial

/-- No connected peer loses its reservation. -/
def KeepsReserved (s : Peerset) : Event → Prop
  | .poll order now => Handles order now Retains s s.rx
  | .send _ | .incoming .. | .dropped .. => True

instance (s : Peerset) : DecidablePred s.KeepsReserved
  | .poll .. => by unfold KeepsReserved; infer_instance
  | .send _ | .incoming .. | .dropped .. => .isTrue trivial

theorem withinSlots_onRemoveReservedPeer (h : s.data.WithinSlots) (hs : s.Sound)
    (hset : set < s.data.numSets) (hc : p ∈ s.reserved set → ¬ s.data.Connected (set, p)) :
    (s.onRemoveReservedPeer now set p).data.WithinSlots := by
  unfold onRemoveReservedPeer
  split
  · next hp =>
    dsimp only
    have hsame := sameMembers_removeNoSlotNode hs.accounted.sized set p
    have hallowed : s.data.Allowed (.removeNoSlotNode set p) := hset
    have hremove : (s.data.removeNoSlotNode set p).WithinSlots := by
      apply withinSlots_exec h hallowed
      rintro set' p' heq -
      obtain ⟨rfl, rfl⟩ := Operation.removeNoSlotNode.inj heq
      exact hc hp
    split
    · next hcon =>
      refine absurd ?_ (hc hp)
      exact (hsame.sameConnected.connected _).mp (peer_eq_connected.mp hcon.2)
    · exact hremove
  · exact h

theorem connected_onRemoveReservedPeer (hs : s.Sound) (x : SetId × PeerId)
    (hx : (s.onRemoveReservedPeer now set p).data.Connected x) : s.data.Connected x := by
  obtain ⟨xs, hxs⟩ := drops_onRemoveReservedPeer hs.accounted.sized now set p
  exact hxs.connected_of x hx

theorem withinSlots_onAction (h : s.data.WithinSlots) (hs : s.Sound) {action : Action}
    (hset : ∀ set ∈ action.set?, set < s.data.numSets) (hretains : s.Retains action) :
    (s.onAction order now action).data.WithinSlots := by
  have hfades : ∀ op : Operation, Fades op → ∀ set p, op ≠ .removeNoSlotNode set p := by
    rintro op hop set p rfl
    exact hop.2 rfl
  have hstill : ∀ op : Operation, op.Still → ∀ set p, op ≠ .removeNoSlotNode set p :=
    fun op hop => hfades op (.of_still hop)
  cases action with
  | addReservedPeer set p =>
    apply (does_onAddReservedPeer hs (hset set rfl) p).issues.withinSlots _ h
    rintro op rfl
    simp
  | removeReservedPeer set p => exact withinSlots_onRemoveReservedPeer h hs (hset set rfl) hretains
  | setReservedPeers set peers =>
    refine (onSetReservedPeers_invariant (I := fun t => t.data.WithinSlots ∧
      ∀ x, t.data.Connected x → s.data.Connected x) hs (hset set rfl) ?_ ?_ ⟨h, fun _ h => h⟩).1
    · rintro t p ht hlt ⟨hslots, hc⟩
      refine ⟨(does_onAddReservedPeer ht hlt p).issues.withinSlots ?_ hslots, fun x hx => ?_⟩
      · rintro op rfl
        simp
      · exact hc x ((drops_onAddReservedPeer ht.accounted.sized set p).connected_of x hx)
    · rintro t p hp ht hlt ⟨hslots, hc⟩
      refine ⟨withinSlots_onRemoveReservedPeer hslots ht hlt fun _ hx => ?_, fun x hx => ?_⟩
      · exact hretains p hp (hc _ hx)
      · exact hc x (connected_onRemoveReservedPeer ht x hx)
  | setReservedOnly set only =>
    exact (does_onSetReservedOnly hs (hset set rfl) only).issues.withinSlots hstill h
  | reportPeer p change => exact (does_onReportPeer hs p change).issues.withinSlots hfades h
  | addToPeersSet set p =>
    exact (does_addToPeersSet hs (hset set rfl) p).issues.withinSlots hstill h
  | removeFromPeersSet set p =>
    exact (does_onRemoveFromPeersSet hs (hset set rfl) p).issues.withinSlots hstill h
  | peerReputation p channel => exact (issues_peerReputation s.data p id).withinSlots hfades h
  | connectToPeer p => exact h

theorem withinSlots_next {event : Event} (h : s.data.WithinSlots) (hs : s.Sound)
    (hrx : s.Pending s.rx) (hrange : s.InRange event) (hkeeps : s.KeepsReserved event) :
    (s.next event).data.WithinSlots := by
  cases event with
  | send action => exact h
  | incoming now set p index =>
    apply (does_incoming hs hrange p index).issues.withinSlots _ h
    rintro op hop set p rfl
    exact hop.1 rfl
  | dropped now set p reason =>
    apply (does_dropped hs hrange p reason).issues.withinSlots _ h
    rintro op hop set p rfl
    exact hop.2 rfl
  | poll order now =>
    exact pollLoop_invariant (I := fun t => t.data.WithinSlots) (C := Retains)
      (fun _ _ ht hset hc hslots => withinSlots_onAction hslots ht hset hc)
      (fun _ _ _ hslots => hslots) hs hrx hkeeps h

theorem issues_next {event : Event} (hs : s.Sound) (hrx : s.Pending s.rx)
    (hrange : s.InRange event) :
    s.data.Issues (fun op => ∀ set p, op ≠ .tryOutgoing set p) (s.next event).data := by
  have hconnects : ∀ op : Operation, ¬ op.connects → ∀ set p, op ≠ .tryOutgoing set p := by
    rintro op hop set p rfl
    exact hop rfl
  cases event with
  | send action => exact .refl _
  | incoming now set p index => exact (does_incoming hs hrange p index).issues.mono fun _ h => h.2
  | dropped now set p reason =>
    exact (does_dropped hs hrange p reason).issues.mono fun op h => hconnects op h.1
  | poll order now => exact (does_pollLoop order now hs hrx).2.1.mono hconnects

end Slots

section Admission

variable {sets : List SetConfig}

def Configured (sets : List SetConfig) (s : Peerset) : Prop :=
  ∀ set config, sets[set]? = some config → (s.data.setInfo set).maxIn = config.inPeers

theorem setInfo_new {set : SetId} {config : SetConfig} (h : sets[set]? = some config) :
    (PeersState.new sets).setInfo set = ⟨0, 0, config.inPeers, config.outPeers, ∅⟩ := by
  simp [setInfo, PeersState.new, h]

theorem issues_fromConfig (order : HashOrder) (now : Instant) (sets : List SetConfig) :
    (PeersState.new sets).Issues (¬ ·.connects) (fromConfig order now sets).data := by
  have hlen : 0 + sets.length = (PeersState.new sets).numSets := by
    simp [PeersState.new, PeersState.numSets]
  exact (does_initSets (accounted_new sets) hlen).2

theorem configured_fromConfig (order : HashOrder) (now : Instant) (sets : List SetConfig) :
    (fromConfig order now sets).Configured sets := by
  intro set config hconfig
  rw [(issues_fromConfig order now sets).maxIn, setInfo_new hconfig]

theorem withinSlots_fromConfig (order : HashOrder) (now : Instant) (sets : List SetConfig) :
    (fromConfig order now sets).data.WithinSlots := by
  intro set
  by_cases hset : set < (fromConfig order now sets).data.numSets
  · have hnone : (fromConfig order now sets).data.occupants set .ingoing = ∅ := by
      rw [Finset.eq_empty_iff_forall_notMem]
      intro p hp
      obtain ⟨hm, -⟩ := (mem_occupants rfl).mp hp
      apply (fromConfig_spec order now sets).2 (set, p)
      rw [Connected, hm]
      rfl
    rw [(sound_fromConfig order now sets).accounted.numIn set hset, hnone]
    exact Nat.zero_le _
  · rw [setInfo, List.getD_eq_getElem?_getD, List.getElem?_eq_none (not_lt.mp hset)]
    rfl

theorem noOutgoing_fromConfig (order : HashOrder) (now : Instant) (sets : List SetConfig) :
    (fromConfig order now sets).data.NoOutgoing := by
  intro set p hm
  apply (fromConfig_spec order now sets).2 (set, p)
  rw [Connected, hm]
  rfl

/-- In every run, a set that is for reserved peers only has no others connected, and nobody is
connected outwards; a connection is accepted only for a peer that is not connected, not banned,
reserved where that is asked for and reserved or given a free slot; and if no connected peer loses
its reservation, the incoming slots of every set suffice. -/
theorem admission_safe (order : HashOrder) (now : Instant) (sets : List SetConfig)
    (events : List Event) :
    Always Step (fun s => s.Guarded ∧ s.data.NoOutgoing ∧ s.Configured sets)
      (fromConfig order now sets) events ∧
    Along Step (fun s event _ => ∀ index, s.Accepts event index →
      ∃ now set p, event = .incoming now set p index ∧ ¬ s.data.Connected (set, p) ∧
        s.Admitted now set p) (fromConfig order now sets) events ∧
    (Along Step (fun s event _ => s.KeepsReserved event) (fromConfig order now sets) events →
      Always Step (fun s => ∀ set config, sets[set]? = some config →
        (s.data.setInfo set).numIn ≤ config.inPeers) (fromConfig order now sets) events) := by
  let I : Peerset → Prop := fun s =>
    (s.Sound ∧ s.Pending s.rx) ∧ s.Guarded ∧ s.data.NoOutgoing ∧ s.Configured sets
  have hI : I (fromConfig order now sets) := by
    refine ⟨⟨sound_fromConfig order now sets, by simp [Pending, fromConfig]⟩, ?_,
      noOutgoing_fromConfig order now sets, configured_fromConfig order now sets⟩
    intro set p _ hc
    exact absurd hc ((fromConfig_spec order now sets).2 (set, p))
  have hstep : ∀ s event s', Step s event s' → I s → I s' := by
    rintro s event s' hstep ⟨hs, hguarded, hout, hconf⟩
    refine ⟨(sound_step hstep hs).1, ?_⟩
    obtain ⟨hrange, rfl⟩ := hstep
    have hissues := issues_next hs.1 hs.2 hrange
    refine ⟨guarded_next hguarded hs.1 hs.2 hrange,
      hissues.noOutgoing (fun _ h => h) hout hs.1.accounted, ?_⟩
    intro set config hconfig
    rw [hissues.maxIn]
    exact hconf set config hconfig
  obtain ⟨halways, halong⟩ : Always Step I _ events ∧ Along Step _ _ events := always_and_along
    (P := fun s event _ => ∀ index, s.Accepts event index →
      ∃ now set p, event = .incoming now set p index ∧ ¬ s.data.Connected (set, p) ∧
        s.Admitted now set p)
    (fun s event s' h hs => ⟨hstep s event s' h hs, fun index hacc =>
      admitted_of_accepts hs.1.1 hs.1.2 h.1 hacc⟩) hI
  refine ⟨halways.mono fun _ h => h.2, halong, fun hkeeps => ?_⟩
  refine (always_of_along (I := fun s => I s ∧ s.data.WithinSlots) ?_
    ⟨hI, withinSlots_fromConfig order now sets⟩ hkeeps).mono ?_
  · rintro s event s' h hkeep ⟨hs, hslots⟩
    refine ⟨hstep s event s' h hs, ?_⟩
    obtain ⟨hrange, rfl⟩ := h
    exact withinSlots_next hslots hs.1.1 hs.1.2 hrange hkeep
  · rintro s ⟨hs, hslots⟩ set config hconfig
    rw [← hs.2.2.2 set config hconfig]
    exact hslots set

/-- A reserved peer is connected besides the one slot, and loses its reservation when it is gone. -/
def reservedGuest (order : HashOrder) : List Event :=
  [.send (.addReservedPeer 0 [8]), .poll order 0, .incoming 0 0 [7] 0, .incoming 0 0 [8] 1,
    .poll order 0, .poll order 0, .dropped 0 0 [8] .unknown, .send (.removeReservedPeer 0 [8]),
    .poll order 0]

theorem admission_safe_reservedGuest : ∃ order s,
    Run Step (fromConfig order 0 [⟨1, 1, [], ∅, false⟩]) (reservedGuest order) s ∧
      s.data.Connected (0, [7]) ∧ (s.data.setInfo 0).numIn ≤ 1 := by
  let order : HashOrder := ⟨Finset.toList, Finset.nodup_toList, fun _ _ => Finset.mem_toList⟩
  let start : Peerset := ⟨⟨∅, [⟨0, 0, 1, 1, ∅⟩]⟩, [(∅, false)], [], [], 0, 0, []⟩
  have hstart : fromConfig order 0 [⟨1, 1, [], ∅, false⟩] = start :=
    Session.fromConfig_single order 0 1 1
  have hrange : Checks next InRange start (reservedGuest order) := by decide +kernel
  have hkeeps : Checks next KeepsReserved start (reservedGuest order) := by decide +kernel
  have hrun := hrange.run (R := Step) fun _ _ h => ⟨h, rfl⟩
  rw [← hstart] at hrun hkeeps
  refine ⟨order, _, hrun, ?_, ?_⟩
  · rw [hstart]
    decide +kernel
  · exact (admission_safe order 0 [⟨1, 1, [], ∅, false⟩] (reservedGuest order)).2.2
      (hkeeps.along fun _ _ _ h => h.2) _ _ (List.prefix_refl _) hrun 0 _ rfl

end Admission

end Peerset

end SwarmHost.Substrate
