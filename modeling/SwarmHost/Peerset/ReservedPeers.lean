import Mathlib.Data.Finset.Dedup
import SwarmHost.Peerset.Queries

/-! # Setting the reserved peers

A new list of reserved peers is put in force by adding the peers that are missing and
removing those that are too many, each group in the order of a hash set. The result is
described node by node, and the counters follow from the rest of the state, so that
the order does not matter.
-/

namespace SwarmHost.Substrate

/-- The state without the time at which a connection was lost. -/
def MembershipState.unstamped : MembershipState → MembershipState
  | .notConnected _ => .notConnected 0
  | m => m

def Node.unstamped (node : Node) : Node :=
  { node with sets := node.sets.map MembershipState.unstamped }

attribute [ext] SetInfo

namespace Peerset

open PeersState

/-- The peersets differ at most in time stamps and in the messages that are queued. -/
structure SameButStamps (s s' : Peerset) : Prop where
  nodes : ∀ p, (s'.data.nodes.get? p).map Node.unstamped = (s.data.nodes.get? p).map Node.unstamped
  sets : s'.data.sets = s.data.sets
  reservedNodes : s'.reservedNodes = s.reservedNodes
  rx : s'.rx = s.rx
  clock : SameClock s s'

/-- A peer that is taken off the list loses its connection. -/
def Evicts (s : Peerset) (set : SetId) (p : PeerId) : Prop :=
  s.reservedOnly set ∧ s.data.Connected (set, p)

instance (s : Peerset) (set : SetId) (p : PeerId) : Decidable (s.Evicts set p) :=
  inferInstanceAs (Decidable (_ ∧ _))

/-- The peers that lose their connection when the list is replaced. -/
def evicted (s : Peerset) (set : SetId) (peerIds : Finset PeerId) : Finset PeerId :=
  (s.reserved set \ peerIds).filter (s.Evicts set)

section Loops

variable {s s' : Peerset} {set : SetId} {p : PeerId} {now : Instant} {l : List PeerId}

structure Reserves (s : Peerset) (set : SetId) (l : List PeerId) (s' : Peerset) : Prop where
  nodes : s'.data.nodes = s.data.nodes
  reservedNodes : s'.reservedNodes =
    s.reservedNodes.modify set fun r => (r.1 ∪ l.toFinset, r.2)
  queue : s'.messageQueue = s.messageQueue
  rx : s'.rx = s.rx

structure Unreserves (now : Instant) (s : Peerset) (set : SetId) (l : List PeerId)
    (s' : Peerset) : Prop where
  nodes : ∀ q, s'.data.nodes.get? q = (s.data.nodes.get? q).map fun node =>
    if q ∈ l ∧ s.Evicts set q then node.setState set (.notConnected now) else node
  reservedNodes : s'.reservedNodes =
    s.reservedNodes.modify set fun r => (r.1 \ l.toFinset, r.2)
  queue : s'.messageQueue = s.messageQueue ++ (l.filter (s.Evicts set)).map (.drop set)
  rx : s'.rx = s.rx

theorem modify_congr {α : Type*} {l : List α} {i : ℕ} {f g : α → α}
    (h : ∀ a, l[i]? = some a → f a = g a) : l.modify i f = l.modify i g := by
  apply List.ext_getElem?
  intro j
  simp only [List.getElem?_modify]
  split
  · next hij =>
    subst hij
    cases ha : l[i]? with
    | none => rfl
    | some a => simp [h a ha]
  · rfl

theorem modify_eq_self {α : Type*} {l : List α} {i : ℕ} {f : α → α}
    (h : ∀ a, l[i]? = some a → f a = a) : l.modify i f = l := by
  rw [modify_congr (g := id) h]
  exact List.modify_id i l

theorem getElem?_reservedNodes {r : Finset PeerId × Bool} (h : s.reservedNodes[set]? = some r) :
    s.reserved set = r.1 ∧ s.reservedOnly set = r.2 := by
  simp [reserved, reservedOnly, h]

theorem reserves_onAddReservedPeer (s : Peerset) (set : SetId) (p : PeerId) :
    Reserves s set [p] (s.onAddReservedPeer set p) := by
  unfold onAddReservedPeer allocSlots
  split
  · next hp =>
    refine ⟨rfl, (modify_eq_self fun r hr => ?_).symm, rfl, rfl⟩
    rw [(getElem?_reservedNodes hr).1] at hp
    simp [hp, Finset.union_eq_left.mpr]
  · refine ⟨nodes_addNoSlotNode s.data set p, modify_congr fun r _ => ?_, rfl, rfl⟩
    simp

theorem reserves_foldl (s : Peerset) (set : SetId) (l : List PeerId) :
    Reserves s set l (l.foldl (fun s node => s.onAddReservedPeer set node) s) := by
  induction l generalizing s with
  | nil => exact ⟨rfl, (modify_eq_self fun r _ => by simp).symm, rfl, rfl⟩
  | cons p l ih =>
    have h := reserves_onAddReservedPeer s set p
    have h' := ih (s.onAddReservedPeer set p)
    refine ⟨h'.nodes.trans h.nodes, ?_, h'.queue.trans h.queue, h'.rx.trans h.rx⟩
    rw [List.foldl_cons, h'.reservedNodes, h.reservedNodes, List.modify_modify_eq]
    refine modify_congr fun r _ => ?_
    simp

theorem nodes_disconnect (d : PeersState) (set : SetId) (p : PeerId) (now : Instant) :
    (d.disconnect set p now).nodes = d.nodes.modify p (·.setState set (.notConnected now)) := by
  simp only [disconnect, setState]
  split
  · rfl
  · rw [nodes_adjustSlots]

theorem unreserves_onRemoveReservedPeer (hlen : set < s.reservedNodes.length)
    (hp : p ∈ s.reserved set) : Unreserves now s set [p] (s.onRemoveReservedPeer now set p) := by
  have hnodes := nodes_removeNoSlotNode s.data set p
  have hevicts : (reservedOnly { s with
        reservedNodes := s.reservedNodes.modify set fun r => (r.1.erase p, r.2)
        data := s.data.removeNoSlotNode set p } set ∧
      (s.data.removeNoSlotNode set p).peer set p = .connected) ↔ s.Evicts set p := by
    rw [peer_eq_connected, Evicts, Connected, membership, hnodes, reservedOnly,
      reserved_modify hlen, if_pos rfl]
    rfl
  have hreserved : (s.reservedNodes.modify set fun r => (r.1.erase p, r.2)) =
      s.reservedNodes.modify set fun r => (r.1 \ [p].toFinset, r.2) :=
    modify_congr fun r _ => by simp [Finset.sdiff_singleton_eq_erase]
  unfold onRemoveReservedPeer
  rw [if_pos hp]
  dsimp only
  split
  · next hc =>
    rw [hevicts] at hc
    refine ⟨fun q => ?_, hreserved, by simp [hc, disconnectAndDrop, push], rfl⟩
    rw [disconnectAndDrop, push, nodes_disconnect, hnodes, Dict.get?_modify]
    by_cases hq : q = p
    · simp [hq, hc]
    · simp [hq]
  · next hc =>
    rw [hevicts] at hc
    refine ⟨fun q => ?_, hreserved, by simp [hc], rfl⟩
    rw [hnodes]
    by_cases hq : q = p
    · simp [hq, hc]
    · simp [hq]

theorem Unreserves.reservedOnly (h : Unreserves now s set l s')
    (hlen : set < s.reservedNodes.length) : s'.reservedOnly set = s.reservedOnly set := by
  rw [Peerset.reservedOnly, h.reservedNodes, reserved_modify hlen, if_pos rfl]
  rfl

theorem Unreserves.reserved (h : Unreserves now s set l s') (hlen : set < s.reservedNodes.length) :
    s'.reserved set = s.reserved set \ l.toFinset := by
  rw [Peerset.reserved, h.reservedNodes, reserved_modify hlen, if_pos rfl]
  rfl

theorem Unreserves.evicts_iff (h : Unreserves now s set l s') (hlen : set < s.reservedNodes.length)
    {q : PeerId} (hq : q ∉ l) : s'.Evicts set q ↔ s.Evicts set q := by
  have hget : s'.data.nodes.get? q = s.data.nodes.get? q := by simp [h.nodes, hq]
  rw [Evicts, Evicts, h.reservedOnly hlen, Connected, Connected, membership, membership, hget]

theorem unreserves_foldl (hlen : set < s.reservedNodes.length) (hnd : l.Nodup)
    (hl : ∀ p ∈ l, p ∈ s.reserved set) :
    Unreserves now s set l (l.foldl (fun s node => s.onRemoveReservedPeer now set node) s) := by
  induction l generalizing s with
  | nil =>
    refine ⟨fun q => ?_, (modify_eq_self fun r _ => by simp).symm, by simp, rfl⟩
    simp
  | cons p l ih =>
    obtain ⟨hp, hnd⟩ := List.nodup_cons.mp hnd
    have h : Unreserves now s set [p] _ :=
      unreserves_onRemoveReservedPeer hlen (hl p List.mem_cons_self)
    have hlen' : set < (s.onRemoveReservedPeer now set p).reservedNodes.length := by
      rwa [h.reservedNodes, List.length_modify]
    have hevicts : ∀ q ∈ l, ((s.onRemoveReservedPeer now set p).Evicts set q ↔ s.Evicts set q) := by
      intro q hq
      apply h.evicts_iff hlen
      rintro hmem
      exact hp (List.mem_singleton.mp hmem ▸ hq)
    have h' := ih hlen' hnd fun q hq => by
      rw [h.reserved hlen, Finset.mem_sdiff]
      refine ⟨hl q (List.mem_cons_of_mem _ hq), fun hmem => ?_⟩
      rw [List.mem_toFinset, List.mem_singleton] at hmem
      exact hp (hmem ▸ hq)
    rw [List.foldl_cons]
    refine ⟨fun q => ?_, ?_, ?_, h'.rx.trans h.rx⟩
    · rw [h'.nodes, h.nodes]
      by_cases hq : q = p
      · subst hq
        cases s.data.nodes.get? q <;> simp [hp]
      · by_cases hql : q ∈ l
        · simp [hq, hql, hevicts q hql]
        · simp [hq, hql]
    · rw [h'.reservedNodes, h.reservedNodes, List.modify_modify_eq]
      refine modify_congr fun r _ => ?_
      ext q
      · simp [and_assoc]
      · rfl
    · have hfilter : l.filter ((s.onRemoveReservedPeer now set p).Evicts set) =
          l.filter (s.Evicts set) :=
        List.filter_congr fun q hq => decide_eq_decide.mpr (hevicts q hq)
      rw [h'.queue, h.queue, hfilter]
      by_cases hc : s.Evicts set p <;> simp [hc]

end Loops

section Result

variable {s s' : Peerset} {set : SetId} {order : HashOrder} {now : Instant}
  {peerIds : Finset PeerId}

theorem toFinset_enumerate (order : HashOrder) (peers : Finset PeerId) :
    (order.enumerate peers).toFinset = peers := by
  ext p
  rw [List.mem_toFinset, order.mem_enumerate]

/-- The state after both loops, in terms of the state before. -/
structure Replaces (now : Instant) (s : Peerset) (set : SetId) (peerIds : Finset PeerId)
    (s' : Peerset) : Prop where
  nodes : ∀ q, s'.data.nodes.get? q = (s.data.nodes.get? q).map fun node =>
    if q ∈ s.evicted set peerIds then node.setState set (.notConnected now) else node
  reservedNodes : s'.reservedNodes = s.reservedNodes.modify set fun r => (peerIds, r.2)
  queue : ∃ drops, s'.messageQueue = s.messageQueue ++ drops ∧
    drops.Perm ((s.evicted set peerIds).toList.map (.drop set))
  rx : s'.rx = s.rx

theorem replaces_onSetReservedPeers (order : HashOrder) (now : Instant)
    (hlen : set < s.reservedNodes.length) (peerIds : Finset PeerId) :
    Replaces now s set peerIds (s.onSetReservedPeers order now set peerIds) := by
  have hadd := reserves_foldl s set (order.enumerate (peerIds \ s.reserved set))
  unfold onSetReservedPeers
  dsimp only
  set t := (order.enumerate (peerIds \ s.reserved set)).foldl
    (fun s node => s.onAddReservedPeer set node) s
  have hlen' : set < t.reservedNodes.length := by rwa [hadd.reservedNodes, List.length_modify]
  have hreserved : t.reserved set = s.reserved set ∪ peerIds := by
    rw [reserved, hadd.reservedNodes, reserved_modify hlen, if_pos rfl, toFinset_enumerate]
    exact Finset.union_sdiff_self_eq_union
  have hevicts : ∀ q, t.Evicts set q ↔ s.Evicts set q := by
    intro q
    rw [Evicts, Evicts, Connected, Connected, membership, membership, hadd.nodes, reservedOnly,
      hadd.reservedNodes, reserved_modify hlen, if_pos rfl]
    rfl
  have hmem : ∀ q, q ∈ order.enumerate (s.reserved set \ peerIds) ∧ t.Evicts set q ↔
      q ∈ s.evicted set peerIds := by
    intro q
    rw [order.mem_enumerate, hevicts, evicted, Finset.mem_filter]
  have hremove : Unreserves now t set _ _ :=
    unreserves_foldl hlen' (order.nodup (s.reserved set \ peerIds)) fun q hq => by
      rw [order.mem_enumerate, Finset.mem_sdiff] at hq
      rw [hreserved]
      exact Finset.mem_union_left _ hq.1
  refine ⟨fun q => ?_, ?_, ⟨_, hadd.queue ▸ hremove.queue, List.Perm.map _ ?_⟩,
    hremove.rx.trans hadd.rx⟩
  · rw [hremove.nodes, hadd.nodes]
    simp only [hmem]
  · rw [hremove.reservedNodes, hadd.reservedNodes, List.modify_modify_eq]
    refine modify_congr fun r hr => ?_
    simp only [Function.comp_def, toFinset_enumerate, (getElem?_reservedNodes hr).1]
    ext q
    · simp only [Finset.mem_sdiff, Finset.mem_union]
      tauto
    · rfl
  · rw [List.perm_ext_iff_of_nodup ((order.nodup _).filter _) (Finset.nodup_toList _)]
    intro q
    rw [List.mem_filter, decide_eq_true_eq, hmem, Finset.mem_toList]

theorem Replaces.reserved (h : Replaces now s set peerIds s')
    (hlen : set < s.reservedNodes.length) : s'.reserved set = peerIds := by
  rw [Peerset.reserved, h.reservedNodes, reserved_modify hlen, if_pos rfl]

theorem Replaces.membership (h : Replaces now s set peerIds s') (hs : s.data.Sized)
    (hset : set < s.data.numSets) (set' : SetId) (q : PeerId) :
    s'.data.membership set' q = if set' = set ∧ q ∈ s.evicted set peerIds then .notConnected now
      else s.data.membership set' q := by
  rw [PeersState.membership, h.nodes, PeersState.membership]
  cases hq : s.data.nodes.get? q with
  | none =>
    -- nobody is evicted who has no node
    have hnot : q ∉ s.evicted set peerIds := by
      intro hmem
      have hc := (Finset.mem_filter.mp hmem).2.2
      exact hc.member (by rw [PeersState.membership, hq]; rfl)
    simp [hnot]
  | some node =>
    simp only [Option.map_some, Option.elim_some]
    by_cases hmem : q ∈ s.evicted set peerIds
    · rw [if_pos hmem, Node.state_setState (hs q node hq ▸ hset)]
      simp [hmem]
    · simp [hmem]

theorem Replaces.reputation (h : Replaces now s set peerIds s') (q : PeerId) :
    s'.data.reputation q = s.data.reputation q := by
  rw [PeersState.reputation, h.nodes, PeersState.reputation]
  cases s.data.nodes.get? q with
  | none => rfl
  | some node =>
    simp only [Option.map_some, Option.elim_some]
    split <;> rfl

/-- The entry of a set follows from who is reserved and who is connected. -/
theorem setInfo_determined (hs : s.Sound) (hs' : s'.Sound)
    (hnum : s'.data.numSets = s.data.numSets) (hset : set < s.data.numSets)
    (hmax : (s'.data.setInfo set).maxIn = (s.data.setInfo set).maxIn ∧
      (s'.data.setInfo set).maxOut = (s.data.setInfo set).maxOut)
    (hreserved : s'.reserved set = s.reserved set)
    (hconn : ∀ p m, m.isConnected →
      (s'.data.membership set p = m ↔ s.data.membership set p = m)) :
    s'.data.setInfo set = s.data.setInfo set := by
  have hno : (s'.data.setInfo set).noSlotNodes = (s.data.setInfo set).noSlotNodes := by
    rw [hs'.sync set (hnum ▸ hset), hs.sync set hset, hreserved]
  have hoccupants : ∀ m, m.isConnected →
      s'.data.occupants set m = s.data.occupants set m := by
    intro m hm
    ext p
    rw [mem_occupants hm, mem_occupants hm, hconn p m hm, noSlot, noSlot, hno]
  ext1
  · rw [hs'.accounted.numIn set (hnum ▸ hset), hs.accounted.numIn set hset,
      hoccupants .ingoing rfl]
  · rw [hs'.accounted.numOut set (hnum ▸ hset), hs.accounted.numOut set hset,
      hoccupants .outgoing rfl]
  · exact hmax.1
  · exact hmax.2
  · exact hno

theorem sets_eq_of_setInfo {d d' : PeersState} (hnum : d'.numSets = d.numSets)
    (h : ∀ set < d.numSets, d'.setInfo set = d.setInfo set) : d'.sets = d.sets := by
  apply List.ext_getElem hnum
  intro i hi' hi
  have hinfo := h i hi
  simp only [setInfo, List.getD_eq_getElem?_getD, List.getElem?_eq_getElem hi,
    List.getElem?_eq_getElem hi', Option.getD_some] at hinfo
  exact hinfo

theorem unstamped_setState (node : Node) (set : SetId) (now now' : Instant) :
    (node.setState set (.notConnected now)).unstamped =
      (node.setState set (.notConnected now')).unstamped := by
  simp [Node.unstamped, Node.setState, List.map_set, MembershipState.unstamped]

/-- Two ways through the hash sets lead to the same state. -/
theorem sameButStamps_onSetReservedPeers (hs : s.Sound) (hset : set < s.data.numSets)
    (peerIds : Finset PeerId) (order order' : HashOrder) (now now' : Instant) :
    SameButStamps (s.onSetReservedPeers order now set peerIds)
      (s.onSetReservedPeers order' now' set peerIds) := by
  have hlen : set < s.reservedNodes.length := hs.length ▸ hset
  have h := replaces_onSetReservedPeers order now hlen peerIds
  have h' := replaces_onSetReservedPeers order' now' hlen peerIds
  have hd : Does Operation.Quiet s _ (s.onSetReservedPeers order now set peerIds) :=
    does_onSetReservedPeers hs hset peerIds
  have hd' : Does Operation.Quiet s _ (s.onSetReservedPeers order' now' set peerIds) :=
    does_onSetReservedPeers hs hset peerIds
  have hnum := (hd'.numSets hs).trans (hd.numSets hs).symm
  have hclock : ∀ order now, SameClock s (s.onAction order now (.setReservedPeers set peerIds)) :=
    fun order now => sameClock_onAction s rfl
  have hreserved := h'.reservedNodes.trans h.reservedNodes.symm
  refine ⟨fun q => ?_, sets_eq_of_setInfo hnum fun set' hset' => ?_, hreserved,
    h'.rx.trans h.rx.symm, ?_⟩
  · rw [h.nodes, h'.nodes]
    cases s.data.nodes.get? q with
    | none => rfl
    | some node =>
      simp only [Option.map_some]
      split
      · rw [unstamped_setState]
      · rfl
  · refine setInfo_determined hd.sound hd'.sound hnum hset' ⟨?_, ?_⟩ ?_ fun p m hm => ?_
    · rw [hd'.issues.maxIn, hd.issues.maxIn]
    · rw [hd'.issues.maxOut, hd.issues.maxOut]
    · rw [reserved, reserved, hreserved]
    · rw [h.membership hs.accounted.sized hset, h'.membership hs.accounted.sized hset]
      split
      · constructor <;> (rintro rfl; cases hm)
      · rfl
  · have h₁ := hclock order now
    have h₂ := hclock order' now'
    exact ⟨h₂.created.trans h₁.created.symm, h₂.latest.trans h₁.latest.symm,
      h₂.replies.trans h₁.replies.symm⟩

/-- Once the list is in force, setting it again does nothing. -/
theorem onSetReservedPeers_of_reserved (h : s.reserved set = peerIds) :
    s.onSetReservedPeers order now set peerIds = s := by
  simp [onSetReservedPeers, h, order.enumerate_empty]

/-- In whatever order the peers are added and removed, the list ends up in force with the same
state but for time stamps, other sets and the reputations are left alone, the formerly reserved
peers that were connected are dropped once each if only reserved peers are accepted, and doing it
again changes nothing. -/
theorem onSetReservedPeers_confluent (hs : s.Sound) (hset : set < s.data.numSets)
    (peerIds : Finset PeerId) (order order' : HashOrder) (now now' : Instant) :
    SameButStamps (s.onSetReservedPeers order now set peerIds)
      (s.onSetReservedPeers order' now' set peerIds) ∧
    (s.onSetReservedPeers order now set peerIds).reserved set = peerIds ∧
    ((s.onSetReservedPeers order now set peerIds).data.setInfo set).noSlotNodes = peerIds ∧
    (∀ set' ≠ set,
      (s.onSetReservedPeers order now set peerIds).reservedNodes[set']? = s.reservedNodes[set']? ∧
      (s.onSetReservedPeers order now set peerIds).data.setInfo set' = s.data.setInfo set' ∧
      ∀ p, (s.onSetReservedPeers order now set peerIds).data.membership set' p =
        s.data.membership set' p) ∧
    (∀ p, (s.onSetReservedPeers order now set peerIds).data.reputation p = s.data.reputation p) ∧
    (∃ drops, (s.onSetReservedPeers order now set peerIds).messageQueue = s.messageQueue ++ drops ∧
      drops.Perm ((s.evicted set peerIds).toList.map (.drop set))) ∧
    (s.onSetReservedPeers order now set peerIds).onSetReservedPeers order' now' set peerIds =
      s.onSetReservedPeers order now set peerIds := by
  have hlen : set < s.reservedNodes.length := hs.length ▸ hset
  have h := replaces_onSetReservedPeers order now hlen peerIds
  have hd : Does Operation.Quiet s _ (s.onSetReservedPeers order now set peerIds) :=
    does_onSetReservedPeers hs hset peerIds
  have hnum := hd.numSets hs
  have hreserved := h.reserved hlen
  refine ⟨sameButStamps_onSetReservedPeers hs hset peerIds order order' now now', hreserved, ?_, ?_,
    h.reputation, h.queue, onSetReservedPeers_of_reserved hreserved⟩
  · rw [hd.sound.sync set (hnum ▸ hset), hreserved]
  · intro set' hne
    have hget : (s.onSetReservedPeers order now set peerIds).reservedNodes[set']? =
        s.reservedNodes[set']? := by
      simp [h.reservedNodes, Ne.symm hne]
    have hmembership : ∀ p, (s.onSetReservedPeers order now set peerIds).data.membership set' p =
        s.data.membership set' p := by
      intro p
      rw [h.membership hs.accounted.sized hset, if_neg fun hc => hne hc.1]
    refine ⟨hget, ?_, hmembership⟩
    by_cases hset' : set' < s.data.numSets
    · refine setInfo_determined hs hd.sound hnum hset' ⟨hd.issues.maxIn set', ?_⟩ ?_
        fun p m _ => by rw [hmembership]
      · exact hd.issues.maxOut set'
      · simp [reserved, hget]
    · simp only [setInfo, List.getD_eq_getElem?_getD]
      have hlen' : (s.onSetReservedPeers order now set peerIds).data.sets.length ≤ set' :=
        hnum.trans_le (not_lt.mp hset')
      rw [List.getElem?_eq_none (not_lt.mp hset'), List.getElem?_eq_none hlen']

/-- A reserved peer is connected to a set that accepts only reserved peers. -/
def reservedOnlyGuest : Peerset :=
  ⟨⟨(∅ : Dict PeerId Node).insert [7] ⟨[.ingoing], 0⟩, [⟨0, 0, 1, 1, {[7]}⟩]⟩, [({[7]}, true)], [],
    [], 0, 0, []⟩

theorem sound_reservedOnlyGuest : reservedOnlyGuest.Sound := by
  have hnode : ∀ p node, reservedOnlyGuest.data.nodes.get? p = some node →
      node = ⟨[.ingoing], 0⟩ := by
    intro p node hp
    rw [reservedOnlyGuest, Dict.get?_insert] at hp
    split at hp
    · exact (Option.some.inj hp).symm
    · cases hp
  refine ⟨⟨?_, by decide, by decide, ?_⟩, rfl, by decide⟩
  · intro p node hp
    rw [hnode p node hp]
    rfl
  · intro p node hp
    rw [hnode p node hp]
    exact .inr ⟨.ingoing, by simp⟩

theorem onSetReservedPeers_confluent_guest : ∃ order : HashOrder, ∃ drops,
    (reservedOnlyGuest.onSetReservedPeers order 0 0 {[8]}).messageQueue = [] ++ drops ∧
      drops.Perm [.drop 0 [7]] := by
  let order : HashOrder := ⟨Finset.toList, Finset.nodup_toList, fun _ _ => Finset.mem_toList⟩
  have hevicted : reservedOnlyGuest.evicted 0 {[8]} = {[7]} := by decide
  obtain ⟨-, -, -, -, -, hdrops, -⟩ := onSetReservedPeers_confluent sound_reservedOnlyGuest
    (by decide : 0 < 1) {[8]} order order 0 0
  rw [hevicted, Finset.toList_singleton] at hdrops
  exact ⟨order, hdrops⟩

end Result

end Peerset

end SwarmHost.Substrate
