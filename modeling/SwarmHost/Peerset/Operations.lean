import Mathlib.Data.Finset.Card
import SwarmHost.Peerset.Membership
import SwarmHost.Runs.Basic

/-! # Slot accounting

The operations of the table on peers, through handles that exist only for peers in
the right state. Each set counts the connected peers that occupy its slots; the
counters are adjusted by every operation and never computed again.
-/

namespace SwarmHost.Substrate

/-- A counter goes down; `none` if it would go below zero. -/
def u32Decrement (n : ℕ) : Option ℕ := if n = 0 then none else some (n - 1)

theorem u32Decrement_of_pos {n : ℕ} (h : 0 < n) : u32Decrement n = some (n - 1) :=
  if_neg (Nat.pos_iff_ne_zero.mp h)

def SetInfo.taken (info : SetInfo) : MembershipState → ℕ
  | .ingoing => info.numIn
  | .outgoing => info.numOut
  | .notMember | .notConnected _ => 0

def SetInfo.adjust (info : SetInfo) (m : MembershipState) (f : ℕ → ℕ) : SetInfo :=
  match m with
  | .ingoing => { info with numIn := f info.numIn }
  | .outgoing => { info with numOut := f info.numOut }
  | .notMember | .notConnected _ => info

theorem SetInfo.taken_adjust (info : SetInfo) {m : MembershipState} (hm : m.isConnected)
    (m' : MembershipState) (f : ℕ → ℕ) :
    (info.adjust m' f).taken m = if m' = m then f (info.taken m) else info.taken m := by
  cases m with
  | ingoing | outgoing => cases m' <;> simp [adjust, taken]
  | notMember | notConnected => cases hm

@[simp] theorem SetInfo.noSlotNodes_adjust (info : SetInfo) (m : MembershipState) (f : ℕ → ℕ) :
    (info.adjust m f).noSlotNodes = info.noSlotNodes := by
  cases m <;> rfl

@[simp] theorem SetInfo.taken_noSlotNodes (info : SetInfo) (nodes : Finset PeerId)
    (m : MembershipState) : { info with noSlotNodes := nodes }.taken m = info.taken m := by
  cases m <;> rfl

namespace PeersState

variable (s : PeersState) (set : SetId) (peerId : PeerId)

def hasFreeOutgoingSlot : Bool := (s.setInfo set).numOut < (s.setInfo set).maxOut

def tryOutgoing : Bool × PeersState :=
  if ¬ s.hasFreeOutgoingSlot set ∧ ¬ s.noSlot set peerId then (false, s)
  else if peerId ∈ s.nodes ∧ ¬ s.noSlot set peerId then
    (true, (s.setState set peerId .outgoing).adjustSlots set .outgoing (· + 1))
  else (true, s.setState set peerId .outgoing)

/-- What can be done to the table. -/
inductive Operation where
  | addNoSlotNode (set : SetId) (peerId : PeerId)
  | removeNoSlotNode (set : SetId) (peerId : PeerId)
  | disconnect (set : SetId) (peerId : PeerId) (now : Instant)
  | addReputation (set : SetId) (peerId : PeerId) (modifier : ℤ)
  | bumpLastConnectedOrDiscovered (set : SetId) (peerId : PeerId) (now : Instant)
  | tryOutgoing (set : SetId) (peerId : PeerId)
  | tryAcceptIncoming (set : SetId) (peerId : PeerId)
  | forgetPeer (set : SetId) (peerId : PeerId)
  | discover (set : SetId) (peerId : PeerId) (now : Instant)
  | peerReputation (peerId : PeerId) (f : ℤ → ℤ)

def Allowed : Operation → Prop
  | .addNoSlotNode set _ | .removeNoSlotNode set _ => set < s.numSets
  | .disconnect set p _ | .addReputation set p _ =>
    set < s.numSets ∧ s.peer set p = .connected
  | .bumpLastConnectedOrDiscovered set p _ | .tryOutgoing set p | .tryAcceptIncoming set p
  | .forgetPeer set p => set < s.numSets ∧ s.peer set p = .notConnected
  | .discover set p _ => set < s.numSets ∧ s.peer set p = .unknown
  | .peerReputation .. => True

def exec : Operation → PeersState
  | .addNoSlotNode set p => s.addNoSlotNode set p
  | .removeNoSlotNode set p => s.removeNoSlotNode set p
  | .disconnect set p now => s.disconnect set p now
  | .addReputation _ p modifier => s.addReputation p modifier
  | .bumpLastConnectedOrDiscovered set p now => s.bumpLastConnectedOrDiscovered set p now
  | .tryOutgoing set p => (s.tryOutgoing set p).2
  | .tryAcceptIncoming set p => (s.tryAcceptIncoming set p).2
  | .forgetPeer set p => s.forgetPeer set p
  | .discover set p now => s.discover set p now
  | .peerReputation p f => s.peerReputation p f

def Step (op : Operation) (s' : PeersState) : Prop := s.Allowed op ∧ s.exec op = s'

section Checks

def releaseSlot? : MembershipState → Option PeersState
  | .ingoing => (u32Decrement (s.setInfo set).numIn).map fun n =>
    s.modifySet set fun info => { info with numIn := n }
  | .outgoing => (u32Decrement (s.setInfo set).numOut).map fun n =>
    s.modifySet set fun info => { info with numOut := n }
  | .notMember | .notConnected _ => some s

def addNoSlotNode? : Option PeersState :=
  if s.noSlot set peerId then some s
  else
    (s.modifySet set fun info =>
      { info with noSlotNodes := insert peerId info.noSlotNodes }).releaseSlot? set
        (s.membership set peerId)

def disconnect? (now : Instant) : Option PeersState :=
  match s.nodes.get? peerId with
  | none => none
  | some node =>
    (if s.noSlot set peerId then some s
      else match node.state set with
        | .notMember | .notConnected _ => none
        | m => s.releaseSlot? set m).map (·.setState set peerId (.notConnected now))

def addReputation? (modifier : ℤ) : Option PeersState :=
  if peerId ∈ s.nodes then some (s.addReputation peerId modifier) else none

def tryOutgoing? : Option (Bool × PeersState) :=
  if (s.tryOutgoing set peerId).1 ∧ peerId ∉ s.nodes then none
  else some (s.tryOutgoing set peerId)

def tryAcceptIncoming? : Option (Bool × PeersState) :=
  if (s.tryAcceptIncoming set peerId).1 ∧ peerId ∉ s.nodes then none
  else some (s.tryAcceptIncoming set peerId)

def forgetPeer? : Option PeersState :=
  match s.nodes.get? peerId with
  | none => none
  | some node => if node.state set = .notMember then none else some (s.forgetPeer set peerId)

/-- The operation where counters must not go below zero and the assertions of the source are
checked; `none` if one fails. -/
def exec? : Operation → Option PeersState
  | .addNoSlotNode set p => s.addNoSlotNode? set p
  | .disconnect set p now => s.disconnect? set p now
  | .addReputation _ p modifier => s.addReputation? p modifier
  | .tryOutgoing set p => (s.tryOutgoing? set p).map Prod.snd
  | .tryAcceptIncoming set p => (s.tryAcceptIncoming? set p).map Prod.snd
  | .forgetPeer set p => s.forgetPeer? set p
  | op => some (s.exec op)

end Checks

def occupants (m : MembershipState) : Finset PeerId :=
  s.nodes.keys.toFinset.filter fun p => s.membership set p = m ∧ ¬ s.noSlot set p

/-- The counters count, and only nodes that matter are stored. -/
structure Accounted : Prop where
  sized : s.Sized
  numIn : ∀ set < s.numSets, (s.setInfo set).numIn = (s.occupants set .ingoing).card
  numOut : ∀ set < s.numSets, (s.setInfo set).numOut = (s.occupants set .outgoing).card
  stored : ∀ p node, s.nodes.get? p = some node →
    node.reputation ≠ 0 ∨ ∃ m ∈ node.sets, m ≠ .notMember

variable {s} {s' : PeersState} {set} {p : PeerId} {m : MembershipState}

theorem mem_occupants (hm : m.isConnected) :
    p ∈ s.occupants set m ↔ s.membership set p = m ∧ ¬ s.noSlot set p := by
  simp only [occupants, Finset.mem_filter, List.mem_toFinset, and_iff_right_iff_imp]
  rintro ⟨h, -⟩
  have hmember : s.membership set p ≠ .notMember := by
    intro hnot
    rw [← h, hnot] at hm
    cases hm
  exact mem_nodes_of_membership hmember

theorem Accounted.taken (h : s.Accounted) (hset : set < s.numSets) (hm : m.isConnected) :
    (s.setInfo set).taken m = (s.occupants set m).card := by
  cases m with
  | ingoing => exact h.numIn set hset
  | outgoing => exact h.numOut set hset
  | notMember | notConnected => cases hm

section Shifts

theorem setInfo_modifySet (hset : set < s.numSets) (f : SetInfo → SetInfo) (set' : SetId) :
    (s.modifySet set f).setInfo set' =
      if set' = set then f (s.setInfo set) else s.setInfo set' := by
  simp only [setInfo, modifySet, List.getD_eq_getElem?_getD, List.getElem?_modify]
  by_cases h : set' = set
  · subst h
    obtain ⟨info, hinfo⟩ : ∃ info, s.sets[set']? = some info :=
      ⟨_, List.getElem?_eq_getElem hset⟩
    simp [hinfo]
  · simp [h, Ne.symm h]

theorem setInfo_adjustSlots (hset : set < s.numSets) (m : MembershipState) (f : ℕ → ℕ)
    (set' : SetId) : (s.adjustSlots set m f).setInfo set' =
      if set' = set then (s.setInfo set).adjust m f else s.setInfo set' := by
  cases m with
  | ingoing | outgoing => exact setInfo_modifySet hset _ set'
  | notMember | notConnected => by_cases h : set' = set <;> simp [h, adjustSlots, SetInfo.adjust]

structure Shift (s : PeersState) (set : SetId) (p : PeerId) (s' : PeersState) : Prop where
  numSets : s'.numSets = s.numSets
  sized : s'.Sized
  other : ∀ set' ≠ set, s'.setInfo set' = s.setInfo set' ∧
    ∀ q, s'.membership set' q = s.membership set' q
  others : ∀ q ≠ p, s'.membership set q = s.membership set q ∧ s'.noSlot set q = s.noSlot set q
  slots : ∀ m, m.isConnected →
    ((p ∈ s'.occupants set m ↔ p ∈ s.occupants set m) ∧
      (s'.setInfo set).taken m = (s.setInfo set).taken m) ∨
    (p ∉ s.occupants set m ∧ p ∈ s'.occupants set m ∧
      (s'.setInfo set).taken m = (s.setInfo set).taken m + 1) ∨
    (p ∈ s.occupants set m ∧ p ∉ s'.occupants set m ∧
      (s'.setInfo set).taken m = (s.setInfo set).taken m - 1)

theorem card_eq_add_one {A B : Finset PeerId} (hother : ∀ q ≠ p, q ∈ B ↔ q ∈ A) (hA : p ∉ A)
    (hB : p ∈ B) : B.card = A.card + 1 := by
  have h : B = insert p A := by
    ext q
    by_cases hq : q = p
    · simp [hq, hB]
    · simp [hq, hother q hq]
  rw [h, Finset.card_insert_of_notMem hA]

theorem Shift.taken (h : Shift s set p s') (hs : s.Accounted) {set' : SetId}
    (hset : set' < s.numSets) (hm : m.isConnected) :
    (s'.setInfo set').taken m = (s'.occupants set' m).card := by
  have hold := hs.taken hset hm
  by_cases heq : set' = set
  · subst heq
    have hother : ∀ q ≠ p, q ∈ s'.occupants set' m ↔ q ∈ s.occupants set' m := by
      intro q hq
      rw [mem_occupants hm, mem_occupants hm, (h.others q hq).1, (h.others q hq).2]
    rcases h.slots m hm with ⟨hp, ht⟩ | ⟨hp, hp', ht⟩ | ⟨hp, hp', ht⟩
    · rw [ht, hold]
      congr 1
      ext q
      by_cases hq : q = p
      · rw [hq, hp]
      · rw [hother q hq]
    · rw [ht, hold, card_eq_add_one hother hp hp']
    · have hcard := card_eq_add_one (fun q hq => (hother q hq).symm) hp' hp
      rw [ht, hold, hcard, Nat.add_sub_cancel]
  · obtain ⟨hinfo, hmem⟩ := h.other set' heq
    rw [hinfo, hold]
    congr 1
    ext q
    rw [mem_occupants hm, mem_occupants hm, hmem, noSlot, noSlot, hinfo]

/-- The counters stay right, and the nodes are checked apart. -/
theorem Shift.accounted (h : Shift s set p s') (hs : s.Accounted)
    (hstored : ∀ q node, s'.nodes.get? q = some node →
      node.reputation ≠ 0 ∨ ∃ m ∈ node.sets, m ≠ .notMember) : s'.Accounted where
  sized := h.sized
  numIn _ hset := h.taken hs (h.numSets ▸ hset) (m := .ingoing) rfl
  numOut _ hset := h.taken hs (h.numSets ▸ hset) (m := .outgoing) rfl
  stored := hstored

theorem Shift.of_not_connected (hn : s'.numSets = s.numSets) (hsized : s'.Sized)
    (hsets : s'.sets = s.sets)
    (hmem : ∀ set' q, s'.membership set' q = s.membership set' q ∨
      set' = set ∧ q = p ∧ (s.membership set p).isConnected = false ∧
        (s'.membership set p).isConnected = false) : Shift s set p s' := by
  have hinfo : ∀ set', s'.setInfo set' = s.setInfo set' := by
    intro set'
    rw [setInfo, setInfo, hsets]
  refine ⟨hn, hsized, ?_, ?_, ?_⟩
  · intro set' hne
    refine ⟨hinfo set', fun q => ?_⟩
    rcases hmem set' q with h | ⟨h, -⟩
    · exact h
    · exact absurd h hne
  · intro q hne
    refine ⟨?_, by rw [noSlot, noSlot, hinfo]⟩
    rcases hmem set q with h | ⟨-, h, -⟩
    · exact h
    · exact absurd h hne
  · intro m hm
    left
    refine ⟨?_, by rw [hinfo]⟩
    rw [mem_occupants hm, mem_occupants hm, noSlot, noSlot, hinfo]
    rcases hmem set p with h | ⟨-, -, h, h'⟩
    · rw [h]
    · constructor
      · rintro ⟨rfl, -⟩
        rw [hm] at h'
        cases h'
      · rintro ⟨rfl, -⟩
        rw [hm] at h
        cases h

theorem Shift.refl (hs : s.Sized) : Shift s set p s :=
  .of_not_connected rfl hs rfl fun _ _ => .inl rfl

/-- A peer starts or stops to occupy slots, in the same state as before. -/
theorem Shift.of_sameMembers (info : SetInfo) (h : SameMembers s s')
    (hinfo : ∀ set', s'.setInfo set' = if set' = set then info else s.setInfo set')
    (hothers : ∀ q ≠ p, q ∈ info.noSlotNodes ↔ q ∈ (s.setInfo set).noSlotNodes)
    (hslots : ∀ m, m.isConnected →
      if s.membership set p = m then
        (¬ s.noSlot set p ∧ p ∈ info.noSlotNodes ∧
          info.taken m = (s.setInfo set).taken m - 1) ∨
        (s.noSlot set p ∧ p ∉ info.noSlotNodes ∧ info.taken m = (s.setInfo set).taken m + 1)
      else info.taken m = (s.setInfo set).taken m) : Shift s set p s' := by
  have hself : s'.setInfo set = info := by rw [hinfo, if_pos rfl]
  refine ⟨h.numSets, h.sized, ?_, ?_, ?_⟩
  · intro set' hne
    exact ⟨by rw [hinfo, if_neg hne], h.membership set'⟩
  · intro q hne
    refine ⟨h.membership set q, ?_⟩
    rw [noSlot, noSlot, hself]
    exact decide_eq_decide.mpr (hothers q hne)
  · intro m hm
    rw [mem_occupants hm, mem_occupants hm, h.membership, hself]
    have hno' : s'.noSlot set p = decide (p ∈ info.noSlotNodes) := by rw [noSlot, hself]
    have hm' := hslots m hm
    split at hm'
    · next hp =>
      rcases hm' with ⟨hno, hmem, ht⟩ | ⟨hno, hmem, ht⟩
      · exact .inr (.inr ⟨⟨hp, hno⟩, by simp [hno', hmem], ht⟩)
      · exact .inr (.inl ⟨by simp [hno], by simp [hp, hno', hmem], ht⟩)
    · next hp => exact .inl ⟨by simp [hp], hm'⟩

theorem shift_addNoSlotNode (hs : s.Sized) (hset : set < s.numSets) (p : PeerId) :
    Shift s set p (s.addNoSlotNode set p) := by
  have hsame := sameMembers_addNoSlotNode hs set p
  unfold addNoSlotNode at hsame ⊢
  split
  · exact .refl hs
  · next hno =>
    rw [if_neg hno] at hsame
    have hset' : set < (s.modifySet set fun info =>
        { info with noSlotNodes := insert p info.noSlotNodes }).numSets :=
      (sameMembers_modifySet hs set _).numSets ▸ hset
    refine .of_sameMembers ({ s.setInfo set with
        noSlotNodes := insert p (s.setInfo set).noSlotNodes }.adjust (s.membership set p) (· - 1))
      hsame ?_ ?_ ?_
    · intro set'
      rw [setInfo_adjustSlots hset', setInfo_modifySet hset, setInfo_modifySet hset, if_pos rfl]
      split <;> rfl
    · intro q hq
      simp [hq]
    · intro m hm
      rw [SetInfo.taken_adjust _ hm]
      split <;> simp [hno]

theorem shift_removeNoSlotNode (hs : s.Sized) (hset : set < s.numSets) (p : PeerId) :
    Shift s set p (s.removeNoSlotNode set p) := by
  have hsame := sameMembers_removeNoSlotNode hs set p
  unfold removeNoSlotNode at hsame ⊢
  split
  · next hno =>
    rw [if_pos hno] at hsame
    have hset' : set < (s.modifySet set fun info =>
        { info with noSlotNodes := info.noSlotNodes.erase p }).numSets :=
      (sameMembers_modifySet hs set _).numSets ▸ hset
    refine .of_sameMembers ({ s.setInfo set with
        noSlotNodes := (s.setInfo set).noSlotNodes.erase p }.adjust (s.membership set p) (· + 1))
      hsame ?_ ?_ ?_
    · intro set'
      rw [setInfo_adjustSlots hset', setInfo_modifySet hset, setInfo_modifySet hset, if_pos rfl]
      split <;> rfl
    · intro q hq
      simp [hq]
    · intro m hm
      rw [SetInfo.taken_adjust _ hm]
      split <;> simp [hno]
  · exact .refl hs

/-- A peer gets a new state, and the counters of the old and of the new one follow. -/
theorem Shift.of_moves (info : SetInfo) (h : Moves s set p m s')
    (hinfo : ∀ set', s'.setInfo set' = if set' = set then info else s.setInfo set')
    (hno : info.noSlotNodes = (s.setInfo set).noSlotNodes)
    (hslots : ∀ m', m'.isConnected →
      if s.noSlot set p then info.taken m' = (s.setInfo set).taken m'
      else
        (m' ≠ s.membership set p ∧ m' ≠ m ∧ info.taken m' = (s.setInfo set).taken m') ∨
        (m' ≠ s.membership set p ∧ m' = m ∧ info.taken m' = (s.setInfo set).taken m' + 1) ∨
        (m' = s.membership set p ∧ m' ≠ m ∧ info.taken m' = (s.setInfo set).taken m' - 1)) :
    Shift s set p s' := by
  have hself : s'.setInfo set = info := by rw [hinfo, if_pos rfl]
  have hno' : ∀ q, s'.noSlot set q = s.noSlot set q := by
    intro q
    rw [noSlot, noSlot, hself, hno]
  have hp : s'.membership set p = m := by simp [h.membership]
  refine ⟨h.numSets, h.sized, ?_, ?_, ?_⟩
  · intro set' hne
    exact ⟨by rw [hinfo, if_neg hne], fun q => by simp [h.membership, hne]⟩
  · intro q hne
    exact ⟨by simp [h.membership, hne], hno' q⟩
  · intro m' hm
    rw [mem_occupants hm, mem_occupants hm, hself, hno', hp]
    have hm' := hslots m' hm
    split at hm'
    · next hns => exact .inl ⟨by simp [hns], hm'⟩
    · next hns =>
      rcases hm' with ⟨hold, hnew, ht⟩ | ⟨hold, hnew, ht⟩ | ⟨hold, hnew, ht⟩
      · exact .inl ⟨by simp [Ne.symm hold, Ne.symm hnew], ht⟩
      · exact .inr (.inl ⟨by simp [Ne.symm hold], by simp [hnew, hns], ht⟩)
      · exact .inr (.inr ⟨by simp [hold, hns], by simp [Ne.symm hnew], ht⟩)

theorem ite_self_eq {α : Type*} (set set' : SetId) (f : SetId → α) :
    f set' = if set' = set then f set else f set' := by
  split
  · next h => rw [h]
  · rfl

theorem shift_disconnect (hs : s.Sized) (hset : set < s.numSets) (hc : s.Connected (set, p))
    (now : Instant) : Shift s set p (s.disconnect set p now) := by
  have hmoves := moves_disconnect hs hset hc.member now
  have hne : ∀ m' : MembershipState, m'.isConnected → m' ≠ .notConnected now := by
    rintro m' hm rfl
    cases hm
  unfold disconnect at hmoves ⊢
  dsimp only at hmoves ⊢
  split
  · next hno =>
    rw [if_pos hno] at hmoves
    refine .of_moves (s.setInfo set) hmoves (fun set' => ite_self_eq set set' s.setInfo) rfl ?_
    intro m' _
    rw [if_pos hno]
  · next hno =>
    rw [if_neg hno] at hmoves
    refine .of_moves ((s.setInfo set).adjust (s.membership set p) (· - 1)) hmoves
      (fun set' => setInfo_adjustSlots hset _ _ set') (by simp) ?_
    intro m' hm
    rw [if_neg hno, SetInfo.taken_adjust _ hm]
    split
    · next h => exact .inr (.inr ⟨h.symm, hne m' hm, rfl⟩)
    · next h => exact .inl ⟨Ne.symm h, hne m' hm, rfl⟩

theorem shift_connect (hs : s.Sized) (hset : set < s.numSets) (hp : p ∈ s.nodes)
    (hc : ¬ s.Connected (set, p)) (m : MembershipState) :
    Shift s set p (if ¬ s.noSlot set p then (s.setState set p m).adjustSlots set m (· + 1)
      else s.setState set p m) := by
  have hmoves : Moves s set p m (s.setState set p m) := moves_setState hs hset hp
  have hset' : set < (s.setState set p m).numSets := hset
  have hne : ∀ m' : MembershipState, m'.isConnected → m' ≠ s.membership set p := by
    rintro m' hm rfl
    exact hc hm
  split
  · next hno =>
    have hmoves' := hmoves.same (sameMembers_adjustSlots hmoves.sized set m (· + 1))
    refine .of_moves ((s.setInfo set).adjust m (· + 1)) hmoves'
      (fun set' => setInfo_adjustSlots hset' _ _ set') (by simp) ?_
    intro m' hm
    rw [if_neg hno, SetInfo.taken_adjust _ hm]
    split
    · next h => exact .inr (.inl ⟨hne m' hm, h.symm, rfl⟩)
    · next h => exact .inl ⟨hne m' hm, Ne.symm h, rfl⟩
  · next hno =>
    rw [not_not] at hno
    refine .of_moves (s.setInfo set) hmoves (fun set' => ite_self_eq set set' s.setInfo) rfl ?_
    intro m' _
    rw [if_pos hno]

theorem not_connected_of_peer (h : s.peer set p = .notConnected) : ¬ s.Connected (set, p) := by
  rw [← peer_eq_connected, h]
  simp

theorem not_connected_of_unknown (h : s.peer set p = .unknown) : ¬ s.Connected (set, p) := by
  rw [← peer_eq_connected, h]
  simp

theorem mem_nodes_of_peer (h : s.peer set p ≠ .unknown) : p ∈ s.nodes := by
  have hmember : s.membership set p ≠ .notMember := by
    intro hm
    simp [peer, hm] at h
  exact mem_nodes_of_membership hmember

theorem Moves.shift (h : Moves s set p m s') (hsets : s'.sets = s.sets)
    (hc : ¬ s.Connected (set, p)) (hm : m.isConnected = false) : Shift s set p s' := by
  apply Shift.of_not_connected h.numSets h.sized hsets
  intro set' q
  rw [h.membership]
  split
  · next heq =>
    obtain ⟨rfl, rfl⟩ := heq
    have hnew : s'.membership set' q = m := by simp [h.membership]
    exact .inr ⟨rfl, rfl, by simpa [Connected] using hc, hnew ▸ hm⟩
  · exact .inl rfl

theorem SameMembers.shift (h : SameMembers s s') (hsets : s'.sets = s.sets) : Shift s set p s' :=
  .of_not_connected h.numSets h.sized hsets fun set' q => .inl (h.membership set' q)

theorem sets_cleanUp (s : PeersState) (p : PeerId) : (s.cleanUp p).sets = s.sets := by
  unfold cleanUp
  split
  · rfl
  · split <;> rfl

theorem tryAcceptIncoming_eq (hp : p ∈ s.nodes) :
    (s.tryAcceptIncoming set p).2 =
      if (s.setInfo set).maxIn ≤ (s.setInfo set).numIn ∧ ¬ s.noSlot set p then s
      else if ¬ s.noSlot set p then
        (s.setState set p .ingoing).adjustSlots set .ingoing (· + 1)
      else s.setState set p .ingoing := by
  unfold tryAcceptIncoming
  split
  · rfl
  · simp only [hp, true_and]
    split <;> rfl

theorem tryOutgoing_eq (hp : p ∈ s.nodes) :
    (s.tryOutgoing set p).2 =
      if ¬ s.hasFreeOutgoingSlot set ∧ ¬ s.noSlot set p then s
      else if ¬ s.noSlot set p then
        (s.setState set p .outgoing).adjustSlots set .outgoing (· + 1)
      else s.setState set p .outgoing := by
  unfold tryOutgoing
  split
  · rfl
  · simp only [hp, true_and]
    split <;> rfl

theorem exists_shift_exec (hs : s.Sized) {op : Operation} (h : s.Allowed op) :
    ∃ set p, Shift s set p (s.exec op) := by
  cases op with
  | addNoSlotNode set p => exact ⟨set, p, shift_addNoSlotNode hs h p⟩
  | removeNoSlotNode set p => exact ⟨set, p, shift_removeNoSlotNode hs h p⟩
  | disconnect set p now => exact ⟨set, p, shift_disconnect hs h.1 (peer_eq_connected.mp h.2) now⟩
  | addReputation set p modifier =>
    exact ⟨set, p, (sameMembers_addReputation hs p modifier).shift rfl⟩
  | bumpLastConnectedOrDiscovered set p now =>
    refine ⟨set, p, ?_⟩
    have hmoves : Moves s set p (.notConnected now) (s.setState set p (.notConnected now)) :=
      moves_setState hs h.1 (mem_nodes_of_peer (by rw [h.2]; simp))
    simp only [exec, bumpLastConnectedOrDiscovered]
    split
    · exact hmoves.shift rfl (not_connected_of_peer h.2) rfl
    · exact .refl hs
  | tryOutgoing set p =>
    have hp : p ∈ s.nodes := mem_nodes_of_peer (by rw [h.2]; simp)
    refine ⟨set, p, ?_⟩
    rw [exec, tryOutgoing_eq hp]
    split
    · exact .refl hs
    · exact shift_connect hs h.1 hp (not_connected_of_peer h.2) .outgoing
  | tryAcceptIncoming set p =>
    have hp : p ∈ s.nodes := mem_nodes_of_peer (by rw [h.2]; simp)
    refine ⟨set, p, ?_⟩
    rw [exec, tryAcceptIncoming_eq hp]
    split
    · exact .refl hs
    · exact shift_connect hs h.1 hp (not_connected_of_peer h.2) .ingoing
  | forgetPeer set p =>
    refine ⟨set, p, ?_⟩
    have hmoves := moves_forgetPeer hs h.1 (mem_nodes_of_peer (by rw [h.2]; simp))
    exact hmoves.shift (sets_cleanUp _ p) (not_connected_of_peer h.2) rfl
  | discover set p now =>
    exact ⟨set, p, (moves_discover hs h.1 p now).shift rfl (not_connected_of_unknown h.2) rfl⟩
  | peerReputation p f =>
    exact ⟨0, p, (sameMembers_peerReputation hs p f).shift (sets_cleanUp _ p)⟩

end Shifts

section Stored

/-- Only nodes that matter are stored, but for one. -/
def StoredBut (s : PeersState) (p : PeerId) : Prop :=
  ∀ q ≠ p, ∀ node, s.nodes.get? q = some node →
    node.reputation ≠ 0 ∨ ∃ m ∈ node.sets, m ≠ .notMember

theorem StoredBut.of_nodes (h : StoredBut s p) (hn : ∀ q ≠ p, s'.nodes.get? q = s.nodes.get? q) :
    StoredBut s' p := by
  intro q hq node hnode
  rw [hn q hq] at hnode
  exact h q hq node hnode

theorem StoredBut.all (h : StoredBut s p) (hs : s.Sized) (hm : s.membership set p ≠ .notMember) :
    ∀ q node, s.nodes.get? q = some node →
      node.reputation ≠ 0 ∨ ∃ m ∈ node.sets, m ≠ .notMember := by
  intro q node hnode
  by_cases hq : q = p
  · subst hq
    right
    have hlt : set < node.sets.length := hs q node hnode ▸ lt_numSets_of_member hs hm
    rw [membership_of_get? hnode, Node.state, List.getD_eq_getElem?_getD,
      List.getElem?_eq_getElem hlt] at hm
    exact ⟨_, List.getElem_mem hlt, hm⟩
  · exact h q hq node hnode

theorem StoredBut.cleanUp (h : StoredBut s p) :
    ∀ q node, (s.cleanUp p).nodes.get? q = some node →
      node.reputation ≠ 0 ∨ ∃ m ∈ node.sets, m ≠ .notMember := by
  intro q node hnode
  unfold PeersState.cleanUp at hnode
  split at hnode
  · next hp =>
    refine h q ?_ node hnode
    rintro rfl
    rw [hp] at hnode
    cases hnode
  · next node' hp =>
    split at hnode
    · rw [Dict.get?_erase] at hnode
      split at hnode
      · cases hnode
      · next hq => exact h q hq node hnode
    · next hidle =>
      by_cases hq : q = p
      · subst hq
        obtain rfl : node' = node := Option.some.inj (hp.symm.trans hnode)
        by_contra hnot
        rw [not_or, not_not, not_exists] at hnot
        exact hidle ⟨hnot.1, fun m hm => by simpa [hm] using hnot.2 m⟩
      · exact h q hq node hnode

theorem get?_setState_of_ne (m : MembershipState) {q : PeerId} (hq : q ≠ p) :
    (s.setState set p m).nodes.get? q = s.nodes.get? q := by
  rw [setState, Dict.get?_modify, if_neg hq]

theorem nodes_adjustSlots (s : PeersState) (set : SetId) (m : MembershipState) (f : ℕ → ℕ) :
    (s.adjustSlots set m f).nodes = s.nodes := by
  cases m <;> rfl

theorem nodes_addNoSlotNode (s : PeersState) (set : SetId) (p : PeerId) :
    (s.addNoSlotNode set p).nodes = s.nodes := by
  unfold addNoSlotNode
  split
  · rfl
  · exact nodes_adjustSlots _ set _ _

theorem nodes_removeNoSlotNode (s : PeersState) (set : SetId) (p : PeerId) :
    (s.removeNoSlotNode set p).nodes = s.nodes := by
  unfold removeNoSlotNode
  split
  · exact nodes_adjustSlots _ set _ _
  · rfl

theorem Accounted.storedBut (h : s.Accounted) (p : PeerId) : StoredBut s p :=
  fun q _ node hnode => h.stored q node hnode

theorem Accounted.stored_setState (h : s.Accounted) (hset : set < s.numSets) (hp : p ∈ s.nodes)
    (hm : m ≠ .notMember) (hn : s'.nodes = (s.setState set p m).nodes) :
    ∀ q node, s'.nodes.get? q = some node →
      node.reputation ≠ 0 ∨ ∃ m ∈ node.sets, m ≠ .notMember := by
  have hmoves : Moves s set p m (s.setState set p m) := moves_setState h.sized hset hp
  have hbut : StoredBut (s.setState set p m) p :=
    (h.storedBut p).of_nodes fun q hq => get?_setState_of_ne m hq
  rw [hn]
  apply hbut.all hmoves.sized
  rw [hmoves.membership set p]
  simpa using hm

theorem stored_exec (hs : s.Accounted) {op : Operation} (h : s.Allowed op) :
    ∀ q node, (s.exec op).nodes.get? q = some node →
      node.reputation ≠ 0 ∨ ∃ m ∈ node.sets, m ≠ .notMember := by
  cases op with
  | addNoSlotNode set p =>
    rw [exec, nodes_addNoSlotNode]
    exact hs.stored
  | removeNoSlotNode set p =>
    rw [exec, nodes_removeNoSlotNode]
    exact hs.stored
  | disconnect set p now =>
    have hp : p ∈ s.nodes := mem_nodes_of_peer (by rw [h.2]; simp)
    refine hs.stored_setState (m := .notConnected now) h.1 hp (by simp) ?_
    simp only [exec, disconnect, setState]
    split
    · rfl
    · rw [nodes_adjustSlots]
  | addReputation set p modifier =>
    have hsame := sameMembers_addReputation hs.sized p modifier
    have hbut : StoredBut (s.addReputation p modifier) p :=
      (hs.storedBut p).of_nodes fun q hq => by rw [addReputation, Dict.get?_modify, if_neg hq]
    apply hbut.all hsame.sized
    rw [hsame.membership set p]
    exact (peer_eq_connected.mp h.2).member
  | bumpLastConnectedOrDiscovered set p now =>
    have hp : p ∈ s.nodes := mem_nodes_of_peer (by rw [h.2]; simp)
    simp only [exec, bumpLastConnectedOrDiscovered]
    split
    · exact hs.stored_setState (m := .notConnected now) h.1 hp (by simp) rfl
    · exact hs.stored
  | tryOutgoing set p =>
    have hp : p ∈ s.nodes := mem_nodes_of_peer (by rw [h.2]; simp)
    rw [exec, tryOutgoing_eq hp]
    split
    · exact hs.stored
    · refine hs.stored_setState (m := .outgoing) h.1 hp (by simp) ?_
      split
      · rw [nodes_adjustSlots]
      · rfl
  | tryAcceptIncoming set p =>
    have hp : p ∈ s.nodes := mem_nodes_of_peer (by rw [h.2]; simp)
    rw [exec, tryAcceptIncoming_eq hp]
    split
    · exact hs.stored
    · refine hs.stored_setState (m := .ingoing) h.1 hp (by simp) ?_
      split
      · rw [nodes_adjustSlots]
      · rfl
  | forgetPeer set p =>
    have hbut : StoredBut (s.setState set p .notMember) p :=
      (hs.storedBut p).of_nodes fun q hq => get?_setState_of_ne .notMember hq
    exact hbut.cleanUp
  | discover set p now =>
    have hmoves := moves_discover hs.sized h.1 p now
    have hbut : StoredBut (s.discover set p now) p :=
      (hs.storedBut p).of_nodes fun q hq => Dict.get?_insert_ne _ hq
    apply hbut.all hmoves.sized
    rw [hmoves.membership set p]
    simp
  | peerReputation p f =>
    have hbut : ∀ node, StoredBut { s with nodes := s.nodes.insert p node } p :=
      fun node => (hs.storedBut p).of_nodes fun q hq => Dict.get?_insert_ne _ hq
    exact (hbut _).cleanUp

end Stored

/-- Every operation keeps the accounts. -/
theorem accounted_exec (hs : s.Accounted) {op : Operation} (h : s.Allowed op) :
    (s.exec op).Accounted := by
  obtain ⟨set, p, hshift⟩ := exists_shift_exec hs.sized h
  exact hshift.accounted hs (stored_exec hs h)

theorem accounted_new (sets : List SetConfig) : (PeersState.new sets).Accounted := by
  have hinfo : ∀ set, ((PeersState.new sets).setInfo set).numIn = 0 ∧
      ((PeersState.new sets).setInfo set).numOut = 0 := by
    intro set
    simp only [setInfo, PeersState.new, List.getD_eq_getElem?_getD, List.getElem?_map]
    cases sets[set]? <;> exact ⟨rfl, rfl⟩
  refine ⟨?_, ?_, ?_, ?_⟩
  · rintro p node ⟨⟩
  · intro set _
    rw [(hinfo set).1]
    rfl
  · intro set _
    rw [(hinfo set).2]
    rfl
  · rintro p node ⟨⟩

section Checked

theorem modifySet_congr {f g : SetInfo → SetInfo} (h : f (s.setInfo set) = g (s.setInfo set)) :
    s.modifySet set f = s.modifySet set g := by
  simp only [modifySet, PeersState.mk.injEq, true_and]
  apply List.ext_getElem?
  intro i
  simp only [List.getElem?_modify]
  by_cases hi : set = i
  · subst hi
    simp only [setInfo, List.getD_eq_getElem?_getD] at h
    cases hinfo : s.sets[set]? with
    | none => rfl
    | some info =>
      rw [hinfo] at h
      simpa using h
  · simp [hi]

theorem releaseSlot?_eq (hm : m.isConnected) (hpos : 0 < (s.setInfo set).taken m) :
    s.releaseSlot? set m = some (s.adjustSlots set m (· - 1)) := by
  cases m with
  | ingoing =>
    have hdec : u32Decrement (s.setInfo set).numIn = some _ := u32Decrement_of_pos hpos
    rw [releaseSlot?, hdec]
    exact congrArg some (modifySet_congr rfl)
  | outgoing =>
    have hdec : u32Decrement (s.setInfo set).numOut = some _ := u32Decrement_of_pos hpos
    rw [releaseSlot?, hdec]
    exact congrArg some (modifySet_congr rfl)
  | notMember | notConnected => cases hm

theorem Accounted.taken_pos (hs : s.Accounted) (hset : set < s.numSets)
    (hm : (s.membership set p).isConnected) (hno : ¬ s.noSlot set p) :
    0 < (s.setInfo set).taken (s.membership set p) := by
  rw [hs.taken hset hm, Finset.card_pos]
  exact ⟨p, (mem_occupants hm).mpr ⟨rfl, hno⟩⟩

theorem addNoSlotNode?_eq (hs : s.Accounted) (hset : set < s.numSets) (p : PeerId) :
    s.addNoSlotNode? set p = some (s.addNoSlotNode set p) := by
  unfold addNoSlotNode? addNoSlotNode
  split
  · rfl
  · next hno =>
    by_cases hm : (s.membership set p).isConnected
    · apply releaseSlot?_eq hm
      rw [setInfo_modifySet hset, if_pos rfl, SetInfo.taken_noSlotNodes]
      exact hs.taken_pos hset hm hno
    · cases hm' : s.membership set p with
      | ingoing | outgoing => simp [hm', MembershipState.isConnected] at hm
      | notMember | notConnected => rfl

theorem disconnect?_eq (hs : s.Accounted) (hset : set < s.numSets) (hc : s.Connected (set, p))
    (now : Instant) : s.disconnect? set p now = some (s.disconnect set p now) := by
  obtain ⟨node, hnode⟩ := Dict.mem_iff.mp (mem_nodes_of_membership hc.member)
  have hstate : node.state set = s.membership set p := (membership_of_get? hnode).symm
  unfold disconnect? disconnect
  rw [hnode]
  dsimp only
  split
  · rfl
  · next hno =>
    have hrelease := releaseSlot?_eq hc (hs.taken_pos hset hc hno)
    rw [hstate]
    split
    · next hm => simp [Connected, hm, MembershipState.isConnected] at hc
    · next hm => simp [Connected, hm, MembershipState.isConnected] at hc
    · rw [hrelease]
      rfl

/-- No counter goes below zero and no assertion fails. -/
theorem exec?_eq (hs : s.Accounted) {op : Operation} (h : s.Allowed op) :
    s.exec? op = some (s.exec op) := by
  cases op with
  | addNoSlotNode set p => exact addNoSlotNode?_eq hs h p
  | removeNoSlotNode set p => rfl
  | disconnect set p now => exact disconnect?_eq hs h.1 (peer_eq_connected.mp h.2) now
  | addReputation set p modifier =>
    have hp : p ∈ s.nodes := mem_nodes_of_peer (by rw [h.2]; simp)
    exact if_pos hp
  | bumpLastConnectedOrDiscovered set p now => rfl
  | tryOutgoing set p =>
    have hp : p ∈ s.nodes := mem_nodes_of_peer (by rw [h.2]; simp)
    simp [exec?, tryOutgoing?, hp, exec]
  | tryAcceptIncoming set p =>
    have hp : p ∈ s.nodes := mem_nodes_of_peer (by rw [h.2]; simp)
    simp [exec?, tryAcceptIncoming?, hp, exec]
  | forgetPeer set p =>
    obtain ⟨node, hnode⟩ :=
      Dict.mem_iff.mp (mem_nodes_of_peer (s := s) (p := p) (by rw [h.2]; simp))
    have hne : node.state set ≠ .notMember := by
      rw [← membership_of_get? hnode]
      intro hm
      have hpeer := h.2
      simp [peer, hm] at hpeer
    simp [exec?, forgetPeer?, hnode, hne, exec]
  | discover | peerReputation => rfl

end Checked

end PeersState

end SwarmHost.Substrate
