import Mathlib.Algebra.Ring.Int.Defs
import Mathlib.Data.Finset.Insert
import Mathlib.Data.Finset.Erase
import SwarmHost.Backend.Substrate

/-! # Slots and reputations

The table behind the peerset: for every known node its reputation and, for each
set, whether it is a member and connected. A node that is not a member of any
set and has no reputation is dropped from the table.
-/

namespace SwarmHost.Substrate

/-- A point in time, in nanoseconds. -/
abbrev Instant := ℕ

abbrev SetId := ℕ

def i32Min : ℤ := -2 ^ 31

def i32Max : ℤ := 2 ^ 31 - 1

/-- Addition of 32-bit integers that stops at the bounds. -/
def saturatingAdd (a b : ℤ) : ℤ := max i32Min (min i32Max (a + b))

/-- Whether a node is connected in the context of one set. -/
inductive MembershipState where
  | notMember
  | ingoing
  | outgoing
  | notConnected (lastConnected : Instant)
  deriving DecidableEq

def MembershipState.isConnected : MembershipState → Bool
  | .ingoing | .outgoing => true
  | .notMember | .notConnected _ => false

structure SetConfig where
  inPeers : ℕ
  outPeers : ℕ
  bootnodes : List PeerId
  reservedNodes : Finset PeerId
  reservedOnly : Bool

structure SetInfo where
  /-- The number of slot-occupying nodes that are connected. -/
  numIn : ℕ
  numOut : ℕ
  maxIn : ℕ
  maxOut : ℕ
  /-- The nodes that do not occupy slots. -/
  noSlotNodes : Finset PeerId
  deriving DecidableEq

structure Node where
  sets : List MembershipState
  reputation : ℤ
  deriving DecidableEq

namespace Node

def new (numSets : ℕ) : Node := ⟨List.replicate numSets .notMember, 0⟩

def state (node : Node) (set : SetId) : MembershipState := node.sets.getD set .notMember

def setState (node : Node) (set : SetId) (m : MembershipState) : Node :=
  { node with sets := node.sets.set set m }

/-- Nothing is lost when the node is dropped. -/
def Idle (node : Node) : Prop := node.reputation = 0 ∧ ∀ m ∈ node.sets, m = .notMember

instance (node : Node) : Decidable node.Idle := inferInstanceAs (Decidable (_ ∧ _))

theorem state_setState {node : Node} {set set' : SetId} {m : MembershipState}
    (h : set < node.sets.length) :
    (node.setState set m).state set' = if set' = set then m else node.state set' := by
  simp only [state, setState, List.getD_eq_getElem?_getD, List.getElem?_set]
  by_cases hset : set' = set
  · subst hset
    simp [h]
  · simp [hset, Ne.symm hset]

end Node

structure PeersState where
  nodes : Dict PeerId Node
  sets : List SetInfo
  deriving DecidableEq

inductive Peer where
  | connected
  | notConnected
  | unknown
  deriving DecidableEq

namespace PeersState

def new (sets : List SetConfig) : PeersState where
  nodes := ∅
  sets := sets.map fun config => ⟨0, 0, config.inPeers, config.outPeers, ∅⟩

variable (s : PeersState) (set : SetId) (peerId : PeerId)

def numSets : ℕ := s.sets.length

/-- The state of a peer in a set; a peer without an entry is not a member. -/
def membership : MembershipState := (s.nodes.get? peerId).elim .notMember (·.state set)

def peer : Peer :=
  match s.membership set peerId with
  | .notMember => .unknown
  | .ingoing | .outgoing => .connected
  | .notConnected _ => .notConnected

def setInfo : SetInfo := s.sets.getD set ⟨0, 0, 0, 0, ∅⟩

def modifySet (f : SetInfo → SetInfo) : PeersState := { s with sets := s.sets.modify set f }

def noSlot : Bool := peerId ∈ (s.setInfo set).noSlotNodes

def connectedPeers : Finset PeerId :=
  ((s.nodes.entries.filter fun e => (e.2.state set).isConnected).map Prod.fst).toFinset

def adjustSlots (m : MembershipState) (f : ℕ → ℕ) : PeersState :=
  match m with
  | .ingoing => s.modifySet set fun info => { info with numIn := f info.numIn }
  | .outgoing => s.modifySet set fun info => { info with numOut := f info.numOut }
  | .notMember | .notConnected _ => s

def addNoSlotNode : PeersState :=
  if s.noSlot set peerId then s
  else
    (s.modifySet set fun info =>
      { info with noSlotNodes := insert peerId info.noSlotNodes }).adjustSlots set
        (s.membership set peerId) (· - 1)

def removeNoSlotNode : PeersState :=
  if s.noSlot set peerId then
    (s.modifySet set fun info =>
      { info with noSlotNodes := info.noSlotNodes.erase peerId }).adjustSlots set
        (s.membership set peerId) (· + 1)
  else s

def setState (m : MembershipState) : PeersState :=
  { s with nodes := s.nodes.modify peerId (·.setState set m) }

def disconnect (now : Instant) : PeersState :=
  let slots := if s.noSlot set peerId then s
    else s.adjustSlots set (s.membership set peerId) (· - 1)
  slots.setState set peerId (.notConnected now)

def bumpLastConnectedOrDiscovered (now : Instant) : PeersState :=
  match s.membership set peerId with
  | .notConnected _ => s.setState set peerId (.notConnected now)
  | _ => s

def tryAcceptIncoming : Bool × PeersState :=
  if (s.setInfo set).maxIn ≤ (s.setInfo set).numIn ∧ ¬ s.noSlot set peerId then (false, s)
  else if peerId ∈ s.nodes ∧ ¬ s.noSlot set peerId then
    (true, (s.setState set peerId .ingoing).adjustSlots set .ingoing (· + 1))
  else (true, s.setState set peerId .ingoing)

def reputation : ℤ := (s.nodes.get? peerId).elim 0 (·.reputation)

/-- Drop the node of a peer if nothing is lost by it. -/
def cleanUp : PeersState :=
  match s.nodes.get? peerId with
  | none => s
  | some node => if node.Idle then { s with nodes := s.nodes.erase peerId } else s

def forgetPeer : PeersState := (s.setState set peerId .notMember).cleanUp peerId

/-- The node of a peer, a new one if there is none. -/
def nodeOrNew : Node := (s.nodes.get? peerId).getD (.new s.numSets)

def discover (now : Instant) : PeersState :=
  { s with
    nodes := s.nodes.insert peerId ((s.nodeOrNew peerId).setState set (.notConnected now)) }

def addReputation (modifier : ℤ) : PeersState :=
  { s with
    nodes := s.nodes.modify peerId fun node =>
      { node with reputation := saturatingAdd node.reputation modifier } }

/-- Change the reputation of a peer through a guard that cleans up when it is dropped. -/
def peerReputation (f : ℤ → ℤ) : PeersState :=
  let node := s.nodeOrNew peerId
  let s := { s with nodes := s.nodes.insert peerId { node with reputation := f node.reputation } }
  s.cleanUp peerId

section Membership

variable {s : PeersState} {s' t : PeersState} {set set' : SetId} {p p' : PeerId}
  {m : MembershipState}

/-- Every node has a state for each set. -/
def Sized (s : PeersState) : Prop :=
  ∀ p node, s.nodes.get? p = some node → node.sets.length = s.numSets

structure SameMembers (s s' : PeersState) : Prop where
  numSets : s'.numSets = s.numSets
  sized : s'.Sized
  membership : ∀ set p, s'.membership set p = s.membership set p

structure Moves (s : PeersState) (set : SetId) (p : PeerId) (m : MembershipState)
    (s' : PeersState) : Prop where
  numSets : s'.numSets = s.numSets
  sized : s'.Sized
  membership : ∀ set' p', s'.membership set' p' =
    if set' = set ∧ p' = p then m else s.membership set' p'

theorem SameMembers.refl (hs : s.Sized) : SameMembers s s := ⟨rfl, hs, fun _ _ => rfl⟩

theorem SameMembers.trans (h : SameMembers s s') (h' : SameMembers s' t) : SameMembers s t :=
  ⟨h'.numSets.trans h.numSets, h'.sized, fun set p =>
    (h'.membership set p).trans (h.membership set p)⟩

theorem SameMembers.moves (h : SameMembers s s') (h' : Moves s' set p m t) : Moves s set p m t :=
  ⟨h'.numSets.trans h.numSets, h'.sized, fun set' p' => by
    rw [h'.membership, h.membership]⟩

theorem Moves.same (h : Moves s set p m s') (h' : SameMembers s' t) : Moves s set p m t :=
  ⟨h'.numSets.trans h.numSets, h'.sized, fun set' p' => by
    rw [h'.membership, h.membership]⟩

theorem SameMembers.of_nodes (hs : s.Sized) (hn : s'.nodes = s.nodes)
    (hsets : s'.numSets = s.numSets) : SameMembers s s' := by
  refine ⟨hsets, ?_, fun set p => by rw [PeersState.membership, hn, PeersState.membership]⟩
  intro p node hp
  rw [hn] at hp
  rw [hsets]
  exact hs p node hp

theorem sameMembers_modifySet (hs : s.Sized) (set : SetId) (f : SetInfo → SetInfo) :
    SameMembers s (s.modifySet set f) :=
  .of_nodes hs rfl (List.length_modify ..)

theorem sameMembers_adjustSlots (hs : s.Sized) (set : SetId) (m : MembershipState) (f : ℕ → ℕ) :
    SameMembers s (s.adjustSlots set m f) := by
  cases m with
  | ingoing | outgoing => exact sameMembers_modifySet hs set _
  | notMember | notConnected => exact .refl hs

theorem sameMembers_addNoSlotNode (hs : s.Sized) (set : SetId) (p : PeerId) :
    SameMembers s (s.addNoSlotNode set p) := by
  unfold addNoSlotNode
  split
  · exact .refl hs
  · have h := sameMembers_modifySet hs set fun info =>
      { info with noSlotNodes := insert p info.noSlotNodes }
    exact h.trans (sameMembers_adjustSlots h.sized set _ _)

theorem sameMembers_removeNoSlotNode (hs : s.Sized) (set : SetId) (p : PeerId) :
    SameMembers s (s.removeNoSlotNode set p) := by
  unfold removeNoSlotNode
  split
  · have h := sameMembers_modifySet hs set fun info =>
      { info with noSlotNodes := info.noSlotNodes.erase p }
    exact h.trans (sameMembers_adjustSlots h.sized set _ _)
  · exact .refl hs

theorem membership_insert (node : Node) :
    membership { s with nodes := s.nodes.insert p node } set' p' =
      if p' = p then node.state set' else s.membership set' p' := by
  simp only [membership, Dict.get?_insert]
  split <;> rfl

theorem Sized.insert (hs : s.Sized) {node : Node} (hnode : node.sets.length = s.numSets) :
    Sized { s with nodes := s.nodes.insert p node } := by
  intro q n hq
  rw [Dict.get?_insert] at hq
  split at hq
  · cases hq; exact hnode
  · exact hs q n hq

theorem moves_insert (hs : s.Sized) (hset : set < s.numSets) {node : Node}
    (hnode : node.sets.length = s.numSets)
    (hstate : ∀ set', node.state set' = s.membership set' p) :
    Moves s set p m { s with nodes := s.nodes.insert p (node.setState set m) } := by
  refine ⟨rfl, hs.insert (by simpa [Node.setState] using hnode), fun set' p' => ?_⟩
  rw [membership_insert, Node.state_setState (hnode ▸ hset)]
  by_cases hp : p' = p
  · subst hp
    simp only [and_true, if_true, hstate]
  · simp [hp]

theorem membership_of_get? {node : Node} (h : s.nodes.get? p = some node) :
    s.membership set p = node.state set := by
  rw [membership, h]
  rfl

theorem moves_setState (hs : s.Sized) (hset : set < s.numSets) (hp : p ∈ s.nodes) :
    Moves s set p m (s.setState set p m) := by
  obtain ⟨node, hnode⟩ := Dict.mem_iff.mp hp
  rw [setState, Dict.modify_of_get? hnode]
  exact moves_insert hs hset (hs p node hnode) fun set' => (membership_of_get? hnode).symm

theorem nodeOrNew_length (hs : s.Sized) (p : PeerId) :
    (s.nodeOrNew p).sets.length = s.numSets := by
  rw [nodeOrNew]
  cases hp : s.nodes.get? p with
  | none => simp [Node.new]
  | some node => exact hs p node hp

theorem nodeOrNew_state (s : PeersState) (p : PeerId) (set : SetId) :
    (s.nodeOrNew p).state set = s.membership set p := by
  rw [nodeOrNew, membership]
  cases s.nodes.get? p with
  | none =>
    simp only [Option.getD_none, Option.elim_none, Node.state, Node.new,
      List.getD_eq_getElem?_getD, List.getElem?_replicate]
    split <;> rfl
  | some node => rfl

theorem moves_discover (hs : s.Sized) (hset : set < s.numSets) (p : PeerId) (now : Instant) :
    Moves s set p (.notConnected now) (s.discover set p now) :=
  moves_insert hs hset (nodeOrNew_length hs p) (nodeOrNew_state s p)

theorem membership_cleanUp (s : PeersState) (p : PeerId) (set : SetId) (q : PeerId) :
    (s.cleanUp p).membership set q = s.membership set q := by
  unfold cleanUp
  cases hp : s.nodes.get? p with
  | none => rfl
  | some node =>
    dsimp only
    split
    · next hidle =>
      simp only [membership, Dict.get?_erase]
      split
      · subst q
        rw [hp]
        simp only [Option.elim_none, Option.elim_some, Node.state, List.getD_eq_getElem?_getD]
        cases hm : node.sets[set]? with
        | none => rfl
        | some m => exact (hidle.2 m (List.mem_of_getElem? hm)).symm
      · rfl
    · rfl

theorem sameMembers_cleanUp (hs : s.Sized) (p : PeerId) : SameMembers s (s.cleanUp p) := by
  have hnum : (s.cleanUp p).numSets = s.numSets := by
    unfold cleanUp
    split
    · rfl
    · split <;> rfl
  refine ⟨hnum, ?_, membership_cleanUp s p⟩
  intro q n hq
  rw [hnum]
  unfold cleanUp at hq
  split at hq
  · exact hs q n hq
  · split at hq
    · rw [Dict.get?_erase] at hq
      split at hq
      · cases hq
      · exact hs q n hq
    · exact hs q n hq

theorem sameMembers_addReputation (hs : s.Sized) (p : PeerId) (modifier : ℤ) :
    SameMembers s (s.addReputation p modifier) := by
  unfold addReputation
  cases hp : s.nodes.get? p with
  | none =>
    have hsame : s.nodes.modify p (fun node =>
        { node with reputation := saturatingAdd node.reputation modifier }) = s.nodes := by
      rw [Dict.modify, hp]
    exact .of_nodes hs hsame rfl
  | some node =>
    rw [Dict.modify_of_get? hp]
    refine ⟨rfl, hs.insert (hs p node hp), fun set q => ?_⟩
    rw [membership_insert]
    split
    · subst q
      exact (membership_of_get? hp).symm
    · rfl

theorem membership_peerReputation (s : PeersState) (p : PeerId) (f : ℤ → ℤ) (set : SetId)
    (q : PeerId) : (s.peerReputation p f).membership set q = s.membership set q := by
  rw [peerReputation, membership_cleanUp, membership_insert]
  split
  · subst q
    exact nodeOrNew_state s p set
  · rfl

theorem sameMembers_peerReputation (hs : s.Sized) (p : PeerId) (f : ℤ → ℤ) :
    SameMembers s (s.peerReputation p f) := by
  have hsized : Sized { s with
      nodes := s.nodes.insert p
        { s.nodeOrNew p with reputation := f (s.nodeOrNew p).reputation } } :=
    hs.insert (nodeOrNew_length hs p)
  have hclean := sameMembers_cleanUp hsized p
  exact ⟨hclean.numSets, hclean.sized, membership_peerReputation s p f⟩

theorem mem_nodes_of_membership (h : s.membership set p ≠ .notMember) : p ∈ s.nodes := by
  by_contra hp
  apply h
  rw [membership, Dict.notMem_iff.mp hp]
  rfl

theorem moves_disconnect (hs : s.Sized) (hset : set < s.numSets)
    (hp : s.membership set p ≠ .notMember) (now : Instant) :
    Moves s set p (.notConnected now) (s.disconnect set p now) := by
  unfold disconnect
  dsimp only
  split
  · exact moves_setState hs hset (mem_nodes_of_membership hp)
  · have h := sameMembers_adjustSlots hs set (s.membership set p) (· - 1)
    refine h.moves (moves_setState h.sized (h.numSets ▸ hset) ?_)
    apply mem_nodes_of_membership
    rwa [h.membership]

theorem moves_forgetPeer (hs : s.Sized) (hset : set < s.numSets) (hp : p ∈ s.nodes) :
    Moves s set p .notMember (s.forgetPeer set p) := by
  have h := moves_setState (m := .notMember) hs hset hp
  exact h.same (sameMembers_cleanUp h.sized p)

/-- An accepted peer is connected, a refused one keeps its state. -/
theorem tryAcceptIncoming_spec (hs : s.Sized) (hset : set < s.numSets) (hp : p ∈ s.nodes) :
    ((s.tryAcceptIncoming set p).1 = true ∧
      Moves s set p .ingoing (s.tryAcceptIncoming set p).2) ∨
    ((s.tryAcceptIncoming set p).1 = false ∧ (s.tryAcceptIncoming set p).2 = s) := by
  have h := moves_setState (m := .ingoing) hs hset hp
  unfold tryAcceptIncoming
  split
  · exact .inr ⟨rfl, rfl⟩
  · split
    · exact .inl ⟨rfl, h.same (sameMembers_adjustSlots h.sized set .ingoing _)⟩
    · exact .inl ⟨rfl, h⟩

end Membership

end PeersState

end SwarmHost.Substrate
