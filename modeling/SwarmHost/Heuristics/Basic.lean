import Mathlib.Data.Finset.Insert
import Mathlib.Data.Finset.Erase
import SwarmHost.Backend.Basic

/-! # The heuristics backend

The backend keeps counters for each peer and protocol. An event that counts a
message is dropped unless the peer was registered at some point; unregistering
a peer from an interface keeps its counters.
-/

namespace SwarmHost

variable {T : NetworkBackend}

structure MessageHeuristics (T : NetworkBackend) where
  totalBytesSent : ℕ
  totalMessagesSent : ℕ
  totalBytesReceived : ℕ
  totalMessagesReceived : ℕ
  redundantBytesSent : ℕ
  redundantBytesReceived : ℕ
  uniqueMessagesSent : Finset UInt64
  uniqueMessagesReceived : Finset UInt64
  interfaces : Finset T.InterfaceId

def MessageHeuristics.new : MessageHeuristics T where
  totalBytesSent := 0
  totalMessagesSent := 0
  totalBytesReceived := 0
  totalMessagesReceived := 0
  redundantBytesSent := 0
  redundantBytesReceived := 0
  uniqueMessagesSent := ∅
  uniqueMessagesReceived := ∅
  interfaces := ∅

structure PeerHeuristics (T : NetworkBackend) where
  interfaces : Finset T.InterfaceId
  protocols : Dict T.Protocol (MessageHeuristics T)

namespace PeerHeuristics

/-- The counters of a protocol; a protocol without an entry gets a new one. -/
def entry (p : PeerHeuristics T) (protocol : T.Protocol) : MessageHeuristics T :=
  (p.protocols.get? protocol).getD .new

def registerMessageReceived (p : PeerHeuristics T) (protocol : T.Protocol) (info : MessageInfo) :
    PeerHeuristics T :=
  let entry := p.entry protocol
  let redundant := if info.hash ∈ entry.uniqueMessagesReceived then info.size else 0
  { p with
    protocols := p.protocols.insert protocol
      { entry with
        totalBytesReceived := entry.totalBytesReceived + info.size
        totalMessagesReceived := entry.totalMessagesReceived + 1
        redundantBytesReceived := entry.redundantBytesReceived + redundant
        uniqueMessagesReceived := insert info.hash entry.uniqueMessagesReceived } }

def registerMessageSent (p : PeerHeuristics T) (protocol : T.Protocol) (info : MessageInfo) :
    PeerHeuristics T :=
  let entry := p.entry protocol
  let redundant := if info.hash ∈ entry.uniqueMessagesSent then info.size else 0
  { p with
    protocols := p.protocols.insert protocol
      { entry with
        totalBytesSent := entry.totalBytesSent + info.size
        totalMessagesSent := entry.totalMessagesSent + 1
        redundantBytesSent := entry.redundantBytesSent + redundant
        uniqueMessagesSent := insert info.hash entry.uniqueMessagesSent } }

end PeerHeuristics

structure HeuristicsBackend (T : NetworkBackend) where
  peers : Dict T.PeerId (PeerHeuristics T)

namespace HeuristicsBackend

def new : HeuristicsBackend T := ⟨∅⟩

def modifyInterfaces (b : HeuristicsBackend T) (peer : T.PeerId) (protocol : T.Protocol)
    (change : Finset T.InterfaceId → Finset T.InterfaceId) : HeuristicsBackend T :=
  ⟨b.peers.modify peer fun info =>
    { info with
      protocols := info.protocols.modify protocol fun entry =>
        { entry with interfaces := change entry.interfaces } }⟩

def handleEvent (b : HeuristicsBackend T) : HeuristicsEvent T → HeuristicsBackend T
  | .linkInterfaces _ _ => b
  | .registerPeer interface peer =>
    let info := (b.peers.get? peer).getD ⟨∅, ∅⟩
    ⟨b.peers.insert peer { info with interfaces := insert interface info.interfaces }⟩
  | .unregisterPeer interface peer =>
    ⟨b.peers.modify peer fun info => { info with interfaces := info.interfaces.erase interface }⟩
  | .messageReceived _ protocol peer info =>
    ⟨b.peers.modify peer (·.registerMessageReceived protocol info)⟩
  | .messageSent _ protocol peers info =>
    ⟨peers.foldl (fun d peer => d.modify peer (·.registerMessageSent protocol info)) b.peers⟩
  | .openProtocol interface peer protocol => b.modifyInterfaces peer protocol (insert interface)
  | .closeProtocol interface peer protocol =>
    b.modifyInterfaces peer protocol (·.erase interface)

end HeuristicsBackend

/-- The messages of one direction that were counted for a peer and a protocol. -/
@[ext] structure Tally where
  messages : ℕ
  bytes : ℕ
  redundantBytes : ℕ
  unique : Finset UInt64

namespace Tally

def add (t : Tally) (info : MessageInfo) : Tally where
  messages := t.messages + 1
  bytes := t.bytes + info.size
  redundantBytes := t.redundantBytes + if info.hash ∈ t.unique then info.size else 0
  unique := insert info.hash t.unique

theorem messages_iterate_add (t : Tally) (info : MessageInfo) (n : ℕ) :
    ((add · info)^[n] t).messages = t.messages + n := by
  induction n generalizing t with
  | zero => rfl
  | succ n ih =>
    rw [Function.iterate_succ_apply, ih]
    simp only [add]
    omega

end Tally

/-- A message that is counted as received: its protocol, its sender, and its hash and size. -/
abbrev Receipt (T : NetworkBackend) := T.Protocol × T.PeerId × MessageInfo

namespace HeuristicsEvent

def receipt : HeuristicsEvent T → Option (Receipt T)
  | .messageReceived _ protocol peer info => some (protocol, peer, info)
  | _ => none

def registered : HeuristicsEvent T → Option T.PeerId
  | .registerPeer _ peer => some peer
  | _ => none

end HeuristicsEvent

namespace MessageHeuristics

def received (m : MessageHeuristics T) : Tally :=
  ⟨m.totalMessagesReceived, m.totalBytesReceived, m.redundantBytesReceived,
    m.uniqueMessagesReceived⟩

end MessageHeuristics

namespace PeerHeuristics

variable (p : PeerHeuristics T) (protocol protocol' : T.Protocol) (info : MessageInfo)

theorem received_registerMessageReceived :
    ((p.registerMessageReceived protocol' info).entry protocol).received =
      if protocol = protocol' then (p.entry protocol).received.add info
      else (p.entry protocol).received := by
  simp only [registerMessageReceived]
  rw [entry, Dict.get?_insert]
  split
  · subst protocol'; rfl
  · rfl

theorem received_registerMessageSent :
    ((p.registerMessageSent protocol' info).entry protocol).received =
      (p.entry protocol).received := by
  simp only [registerMessageSent]
  rw [entry, Dict.get?_insert]
  split
  · subst protocol'; rfl
  · rfl

end PeerHeuristics

namespace HeuristicsBackend

variable (b : HeuristicsBackend T) (peer : T.PeerId) (protocol : T.Protocol)

/-- The messages received from a peer on a protocol, none if there is no entry. -/
def received : Tally :=
  ((b.peers.get? peer).elim .new (·.entry protocol)).received

def counters : MessageHeuristics T := (b.peers.get? peer).elim .new (·.entry protocol)

theorem counters_modify {α : Type*} (part : MessageHeuristics T → α) {q : T.PeerId}
    {f : PeerHeuristics T → PeerHeuristics T}
    (hf : ∀ info, part ((f info).entry protocol) = part (info.entry protocol)) :
    part (counters ⟨b.peers.modify q f⟩ peer protocol) = part (b.counters peer protocol) := by
  simp only [counters, Dict.get?_modify]
  split
  · subst q
    cases b.peers.get? peer with
    | none => rfl
    | some info => exact hf info
  · rfl

theorem counters_modifyInterfaces {α : Type*} {part : MessageHeuristics T → α}
    (hpart : ∀ m interfaces, part { m with interfaces := interfaces } = part m) (q : T.PeerId)
    (protocol' : T.Protocol) (change : Finset T.InterfaceId → Finset T.InterfaceId) :
    part ((b.modifyInterfaces q protocol' change).counters peer protocol) =
      part (b.counters peer protocol) := by
  apply counters_modify
  intro info
  simp only [PeerHeuristics.entry, Dict.get?_modify]
  split
  · subst protocol'
    cases info.protocols.get? protocol with
    | none => rfl
    | some m => exact hpart m _
  · rfl

theorem counters_registerPeer (i : T.InterfaceId) (q : T.PeerId) :
    (b.handleEvent (.registerPeer i q)).counters peer protocol = b.counters peer protocol := by
  simp only [handleEvent, counters, Dict.get?_insert]
  split
  · subst q
    cases b.peers.get? peer <;> rfl
  · rfl

theorem received_messagesSent (protocol' : T.Protocol) (info : MessageInfo)
    (peers : List T.PeerId) :
    received ⟨peers.foldl (fun d q => d.modify q (·.registerMessageSent protocol' info)) b.peers⟩
      peer protocol = b.received peer protocol := by
  induction peers generalizing b with
  | nil => rfl
  | cons q peers ih =>
    rw [List.foldl_cons]
    apply (ih ⟨_⟩).trans
    exact counters_modify b peer protocol MessageHeuristics.received fun p =>
      p.received_registerMessageSent protocol protocol' info

/-- An event counts for the sender of the message it reports, if the sender is known. -/
theorem received_handleEvent (e : HeuristicsEvent T) :
    (b.handleEvent e).received peer protocol =
      match e.receipt with
      | none => b.received peer protocol
      | some (protocol', q, info) =>
        if peer = q ∧ protocol = protocol' ∧ peer ∈ b.peers then (b.received peer protocol).add info
        else b.received peer protocol := by
  cases e with
  | linkInterfaces => rfl
  | registerPeer i q =>
    exact congrArg MessageHeuristics.received (counters_registerPeer b peer protocol i q)
  | unregisterPeer i q =>
    exact counters_modify b peer protocol MessageHeuristics.received fun _ => rfl
  | messageReceived i protocol' q info =>
    simp only [handleEvent, HeuristicsEvent.receipt, received, Dict.get?_modify,
      Dict.mem_iff_isSome]
    by_cases hq : peer = q
    · subst q
      cases b.peers.get? peer with
      | none => simp
      | some p =>
        simp only [if_true, Option.map_some, Option.elim_some, Option.isSome_some, and_true,
          true_and]
        exact p.received_registerMessageReceived protocol protocol' info
    · simp [hq]
  | messageSent i protocol' peers info =>
    exact received_messagesSent b peer protocol protocol' info peers
  | openProtocol i q protocol' | closeProtocol i q protocol' =>
    exact counters_modifyInterfaces b peer protocol (fun _ _ => rfl) q protocol' _

theorem mem_handleEvent (e : HeuristicsEvent T) :
    peer ∈ (b.handleEvent e).peers ↔ e.registered = some peer ∨ peer ∈ b.peers := by
  cases e with
  | linkInterfaces => simp [handleEvent, HeuristicsEvent.registered]
  | registerPeer i q =>
    simp [handleEvent, HeuristicsEvent.registered, eq_comm]
  | messageSent i protocol' peers info =>
    simp only [handleEvent, HeuristicsEvent.registered, reduceCtorEq, false_or]
    generalize b.peers = d
    induction peers generalizing d with
    | nil => rfl
    | cons q peers ih => rw [List.foldl_cons, ih, Dict.mem_modify]
  | unregisterPeer | messageReceived | openProtocol | closeProtocol =>
    simp [handleEvent, HeuristicsEvent.registered, modifyInterfaces, Dict.mem_modify]

/-- Handling events that all report one message adds it as often as it is reported. -/
theorem received_foldl {events : List (HeuristicsEvent T)} {info : MessageInfo}
    (hknown : peer ∈ b.peers)
    (hevents : ∀ e ∈ events, ∀ r ∈ e.receipt, r = (protocol, peer, info)) :
    (events.foldl handleEvent b).received peer protocol =
      (Tally.add · info)^[(events.filterMap HeuristicsEvent.receipt).length]
        (b.received peer protocol) := by
  induction events generalizing b with
  | nil => rfl
  | cons e events ih =>
    have hknown' : peer ∈ (b.handleEvent e).peers := (mem_handleEvent b peer e).mpr (.inr hknown)
    rw [List.foldl_cons, ih _ hknown' fun e he => hevents e (List.mem_cons_of_mem _ he),
      received_handleEvent]
    cases hr : e.receipt with
    | none => simp [hr]
    | some r =>
      obtain rfl := hevents e List.mem_cons_self r hr
      simp [hr, hknown, Function.iterate_succ_apply]

theorem received_foldl_unknown {events : List (HeuristicsEvent T)} (hknown : peer ∉ b.peers)
    (hevents : ∀ e ∈ events, e.registered = none) :
    (events.foldl handleEvent b).received peer protocol = b.received peer protocol := by
  induction events generalizing b with
  | nil => rfl
  | cons e events ih =>
    have hknown' : peer ∉ (b.handleEvent e).peers := by
      rw [mem_handleEvent, hevents e List.mem_cons_self]
      simpa using hknown
    rw [List.foldl_cons, ih _ hknown' fun e he => hevents e (List.mem_cons_of_mem _ he),
      received_handleEvent]
    split
    · rfl
    · simp [hknown]

end HeuristicsBackend

end SwarmHost
