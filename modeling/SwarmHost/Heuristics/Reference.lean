import Mathlib.Algebra.BigOperators.Group.Finset.Basic
import Mathlib.Algebra.GroupWithZero.Nat
import SwarmHost.Heuristics.Basic

/-! # The counters as a function of the history

What the heuristics backend counts is stated over the whole list of events it has
handled: a message counts from the first registration of its peer on, its bytes are
redundant unless it is the first with its hash, and the interfaces of a peer are
those whose last event about it is a registration.
-/

namespace SwarmHost

variable {T : NetworkBackend}

def firstBytes (l : List MessageInfo) : ℕ :=
  ∑ hash ∈ (l.map (·.hash)).toFinset, ((l.find? (·.hash = hash)).map (·.size)).getD 0

structure Tally.CountsOf (t : Tally) (l : List MessageInfo) : Prop where
  messages : t.messages = l.length
  bytes : t.bytes = (l.map (·.size)).sum
  unique : t.unique = (l.map (·.hash)).toFinset
  redundantBytes : t.redundantBytes + firstBytes l = t.bytes

theorem find?_hash_isSome_iff {l : List MessageInfo} {hash : UInt64} :
    (l.find? (·.hash = hash)).isSome ↔ hash ∈ l.map (·.hash) := by
  simp

theorem firstBytes_concat (l : List MessageInfo) (info : MessageInfo) :
    firstBytes (l ++ [info]) =
      firstBytes l + if info.hash ∈ l.map (·.hash) then 0 else info.size := by
  have hold : ∀ hash ∈ (l.map (·.hash)).toFinset,
      (((l ++ [info]).find? (·.hash = hash)).map (·.size)).getD 0 =
        ((l.find? (·.hash = hash)).map (·.size)).getD 0 := by
    intro hash hmem
    rw [List.find?_append, Option.or_of_isSome]
    exact find?_hash_isSome_iff.mpr (List.mem_toFinset.mp hmem)
  have hset : ((l ++ [info]).map (·.hash)).toFinset =
      insert info.hash (l.map (·.hash)).toFinset := by
    ext hash
    simp
  unfold firstBytes
  rw [hset]
  split
  · next hmem =>
    rw [Finset.insert_eq_of_mem (List.mem_toFinset.mpr hmem), Finset.sum_congr rfl hold, add_zero]
  · next hnew =>
    have hnone : l.find? (·.hash = info.hash) = none := by
      rw [← Option.not_isSome_iff_eq_none, find?_hash_isSome_iff]
      exact hnew
    rw [Finset.sum_insert (mt List.mem_toFinset.mp hnew), Finset.sum_congr rfl hold,
      List.find?_append, hnone, add_comm]
    simp

namespace Tally.CountsOf

variable {t : Tally} {l : List MessageInfo}

theorem add (h : t.CountsOf l) (info : MessageInfo) : (t.add info).CountsOf (l ++ [info]) where
  messages := by simp [Tally.add, h.messages]
  bytes := by simp [Tally.add, h.bytes]
  unique := by
    ext hash
    simp [Tally.add, h.unique]
  redundantBytes := by
    have hfirst := h.redundantBytes
    simp only [Tally.add, firstBytes_concat, h.unique, List.mem_toFinset]
    split <;> omega

theorem foldl_add (h : t.CountsOf l) (infos : List MessageInfo) :
    (infos.foldl Tally.add t).CountsOf (l ++ infos) := by
  induction infos generalizing t l with
  | nil => simpa using h
  | cons info infos ih => simpa using ih (h.add info)

end Tally.CountsOf

namespace HeuristicsEvent

variable (peer : T.PeerId) (protocol : T.Protocol) (i : T.InterfaceId)

def received : HeuristicsEvent T → List MessageInfo
  | .messageReceived _ protocol' q info => if peer = q ∧ protocol = protocol' then [info] else []
  | _ => []

def sent : HeuristicsEvent T → List MessageInfo
  | .messageSent _ protocol' peers info =>
    if protocol = protocol' then List.replicate (peers.count peer) info else []
  | _ => []

def attaches : HeuristicsEvent T → Option Bool
  | .registerPeer j q => if i = j ∧ peer = q then some true else none
  | .unregisterPeer j q => if i = j ∧ peer = q then some false else none
  | _ => none

end HeuristicsEvent

def sinceRegistered (peer : T.PeerId) (events : List (HeuristicsEvent T)) :
    List (HeuristicsEvent T) :=
  events.dropWhile fun e => e.registered ≠ some peer

theorem sinceRegistered_append (peer : T.PeerId) (es es' : List (HeuristicsEvent T)) :
    sinceRegistered peer (es ++ es') =
      if sinceRegistered peer es = [] then sinceRegistered peer es'
      else sinceRegistered peer es ++ es' := by
  simp only [sinceRegistered, List.dropWhile_append, List.isEmpty_iff]
  congr

theorem sinceRegistered_singleton (peer : T.PeerId) (e : HeuristicsEvent T) :
    sinceRegistered peer [e] = if e.registered = some peer then [e] else [] := by
  by_cases he : e.registered = some peer <;> simp [sinceRegistered, he]

def MessageHeuristics.sent (m : MessageHeuristics T) : Tally :=
  ⟨m.totalMessagesSent, m.totalBytesSent, m.redundantBytesSent, m.uniqueMessagesSent⟩

namespace PeerHeuristics

variable (p : PeerHeuristics T) (protocol protocol' : T.Protocol) (info : MessageInfo)

theorem sent_registerMessageSent :
    ((p.registerMessageSent protocol' info).entry protocol).sent =
      if protocol = protocol' then (p.entry protocol).sent.add info
      else (p.entry protocol).sent := by
  simp only [registerMessageSent]
  rw [entry, Dict.get?_insert]
  split
  · subst protocol'; rfl
  · rfl

theorem sent_registerMessageReceived :
    ((p.registerMessageReceived protocol' info).entry protocol).sent =
      (p.entry protocol).sent := by
  simp only [registerMessageReceived]
  rw [entry, Dict.get?_insert]
  split
  · subst protocol'; rfl
  · rfl

end PeerHeuristics

namespace HeuristicsBackend

variable (b : HeuristicsBackend T) (peer : T.PeerId) (protocol : T.Protocol) (i : T.InterfaceId)

/-- The messages sent to a peer on a protocol, none if there is no entry. -/
def sent : Tally := (b.counters peer protocol).sent

/-- The interfaces that a peer is registered at, none if there is no entry. -/
def interfaces : Finset T.InterfaceId := (b.peers.get? peer).elim ∅ (·.interfaces)

theorem received_handleEvent_eq (e : HeuristicsEvent T) :
    (b.handleEvent e).received peer protocol =
      if peer ∈ b.peers then (e.received peer protocol).foldl Tally.add (b.received peer protocol)
      else b.received peer protocol := by
  rw [received_handleEvent]
  cases e with
  | messageReceived j protocol' q info =>
    simp only [HeuristicsEvent.receipt, HeuristicsEvent.received]
    by_cases hknown : peer ∈ b.peers
    · simp only [hknown, and_true, if_true]
      split <;> rfl
    · simp [hknown]
  | _ => simp [HeuristicsEvent.receipt, HeuristicsEvent.received]

theorem sent_registerMessageSent (protocol' : T.Protocol) (info : MessageInfo) (q : T.PeerId) :
    sent ⟨b.peers.modify q (·.registerMessageSent protocol' info)⟩ peer protocol =
      if peer = q ∧ protocol = protocol' ∧ peer ∈ b.peers then (b.sent peer protocol).add info
      else b.sent peer protocol := by
  simp only [sent, counters, Dict.get?_modify, Dict.mem_iff_isSome]
  by_cases hq : peer = q
  · subst q
    cases b.peers.get? peer with
    | none => simp
    | some p => simpa using p.sent_registerMessageSent protocol protocol' info
  · simp [hq]

theorem sent_messagesSent (protocol' : T.Protocol) (info : MessageInfo) (peers : List T.PeerId) :
    sent ⟨peers.foldl (fun d q => d.modify q (·.registerMessageSent protocol' info)) b.peers⟩
      peer protocol =
      if protocol = protocol' ∧ peer ∈ b.peers then
        (List.replicate (peers.count peer) info).foldl Tally.add (b.sent peer protocol)
      else b.sent peer protocol := by
  induction peers generalizing b with
  | nil => simp
  | cons q peers ih =>
    have hknown : peer ∈ b.peers.modify q (·.registerMessageSent protocol' info) ↔
        peer ∈ b.peers := Dict.mem_modify
    have hone := sent_registerMessageSent b peer protocol protocol' info q
    have hrest := ih ⟨b.peers.modify q (·.registerMessageSent protocol' info)⟩
    rw [List.foldl_cons, hrest, hone]
    simp only [hknown]
    by_cases hq : peer = q
    · subst q
      by_cases hcond : protocol = protocol' ∧ peer ∈ b.peers
      · simp [hcond, List.replicate_succ]
      · simp [hcond]
    · simp [hq, List.count_cons_of_ne (Ne.symm hq)]

theorem sent_handleEvent (e : HeuristicsEvent T) :
    (b.handleEvent e).sent peer protocol =
      if peer ∈ b.peers then (e.sent peer protocol).foldl Tally.add (b.sent peer protocol)
      else b.sent peer protocol := by
  cases e with
  | messageSent j protocol' peers info =>
    refine (sent_messagesSent b peer protocol protocol' info peers).trans ?_
    by_cases hprotocol : protocol = protocol' <;> simp [HeuristicsEvent.sent, hprotocol]
  | linkInterfaces => simp [handleEvent, HeuristicsEvent.sent]
  | registerPeer j q =>
    have hsame : (b.handleEvent (.registerPeer j q)).sent peer protocol = b.sent peer protocol :=
      congrArg MessageHeuristics.sent (counters_registerPeer b peer protocol j q)
    simpa [HeuristicsEvent.sent] using hsame
  | unregisterPeer j q =>
    have hsame : (b.handleEvent (.unregisterPeer j q)).sent peer protocol =
        b.sent peer protocol :=
      counters_modify b peer protocol MessageHeuristics.sent fun _ => rfl
    simpa [HeuristicsEvent.sent] using hsame
  | messageReceived j protocol' q info =>
    have hsame : (b.handleEvent (.messageReceived j protocol' q info)).sent peer protocol =
        b.sent peer protocol :=
      counters_modify b peer protocol MessageHeuristics.sent fun p =>
        p.sent_registerMessageReceived protocol protocol' info
    simpa [HeuristicsEvent.sent] using hsame
  | openProtocol j q protocol' | closeProtocol j q protocol' =>
    simp only [HeuristicsEvent.sent, List.foldl_nil, ite_self]
    exact counters_modifyInterfaces b peer protocol (fun _ _ => rfl) q protocol' _

theorem interfaces_modify {q : T.PeerId} {f : PeerHeuristics T → PeerHeuristics T}
    (hf : ∀ info, (f info).interfaces = info.interfaces) :
    interfaces ⟨b.peers.modify q f⟩ peer = b.interfaces peer := by
  simp only [interfaces, Dict.get?_modify]
  split
  · subst q
    cases b.peers.get? peer with
    | none => rfl
    | some info => exact hf info
  · rfl

theorem mem_interfaces_handleEvent (e : HeuristicsEvent T) :
    i ∈ (b.handleEvent e).interfaces peer ↔
      (e.attaches peer i).elim (i ∈ b.interfaces peer) (· = true) := by
  cases e with
  | linkInterfaces => simp [handleEvent, HeuristicsEvent.attaches]
  | registerPeer j q =>
    simp only [handleEvent, interfaces, Dict.get?_insert, HeuristicsEvent.attaches]
    by_cases hq : peer = q
    · subst q
      by_cases hj : i = j
      · simp [hj]
      · cases b.peers.get? peer <;> simp [hj]
    · simp [hq]
  | unregisterPeer j q =>
    simp only [handleEvent, interfaces, Dict.get?_modify, HeuristicsEvent.attaches]
    by_cases hq : peer = q
    · subst q
      by_cases hj : i = j
      · cases b.peers.get? peer <;> simp [hj]
      · cases b.peers.get? peer <;> simp [hj]
    · simp [hq]
  | messageReceived j protocol q info =>
    have hsame : (b.handleEvent (.messageReceived j protocol q info)).interfaces peer =
        b.interfaces peer := interfaces_modify b peer fun _ => rfl
    simp [hsame, HeuristicsEvent.attaches]
  | messageSent j protocol peers info =>
    have hsame : (b.handleEvent (.messageSent j protocol peers info)).interfaces peer =
        b.interfaces peer := by
      change interfaces ⟨_⟩ peer = _
      induction peers generalizing b with
      | nil => rfl
      | cons q peers ih => exact (ih ⟨_⟩).trans (interfaces_modify b peer fun _ => rfl)
    simp [hsame, HeuristicsEvent.attaches]
  | openProtocol j q protocol | closeProtocol j q protocol =>
    exact Iff.of_eq (congrArg (i ∈ ·) (interfaces_modify b peer fun _ => rfl))

section History

variable {peer}

theorem mem_foldl_iff (events : List (HeuristicsEvent T)) :
    peer ∈ (events.foldl handleEvent new).peers ↔ sinceRegistered peer events ≠ [] := by
  induction events using List.reverseRecOn with
  | nil => simp [new, sinceRegistered]
  | append_singleton events e ih =>
    rw [List.foldl_concat, mem_handleEvent, ih, sinceRegistered_append]
    split
    · next hnil => simp [hnil, sinceRegistered_singleton]
    · next hne => simp [hne]

theorem mem_foldl_iff_exists (events : List (HeuristicsEvent T)) :
    peer ∈ (events.foldl handleEvent new).peers ↔ ∃ j, .registerPeer j peer ∈ events := by
  induction events using List.reverseRecOn with
  | nil => simp [new]
  | append_singleton events e ih =>
    have hlast : e.registered = some peer ↔ ∃ j, .registerPeer j peer = e := by
      cases e <;> simp [HeuristicsEvent.registered, eq_comm]
    rw [List.foldl_concat, mem_handleEvent, ih, hlast]
    simp [exists_or, or_comm]

/-- A part of the counters that grows by what the events report, once the peer has an entry,
counts what they report since the peer was registered. -/
theorem countsOf_foldl (tally : HeuristicsBackend T → Tally)
    (reports : HeuristicsEvent T → List MessageInfo) (hnew : (tally new).CountsOf [])
    (hregister : ∀ e, e.registered = some peer → reports e = [])
    (hstep : ∀ b e, tally (b.handleEvent e) =
      if peer ∈ b.peers then (reports e).foldl Tally.add (tally b) else tally b)
    (events : List (HeuristicsEvent T)) :
    (tally (events.foldl handleEvent new)).CountsOf
      ((sinceRegistered peer events).flatMap reports) := by
  induction events using List.reverseRecOn with
  | nil => exact hnew
  | append_singleton events e ih =>
    rw [List.foldl_concat, hstep, sinceRegistered_append]
    by_cases hknown : peer ∈ (events.foldl handleEvent new).peers
    · rw [if_pos hknown, if_neg ((mem_foldl_iff events).mp hknown), List.flatMap_append,
        List.flatMap_singleton]
      exact ih.foldl_add (reports e)
    · -- nothing was counted, and nothing is before the peer is registered
      have hnil : sinceRegistered peer events = [] := by
        simpa using mt (mem_foldl_iff events).mpr hknown
      rw [hnil] at ih
      rw [if_neg hknown, if_pos hnil, sinceRegistered_singleton]
      split
      · next he => simpa [hregister e he] using ih
      · exact ih

end History

/-- After any sequence of events, the counters of a peer on a protocol are those of the messages
reported since the first registration of the peer, and the interfaces of the peer are those whose
last event about it is a registration. -/
theorem counters_reference (events : List (HeuristicsEvent T)) :
    ((events.foldl handleEvent new).received peer protocol).CountsOf
        ((sinceRegistered peer events).flatMap (·.received peer protocol)) ∧
      ((events.foldl handleEvent new).sent peer protocol).CountsOf
        ((sinceRegistered peer events).flatMap (·.sent peer protocol)) ∧
      ∀ i, i ∈ (events.foldl handleEvent new).interfaces peer ↔
        (events.filterMap (·.attaches peer i)).getLast? = some true := by
  have hzero : Tally.CountsOf ⟨0, 0, 0, ∅⟩ [] := ⟨rfl, rfl, rfl, rfl⟩
  refine ⟨?_, ?_, fun i => ?_⟩
  · apply countsOf_foldl (·.received peer protocol) (·.received peer protocol) hzero _
      fun b e => received_handleEvent_eq b peer protocol e
    intro e he
    cases e <;> first | rfl | cases he
  · apply countsOf_foldl (·.sent peer protocol) (·.sent peer protocol) hzero _
      fun b e => sent_handleEvent b peer protocol e
    intro e he
    cases e <;> first | rfl | cases he
  · induction events using List.reverseRecOn with
    | nil => simp [interfaces, new]
    | append_singleton events e ih =>
      rw [List.foldl_concat, mem_interfaces_handleEvent, List.filterMap_append,
        List.getLast?_append]
      cases he : e.attaches peer i with
      | none => simpa [he] using ih
      | some attached => simp [he]

end HeuristicsBackend

end SwarmHost
