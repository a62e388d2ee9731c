import Mathlib.Data.Finset.Image
import Mathlib.Data.Finset.Range
import SwarmHost.Backend.Substrate
import SwarmHost.Heuristics.Reference

/-! # The dashboard of the heuristics

The backend sends its tables every few seconds, and the dashboard adds each of them
to what it shows. The counters of the backend are totals already, the bytes sent are
added twice, and the loop over the interfaces of a peer takes the positions in their
list. Numbers are exact, as they are for the dashboard below 2^53.
-/

namespace SwarmHost

variable {T : NetworkBackend}

/-- The figures that are shown for a protocol. -/
@[ext] structure Totals where
  totalBytesSent : ℕ
  totalMessagesSent : ℕ
  totalBytesReceived : ℕ
  totalMessagesReceived : ℕ
  redundantBytesSent : ℕ
  redundantBytesReceived : ℕ
  deriving DecidableEq

/-- The figures of the backend. -/
def MessageHeuristics.totals (m : MessageHeuristics T) : Totals where
  totalBytesSent := m.totalBytesSent
  totalMessagesSent := m.totalMessagesSent
  totalBytesReceived := m.totalBytesReceived
  totalMessagesReceived := m.totalMessagesReceived
  redundantBytesSent := m.redundantBytesSent
  redundantBytesReceived := m.redundantBytesReceived

namespace Totals

def zero : Totals := ⟨0, 0, 0, 0, 0, 0⟩

/-- The message handler adds the bytes sent once more than the other figures. -/
def add (shown sent : Totals) : Totals where
  totalBytesSent := shown.totalBytesSent + sent.totalBytesSent + sent.totalBytesSent
  totalMessagesSent := shown.totalMessagesSent + sent.totalMessagesSent
  totalBytesReceived := shown.totalBytesReceived + sent.totalBytesReceived
  totalMessagesReceived := shown.totalMessagesReceived + sent.totalMessagesReceived
  redundantBytesSent := shown.redundantBytesSent + sent.redundantBytesSent
  redundantBytesReceived := shown.redundantBytesReceived + sent.redundantBytesReceived

theorem foldl_add (shown : Totals) (l : List Totals) :
    l.foldl add shown =
      { totalBytesSent := shown.totalBytesSent + 2 * (l.map totalBytesSent).sum
        totalMessagesSent := shown.totalMessagesSent + (l.map totalMessagesSent).sum
        totalBytesReceived := shown.totalBytesReceived + (l.map totalBytesReceived).sum
        totalMessagesReceived := shown.totalMessagesReceived + (l.map totalMessagesReceived).sum
        redundantBytesSent := shown.redundantBytesSent + (l.map redundantBytesSent).sum
        redundantBytesReceived :=
          shown.redundantBytesReceived + (l.map redundantBytesReceived).sum } := by
  induction l generalizing shown with
  | nil => rfl
  | cons t l ih =>
    rw [List.foldl_cons, ih]
    ext <;> simp only [add, List.map_cons, List.sum_cons] <;> omega

theorem sum_map_eq_zero_iff (figure : Totals → ℕ) (l : List Totals) :
    (l.map figure).sum = 0 ↔ ∀ t ∈ l, figure t = 0 := by
  rw [List.sum_eq_zero_iff_forall_eq_nat, List.forall_mem_map]

theorem foldl_add_eq_last_iff (earlier : List Totals) (last : Totals) :
    (earlier ++ [last]).foldl add zero = last ↔
      last.totalBytesSent = 0 ∧ ∀ t ∈ earlier, t = zero := by
  rw [foldl_add, Totals.ext_iff]
  simp only [List.map_append, List.map_cons, List.map_nil, List.sum_append, List.sum_singleton,
    zero, Nat.zero_add]
  constructor
  · rintro ⟨hbytes, hmessages, hreceived, hcount, hredundant, hredundant'⟩
    refine ⟨by omega, fun t ht => ?_⟩
    ext <;> exact (sum_map_eq_zero_iff _ _).mp (by omega) t ht
  · rintro ⟨hlast, hzero⟩
    have hsum : ∀ figure : Totals → ℕ, figure zero = 0 → (earlier.map figure).sum = 0 := by
      intro figure hfigure
      refine (sum_map_eq_zero_iff figure earlier).mpr fun t ht => ?_
      rw [hzero t ht]
      exact hfigure
    rw [hsum _ rfl, hsum _ rfl, hsum _ rfl, hsum _ rfl, hsum _ rfl, hsum _ rfl]
    omega

end Totals

/-- What the dashboard keeps for a protocol of a peer. -/
structure ShownMessages (T : NetworkBackend) where
  totals : Totals
  interfaces : Finset T.InterfaceId

def ShownMessages.new : ShownMessages T := ⟨.zero, ∅⟩

def ShownMessages.update (shown : ShownMessages T) (m : MessageHeuristics T) : ShownMessages T :=
  ⟨shown.totals.add m.totals, m.interfaces⟩

structure ShownPeer (T : NetworkBackend) where
  protocols : Dict T.Protocol (ShownMessages T)
  interfaces : Finset String

/-- The keys of a list, as a loop over them takes them. -/
def positions (length : ℕ) : Finset String := (Finset.range length).image toString

namespace ShownPeer

def new : ShownPeer T := ⟨∅, ∅⟩

def update (shown : ShownPeer T) (info : PeerHeuristics T) : ShownPeer T where
  protocols := shown.protocols.merge (fun shown m => (shown.getD .new).update m) info.protocols
  interfaces := shown.interfaces ∪ positions info.interfaces.card

/-- The figures of a protocol, none if it is not shown. -/
def totals (shown : ShownPeer T) (protocol : T.Protocol) : Totals :=
  (shown.protocols.get? protocol).elim .zero ShownMessages.totals

theorem totals_update (shown : ShownPeer T) (info : PeerHeuristics T) (protocol : T.Protocol) :
    (shown.update info).totals protocol =
      (shown.totals protocol).add (info.entry protocol).totals := by
  simp only [totals, update, PeerHeuristics.entry, Dict.get?_merge]
  cases info.protocols.get? protocol with
  | none => rfl
  | some m => cases shown.protocols.get? protocol <;> rfl

end ShownPeer

abbrev Dashboard (T : NetworkBackend) := Dict T.PeerId (ShownPeer T)

namespace Dashboard

variable (d : Dashboard T) (b : HeuristicsBackend T) (peer : T.PeerId) (protocol : T.Protocol)

def onMessage (d : Dashboard T) (b : HeuristicsBackend T) : Dashboard T :=
  d.merge (fun shown info => (shown.getD .new).update info) b.peers

def receive (snapshots : List (HeuristicsBackend T)) : Dashboard T := snapshots.foldl onMessage ∅

/-- The figures of a protocol of a peer, none if it is not shown. -/
def totals : Totals := (d.get? peer).elim .zero (·.totals protocol)

/-- The interfaces shown for a peer, none if it is not shown. -/
def interfaces : Finset String := (d.get? peer).elim ∅ ShownPeer.interfaces

def Shows (text : T.InterfaceId → String) (d : Dashboard T) (b : HeuristicsBackend T) : Prop :=
  ∀ peer info, b.peers.get? peer = some info → ∃ shown, d.get? peer = some shown ∧
    shown.interfaces = info.interfaces.image text ∧
    ∀ protocol m, info.protocols.get? protocol = some m → ∃ messages,
      shown.protocols.get? protocol = some messages ∧ messages.totals = m.totals

theorem totals_onMessage :
    (d.onMessage b).totals peer protocol =
      (d.totals peer protocol).add (b.counters peer protocol).totals := by
  simp only [totals, onMessage, HeuristicsBackend.counters, Dict.get?_merge]
  cases b.peers.get? peer with
  | none => rfl
  | some info =>
    cases d.get? peer with
    | none => exact ShownPeer.totals_update .new info protocol
    | some shown => exact shown.totals_update info protocol

theorem interfaces_onMessage :
    (d.onMessage b).interfaces peer =
      d.interfaces peer ∪ positions (b.interfaces peer).card := by
  simp only [interfaces, onMessage, HeuristicsBackend.interfaces, Dict.get?_merge]
  cases b.peers.get? peer with
  | none => exact (Finset.union_empty _).symm
  | some info => cases d.get? peer <;> rfl

/-- The figures that are shown are the sums over the tables received. -/
theorem totals_receive (snapshots : List (HeuristicsBackend T)) :
    (receive snapshots).totals peer protocol =
      (snapshots.map fun b => (b.counters peer protocol).totals).foldl Totals.add .zero := by
  induction snapshots using List.reverseRecOn with
  | nil => rfl
  | append_singleton snapshots b ih =>
    rw [receive, List.foldl_concat, totals_onMessage, ← receive, ih, List.map_append,
      List.map_singleton, List.foldl_concat]

theorem mem_interfaces_receive (snapshots : List (HeuristicsBackend T)) (name : String) :
    name ∈ (receive snapshots).interfaces peer ↔
      ∃ b ∈ snapshots, ∃ i < (b.interfaces peer).card, toString i = name := by
  induction snapshots using List.reverseRecOn with
  | nil => simp [receive, interfaces]
  | append_singleton snapshots b ih =>
    rw [receive, List.foldl_concat, interfaces_onMessage, ← receive, Finset.mem_union, ih]
    simp only [positions, Finset.mem_image, Finset.mem_range, List.mem_append,
      List.mem_singleton, or_and_right, exists_or, exists_eq_left]

variable {peer protocol} in
theorem totals_last_iff {last : HeuristicsBackend T} {info : PeerHeuristics T}
    {m : MessageHeuristics T} (hinfo : last.peers.get? peer = some info)
    (hm : info.protocols.get? protocol = some m) (earlier : List (HeuristicsBackend T)) :
    (receive (earlier ++ [last])).totals peer protocol = m.totals ↔
      m.totalBytesSent = 0 ∧ ∀ b ∈ earlier, (b.counters peer protocol).totals = .zero := by
  have hcounters : last.counters peer protocol = m := by
    rw [HeuristicsBackend.counters, hinfo, Option.elim_some, PeerHeuristics.entry, hm]
    rfl
  rw [totals_receive, List.map_append, List.map_singleton, hcounters,
    Totals.foldl_add_eq_last_iff, List.forall_mem_map]
  rfl

/-- After any sequence of tables, the dashboard shows the last one exactly if its peers and
protocols had nothing to count before, nothing was sent to them, and the interfaces of a peer are
named like the positions in the longest list of them. -/
theorem shows_last_iff (text : T.InterfaceId → String) (earlier : List (HeuristicsBackend T))
    (last : HeuristicsBackend T) :
    Shows text (receive (earlier ++ [last])) last ↔
      ∀ peer info, last.peers.get? peer = some info →
        (∀ name, name ∈ info.interfaces.image text ↔
          ∃ b ∈ earlier ++ [last], ∃ i < (b.interfaces peer).card, toString i = name) ∧
        ∀ protocol m, info.protocols.get? protocol = some m →
          m.totalBytesSent = 0 ∧ ∀ b ∈ earlier, (b.counters peer protocol).totals = .zero := by
  refine forall_congr' fun peer => forall_congr' fun info => forall_congr' fun hinfo => ?_
  have hlast : (receive (earlier ++ [last])).get? peer =
      some ((((receive earlier).get? peer).getD .new).update info) := by
    rw [receive, List.foldl_concat, ← receive, onMessage, Dict.get?_merge, hinfo]
    rfl
  generalize ((receive earlier).get? peer).getD .new = old at hlast
  have hinterfaces : (receive (earlier ++ [last])).interfaces peer =
      (old.update info).interfaces := by rw [interfaces, hlast]; rfl
  have htotals : ∀ protocol, (receive (earlier ++ [last])).totals peer protocol =
      (old.update info).totals protocol := fun protocol => by rw [totals, hlast]; rfl
  have hshown : ∀ protocol m, info.protocols.get? protocol = some m → ∃ messages,
      (old.update info).protocols.get? protocol = some messages ∧
        (old.update info).totals protocol = messages.totals := by
    intro protocol m hm
    have hget : (old.update info).protocols.get? protocol =
        some (((old.protocols.get? protocol).getD .new).update m) := by
      rw [ShownPeer.update, Dict.get?_merge, hm]
      rfl
    exact ⟨_, hget, by rw [ShownPeer.totals, hget]; rfl⟩
  constructor
  · rintro ⟨shown, hget, hnames, hfigures⟩
    obtain rfl := Option.some.inj (hlast.symm.trans hget)
    constructor
    · intro name
      rw [← hnames, ← hinterfaces, mem_interfaces_receive]
    · intro protocol m hm
      obtain ⟨messages, hmessages, hfigure⟩ := hfigures protocol m hm
      rw [← totals_last_iff hinfo hm, htotals, ShownPeer.totals, hmessages]
      exact hfigure
  · rintro ⟨hnames, hfigures⟩
    refine ⟨_, hlast, ?_, fun protocol m hm => ?_⟩
    · ext name
      rw [← hinterfaces, mem_interfaces_receive, hnames]
    · obtain ⟨messages, hmessages, htotal⟩ := hshown protocol m hm
      refine ⟨messages, hmessages, ?_⟩
      rw [← htotal, ← htotals]
      exact (totals_last_iff hinfo hm earlier).mpr (hfigures protocol m hm)

section Example

def snapshot (events : List (HeuristicsEvent loopback)) : HeuristicsBackend loopback :=
  events.foldl HeuristicsBackend.handleEvent .new

def joined : List (HeuristicsEvent loopback) := [.registerPeer 0 [7]]

/-- A message of the peer is received. -/
def announced : List (HeuristicsEvent loopback) :=
  joined ++ [.messageReceived 0 "/block-announces/1" [7] ⟨1, 100⟩]

/-- A message is sent to a peer at another interface. -/
def forwarded : List (HeuristicsEvent loopback) :=
  [.registerPeer 5 [7], .messageSent 5 "/block-announces/1" [[7]] ⟨1, 100⟩]

/-- The first counters of a protocol that nothing is sent on are shown. -/
theorem shows_announced :
    Shows Nat.repr (receive [snapshot joined, snapshot announced]) (snapshot announced) := by
  refine (shows_last_iff Nat.repr [snapshot joined] (snapshot announced)).mpr ?_
  intro peer info hinfo
  obtain ⟨rfl, rfl⟩ := Prod.mk.inj (List.mem_singleton.mp (Dict.mem_entries.mpr hinfo))
  constructor
  · intro name
    have hshown : (receive ([snapshot joined] ++ [snapshot announced])).interfaces [7] = {"0"} := by
      decide
    rw [← mem_interfaces_receive, hshown]
    rfl
  · intro protocol m hm
    obtain ⟨rfl, rfl⟩ := Prod.mk.inj (List.mem_singleton.mp (Dict.mem_entries.mpr hm))
    exact ⟨rfl, fun b hb => by rw [List.mem_singleton.mp hb]; rfl⟩

/-- After two equal tables the bytes sent are four times as many, and the interface is a
position. -/
theorem not_shows_forwarded :
    (receive [snapshot forwarded, snapshot forwarded]).totals [7] "/block-announces/1" =
        ⟨400, 2, 0, 0, 0, 0⟩ ∧
      ((snapshot forwarded).counters [7] "/block-announces/1").totals = ⟨100, 1, 0, 0, 0, 0⟩ ∧
      (receive [snapshot forwarded, snapshot forwarded]).interfaces [7] = {"0"} ∧
      (snapshot forwarded).interfaces [7] = {5} ∧
      ¬ Shows Nat.repr (receive [snapshot forwarded, snapshot forwarded])
        (snapshot forwarded) := by
  refine ⟨by decide, by decide, by decide, by decide, fun hshows => ?_⟩
  obtain ⟨shown, hshown, -, hfigures⟩ := hshows [7] _ rfl
  obtain ⟨messages, hmessages, hfigure⟩ := hfigures "/block-announces/1" _ rfl
  obtain rfl := Option.some.inj hshown
  obtain rfl := Option.some.inj hmessages
  exact absurd hfigure (by decide)

end Example

end Dashboard

end SwarmHost
