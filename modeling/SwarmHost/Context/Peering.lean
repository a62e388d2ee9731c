import SwarmHost.Context.Basic
import SwarmHost.Runs.Basic

/-! # Connected, pending and known peers

A peer is known once it was discovered or disconnected, pending while a connection
is asked for, and connected once it is registered. Registering a peer does not take
it from the known ones, and the number of connections to ask for counts the pending
peers as if they were missing.
-/

namespace SwarmHost.Substrate

/-- The calls of the executor that are about peers. The iteration order of the known peers is
chosen by the interpreter. -/
inductive PeerCall where
  | discoverPeer (peer : PeerId) (now : Time) (order : List PeerId)
  | registerPeer (peer : PeerId)
  | unregisterPeer (peer : PeerId)
  | poll

namespace Context

variable {ctx ctx' : Context} {p q : PeerId} {now : Time}

def answer (ctx : Context) : PeerCall → Context
  | .discoverPeer peer now order => ctx.discoverPeer peer now order
  | .registerPeer peer => ctx.registerPeer peer
  | .unregisterPeer peer => ctx.unregisterPeer peer
  | .poll => ctx.poll.2

/-- A discovered peer is put among the known ones, which are then listed in some order. -/
def Lists (ctx : Context) : PeerCall → Prop
  | .discoverPeer peer _ order => order.Nodup ∧ order.toFinset = insert peer ctx.knownPeers
  | .registerPeer _ | .unregisterPeer _ | .poll => True

instance (ctx : Context) : DecidablePred ctx.Lists
  | .discoverPeer peer _ order => inferInstanceAs
      (Decidable (order.Nodup ∧ order.toFinset = insert peer ctx.knownPeers))
  | .registerPeer _ | .unregisterPeer _ | .poll => .isTrue trivial

def PeerStep (ctx : Context) (call : PeerCall) (ctx' : Context) : Prop :=
  ctx.Lists call ∧ ctx.answer call = ctx'

/-- No peer is in two of the three collections. -/
structure Partitioned (ctx : Context) : Prop where
  pending : ∀ p ∈ ctx.peers, p ∉ ctx.pendingPeers
  known : ∀ p ∈ ctx.peers, p ∉ ctx.knownPeers
  waiting : ∀ p ∈ ctx.pendingPeers, p ∉ ctx.knownPeers

def load (ctx : Context) : ℤ := ctx.peers.keys.length + ctx.pendingPeers.keys.length

/-- Discovering a peer asks only for peers that are neither connected nor pending, and does not
exceed the limit. -/
def Sought (ctx : Context) : PeerCall → Context → Prop
  | .discoverPeer .., ctx' =>
    (∃ new, ctx'.pendingEvents = ctx.pendingEvents ++ new ∧
      ∀ p, .connect p ∈ new → p ∉ ctx.peers ∧ p ∉ ctx.pendingPeers) ∧
    ctx'.load ≤ max ctx.load maxPeers
  | .registerPeer _, _ | .unregisterPeer _, _ | .poll, _ => True

/-- A registered peer was not known, and a discovered one finds no pending peers or room for all
known ones, if any are asked for at all. -/
def Fitting (ctx : Context) : PeerCall → Prop
  | .registerPeer peer => peer ∉ ctx.knownPeers
  | .discoverPeer peer .. => peer ∈ ctx.pendingPeers ∨ peer ∈ ctx.peers ∨
    maxPeers + ctx.pendingPeers.keys.length ≤ ctx.peers.keys.length ∨
    ctx.pendingPeers.keys = [] ∨ ctx.load + (insert peer ctx.knownPeers).card ≤ maxPeers
  | .unregisterPeer _ | .poll => True

theorem partitioned_new (now : Time) : Partitioned (new now) := by
  constructor <;> simp [new]

theorem partitioned_registerPeer_iff (h : ctx.Partitioned) :
    (ctx.registerPeer p).Partitioned ↔ p ∉ ctx.knownPeers := by
  constructor
  · intro h'
    exact h'.known p (Dict.mem_insert.mpr (.inl rfl))
  · intro hp
    constructor
    · intro q hq hpending
      obtain ⟨hne, hpending⟩ := Dict.mem_erase.mp hpending
      rcases Dict.mem_insert.mp hq with rfl | hq
      · exact hne rfl
      · exact h.pending q hq hpending
    · intro q hq
      rcases Dict.mem_insert.mp hq with rfl | hq
      · exact hp
      · exact h.known q hq
    · intro q hq
      exact h.waiting q (Dict.mem_erase.mp hq).2

theorem partitioned_unregisterPeer (h : ctx.Partitioned) :
    (ctx.unregisterPeer p).Partitioned := by
  unfold unregisterPeer
  split
  · next hp =>
    constructor
    · intro q hq
      exact h.pending q (Dict.mem_erase.mp hq).2
    · intro q hq
      obtain ⟨hne, hq⟩ := Dict.mem_erase.mp hq
      simpa [hne] using h.known q hq
    · intro q hq
      have hne : q ≠ p := by
        rintro rfl
        exact h.pending q hp hq
      simpa [hne] using h.waiting q hq
  · exact h

structure Dials (ctx : Context) (l : List PeerId) (ctx' : Context) : Prop where
  peers : ctx'.peers = ctx.peers
  known : ctx'.knownPeers = ctx.knownPeers \ l.toFinset
  pending : ∀ p, p ∈ ctx'.pendingPeers ↔ p ∈ l ∨ p ∈ ctx.pendingPeers
  length : ctx'.pendingPeers.keys.length = ctx.pendingPeers.keys.length + l.length
  events : ctx'.pendingEvents = ctx.pendingEvents ++ l.map .connect

theorem dials_foldl {l : List PeerId} (hnd : l.Nodup) (hl : ∀ p ∈ l, p ∉ ctx.pendingPeers) :
    Dials ctx l (l.foldl (connect now) ctx) := by
  induction l generalizing ctx with
  | nil => exact ⟨rfl, by simp, by simp, rfl, by simp⟩
  | cons q l ih =>
    obtain ⟨hq, hnd⟩ := List.nodup_cons.mp hnd
    have hrest : ∀ p ∈ l, p ∉ (connect now ctx q).pendingPeers := by
      intro p hp hmem
      rcases Dict.mem_insert.mp hmem with rfl | hmem
      · exact hq hp
      · exact hl p (List.mem_cons_of_mem _ hp) hmem
    have hasks := ih hnd hrest
    refine ⟨hasks.peers, ?_, fun p => ?_, ?_, ?_⟩
    · rw [List.foldl_cons, hasks.known]
      ext p
      simp only [connect, Finset.mem_sdiff, Finset.mem_erase, List.mem_toFinset, List.mem_cons]
      tauto
    · rw [List.foldl_cons, hasks.pending]
      simp only [connect, Dict.mem_insert, List.mem_cons]
      tauto
    · rw [List.foldl_cons, hasks.length]
      simp only [connect, Dict.length_keys_insert (hl q List.mem_cons_self), List.length_cons]
      omega
    · rw [List.foldl_cons, hasks.events]
      simp [connect]

theorem dials_discoverPeer {order : List PeerId} (h : ctx.Partitioned)
    (hlists : ctx.Lists (.discoverPeer p now order)) (hp : p ∉ ctx.pendingPeers)
    (hpeers : p ∉ ctx.peers)
    (hneeded : (ctx.peers.keys.length : ℤ) < maxPeers + ctx.pendingPeers.keys.length) :
    ∃ l : List PeerId, Dials { ctx with knownPeers := insert p ctx.knownPeers } l
        (ctx.discoverPeer p now order) ∧ l.toFinset ⊆ insert p ctx.knownPeers ∧
      (l.length : ℤ) = min (maxPeers - ctx.peers.keys.length + ctx.pendingPeers.keys.length)
        (insert p ctx.knownPeers).card := by
  obtain ⟨hnd, hset⟩ := hlists
  have hlen : order.length = (insert p ctx.knownPeers).card := by
    rw [← hset, List.toFinset_card_of_nodup hnd]
  set n := min (maxPeers - ctx.peers.keys.length + ctx.pendingPeers.keys.length).toNat
    (insert p ctx.knownPeers).card with hn
  have hsub : (order.take n).toFinset ⊆ insert p ctx.knownPeers := by
    rw [← hset]
    intro q hq
    exact List.mem_toFinset.mpr (List.mem_of_mem_take (List.mem_toFinset.mp hq))
  have hfresh : ∀ q ∈ order.take n, q ∉ ctx.pendingPeers := by
    intro q hq hmem
    rcases Finset.mem_insert.mp (hsub (List.mem_toFinset.mpr hq)) with rfl | hknown
    · exact hp hmem
    · exact h.waiting q hmem hknown
  refine ⟨order.take n, ?_, hsub, ?_⟩
  · have hdiscover : ctx.discoverPeer p now order = (order.take n).foldl (connect now)
        { ctx with knownPeers := insert p ctx.knownPeers } := by
      rw [discoverPeer, if_neg (by simp [hp, hpeers])]
      dsimp only
      rw [if_neg (by omega)]
    rw [hdiscover]
    exact dials_foldl (hnd.sublist (List.take_sublist n order)) hfresh
  · rw [List.length_take, hlen]
    omega

theorem partitioned_discoverPeer {order : List PeerId} (h : ctx.Partitioned)
    (hlists : ctx.Lists (.discoverPeer p now order)) :
    ctx.Sought (.discoverPeer p now order) (ctx.discoverPeer p now order) ∧
      (ctx.discoverPeer p now order).Partitioned ↔ ctx.Fitting (.discoverPeer p now order) := by
  by_cases hold : p ∈ ctx.pendingPeers ∨ p ∈ ctx.peers
  · have hsame : ctx.discoverPeer p now order = ctx := by rw [discoverPeer, if_pos hold]
    rw [hsame]
    refine iff_of_true ⟨⟨⟨[], by simp⟩, le_max_left _ _⟩, h⟩ ?_
    rcases hold with hold | hold
    · exact .inl hold
    · exact .inr (.inl hold)
  obtain ⟨hpending, hpeers⟩ := not_or.mp hold
  by_cases hneeded : maxPeers + ctx.pendingPeers.keys.length ≤ (ctx.peers.keys.length : ℤ)
  · have hsame : ctx.discoverPeer p now order =
        { ctx with knownPeers := insert p ctx.knownPeers } := by
      rw [discoverPeer, if_neg hold]
      dsimp only
      rw [if_pos (by omega)]
    rw [hsame]
    refine iff_of_true ⟨⟨⟨[], by simp⟩, le_max_left _ _⟩, h.pending, ?_, ?_⟩
      (.inr (.inr (.inl hneeded)))
    · intro q hq
      have hne : q ≠ p := by
        rintro rfl
        exact hpeers hq
      simpa [hne] using h.known q hq
    · intro q hq
      have hne : q ≠ p := by
        rintro rfl
        exact hpending hq
      simpa [hne] using h.waiting q hq
  -- some known peers are asked for; they are neither connected nor pending, so only their
  -- number can go wrong
  obtain ⟨l, hasks, hsub, hlen⟩ :=
    dials_discoverPeer h hlists hpending hpeers (not_le.mp hneeded)
  set ctx' := ctx.discoverPeer p now order
  have hfree : ∀ q ∈ l, q ∉ ctx.peers ∧ q ∉ ctx.pendingPeers := by
    intro q hq
    rcases Finset.mem_insert.mp (hsub (List.mem_toFinset.mpr hq)) with rfl | hknown
    · exact ⟨hpeers, hpending⟩
    · exact ⟨fun hmem => h.known q hmem hknown, fun hmem => h.waiting q hmem hknown⟩
  have hpart : ctx'.Partitioned := by
    refine ⟨fun q hq hmem => ?_, fun q hq hmem => ?_, fun q hq hmem => ?_⟩
    · rw [hasks.peers] at hq
      rcases (hasks.pending q).mp hmem with hmem | hmem
      · exact (hfree q hmem).1 hq
      · exact h.pending q hq hmem
    · rw [hasks.peers] at hq
      rw [hasks.known, Finset.mem_sdiff, Finset.mem_insert] at hmem
      rcases hmem.1 with rfl | hknown
      · exact hpeers hq
      · exact h.known q hq hknown
    · rw [hasks.known, Finset.mem_sdiff, Finset.mem_insert] at hmem
      rcases (hasks.pending q).mp hq with hq | hq
      · exact hmem.2 (List.mem_toFinset.mpr hq)
      · rcases hmem.1 with rfl | hknown
        · exact hpending hq
        · exact h.waiting q hq hknown
  have hevents : ∃ new, ctx'.pendingEvents = ctx.pendingEvents ++ new ∧
      ∀ p, .connect p ∈ new → p ∉ ctx.peers ∧ p ∉ ctx.pendingPeers := by
    refine ⟨l.map .connect, hasks.events, fun q hq => ?_⟩
    obtain ⟨q', hq', heq⟩ := List.mem_map.mp hq
    obtain rfl := PendingEvent.connect.inj heq
    exact hfree q' hq'
  have hload : ctx'.load = ctx.load + l.length := by
    have hlength := hasks.length
    simp only [load, hasks.peers, hlength]
    omega
  have hcard : 0 < (insert p ctx.knownPeers).card :=
    Finset.card_pos.mpr ⟨p, Finset.mem_insert_self _ _⟩
  have hnil : ctx.pendingPeers.keys = [] ↔ ctx.pendingPeers.keys.length = 0 :=
    List.length_eq_zero_iff.symm
  simp only [Sought, hevents, true_and, hpart, and_true, Fitting, hpending, hpeers, hneeded,
    false_or, hload, hnil]
  rw [load] at *
  omega

/-- One call keeps the collections apart and asks for the right peers iff it is a fitting one. -/
theorem fitting_iff (call : PeerCall) (h : PeerStep ctx call ctx') (hctx : ctx.Partitioned) :
    ctx.Sought call ctx' ∧ ctx'.Partitioned ↔ ctx.Fitting call := by
  obtain ⟨hlists, rfl⟩ := h
  cases call with
  | discoverPeer p now order => exact partitioned_discoverPeer hctx hlists
  | registerPeer p =>
    simp only [Sought, true_and]
    exact partitioned_registerPeer_iff hctx
  | unregisterPeer p => exact iff_of_true ⟨trivial, partitioned_unregisterPeer hctx⟩ trivial
  | poll => exact iff_of_true ⟨trivial, hctx.pending, hctx.known, hctx.waiting⟩ trivial

/-- The collections stay apart and every discovery asks for the right peers along a run iff every
call of the run is a fitting one. -/
theorem partitioned_sought_iff (now : Time) (calls : List PeerCall) :
    Always PeerStep Partitioned (new now) calls ∧ Along PeerStep Sought (new now) calls ↔
      Along PeerStep (fun ctx call _ => ctx.Fitting call) (new now) calls := by
  refine always_and_along_iff (J := fun _ => True) (fun _ _ _ _ _ => trivial) ?_ trivial
    (partitioned_new now)
  intro ctx call ctx' hstep _ hctx
  exact fitting_iff call hstep hctx

def fifty : List PeerCall :=
  (List.range 50).map fun i => .discoverPeer [UInt8.ofNat i] 0 [[UInt8.ofNat i]]

/-- A peer that disconnected and came back is connected and known, and the next discovery asks for
it again. With as many peers pending as the limit allows, a discovery asks for one more. -/
theorem not_sought_returning_and_full :
    (∃ ctx ctx' : Context,
      Run PeerStep (new 0) [.registerPeer [1], .unregisterPeer [1], .registerPeer [1]] ctx ∧
      ¬ ctx.Partitioned ∧ PeerStep ctx (.discoverPeer [2] 0 [[1], [2]]) ctx' ∧
      ¬ ctx.Sought (.discoverPeer [2] 0 [[1], [2]]) ctx') ∧
    ∃ ctx ctx' : Context, Run PeerStep (new 0) fifty ctx ∧
      PeerStep ctx (.discoverPeer [50] 0 [[50]]) ctx' ∧
      ¬ ctx.Sought (.discoverPeer [50] 0 [[50]]) ctx' := by
  constructor
  · refine ⟨_, _, .cons ⟨trivial, rfl⟩ (.cons ⟨trivial, rfl⟩ (.cons ⟨trivial, rfl⟩ (.nil _))), ?_,
      ⟨by decide, rfl⟩, ?_⟩
    · intro h
      exact h.known [1] (by decide) (by decide)
    · rintro ⟨⟨new, heq, hnew⟩, -⟩
      have hmem : .connect [1] ∈ new := by
        rw [show new = [.connect [1], .connect [2]] from heq.symm]
        decide
      exact (hnew [1] hmem).1 (by decide)
  · -- one evaluation of the run for all three facts
    obtain ⟨hchecks, hlists, hfull⟩ : Checks answer Lists (new 0) fifty ∧
        Lists (fifty.foldl answer (new 0)) (.discoverPeer [50] 0 [[50]]) ∧
        ¬ ((fifty.foldl answer (new 0)).answer (.discoverPeer [50] 0 [[50]])).load ≤
          max (fifty.foldl answer (new 0)).load maxPeers := by decide +kernel
    have hrun : Run PeerStep (new 0) fifty (fifty.foldl answer (new 0)) :=
      hchecks.run fun _ _ h => ⟨h, rfl⟩
    exact ⟨_, _, hrun, ⟨hlists, rfl⟩, fun hsought => hfull hsought.2⟩

end Context

end SwarmHost.Substrate
