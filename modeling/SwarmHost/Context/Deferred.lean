import SwarmHost.Context.Changes

/-! # Deferred requests

A request whose providers are all busy is kept until one of them is free. Nothing
sends it then: the entry leaves its table only with a response that brings the
block. The condition says which calls leave a deferred request with an idle
provider or with none.
-/

namespace SwarmHost.Substrate.Context

variable {codec : Codec} {ctx ctx' : Context}

structure Waits (peers : Dict PeerId PeerContext) (hash : BlockHash) : Prop where
  busy : ∀ q p, peers.get? q = some p → hash ∈ p.knownBlocks → p.busy = true
  known : ∃ q p, peers.get? q = some p ∧ hash ∈ p.knownBlocks

def DeferredServed (ctx : Context) : Prop := ∀ hash ∈ ctx.cachedRequests, Waits ctx.peers hash

def KnownByOther (peers : Dict PeerId PeerContext) (peer : PeerId) (hash : BlockHash) : Prop :=
  ∃ q ≠ peer, ∃ p, peers.get? q = some p ∧ hash ∈ p.knownBlocks

def KeepsDeferred (codec : Codec) (ctx : Context) : Call → Prop
  | .registerPeer peer | .unregisterPeer peer =>
    ∀ hash ∈ ctx.cachedRequests, KnownByOther ctx.peers peer hash
  | .injectNotification peer _ notification now =>
    ∀ number hash sender, Learns codec ctx peer notification now number hash sender →
      hash ∈ ctx.cachedRequests → sender.busy = true
  | .injectResponse peer payload =>
    ∀ blocks p, codec.parseResponse payload = some blocks → ctx.peers.get? peer = some p →
      ∀ hash ∈ ctx.cachedRequests, hash ∈ p.knownBlocks →
        (completed ctx.pendingRequests blocks).Nodup ∧
          ctx.cachedRequests.Removed (completed ctx.cachedRequests blocks) hash
  | _ => True

section Waits

variable {peers : Dict PeerId PeerContext} {peer : PeerId} {p : PeerContext} {hash : BlockHash}

theorem waits_insert_new_iff (h : Waits peers hash) :
    Waits (peers.insert peer .new) hash ↔ KnownByOther peers peer hash := by
  constructor
  · rintro ⟨_, q, p, hq, hknown⟩
    rw [Dict.get?_insert] at hq
    split at hq
    · cases hq
      simp [PeerContext.new] at hknown
    · next hne => exact ⟨q, hne, p, hq, hknown⟩
  · rintro ⟨q, hne, p, hq, hknown⟩
    constructor
    · intro q' p' hq' hknown'
      rw [Dict.get?_insert] at hq'
      split at hq'
      · cases hq'
        simp [PeerContext.new] at hknown'
      · exact h.busy q' p' hq' hknown'
    · exact ⟨q, p, by rwa [Dict.get?_insert_ne _ hne], hknown⟩

theorem waits_erase_iff (h : Waits peers hash) :
    Waits (peers.erase peer) hash ↔ KnownByOther peers peer hash := by
  constructor
  · rintro ⟨_, q, p, hq, hknown⟩
    rw [Dict.get?_erase] at hq
    split at hq
    · cases hq
    · next hne => exact ⟨q, hne, p, hq, hknown⟩
  · rintro ⟨q, hne, p, hq, hknown⟩
    constructor
    · intro q' p' hq' hknown'
      rw [Dict.get?_erase] at hq'
      split at hq'
      · cases hq'
      · exact h.busy q' p' hq' hknown'
    · exact ⟨q, p, by rwa [Dict.get?_erase_ne hne], hknown⟩

theorem Waits.known_insert (h : Waits peers hash) (hp : peers.get? peer = some p)
    {p' : PeerContext} (hsub : p.knownBlocks ⊆ p'.knownBlocks) :
    ∃ q p, (peers.insert peer p').get? q = some p ∧ hash ∈ p.knownBlocks := by
  obtain ⟨q, pq, hq, hknown⟩ := h.known
  by_cases hne : q = peer
  · subst hne
    obtain rfl := Option.some.inj (hp.symm.trans hq)
    exact ⟨q, p', Dict.get?_insert_self .., hsub hknown⟩
  · exact ⟨q, pq, by rwa [Dict.get?_insert_ne _ hne], hknown⟩

theorem waits_insert_iff (h : Waits peers hash) (hp : peers.get? peer = some p)
    {p' : PeerContext} (hsub : p.knownBlocks ⊆ p'.knownBlocks) :
    Waits (peers.insert peer p') hash ↔ (hash ∈ p'.knownBlocks → p'.busy = true) := by
  constructor
  · intro hw
    exact hw.busy peer p' (Dict.get?_insert_self ..)
  · intro hbusy
    refine ⟨fun q pq hq hknown => ?_, h.known_insert hp hsub⟩
    rw [Dict.get?_insert] at hq
    split at hq
    · cases hq
      exact hbusy hknown
    · exact h.busy q pq hq hknown

theorem waits_mark_iff (h : Waits peers hash) (hp : peers.get? peer = some p) (busy : Bool) :
    Waits (peers.insert peer { p with busy := busy }) hash ↔
      (hash ∈ p.knownBlocks → busy = true) :=
  waits_insert_iff h hp (Finset.Subset.refl _)

end Waits

theorem DeferredServed.of_tables (h : DeferredServed ctx) (ht : ctx'.tables = ctx.tables) :
    DeferredServed ctx' := by
  have hcached : ctx'.cachedRequests = ctx.cachedRequests := congrArg Tables.cachedRequests ht
  have hpeers : ctx'.peers = ctx.peers := congrArg Tables.peers ht
  rw [DeferredServed, hcached, hpeers]
  exact h

theorem deferredServed_iff_of_peers {peers : Dict PeerId PeerContext} {P : BlockHash → Prop}
    (ht : ctx'.tables = { ctx.tables with peers := peers }) (h : DeferredServed ctx)
    (hiff : ∀ hash, Waits ctx.peers hash → (Waits peers hash ↔ P hash)) :
    DeferredServed ctx' ↔ ∀ hash ∈ ctx.cachedRequests, P hash := by
  have hcached : ctx'.cachedRequests = ctx.cachedRequests := congrArg Tables.cachedRequests ht
  have hpeers : ctx'.peers = peers := congrArg Tables.peers ht
  rw [DeferredServed, hcached, hpeers]
  exact forall₂_congr fun hash hh => hiff hash (h hash hh)

theorem deferredServed_injectNotification (h : DeferredServed ctx) (peer : PeerId)
    (protocol : ProtocolName) (notification : Bytes) (now : Time) :
    DeferredServed (ctx.injectNotification codec peer protocol notification now) ↔
      KeepsDeferred codec ctx (.injectNotification peer protocol notification now) := by
  rcases tables_injectNotification codec ctx peer protocol notification now with
    ⟨ht, hnot⟩ | ⟨number, hash', sender, hlearns, ht⟩
  · apply iff_of_true (h.of_tables ht)
    intro number hash sender hlearns
    exact absurd hlearns (hnot number hash sender)
  · have hiff : ∀ hash, Waits ctx.peers hash → (Waits (ctx.peers.insert peer
        { sender with knownBlocks := insert hash' sender.knownBlocks }) hash ↔
          (hash = hash' → sender.busy = true)) := by
      intro hash hw
      rw [waits_insert_iff hw hlearns.registered (Finset.subset_insert _ _), Finset.mem_insert]
      have hold := hw.busy peer sender hlearns.registered
      tauto
    rw [deferredServed_iff_of_peers ht h hiff]
    constructor
    · intro hb number hash sender' hlearns' hh
      obtain ⟨rfl, rfl⟩ := hlearns.unique hlearns'
      exact hb hash hh rfl
    · rintro hb hash hh rfl
      exact hb number hash sender hlearns hh

theorem DeferredServed.askForBlock (h : DeferredServed ctx) (protocol : ProtocolName)
    (peer : PeerId) (request : BlockRequest) (hash : BlockHash) :
    DeferredServed (ctx.askForBlock protocol peer request hash) := by
  have hasks := asks_askForBlock ctx protocol peer request hash
  generalize htables : (ctx.askForBlock protocol peer request hash).tables = tables at hasks
  have htable : (ctx.askForBlock protocol peer request hash).cachedRequests =
      tables.cachedRequests := congrArg Tables.cachedRequests htables
  have hpeers : (ctx.askForBlock protocol peer request hash).peers = tables.peers :=
    congrArg Tables.peers htables
  rw [DeferredServed, htable, hpeers]
  clear htable hpeers htables
  cases hasks with
  | joinPending | unknown => exact h
  | joinCached hpending hcached =>
    intro hash' hh
    rcases Dict.mem_insert.mp hh with rfl | hh
    · exact h hash' (Dict.mem_of_get? hcached)
    · exact h hash' hh
  | cache hpending hcached hknown hbusy =>
    intro hash' hh
    rcases Dict.mem_insert.mp hh with rfl | hh
    · exact ⟨hbusy, hknown⟩
    · exact h hash' hh
  | send hpending hcached hprovider hpeer hknown hidle =>
    intro hash' hh
    exact (waits_mark_iff (h hash' hh) hpeer true).mpr fun _ => rfl

theorem mem_cachedRequests_responded (peer : PeerId) (p : PeerContext)
    (blocks : List Proto.BlockData) (hash : BlockHash) :
    hash ∈ (ctx.responded peer p blocks).cachedRequests ↔ hash ∈ ctx.cachedRequests ∧
      ¬ ((completed ctx.pendingRequests blocks).Nodup ∧
        ctx.cachedRequests.Removed (completed ctx.cachedRequests blocks) hash) := by
  simp only [responded]
  split
  · next hnodup => simp [Dict.mem_removeAll_iff, hnodup]
  · next hnodup => simp [hnodup]

theorem deferredServed_injectResponse (h : DeferredServed ctx) (peer : PeerId) (payload : Bytes) :
    DeferredServed (ctx.injectResponse codec peer payload).2 ↔
      KeepsDeferred codec ctx (.injectResponse peer payload) := by
  by_cases hrefused : codec.parseResponse payload = none ∨ peer ∉ ctx.peers
  · rw [injectResponse_of_refused hrefused]
    apply iff_of_true h
    intro blocks p hparse hpeer
    rcases hrefused with hnone | hnot
    · rw [hparse] at hnone
      cases hnone
    · exact absurd (Dict.mem_of_get? hpeer) hnot
  · rw [not_or, not_not] at hrefused
    obtain ⟨blocks, hparse⟩ := Option.ne_none_iff_exists'.mp hrefused.1
    obtain ⟨p, hpeer⟩ := Dict.mem_iff.mp hrefused.2
    have hidle : ∀ hash ∈ ctx.cachedRequests,
        (Waits (ctx.responded peer p blocks).peers hash ↔ hash ∉ p.knownBlocks) := by
      intro hash hh
      change Waits (ctx.peers.insert peer { p with busy := false }) hash ↔ _
      rw [waits_mark_iff (h hash hh) hpeer]
      simp
    rw [injectResponse_eq hparse hpeer]
    constructor
    · intro hd blocks' p' hparse' hpeer' hash hh hknown
      obtain rfl := Option.some.inj (hparse.symm.trans hparse')
      obtain rfl := Option.some.inj (hpeer.symm.trans hpeer')
      by_contra hnot
      have hstays := (mem_cachedRequests_responded peer p blocks hash).mpr ⟨hh, hnot⟩
      exact (hidle hash hh).mp (hd hash hstays) hknown
    · intro hk hash hh
      obtain ⟨hh, hnot⟩ := (mem_cachedRequests_responded peer p blocks hash).mp hh
      exact (hidle hash hh).mpr fun hknown => hnot (hk blocks p hparse hpeer hash hh hknown)

theorem deferredServed_step {call : Call} (hstep : Step codec ctx call ctx')
    (h : DeferredServed ctx) : DeferredServed ctx' ↔ KeepsDeferred codec ctx call := by
  obtain ⟨_, rfl⟩ := hstep
  cases call with
  | registerPeer peer =>
    exact deferredServed_iff_of_peers rfl h fun _ => waits_insert_new_iff
  | unregisterPeer peer =>
    exact deferredServed_iff_of_peers (tables_unregisterPeer ctx peer) h fun _ => waits_erase_iff
  | discoverPeer peer now order =>
    exact iff_of_true (h.of_tables (tables_discoverPeer ..)) trivial
  | injectNotification peer protocol notification now =>
    exact deferredServed_injectNotification h peer protocol notification now
  | injectRequest protocol peer payload =>
    refine iff_of_true ?_ trivial
    rcases tables_injectRequest codec ctx protocol peer payload with ht | ⟨request, hash, _, hask⟩
    · exact h.of_tables ht
    · rw [handle, hask]
      exact h.askForBlock protocol peer request hash
  | injectResponse peer payload => exact deferredServed_injectResponse h peer payload
  | poll => exact iff_of_true (h.of_tables rfl) trivial
  | saveElsewhere block => exact iff_of_true h trivial

/-- Along a run every deferred request waits for a busy provider in every state iff every call keeps
the deferred requests waiting for busy providers. -/
theorem deferred_served_iff (codec : Codec) (now : Time) (calls : List Call) :
    Always (Step codec) DeferredServed (new now) calls ↔
      Along (Step codec) (fun ctx call _ => KeepsDeferred codec ctx call) (new now) calls := by
  refine always_iff_along (fun ctx call ctx' hstep h => deferredServed_step hstep h) ?_
  intro hash hh
  cases hh

/-- A provider of two blocks is asked for both and answers the first request. -/
def deferCalls : List Call :=
  [.registerPeer [1], .injectNotification [1] "/sup/block-announces/1" (chainAnnounce 1) 0,
    .injectNotification [1] "/sup/block-announces/1" (chainAnnounce 2) 0,
    .injectRequest "/sup/sync/2" [2] (chainRequest (chainHash 1) 1),
    .injectRequest "/sup/sync/2" [2] (chainRequest (chainHash 2) 1),
    .injectResponse [1] (chainResponse [1])]

theorem deferred_not_served :
    ¬ Always (Step chainCodec) DeferredServed (new 0) deferCalls := by
  intro h
  obtain ⟨ctx, hrun, hcached, hidle⟩ : ∃ ctx, Run (Step chainCodec) (new 0) deferCalls ctx ∧
      chainHash 2 ∈ ctx.cachedRequests ∧
      ∃ e ∈ ctx.peers.entries, chainHash 2 ∈ e.2.knownBlocks ∧ e.2.busy = false := by
    refine ⟨_, .cons ⟨trivial, rfl⟩ (.cons ⟨trivial, rfl⟩ (.cons ⟨trivial, rfl⟩
      (.cons ⟨trivial, rfl⟩ (.cons ⟨trivial, rfl⟩ (.cons ⟨trivial, rfl⟩ (.nil _)))))), ?_, ?_⟩
    all_goals decide +kernel
  obtain ⟨⟨q, p⟩, hmem, hknown, hidle⟩ := hidle
  have hbusy := (h deferCalls ctx List.prefix_rfl hrun _ hcached).busy q p
    (Dict.mem_entries.mp hmem) hknown
  rw [hidle] at hbusy
  cases hbusy

end SwarmHost.Substrate.Context
