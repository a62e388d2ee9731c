import SwarmHost.Context.Changes

/-! # Providers of pending requests

A pending request waits for the peer it was sent to. The run of a context is taken
beside the requests that were sent and not answered, and the condition says which
calls take the last such peer from a pending request: the peer leaves, registers
again, or answers without the block.
-/

namespace SwarmHost.Substrate

namespace Context

variable {codec : Codec} {ctx ctx' : Context}

section Requests

def requests (events : List PendingEvent) : List (PeerId × Bytes) :=
  events.filterMap fun
    | .sendRequest _ peer request => some (peer, request)
    | _ => none

def newRequests (ctx ctx' : Context) : List (PeerId × Bytes) :=
  requests (ctx'.pendingEvents.drop ctx.pendingEvents.length)

theorem newRequests_of_append {events : List PendingEvent} {sent : List (PeerId × Bytes)}
    (h : ctx'.pendingEvents = ctx.pendingEvents ++ events) (hsent : requests events = sent) :
    newRequests ctx ctx' = sent := by
  rw [newRequests, h, List.drop_left, hsent]

theorem newRequests_of_same (h : ctx'.pendingEvents = ctx.pendingEvents) :
    newRequests ctx ctx' = [] :=
  newRequests_of_append (h.trans (List.append_nil _).symm) rfl

theorem newRequests_askForBlock (protocol : ProtocolName) (peer : PeerId) (request : BlockRequest)
    (hash : BlockHash) :
    newRequests ctx (ctx.askForBlock protocol peer request hash) =
      if hash ∈ ctx.pendingRequests ∨ hash ∈ ctx.cachedRequests then []
      else (ctx.getProvider hash).toList.map fun provider => (provider, request.toBytes) := by
  unfold askForBlock
  split
  · next hpending =>
    rw [if_pos (.inl (Dict.mem_of_get? hpending))]
    exact newRequests_of_same rfl
  · next hpending =>
    split
    · next hcached =>
      rw [if_pos (.inr (Dict.mem_of_get? hcached))]
      exact newRequests_of_same rfl
    · next hcached =>
      rw [if_neg (not_or.mpr ⟨Dict.notMem_iff.mpr hpending, Dict.notMem_iff.mpr hcached⟩)]
      split
      · next hprovider =>
        rw [hprovider]
        split
        · exact newRequests_of_same rfl
        · exact newRequests_of_same rfl
      · next provider hprovider =>
        rw [hprovider]
        exact newRequests_of_append rfl rfl

theorem newRequests_injectResponse (peer : PeerId) (payload : Bytes) :
    newRequests ctx (ctx.injectResponse codec peer payload).2 = [] := by
  cases hparse : codec.parseResponse payload with
  | none => rw [injectResponse_of_refused (.inl hparse)]; exact newRequests_of_same rfl
  | some blocks =>
    cases hpeer : ctx.peers.get? peer with
    | none =>
      rw [injectResponse_of_refused (.inr (Dict.notMem_iff.mpr hpeer))]
      exact newRequests_of_same rfl
    | some p =>
      rw [injectResponse_eq hparse hpeer]
      apply newRequests_of_append rfl
      rw [requests, List.filterMap_map]
      exact List.filterMap_eq_nil_iff.mpr fun _ _ => rfl

end Requests

section Busy

variable {peers : Dict PeerId PeerContext} {q peer : PeerId} {p : PeerContext}

def Busy (peers : Dict PeerId PeerContext) (peer : PeerId) : Prop :=
  ∃ p, peers.get? peer = some p ∧ p.busy = true

theorem Busy.mem (h : Busy peers q) : q ∈ peers := by
  obtain ⟨p, hp, _⟩ := h
  exact Dict.mem_of_get? hp

theorem busy_insert_iff :
    Busy (peers.insert peer p) q ↔ if q = peer then p.busy = true else Busy peers q := by
  unfold Busy
  rw [Dict.get?_insert]
  split
  · simp
  · rfl

theorem busy_insert_idle_iff (h : p.busy = false) :
    Busy (peers.insert peer p) q ↔ q ≠ peer ∧ Busy peers q := by
  rw [busy_insert_iff]
  split <;> simp [*]

theorem busy_send_iff :
    Busy (peers.insert peer { p with busy := true }) q ↔ q = peer ∨ Busy peers q := by
  rw [busy_insert_iff]
  split <;> simp [*]

theorem busy_erase_iff : Busy (peers.erase peer) q ↔ q ≠ peer ∧ Busy peers q := by
  unfold Busy
  rw [Dict.get?_erase]
  split <;> simp [*]

theorem busy_learn_iff (h : peers.get? peer = some p) (known : Finset BlockHash) :
    Busy (peers.insert peer { p with knownBlocks := known }) q ↔ Busy peers q := by
  rw [busy_insert_iff]
  split
  · next heq => simp [heq, Busy, h]
  · rfl

end Busy

end Context

/-- A context beside the requests it sent. -/
structure Asking where
  ctx : Context
  /-- Provider and block of the requests that were not answered, oldest first. -/
  outstanding : List (PeerId × BlockHash)

namespace Asking

open Context (Call newRequests Busy)

variable {codec : Codec} {t u : Asking} {call : Call}

def new (now : Time) : Asking := ⟨.new now, []⟩

def requestedBlock (codec : Codec) (ctx : Context) (payload : Bytes) : Option BlockHash :=
  (codec.parseRequest payload).bind fun message => ctx.startHash ⟨payload, message⟩

def unanswered (t : Asking) : Call → List (PeerId × BlockHash)
  | .injectResponse peer _ => t.outstanding.eraseP (·.1 = peer)
  | _ => t.outstanding

def step (codec : Codec) (t : Asking) (call : Call) : Asking where
  ctx := (t.ctx.handle codec call).2
  outstanding := t.unanswered call ++
    (newRequests t.ctx (t.ctx.handle codec call).2).filterMap fun (peer, payload) =>
      (requestedBlock codec t.ctx payload).map fun hash => (peer, hash)

def Step (codec : Codec) (t : Asking) (call : Call) (u : Asking) : Prop :=
  t.ctx.Admissible call ∧ u = t.step codec call

/-- The block was requested from a registered and busy peer that did not answer yet. -/
def Serves (t : Asking) (peer : PeerId) (hash : BlockHash) : Prop :=
  Busy t.ctx.peers peer ∧ (peer, hash) ∈ t.outstanding

def PendingServed (t : Asking) : Prop :=
  ∀ hash ∈ t.ctx.pendingRequests, ∃ peer, t.Serves peer hash

/-- The call leaves every pending request a peer that serves it: another one if it takes the busy
mark of a peer away, unless it completes the request. -/
def KeepsProviders (codec : Codec) (t : Asking) : Call → Prop
  | .registerPeer peer | .unregisterPeer peer =>
    ∀ hash ∈ t.ctx.pendingRequests, ∃ q ≠ peer, t.Serves q hash
  | .injectResponse peer payload =>
    match codec.parseResponse payload with
    | some blocks => ∀ hash ∈ t.ctx.pendingRequests,
      ¬ t.ctx.pendingRequests.Removed (Context.completed t.ctx.pendingRequests blocks) hash →
        ∃ q ≠ peer, t.Serves q hash
    | none => ∀ hash ∈ t.ctx.pendingRequests, ∃ q, Busy t.ctx.peers q ∧
      (q, hash) ∈ t.outstanding.eraseP (·.1 = peer)
  | _ => True

theorem PendingServed.of_tables {tables : Context.Tables} (h : PendingServed t)
    (ht : u.ctx.tables = tables)
    (hpending : ∀ hash ∈ tables.pendingRequests, hash ∈ t.ctx.pendingRequests ∨
      ∃ q, Busy tables.peers q ∧ (q, hash) ∈ u.outstanding)
    (hbusy : ∀ q, Busy t.ctx.peers q → Busy tables.peers q)
    (hout : ∀ e ∈ t.outstanding, e ∈ u.outstanding) : PendingServed u := by
  subst ht
  intro hash hh
  rcases hpending hash hh with hh | hserved
  · obtain ⟨q, hq, hmem⟩ := h hash hh
    exact ⟨q, hbusy q hq, hout _ hmem⟩
  · exact hserved

theorem pendingServed_iff_of_idle {peer : PeerId} {stays : BlockHash → Prop}
    (hpending : ∀ hash, hash ∈ u.ctx.pendingRequests ↔ hash ∈ t.ctx.pendingRequests ∧ stays hash)
    (hbusy : ∀ q, Busy u.ctx.peers q ↔ q ≠ peer ∧ Busy t.ctx.peers q)
    (hout : ∀ q ≠ peer, ∀ hash, (q, hash) ∈ u.outstanding ↔ (q, hash) ∈ t.outstanding) :
    PendingServed u ↔
      ∀ hash ∈ t.ctx.pendingRequests, stays hash → ∃ q ≠ peer, t.Serves q hash := by
  constructor
  · intro h hash hp hs
    obtain ⟨q, hq, hmem⟩ := h hash ((hpending hash).mpr ⟨hp, hs⟩)
    obtain ⟨hne, hq⟩ := (hbusy q).mp hq
    exact ⟨q, hne, hq, (hout q hne hash).mp hmem⟩
  · intro h hash hh
    obtain ⟨hp, hs⟩ := (hpending hash).mp hh
    obtain ⟨q, hne, hq, hmem⟩ := h hash hp hs
    exact ⟨q, (hbusy q).mpr ⟨hne, hq⟩, (hout q hne hash).mpr hmem⟩

theorem outstanding_step (h : newRequests t.ctx (t.ctx.handle codec call).2 = []) :
    (t.step codec call).outstanding = t.unanswered call := by
  rw [step, h]
  exact List.append_nil _

theorem mem_outstanding_step {e : PeerId × BlockHash} (h : e ∈ t.unanswered call) :
    e ∈ (t.step codec call).outstanding := List.mem_append_left _ h

theorem mem_eraseP_iff {q peer : PeerId} {hash : BlockHash} (hq : q ≠ peer) :
    (q, hash) ∈ t.outstanding.eraseP (·.1 = peer) ↔ (q, hash) ∈ t.outstanding :=
  List.mem_eraseP_of_neg (by simpa using hq)

theorem pendingServed_registerPeer (peer : PeerId) :
    PendingServed (t.step codec (.registerPeer peer)) ↔
      KeepsProviders codec t (.registerPeer peer) := by
  have hpending : ∀ hash, hash ∈ (t.step codec (.registerPeer peer)).ctx.pendingRequests ↔
      hash ∈ t.ctx.pendingRequests ∧ True := fun _ => (and_iff_left trivial).symm
  have hbusy : ∀ q, Busy (t.step codec (.registerPeer peer)).ctx.peers q ↔
      q ≠ peer ∧ Busy t.ctx.peers q := fun _ => Context.busy_insert_idle_iff rfl
  have hout : (t.step codec (.registerPeer peer)).outstanding = t.outstanding :=
    outstanding_step (Context.newRequests_of_same rfl)
  rw [pendingServed_iff_of_idle hpending hbusy fun _ _ _ => by rw [hout]]
  simp only [true_implies, KeepsProviders]

theorem pendingServed_unregisterPeer (peer : PeerId) :
    PendingServed (t.step codec (.unregisterPeer peer)) ↔
      KeepsProviders codec t (.unregisterPeer peer) := by
  have htables := Context.tables_unregisterPeer t.ctx peer
  have hpending : ∀ hash, hash ∈ (t.step codec (.unregisterPeer peer)).ctx.pendingRequests ↔
      hash ∈ t.ctx.pendingRequests ∧ True := by
    intro hash
    rw [and_true]
    exact iff_of_eq (congrArg (hash ∈ ·) (congrArg Context.Tables.pendingRequests htables))
  have hbusy : ∀ q, Busy (t.step codec (.unregisterPeer peer)).ctx.peers q ↔
      q ≠ peer ∧ Busy t.ctx.peers q := by
    intro q
    rw [← Context.busy_erase_iff]
    exact iff_of_eq (congrArg (Busy · q) (congrArg Context.Tables.peers htables))
  have hout : (t.step codec (.unregisterPeer peer)).outstanding = t.outstanding := by
    refine outstanding_step (Context.newRequests_of_same ?_)
    simp only [Context.handle, Context.unregisterPeer]
    split <;> rfl
  rw [pendingServed_iff_of_idle hpending hbusy fun _ _ _ => by rw [hout]]
  simp only [true_implies, KeepsProviders]

theorem PendingServed.injectNotification (h : PendingServed t) (peer : PeerId)
    (protocol : ProtocolName) (notification : Bytes) (now : Time) :
    PendingServed (t.step codec (.injectNotification peer protocol notification now)) := by
  have hout : ∀ e ∈ t.outstanding,
      e ∈ (t.step codec (.injectNotification peer protocol notification now)).outstanding :=
    fun _ he => mem_outstanding_step he
  rcases Context.tables_injectNotification codec t.ctx peer protocol notification now with
    ⟨ht, _⟩ | ⟨number, hash, sender, hlearns, ht⟩
  · exact h.of_tables ht (fun _ => .inl) (fun _ hq => hq) hout
  · refine h.of_tables ht (fun _ => .inl) (fun q hq => ?_) hout
    exact (Context.busy_learn_iff hlearns.registered _).mpr hq

theorem requestedBlock_of_reaches {ctx : Context} {payload : Bytes} {request : BlockRequest}
    {hash : BlockHash} (h : Context.Reaches codec ctx payload request hash) :
    requestedBlock codec ctx payload = some hash := by
  obtain ⟨hparse, rfl, hstart, _⟩ := h
  rw [requestedBlock, hparse]
  exact hstart

theorem PendingServed.askForBlock (h : PendingServed t) (protocol : ProtocolName) (peer : PeerId)
    {payload : Bytes} {request : BlockRequest} {hash : BlockHash}
    (hreaches : Context.Reaches codec t.ctx payload request hash)
    (hask : t.ctx.injectRequest codec protocol peer payload =
      (.ok (), t.ctx.askForBlock protocol peer request hash)) :
    PendingServed (t.step codec (.injectRequest protocol peer payload)) := by
  have hctx : (t.step codec (.injectRequest protocol peer payload)).ctx =
      t.ctx.askForBlock protocol peer request hash := congrArg Prod.snd hask
  have hasks := Context.asks_askForBlock t.ctx protocol peer request hash
  rw [← hctx] at hasks
  have hout : ∀ e ∈ t.outstanding,
      e ∈ (t.step codec (.injectRequest protocol peer payload)).outstanding :=
    fun _ he => mem_outstanding_step he
  generalize htables : (t.step codec (.injectRequest protocol peer payload)).ctx.tables = tables
    at hasks
  cases hasks with
  | joinPending hpending =>
    refine h.of_tables htables (fun hash' hh => ?_) (fun _ hq => hq) hout
    rcases Dict.mem_insert.mp hh with rfl | hh
    · exact .inl (Dict.mem_of_get? hpending)
    · exact .inl hh
  | joinCached | unknown | cache => exact h.of_tables htables (fun _ => .inl) (fun _ hq => hq) hout
  | @send provider p hpending hcached hprovider hpeer hknown hidle =>
    have hsent : (provider, hash) ∈
        (t.step codec (.injectRequest protocol peer payload)).outstanding := by
      refine List.mem_append_right _ (List.mem_filterMap.mpr ⟨(provider, payload), ?_, ?_⟩)
      · rw [Context.handle, hask, Context.newRequests_askForBlock,
          if_neg (not_or.mpr ⟨hpending, hcached⟩), hprovider, ← hreaches.original]
        exact List.mem_singleton.mpr rfl
      · simp only [requestedBlock_of_reaches hreaches, Option.map_some]
    refine h.of_tables htables (fun hash' hh => ?_)
      (fun q hq => Context.busy_send_iff.mpr (.inr hq)) hout
    rcases Dict.mem_insert.mp hh with rfl | hh
    · exact .inr ⟨provider, Context.busy_send_iff.mpr (.inl rfl), hsent⟩
    · exact .inl hh

theorem PendingServed.other (h : PendingServed t) {peer : PeerId} (hpeer : peer ∉ t.ctx.peers) :
    ∀ hash ∈ t.ctx.pendingRequests, ∃ q ≠ peer, t.Serves q hash := by
  intro hash hh
  obtain ⟨q, hq, hmem⟩ := h hash hh
  refine ⟨q, ?_, hq, hmem⟩
  rintro rfl
  exact hpeer hq.mem

theorem outstanding_injectResponse (peer : PeerId) (payload : Bytes) :
    (t.step codec (.injectResponse peer payload)).outstanding =
      t.outstanding.eraseP (·.1 = peer) :=
  outstanding_step (Context.newRequests_injectResponse peer payload)

theorem PendingServed.injectResponse_unregistered (h : PendingServed t) {peer : PeerId}
    (hpeer : peer ∉ t.ctx.peers) (payload : Bytes) :
    PendingServed (t.step codec (.injectResponse peer payload)) := by
  have hctx : (t.step codec (.injectResponse peer payload)).ctx = t.ctx :=
    Context.injectResponse_of_refused (.inr hpeer)
  intro hash hh
  rw [hctx] at hh
  obtain ⟨q, hne, hq, hmem⟩ := h.other hpeer hash hh
  refine ⟨q, ?_, ?_⟩
  · rwa [hctx]
  · rw [outstanding_injectResponse]
    exact (mem_eraseP_iff hne).mpr hmem

theorem pendingServed_injectResponse_registered {peer : PeerId} {payload : Bytes}
    {p : PeerContext} {blocks : List Proto.BlockData}
    (hparse : codec.parseResponse payload = some blocks) (hpeer : t.ctx.peers.get? peer = some p) :
    PendingServed (t.step codec (.injectResponse peer payload)) ↔
      ∀ hash ∈ t.ctx.pendingRequests, ¬ t.ctx.pendingRequests.Removed
        (Context.completed t.ctx.pendingRequests blocks) hash → ∃ q ≠ peer, t.Serves q hash := by
  have hctx : (t.step codec (.injectResponse peer payload)).ctx = t.ctx.responded peer p blocks :=
    congrArg Prod.snd (Context.injectResponse_eq hparse hpeer)
  refine pendingServed_iff_of_idle ?_ ?_ ?_
  · rw [hctx]
    exact fun hash => Dict.mem_removeAll_iff
  · rw [hctx]
    exact fun q => Context.busy_insert_idle_iff rfl
  · intro q hq hash
    rw [outstanding_injectResponse, mem_eraseP_iff hq]

theorem pendingServed_injectResponse (h : PendingServed t) (peer : PeerId) (payload : Bytes) :
    PendingServed (t.step codec (.injectResponse peer payload)) ↔
      KeepsProviders codec t (.injectResponse peer payload) := by
  cases hparse : codec.parseResponse payload with
  | none =>
    have hctx : (t.step codec (.injectResponse peer payload)).ctx = t.ctx :=
      Context.injectResponse_of_refused (.inl hparse)
    simp only [PendingServed, Serves, hctx, outstanding_injectResponse, KeepsProviders, hparse]
  | some blocks =>
    simp only [KeepsProviders, hparse]
    cases hpeer : t.ctx.peers.get? peer with
    | none =>
      have hpeer := Dict.notMem_iff.mpr hpeer
      exact iff_of_true (h.injectResponse_unregistered hpeer payload)
        fun hash hh _ => h.other hpeer hash hh
    | some p => exact pendingServed_injectResponse_registered hparse hpeer

theorem pendingServed_step (hstep : Step codec t call u) (h : PendingServed t) :
    PendingServed u ↔ KeepsProviders codec t call := by
  obtain ⟨_, rfl⟩ := hstep
  cases call with
  | registerPeer peer => exact pendingServed_registerPeer peer
  | unregisterPeer peer => exact pendingServed_unregisterPeer peer
  | discoverPeer peer now order =>
    refine iff_of_true ?_ trivial
    exact h.of_tables (Context.tables_discoverPeer ..) (fun _ => .inl) (fun _ hq => hq)
      fun _ he => mem_outstanding_step he
  | injectNotification peer protocol notification now =>
    exact iff_of_true (h.injectNotification peer protocol notification now) trivial
  | injectRequest protocol peer payload =>
    refine iff_of_true ?_ trivial
    rcases Context.tables_injectRequest codec t.ctx protocol peer payload with
      ht | ⟨request, hash, hreaches, hask⟩
    · exact h.of_tables ht (fun _ => .inl) (fun _ hq => hq) fun _ he => mem_outstanding_step he
    · exact h.askForBlock protocol peer hreaches hask
  | injectResponse peer payload => exact pendingServed_injectResponse h peer payload
  | poll | saveElsewhere =>
    refine iff_of_true ?_ trivial
    exact h.of_tables rfl (fun _ => .inl) (fun _ hq => hq) fun _ he => mem_outstanding_step he

/-- Along a run every pending request is served in every state iff every call leaves the pending
requests a provider. -/
theorem pending_served_iff (codec : Codec) (now : Time) (calls : List Call) :
    Always (Step codec) PendingServed (new now) calls ↔
      Along (Step codec) (fun t call _ => KeepsProviders codec t call) (new now) calls := by
  refine always_iff_along (fun t call u hstep h => pendingServed_step hstep h) ?_
  intro hash hh
  cases hh

/-- The provider of a pending request leaves. -/
def leaveCalls : List Call := Context.askCalls ++ [.unregisterPeer [1]]

theorem pending_not_served :
    ¬ Always (Step Context.chainCodec) PendingServed (new 0) leaveCalls := by
  intro h
  obtain ⟨t, hrun, hpending, hpeers⟩ : ∃ t, Run (Step Context.chainCodec) (new 0) leaveCalls t ∧
      Context.chainHash 1 ∈ t.ctx.pendingRequests ∧ t.ctx.peers = ∅ := by
    refine ⟨_, .cons ⟨trivial, rfl⟩ (.cons ⟨trivial, rfl⟩ (.cons ⟨trivial, rfl⟩
      (.cons ⟨trivial, rfl⟩ (.nil _)))), ?_, ?_⟩
    all_goals decide +kernel
  obtain ⟨q, hq, _⟩ := h leaveCalls t List.prefix_rfl hrun _ hpending
  rw [hpeers] at hq
  exact Dict.notMem_empty q hq.mem

end Asking

end SwarmHost.Substrate
