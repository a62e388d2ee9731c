import Mathlib.Data.List.Dedup
import SwarmHost.Context.Filters

/-! # Fan-out of block responses

The loop over the blocks of a response stores them and answers the peers that
wait; the tables change only after it. The requests that the response completes
are removed one by one, and a hash that is to be removed twice stops the removal.
-/

namespace SwarmHost.Substrate.Context

variable {ctx : Context} {block : Proto.BlockData} {blocks : List Proto.BlockData}
  {completedPending completedCached : List BlockHash}

def store (database : Dict BlockHash StoredBlock) (blocks : List Proto.BlockData) :
    Dict BlockHash StoredBlock :=
  blocks.foldl (fun d block => if block.hash ∈ d then d else d.insert block.hash (.encode block))
    database

/-- The peers that wait for a block, in the order in which they are answered. -/
def waiting (ctx : Context) (hash : BlockHash) : List PeerId :=
  (ctx.pendingRequests.get? hash).getD [] ++
    ((ctx.cachedRequests.get? hash).map CachedRequest.peers).getD []

def deliveries (ctx : Context) (blocks : List Proto.BlockData) : List (PeerId × Proto.BlockData) :=
  blocks.flatMap fun block => (ctx.waiting block.hash).map fun peer => (peer, block)

def delivery (d : PeerId × Proto.BlockData) : PendingEvent := .sendResponse d.1 (relayed d.2)

def completed {ν : Type} (table : Dict BlockHash ν) (blocks : List Proto.BlockData) :
    List BlockHash :=
  (blocks.map (·.hash)).filter (· ∈ table)

theorem respondAll_eq (peers : List PeerId) (response : List Proto.BlockData) :
    ctx.respondAll peers response =
      { ctx with pendingEvents := ctx.pendingEvents ++ peers.map (.sendResponse · response) } := by
  induction peers generalizing ctx with
  | nil => simp [respondAll]
  | cons peer peers ih =>
    rw [respondAll, List.foldl_cons, ← respondAll, ih]
    simp [sendResponse]

theorem foldl_completePending :
    ctx.pendingRequests.keys.foldl (completePending block)
        ⟨ctx, completedPending, completedCached⟩ =
      ⟨ctx.respondAll ((ctx.pendingRequests.get? block.hash).getD []) (relayed block),
        completedPending ++ completed ctx.pendingRequests [block], completedCached⟩ := by
  have hloop : completePending block = fun s hash => if hash = block.hash then
      ⟨s.ctx.respondAll ((s.ctx.pendingRequests.get? block.hash).getD []) (relayed block),
        s.completedPending ++ [block.hash], s.completedCached⟩ else s := by
    funext s hash
    unfold completePending
    split
    · next h => rw [h]
    · rfl
  rw [hloop, Dict.foldl_keys_eq]
  by_cases h : block.hash ∈ ctx.pendingRequests
  · simp [h, completed]
  · simp [h, completed, Dict.notMem_iff.mp h, respondAll]

theorem foldl_completeCached :
    ctx.cachedRequests.keys.foldl (completeCached block)
        ⟨ctx, completedPending, completedCached⟩ =
      ⟨ctx.respondAll (((ctx.cachedRequests.get? block.hash).map CachedRequest.peers).getD [])
          (relayed block),
        completedPending, completedCached ++ completed ctx.cachedRequests [block]⟩ := by
  have hloop : completeCached block = fun s hash => if hash = block.hash then
      ⟨s.ctx.respondAll (((s.ctx.cachedRequests.get? block.hash).map CachedRequest.peers).getD [])
          (relayed block),
        s.completedPending, s.completedCached ++ [block.hash]⟩ else s := by
    funext s hash
    unfold completeCached
    split
    · next h => rw [h]
    · rfl
  rw [hloop, Dict.foldl_keys_eq]
  by_cases h : block.hash ∈ ctx.cachedRequests
  · simp [h, completed]
  · simp [h, completed, Dict.notMem_iff.mp h, respondAll]

theorem handleBlock_eq :
    handleBlock ⟨ctx, completedPending, completedCached⟩ block =
      ⟨{ ctx with
          database := store ctx.database [block]
          pendingEvents := ctx.pendingEvents ++ (ctx.deliveries [block]).map delivery },
        completedPending ++ completed ctx.pendingRequests [block],
        completedCached ++ completed ctx.cachedRequests [block]⟩ := by
  have hstore : (if block.hash ∈ ctx.database then
      (⟨ctx, completedPending, completedCached⟩ : Progress)
      else ⟨ctx.saveBlockToDatabase block, completedPending, completedCached⟩) =
      ⟨{ ctx with database := store ctx.database [block] }, completedPending,
        completedCached⟩ := by
    simp only [store, List.foldl_cons, List.foldl_nil, saveBlockToDatabase]
    split <;> rfl
  simp only [handleBlock]
  rw [hstore, foldl_completePending, respondAll_eq, foldl_completeCached, respondAll_eq]
  simp [deliveries, waiting, Function.comp_def, delivery]

theorem deliveries_cons (ctx : Context) (block : Proto.BlockData) (blocks : List Proto.BlockData) :
    ctx.deliveries (block :: blocks) = ctx.deliveries [block] ++ ctx.deliveries blocks := by
  simp [deliveries]

theorem completed_cons {ν : Type} (table : Dict BlockHash ν) (block : Proto.BlockData)
    (blocks : List Proto.BlockData) :
    completed table (block :: blocks) = completed table [block] ++ completed table blocks := by
  rw [completed, completed, completed, ← List.filter_append]
  rfl

/-- The loop over the blocks leaves the tables alone. -/
theorem foldl_handleBlock :
    blocks.foldl handleBlock ⟨ctx, completedPending, completedCached⟩ =
      ⟨{ ctx with
          database := store ctx.database blocks
          pendingEvents := ctx.pendingEvents ++ (ctx.deliveries blocks).map delivery },
        completedPending ++ completed ctx.pendingRequests blocks,
        completedCached ++ completed ctx.cachedRequests blocks⟩ := by
  induction blocks generalizing ctx completedPending completedCached with
  | nil => simp [store, deliveries, completed]
  | cons block blocks ih =>
    have hwaiting : ∀ database events,
        deliveries { ctx with database := database, pendingEvents := events } blocks =
          ctx.deliveries blocks := fun _ _ => rfl
    rw [List.foldl_cons, handleBlock_eq, ih, hwaiting, deliveries_cons ctx block blocks,
      completed_cons _ block blocks, completed_cons _ block blocks, List.map_append]
    simp only [List.append_assoc]
    rfl

def Removes (ctx : Context) (blocks : List Proto.BlockData) : Prop :=
  (completed ctx.pendingRequests blocks).Nodup ∧ (completed ctx.cachedRequests blocks).Nodup

instance (ctx : Context) (blocks : List Proto.BlockData) : Decidable (ctx.Removes blocks) :=
  inferInstanceAs (Decidable (_ ∧ _))

def responded (ctx : Context) (peer : PeerId) (p : PeerContext) (blocks : List Proto.BlockData) :
    Context :=
  { ctx with
    database := store ctx.database blocks
    peers := ctx.peers.insert peer { p with busy := false }
    pendingRequests := (ctx.pendingRequests.removeAll (completed ctx.pendingRequests blocks)).2
    cachedRequests := if (completed ctx.pendingRequests blocks).Nodup then
        (ctx.cachedRequests.removeAll (completed ctx.cachedRequests blocks)).2
      else ctx.cachedRequests
    pendingEvents := ctx.pendingEvents ++ (ctx.deliveries blocks).map delivery }

theorem removeAll_completed {ν : Type} (table : Dict BlockHash ν) :
    (table.removeAll (completed table blocks)).1 = true ↔ (completed table blocks).Nodup := by
  rw [Dict.removeAll_ok_iff]
  apply and_iff_left
  intro hash h
  simpa using (List.mem_filter.mp h).2

theorem injectResponse_eq {codec : Codec} {peer : PeerId} {payload : Bytes} {p : PeerContext}
    (hparse : codec.parseResponse payload = some blocks) (hpeer : ctx.peers.get? peer = some p) :
    ctx.injectResponse codec peer payload =
      (if ctx.Removes blocks then .ok () else .error .keyError, ctx.responded peer p blocks) := by
  simp only [injectResponse, hparse, hpeer, foldl_handleBlock, List.nil_append]
  by_cases hp : (completed ctx.pendingRequests blocks).Nodup
  · rw [if_pos ((removeAll_completed _).mpr hp)]
    by_cases hc : (completed ctx.cachedRequests blocks).Nodup
    · rw [if_pos ((removeAll_completed _).mpr hc), if_pos ⟨hp, hc⟩]
      simp only [responded, hp, if_true]
      rfl
    · rw [if_neg (mt (removeAll_completed _).mp hc), if_neg fun h => hc h.2]
      simp only [responded, hp, if_true]
      rfl
  · rw [if_neg (mt (removeAll_completed _).mp hp), if_neg fun h => hp h.1]
    simp only [responded, hp, if_false]
    rfl

theorem get?_removeAll_completed {ν : Type} {table : Dict BlockHash ν}
    (h : (completed table blocks).Nodup) (hash : BlockHash) :
    (table.removeAll (completed table blocks)).2.get? hash =
      if hash ∈ blocks.map (·.hash) then none else table.get? hash := by
  have hmem : ∀ k ∈ completed table blocks, k ∈ table := fun k hk => by
    simpa using (List.mem_filter.mp hk).2
  by_cases hin : hash ∈ completed table blocks
  · rw [Dict.get?_removeAll_of_removed ((Dict.removed_iff_of_nodup h hmem).mpr hin),
      if_pos (List.mem_filter.mp hin).1]
  · rw [Dict.get?_removeAll_of_not_removed (mt Dict.Removed.mem hin)]
    split
    · next hb =>
      refine Dict.notMem_iff.mp fun ht => hin ?_
      exact List.mem_filter.mpr ⟨hb, decide_eq_true ht⟩
    · rfl

theorem nodup_completed_iff {ν : Type} {table : Dict BlockHash ν} :
    (completed table blocks).Nodup ↔ ∀ hash ∈ table, (blocks.map (·.hash)).count hash ≤ 1 := by
  have hcount : ∀ hash ∈ table,
      (completed table blocks).count hash = (blocks.map (·.hash)).count hash := fun hash ht =>
    List.count_filter (by simpa using ht)
  rw [List.nodup_iff_count_le_one]
  constructor
  · intro h hash ht
    rw [← hcount hash ht]
    exact h hash
  · intro h hash
    by_cases ht : hash ∈ table
    · rw [hcount hash ht]
      exact h hash ht
    · have hnot : hash ∉ completed table blocks := fun hin =>
        ht (by simpa using (List.mem_filter.mp hin).2)
      rw [List.count_eq_zero_of_not_mem hnot]
      exact Nat.zero_le 1

theorem flatMap_dedup {α β : Type} [BEq α] [LawfulBEq α] [DecidableEq α] {l : List α}
    {f : α → List β} (h : ∀ a, f a ≠ [] → l.count a ≤ 1) : l.dedup.flatMap f = l.flatMap f := by
  induction l with
  | nil => rfl
  | cons a l ih =>
    have ih := ih fun b hb => (List.count_le_count_cons ..).trans (h b hb)
    by_cases ha : a ∈ l
    · have hnil : f a = [] := by
        by_contra hne
        have hcount := h a hne
        rw [List.count_cons_self] at hcount
        have := List.count_pos_iff.mpr ha
        omega
      rw [List.dedup_cons_of_mem ha, List.flatMap_cons, hnil, ih, List.nil_append]
    · rw [List.dedup_cons_of_notMem ha, List.flatMap_cons, List.flatMap_cons, ih]

/-- A response reaches everyone who waits for one of its blocks, once, and nobody else. -/
structure FansOut (codec : Codec) (ctx : Context) (peer : PeerId) (payload : Bytes)
    (blocks : List Proto.BlockData) : Prop where
  ok : (ctx.injectResponse codec peer payload).1 = .ok ()
  /-- One response for each entry of the waiting lists of the hashes in the response. -/
  responses : ∃ sent : List (PeerId × Proto.BlockData),
    (ctx.injectResponse codec peer payload).2.pendingEvents =
        ctx.pendingEvents ++ sent.map delivery ∧
      (∀ d ∈ sent, d.2 ∈ blocks) ∧
      (sent.map fun d => (d.1, d.2.hash)).Perm ((blocks.map (·.hash)).dedup.flatMap fun hash =>
        (ctx.waiting hash).map fun waiter => (waiter, hash))
  pending : ∀ hash, (ctx.injectResponse codec peer payload).2.pendingRequests.get? hash =
    if hash ∈ blocks.map (·.hash) then none else ctx.pendingRequests.get? hash
  cached : ∀ hash, (ctx.injectResponse codec peer payload).2.cachedRequests.get? hash =
    if hash ∈ blocks.map (·.hash) then none else ctx.cachedRequests.get? hash
  busy : ∀ p, ctx.peers.get? peer = some p →
    (ctx.injectResponse codec peer payload).2.peers.get? peer = some { p with busy := false }

theorem waiting_ne_nil {hash : BlockHash} (h : ctx.waiting hash ≠ []) :
    hash ∈ ctx.pendingRequests ∨ hash ∈ ctx.cachedRequests := by
  by_contra hnot
  rw [not_or, Dict.notMem_iff, Dict.notMem_iff] at hnot
  exact h (by simp [waiting, hnot])

theorem map_deliveries (h : ∀ hash, hash ∈ ctx.pendingRequests ∨ hash ∈ ctx.cachedRequests →
      (blocks.map (·.hash)).count hash ≤ 1) :
    ((ctx.deliveries blocks).map fun d => (d.1, d.2.hash)) =
      (blocks.map (·.hash)).dedup.flatMap fun hash =>
        (ctx.waiting hash).map fun waiter => (waiter, hash) := by
  rw [flatMap_dedup, deliveries, List.map_flatMap, List.flatMap_map]
  · simp [Function.comp_def]
  · intro hash hne
    refine h hash (waiting_ne_nil fun hnil => hne ?_)
    rw [hnil]
    rfl

/-- A decodable response is fanned out iff its peer is registered and no block that someone waits
for occurs twice. -/
theorem fansOut_iff (codec : Codec) (ctx : Context) (peer : PeerId) (payload : Bytes)
    (blocks : List Proto.BlockData) (hparse : codec.parseResponse payload = some blocks) :
    FansOut codec ctx peer payload blocks ↔
      peer ∈ ctx.peers ∧ ∀ hash, hash ∈ ctx.pendingRequests ∨ hash ∈ ctx.cachedRequests →
        (blocks.map (·.hash)).count hash ≤ 1 := by
  constructor
  · intro h
    cases hpeer : ctx.peers.get? peer with
    | none =>
      have hok := h.ok
      simp [injectResponse, hparse, hpeer] at hok
    | some p =>
      have hok := h.ok
      rw [injectResponse_eq hparse hpeer] at hok
      have hremoves : ctx.Removes blocks := by
        by_contra hnot
        simp [hnot] at hok
      refine ⟨Dict.mem_of_get? hpeer, ?_⟩
      rintro hash (hp | hc)
      · exact nodup_completed_iff.mp hremoves.1 hash hp
      · exact nodup_completed_iff.mp hremoves.2 hash hc
  · rintro ⟨hpeer, hcount⟩
    obtain ⟨p, hpeer⟩ := Dict.mem_iff.mp hpeer
    have hp : (completed ctx.pendingRequests blocks).Nodup :=
      nodup_completed_iff.mpr fun hash h => hcount hash (.inl h)
    have hc : (completed ctx.cachedRequests blocks).Nodup :=
      nodup_completed_iff.mpr fun hash h => hcount hash (.inr h)
    constructor <;> rw [injectResponse_eq hparse hpeer]
    · rw [if_pos ⟨hp, hc⟩]
    · refine ⟨ctx.deliveries blocks, rfl, ?_, (map_deliveries hcount).symm ▸ .rfl⟩
      intro d hd
      obtain ⟨block, hblock, hd⟩ := List.mem_flatMap.mp hd
      obtain ⟨waiter, _, rfl⟩ := List.mem_map.mp hd
      exact hblock
    · exact get?_removeAll_completed hp
    · intro hash
      rw [responded]
      simp only [hp, if_true]
      exact get?_removeAll_completed hc hash
    · intro p' hp'
      obtain rfl : p = p' := Option.some.inj (hpeer.symm.trans hp')
      exact Dict.get?_insert_self ..

def askCalls : List Call :=
  [.registerPeer [1], .injectNotification [1] "/sup/block-announces/1" (chainAnnounce 1) 0,
    .injectRequest "/sup/sync/2" [2] (chainRequest (chainHash 1) 1)]

theorem fansOut_asked :
    ∃ ctx, Run (Step chainCodec) (new 0) askCalls ctx ∧
      chainCodec.parseResponse (chainResponse [1]) = some [chainBlock 1] ∧
      FansOut chainCodec ctx [1] (chainResponse [1]) [chainBlock 1] := by
  have hparse : chainCodec.parseResponse (chainResponse [1]) = some [chainBlock 1] := by
    decide +kernel
  refine ⟨_, .cons ⟨trivial, rfl⟩ (.cons ⟨trivial, rfl⟩ (.cons ⟨trivial, rfl⟩ (.nil _))), hparse,
    (fansOut_iff chainCodec _ [1] (chainResponse [1]) [chainBlock 1] hparse).mpr ⟨?_, ?_⟩⟩
  · decide +kernel
  · intro hash _
    exact List.count_le_length

/-- The provider sends the block twice, or a peer that is not registered sends it. -/
theorem not_fansOut_asked :
    ∃ ctx, Run (Step chainCodec) (new 0) askCalls ctx ∧
      chainCodec.parseResponse (chainResponse [1, 1]) = some [chainBlock 1, chainBlock 1] ∧
      chainCodec.parseResponse (chainResponse [1]) = some [chainBlock 1] ∧
      ¬ FansOut chainCodec ctx [1] (chainResponse [1, 1]) [chainBlock 1, chainBlock 1] ∧
      ¬ FansOut chainCodec ctx [3] (chainResponse [1]) [chainBlock 1] := by
  obtain ⟨ctx, hrun, htwice, hgone⟩ : ∃ ctx, Run (Step chainCodec) (new 0) askCalls ctx ∧
      (ctx.injectResponse chainCodec [1] (chainResponse [1, 1])).1 = .error .keyError ∧
      (ctx.injectResponse chainCodec [3] (chainResponse [1])).1 = .error .keyError := by
    refine ⟨_, .cons ⟨trivial, rfl⟩ (.cons ⟨trivial, rfl⟩ (.cons ⟨trivial, rfl⟩ (.nil _))), ?_, ?_⟩
    · decide +kernel
    · decide +kernel
  refine ⟨ctx, hrun, by decide +kernel, by decide +kernel, fun h => ?_, fun h => ?_⟩
  · exact absurd (htwice.symm.trans h.ok) (by simp)
  · exact absurd (hgone.symm.trans h.ok) (by simp)

end SwarmHost.Substrate.Context
