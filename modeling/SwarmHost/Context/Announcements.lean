import SwarmHost.Context.Filters

/-! # Relaying announcements

The overseer hands a notification to the filters of all linked interfaces, with
the identity of the peer that sent it to one of them. The block announces filter
records the block for that peer first, so an announcement of a peer that is
connected elsewhere fails before anything of it is kept or relayed.
-/

namespace SwarmHost.Substrate.Context

variable {codec : Codec} {ctx : Context} {peer p : PeerId} {protocol : ProtocolName}
  {notification : Bytes} {now : Time} {number : ℕ} {hash : BlockHash}

def Knows (ctx : Context) (peer : PeerId) (hash : BlockHash) : Prop :=
  ∃ info, ctx.peers.get? peer = some info ∧ hash ∈ info.knownBlocks

/-- An announcement is relayed: `ctx` is the context before, `ctx'` the one after. -/
structure Relays (ctx ctx' : Context) (peer : PeerId) (protocol : ProtocolName)
    (notification : Bytes) (number : ℕ) (hash : BlockHash) : Prop where
  /-- One event to the other peers that do not know the block, unless there are none. -/
  forwards : ∃ peers : List PeerId, peers.Nodup ∧
    (∀ p, p ∈ peers ↔ p ∈ ctx.peers ∧ p ≠ peer ∧ ¬ Knows ctx p hash) ∧
    ctx'.pendingEvents = ctx.pendingEvents ++
      if peers = [] then [] else [.forward peers protocol (some notification)]
  /-- The number and the hash are mapped, to each other unless they were mapped before. -/
  mapsNumber : ctx'.numberToBlockHash.get? number =
    some ((ctx.numberToBlockHash.get? number).getD hash)
  mapsHash : ctx'.blockHashToNumber.get? hash =
    some ((ctx.blockHashToNumber.get? hash).getD number)
  learns : ∀ info, ctx.peers.get? peer = some info → ctx'.peers.get? peer =
    some { info with knownBlocks := insert hash info.knownBlocks }

theorem mem_forwardTable : p ∈ ctx.forwardTable hash ↔ p ∈ ctx.peers ∧ ¬ Knows ctx p hash := by
  simp only [forwardTable, List.mem_map, List.mem_filter, Dict.mem_iff, Knows, Prod.exists,
    decide_eq_true_eq]
  constructor
  · rintro ⟨_, info, ⟨hmem, hnot⟩, rfl⟩
    have hget := Dict.mem_entries.mp hmem
    refine ⟨⟨info, hget⟩, ?_⟩
    rintro ⟨info', hget', hknown⟩
    obtain rfl : info = info' := Option.some.inj (hget.symm.trans hget')
    exact hnot hknown
  · rintro ⟨⟨info, hget⟩, hnot⟩
    exact ⟨p, info, ⟨Dict.mem_entries.mpr hget, fun hknown => hnot ⟨info, hget, hknown⟩⟩, rfl⟩

theorem nodup_forwardTable : (ctx.forwardTable hash).Nodup :=
  ctx.peers.nodup.sublist (List.filter_sublist.map _)

theorem get?_numberToBlockHash_setBlockHash :
    (ctx.setBlockHash number hash).numberToBlockHash.get? number =
      some ((ctx.numberToBlockHash.get? number).getD hash) := by
  unfold setBlockHash
  split
  · next hmem =>
    obtain ⟨old, hold⟩ := Dict.mem_iff.mp hmem
    simp [hold]
  · next hmem => simp [Dict.notMem_iff.mp hmem]

theorem get?_blockHashToNumber_setBlockHash :
    (ctx.setBlockHash number hash).blockHashToNumber.get? hash =
      some ((ctx.blockHashToNumber.get? hash).getD number) := by
  unfold setBlockHash
  dsimp only
  split
  · next hmem =>
    obtain ⟨old, hold⟩ := Dict.mem_iff.mp hmem
    simp [hold]
  · next hmem => simp [Dict.notMem_iff.mp hmem]

theorem injectNotification_registered {sender : PeerContext} (protocol : ProtocolName)
    (htime : now - ctx.started ≤ announcePeriod)
    (hdec : codec.decodeAnnounce notification = some (number, hash))
    (hpeer : ctx.peers.get? peer = some sender) :
    ∃ learned : Context,
      learned.peers = ctx.peers.insert peer
        { sender with knownBlocks := insert hash sender.knownBlocks } ∧
      learned.numberToBlockHash = (ctx.setBlockHash number hash).numberToBlockHash ∧
      learned.blockHashToNumber = (ctx.setBlockHash number hash).blockHashToNumber ∧
      learned.pendingEvents = ctx.pendingEvents ∧
      ctx.injectNotification codec peer protocol notification now =
        if learned.forwardTable hash = [] then learned
        else learned.forwardNotification protocol (learned.forwardTable hash)
          (some notification) := by
  rw [injectNotification, if_neg (not_lt.mpr htime), hdec]
  simp only [hpeer]
  refine ⟨_, ?_, ?_, ?_, ?_, rfl⟩
  all_goals rfl

theorem injectNotification_unregistered (htime : now - ctx.started ≤ announcePeriod)
    (hpeer : ctx.peers.get? peer = none) :
    ctx.injectNotification codec peer protocol notification now =
      { ctx with blockAnnounce := some notification } := by
  rw [injectNotification, if_neg (not_lt.mpr htime)]
  simp only [hpeer]
  cases codec.decodeAnnounce notification <;> rfl

theorem knows_insert_iff {peers : Dict PeerId PeerContext} {sender : PeerContext}
    (h : ctx.peers = peers.insert peer sender) :
    Knows ctx p hash ↔ if p = peer then hash ∈ sender.knownBlocks
      else ∃ info, peers.get? p = some info ∧ hash ∈ info.knownBlocks := by
  rw [Knows, h, Dict.get?_insert]
  split
  · simp
  · rfl

theorem relays_of_registered (htime : now - ctx.started ≤ announcePeriod)
    (hdec : codec.decodeAnnounce notification = some (number, hash)) (hpeer : peer ∈ ctx.peers) :
    Relays ctx (ctx.injectNotification codec peer protocol notification now) peer protocol
      notification number hash := by
  obtain ⟨sender, hpeer⟩ := Dict.mem_iff.mp hpeer
  obtain ⟨learned, hpeers, hnumber, hhash, hevents, heq⟩ :=
    injectNotification_registered protocol htime hdec hpeer
  have hknows : ∀ p, Knows learned p hash ↔ p = peer ∨ Knows ctx p hash := by
    intro p
    rw [knows_insert_iff hpeers]
    split
    · next heq => simp [heq]
    · next hne => simp [hne, Knows]
  have hmem : ∀ p, p ∈ learned.forwardTable hash ↔
      p ∈ ctx.peers ∧ p ≠ peer ∧ ¬ Knows ctx p hash := by
    intro p
    rw [mem_forwardTable, hknows, hpeers, Dict.mem_insert, not_or]
    constructor
    · rintro ⟨rfl | hp, hne, hnot⟩
      · exact absurd rfl hne
      · exact ⟨hp, hne, hnot⟩
    · rintro ⟨hp, hne, hnot⟩
      exact ⟨.inr hp, hne, hnot⟩
  constructor
  · refine ⟨learned.forwardTable hash, nodup_forwardTable, hmem, ?_⟩
    rw [heq]
    split
    · simp [hevents]
    · simp [forwardNotification, hevents]
  · rw [heq, ← get?_numberToBlockHash_setBlockHash, ← hnumber]
    split <;> rfl
  · rw [heq, ← get?_blockHashToNumber_setBlockHash, ← hhash]
    split <;> rfl
  · intro info hinfo
    obtain rfl : sender = info := Option.some.inj (hpeer.symm.trans hinfo)
    rw [heq, ← Dict.get?_insert_self ctx.peers peer, ← hpeers]
    split <;> rfl

/-- An announcement in time is relayed iff its sender is registered, or there is nothing to do:
every peer knows the block, and its number and its hash are mapped. -/
theorem relays_iff (codec : Codec) (ctx : Context) (peer : PeerId) (protocol : ProtocolName)
    (notification : Bytes) (now : Time) (number : ℕ) (hash : BlockHash)
    (htime : now - ctx.started ≤ announcePeriod)
    (hdec : codec.decodeAnnounce notification = some (number, hash)) :
    Relays ctx (ctx.injectNotification codec peer protocol notification now) peer protocol
        notification number hash ↔
      peer ∈ ctx.peers ∨ (∀ p ∈ ctx.peers, Knows ctx p hash) ∧
        (number : ℤ) ∈ ctx.numberToBlockHash ∧ hash ∈ ctx.blockHashToNumber := by
  by_cases hpeer : peer ∈ ctx.peers
  · exact iff_of_true (relays_of_registered htime hdec hpeer) (.inl hpeer)
  rw [injectNotification_unregistered htime (Dict.notMem_iff.mp hpeer), or_iff_right hpeer]
  constructor
  · rintro ⟨⟨peers, _, hmem, hevents⟩, hnumber, hhash, _⟩
    refine ⟨?_, Dict.mem_of_get? hnumber, Dict.mem_of_get? hhash⟩
    have hnil : peers = [] := by
      by_contra hne
      simp [hne] at hevents
    intro p hp
    by_contra hnot
    have hin := (hmem p).mpr ⟨hp, ne_of_mem_of_not_mem hp hpeer, hnot⟩
    simp [hnil] at hin
  · rintro ⟨hknown, hnumber, hhash⟩
    obtain ⟨old, hold⟩ := Dict.mem_iff.mp hnumber
    obtain ⟨oldNumber, holdNumber⟩ := Dict.mem_iff.mp hhash
    refine ⟨⟨[], List.nodup_nil, ?_, (List.append_nil _).symm⟩, ?_, ?_, ?_⟩
    · intro p
      refine iff_of_false List.not_mem_nil ?_
      rintro ⟨hp, _, hnot⟩
      exact hnot (hknown p hp)
    · simp [hold]
    · simp [holdNumber]
    · intro info hinfo
      exact absurd (Dict.mem_of_get? hinfo) hpeer

/-- Two peers connect, and one of them announces a block. -/
theorem relays_connected :
    ∃ ctx, Run (Step chainCodec) (new 0) [.registerPeer [1], .registerPeer [2]] ctx ∧
      1000 - ctx.started ≤ announcePeriod ∧
      chainCodec.decodeAnnounce (chainAnnounce 1) = some (1, chainHash 1) ∧
      Relays ctx (ctx.injectNotification chainCodec [1] "/sup/block-announces/1" (chainAnnounce 1)
        1000) [1] "/sup/block-announces/1" (chainAnnounce 1) 1 (chainHash 1) := by
  have htime : (1000 : Time) - 0 ≤ announcePeriod := by decide
  have hdec : chainCodec.decodeAnnounce (chainAnnounce 1) = some (1, chainHash 1) := by
    decide +kernel
  refine ⟨_, .cons ⟨trivial, rfl⟩ (.cons ⟨trivial, rfl⟩ (.nil _)), htime, hdec,
    (relays_iff chainCodec _ [1] "/sup/block-announces/1" (chainAnnounce 1) 1000 1 (chainHash 1)
      htime hdec).mpr (.inl ?_)⟩
  decide +kernel

/-- The block is announced by a peer of a linked interface. -/
theorem not_relays_linked :
    ∃ ctx, Run (Step chainCodec) (new 0) [.registerPeer [2]] ctx ∧
      1000 - ctx.started ≤ announcePeriod ∧
      chainCodec.decodeAnnounce (chainAnnounce 1) = some (1, chainHash 1) ∧
      ¬ Relays ctx (ctx.injectNotification chainCodec [1] "/sup/block-announces/1" (chainAnnounce 1)
        1000) [1] "/sup/block-announces/1" (chainAnnounce 1) 1 (chainHash 1) := by
  refine ⟨_, .cons ⟨trivial, rfl⟩ (.nil _), by decide, by decide +kernel, fun h => ?_⟩
  have hmapped := h.mapsNumber
  revert hmapped
  decide +kernel

end SwarmHost.Substrate.Context
