import SwarmHost.Context.Responses

/-! # What a call changes

The tables of a context are its database, its peers and the two tables of waiting
requests. Every call is described once by what it does to them; discovering peers
and polling leave them alone.
-/

namespace SwarmHost.Substrate.Context

variable {codec : Codec} {ctx : Context}

/-- The tables that decide how block requests are handled. -/
structure Tables where
  database : Dict BlockHash StoredBlock
  peers : Dict PeerId PeerContext
  pendingRequests : Dict BlockHash (List PeerId)
  cachedRequests : Dict BlockHash CachedRequest

def tables (ctx : Context) : Tables :=
  ⟨ctx.database, ctx.peers, ctx.pendingRequests, ctx.cachedRequests⟩

theorem tables_discoverPeer (ctx : Context) (peer : PeerId) (now : Time) (order : List PeerId) :
    (ctx.discoverPeer peer now order).tables = ctx.tables := by
  have hloop : ∀ (peers : List PeerId) (ctx : Context),
      (peers.foldl (connect now) ctx).tables = ctx.tables := by
    intro peers
    induction peers with
    | nil => intro ctx; rfl
    | cons p peers ih => intro ctx; exact ih _
  unfold discoverPeer
  split
  · rfl
  · dsimp only
    split
    · rfl
    · exact hloop _ _

theorem tables_createAndSendResponse (ctx : Context) (peer : PeerId) (hash : BlockHash)
    (direction : Direction) (maxBlocks : ℤ) :
    (ctx.createAndSendResponse peer hash direction maxBlocks).2.tables = ctx.tables := by
  unfold createAndSendResponse
  split
  · rfl
  · dsimp only
    split <;> rfl

/-- The announcement arrives in time, is decoded, and its sender is registered. -/
structure Learns (codec : Codec) (ctx : Context) (peer : PeerId) (notification : Bytes) (now : Time)
    (number : ℕ) (hash : BlockHash) (sender : PeerContext) : Prop where
  inTime : now - ctx.started ≤ announcePeriod
  decoded : codec.decodeAnnounce notification = some (number, hash)
  registered : ctx.peers.get? peer = some sender

theorem Learns.unique {peer : PeerId} {notification : Bytes} {now : Time} {number number' : ℕ}
    {hash hash' : BlockHash} {sender sender' : PeerContext}
    (h : Learns codec ctx peer notification now number hash sender)
    (h' : Learns codec ctx peer notification now number' hash' sender') :
    hash' = hash ∧ sender' = sender := by
  have hdecoded := h.decoded.symm.trans h'.decoded
  have hregistered := h.registered.symm.trans h'.registered
  simp only [Option.some.injEq, Prod.mk.injEq] at hdecoded hregistered
  exact ⟨hdecoded.2.symm, hregistered.symm⟩

theorem tables_injectNotification (codec : Codec) (ctx : Context) (peer : PeerId)
    (protocol : ProtocolName) (notification : Bytes) (now : Time) :
    ((ctx.injectNotification codec peer protocol notification now).tables = ctx.tables ∧
        ∀ number hash sender, ¬ Learns codec ctx peer notification now number hash sender) ∨
      ∃ number hash sender, Learns codec ctx peer notification now number hash sender ∧
        (ctx.injectNotification codec peer protocol notification now).tables =
          { ctx.tables with
            peers := ctx.peers.insert peer
              { sender with knownBlocks := insert hash sender.knownBlocks } } := by
  unfold injectNotification
  split
  · next hlate =>
    exact .inl ⟨rfl, fun _ _ _ h => absurd h.inTime (not_le.mpr hlate)⟩
  · next hlate =>
    dsimp only
    split
    · next number hash sender hdecode hpeer =>
      refine .inr ⟨number, hash, sender, ⟨not_lt.mp hlate, hdecode, hpeer⟩, ?_⟩
      split <;> rfl
    · next hnot =>
      refine .inl ⟨rfl, fun number hash sender h => ?_⟩
      exact hnot number hash sender h.decoded h.registered

inductive Asks (ctx : Context) (peer : PeerId) (request : BlockRequest) (hash : BlockHash) :
    Tables → Prop where
  | joinPending {waiting : List PeerId} (hpending : ctx.pendingRequests.get? hash = some waiting) :
    Asks ctx peer request hash
      { ctx.tables with
        pendingRequests := ctx.pendingRequests.insert hash (waiting ++ [peer]) }
  | joinCached {cached : CachedRequest} (hpending : hash ∉ ctx.pendingRequests)
      (hcached : ctx.cachedRequests.get? hash = some cached) :
    Asks ctx peer request hash
      { ctx.tables with
        cachedRequests :=
          ctx.cachedRequests.insert hash { cached with peers := cached.peers ++ [peer] } }
  | unknown (hpending : hash ∉ ctx.pendingRequests) (hcached : hash ∉ ctx.cachedRequests)
      (hunknown : ∀ q p, ctx.peers.get? q = some p → hash ∉ p.knownBlocks) :
    Asks ctx peer request hash ctx.tables
  | cache (hpending : hash ∉ ctx.pendingRequests) (hcached : hash ∉ ctx.cachedRequests)
      (hknown : ∃ q p, ctx.peers.get? q = some p ∧ hash ∈ p.knownBlocks)
      (hbusy : ∀ q p, ctx.peers.get? q = some p → hash ∈ p.knownBlocks → p.busy = true) :
    Asks ctx peer request hash
      { ctx.tables with cachedRequests := ctx.cachedRequests.insert hash ⟨request, [peer]⟩ }
  | send {provider : PeerId} {p : PeerContext} (hpending : hash ∉ ctx.pendingRequests)
      (hcached : hash ∉ ctx.cachedRequests) (hprovider : ctx.getProvider hash = some provider)
      (hpeer : ctx.peers.get? provider = some p) (hknown : hash ∈ p.knownBlocks)
      (hidle : p.busy = false) :
    Asks ctx peer request hash
      { ctx.tables with
        pendingRequests := ctx.pendingRequests.insert hash [peer]
        peers := ctx.peers.insert provider { p with busy := true } }

theorem Asks.database {peer : PeerId} {request : BlockRequest} {hash : BlockHash} {t : Tables}
    (h : Asks ctx peer request hash t) : t.database = ctx.database := by
  cases h <;> rfl

theorem getProvider_eq_some {hash : BlockHash} {provider : PeerId}
    (h : ctx.getProvider hash = some provider) :
    ∃ p, ctx.peers.get? provider = some p ∧ hash ∈ p.knownBlocks ∧ p.busy = false := by
  obtain ⟨⟨q, p⟩, hfind, rfl⟩ := Option.map_eq_some_iff.mp h
  obtain ⟨hknown, hidle⟩ : hash ∈ p.knownBlocks ∧ p.busy = false := by
    simpa using List.find?_some hfind
  exact ⟨p, Dict.mem_entries.mp (List.mem_of_find?_eq_some hfind), hknown, hidle⟩

theorem getProvider_eq_none {hash : BlockHash} (h : ctx.getProvider hash = none) {q : PeerId}
    {p : PeerContext} (hq : ctx.peers.get? q = some p) (hknown : hash ∈ p.knownBlocks) :
    p.busy = true := by
  have hnone := List.find?_eq_none.mp (Option.map_eq_none_iff.mp h) (q, p) (Dict.mem_entries.mpr hq)
  simpa [hknown] using hnone

theorem isUnknownBlock_iff {hash : BlockHash} :
    ctx.isUnknownBlock hash = true ↔
      ∀ q p, ctx.peers.get? q = some p → hash ∉ p.knownBlocks := by
  unfold isUnknownBlock
  rw [List.all_eq_true]
  constructor
  · intro h q p hq
    simpa using h (q, p) (Dict.mem_entries.mpr hq)
  · rintro h ⟨q, p⟩ hq
    simpa using h q p (Dict.mem_entries.mp hq)

theorem asks_askForBlock (ctx : Context) (protocol : ProtocolName) (peer : PeerId)
    (request : BlockRequest) (hash : BlockHash) :
    Asks ctx peer request hash (ctx.askForBlock protocol peer request hash).tables := by
  unfold askForBlock
  split
  · next waiting hpending => exact .joinPending hpending
  · next hpending =>
    have hpending := Dict.notMem_iff.mpr hpending
    split
    · next cached hcached => exact .joinCached hpending hcached
    · next hcached =>
      have hcached := Dict.notMem_iff.mpr hcached
      split
      · next hprovider =>
        split
        · next hunknown => exact .unknown hpending hcached (isUnknownBlock_iff.mp hunknown)
        · next hunknown =>
          have hknown : ∃ q p, ctx.peers.get? q = some p ∧ hash ∈ p.knownBlocks := by
            rw [isUnknownBlock_iff] at hunknown
            push Not at hunknown
            exact hunknown
          exact .cache hpending hcached hknown fun q p => getProvider_eq_none hprovider
      · next provider hprovider =>
        obtain ⟨p, hpeer, hknown, hidle⟩ := getProvider_eq_some hprovider
        have hmodify : ctx.peers.modify provider (fun p => { p with busy := true }) =
            ctx.peers.insert provider { p with busy := true } := Dict.modify_of_get? hpeer
        simp only [sendRequest, hmodify]
        exact .send hpending hcached hprovider hpeer hknown hidle

theorem tables_unregisterPeer (ctx : Context) (peer : PeerId) :
    (ctx.unregisterPeer peer).tables = { ctx.tables with peers := ctx.peers.erase peer } := by
  unfold unregisterPeer
  split
  · rfl
  · next h => rw [Dict.erase_of_notMem h]; rfl

/-- A request reaches the tables if it is decoded and its start block is known but not stored. -/
structure Reaches (codec : Codec) (ctx : Context) (payload : Bytes) (request : BlockRequest)
    (hash : BlockHash) : Prop where
  decoded : codec.parseRequest payload = some request.request
  original : request.original = payload
  start : ctx.startHash request = some hash
  missing : hash ∉ ctx.database

theorem tables_injectRequest (codec : Codec) (ctx : Context) (protocol : ProtocolName)
    (peer : PeerId) (payload : Bytes) :
    (ctx.injectRequest codec protocol peer payload).2.tables = ctx.tables ∨
      ∃ request hash, Reaches codec ctx payload request hash ∧
        ctx.injectRequest codec protocol peer payload =
          (.ok (), ctx.askForBlock protocol peer request hash) := by
  unfold injectRequest
  split
  · exact .inl rfl
  · next message hparse =>
    dsimp only
    split
    · exact .inl rfl
    · next hash hstart =>
      split
      · exact .inl (tables_createAndSendResponse ..)
      · next hmissing => exact .inr ⟨⟨payload, message⟩, hash, ⟨hparse, rfl, hstart, hmissing⟩, rfl⟩

theorem injectResponse_of_refused {peer : PeerId} {payload : Bytes}
    (h : codec.parseResponse payload = none ∨ peer ∉ ctx.peers) :
    (ctx.injectResponse codec peer payload).2 = ctx := by
  unfold injectResponse
  split
  · rfl
  · next hparse =>
    have hpeer : ctx.peers.get? peer = none := by
      rcases h with h | h
      · rw [hparse] at h
        cases h
      · exact Dict.notMem_iff.mp h
    rw [hpeer]

end SwarmHost.Substrate.Context
