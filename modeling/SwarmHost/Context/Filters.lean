import SwarmHost.Collections.Removal
import SwarmHost.Context.Basic
import SwarmHost.Runs.Basic

/-! # The default filters

Announcements teach the context which peer has which block. A block request is
served from the database, joined to a request for the same block, sent to an
idle provider, or kept until a provider is idle. A block response is stored and
passed on to everyone who waits for one of its blocks.
-/

namespace SwarmHost.Substrate.Context

/-- The time after which announcements are replaced by the last one seen. -/
def announcePeriod : Time := 3 * 60 * 1000000

def forwardTable (ctx : Context) (hash : BlockHash) : List PeerId :=
  (ctx.peers.entries.filter fun (_, peer) => hash ∉ peer.knownBlocks).map Prod.fst

/-- The block announces filter. Whatever goes wrong with an announcement is swallowed. -/
def injectNotification (codec : Codec) (ctx : Context) (peer : PeerId) (protocol : ProtocolName)
    (notification : Bytes) (now : Time) : Context :=
  if announcePeriod < now - ctx.started then
    ctx.forwardNotification protocol ctx.peers.keys ctx.blockAnnounce
  else
    let ctx := { ctx with blockAnnounce := some notification }
    match codec.decodeAnnounce notification, ctx.peers.get? peer with
    | some (number, hash), some sender =>
      let ctx := { ctx with
        peers := ctx.peers.insert peer
          { sender with knownBlocks := insert hash sender.knownBlocks } }
      let ctx := ctx.setBlockHash number hash
      if ctx.forwardTable hash = [] then ctx
      else ctx.forwardNotification protocol (ctx.forwardTable hash) (some notification)
    | _, _ => ctx

def startHash (ctx : Context) (request : BlockRequest) : Option BlockHash :=
  if request.hash = [] then ctx.getBlockHashFromNumber request.number else some request.hash

def askForBlock (ctx : Context) (protocol : ProtocolName) (peer : PeerId) (request : BlockRequest)
    (hash : BlockHash) : Context :=
  match ctx.pendingRequests.get? hash with
  | some waiting =>
    { ctx with pendingRequests := ctx.pendingRequests.insert hash (waiting ++ [peer]) }
  | none =>
    match ctx.cachedRequests.get? hash with
    | some cached =>
      { ctx with cachedRequests :=
          ctx.cachedRequests.insert hash { cached with peers := cached.peers ++ [peer] } }
    | none =>
      match ctx.getProvider hash with
      | none =>
        if ctx.isUnknownBlock hash then ctx
        else { ctx with cachedRequests := ctx.cachedRequests.insert hash ⟨request, [peer]⟩ }
      | some provider =>
        let ctx := { ctx with
          pendingRequests := ctx.pendingRequests.insert hash [peer]
          peers := ctx.peers.modify provider fun p => { p with busy := true } }
        ctx.sendRequest protocol provider request.toBytes

def injectRequest (codec : Codec) (ctx : Context) (protocol : ProtocolName) (peer : PeerId)
    (payload : Bytes) : Outcome :=
  match codec.parseRequest payload with
  | none => (.error .decodeError, ctx)
  | some message =>
    let request : BlockRequest := ⟨payload, message⟩
    match ctx.startHash request with
    | none => (.ok (), ctx)
    | some hash =>
      if hash ∈ ctx.database then
        ctx.createAndSendResponse peer hash request.direction request.maxBlocks
      else (.ok (), ctx.askForBlock protocol peer request hash)

/-- The context and the completed requests while the blocks of a response are handled. -/
structure Progress where
  ctx : Context
  completedPending : List BlockHash
  completedCached : List BlockHash

def respondAll (ctx : Context) (peers : List PeerId) (response : List Proto.BlockData) : Context :=
  peers.foldl (fun ctx peer => ctx.sendResponse peer response) ctx

def relayed (block : Proto.BlockData) : List Proto.BlockData :=
  BlockResponse.fromBlock block.hash block.header block.body block.justifications

def completePending (block : Proto.BlockData) (s : Progress) (pendingBlock : BlockHash) :
    Progress :=
  if pendingBlock = block.hash then
    { s with
      ctx := s.ctx.respondAll ((s.ctx.pendingRequests.get? pendingBlock).getD []) (relayed block)
      completedPending := s.completedPending ++ [block.hash] }
  else s

def completeCached (block : Proto.BlockData) (s : Progress) (pendingBlock : BlockHash) :
    Progress :=
  if pendingBlock = block.hash then
    { s with
      ctx := s.ctx.respondAll
        (((s.ctx.cachedRequests.get? pendingBlock).map CachedRequest.peers).getD []) (relayed block)
      completedCached := s.completedCached ++ [block.hash] }
  else s

/-- Store a block unless it is stored and respond to the peers that wait for it. -/
def handleBlock (s : Progress) (block : Proto.BlockData) : Progress :=
  let s := if block.hash ∈ s.ctx.database then s
    else { s with ctx := s.ctx.saveBlockToDatabase block }
  let s := s.ctx.pendingRequests.keys.foldl (completePending block) s
  s.ctx.cachedRequests.keys.foldl (completeCached block) s

/-- The sync filter, on a response. The pending requests are removed before the cached ones. -/
def injectResponse (codec : Codec) (ctx : Context) (peer : PeerId) (payload : Bytes) : Outcome :=
  match codec.parseResponse payload with
  | none => (.error .decodeError, ctx)
  | some blocks =>
    match ctx.peers.get? peer with
    | none => (.error .keyError, ctx)
    | some p =>
      let ctx := { ctx with peers := ctx.peers.insert peer { p with busy := false } }
      let s := blocks.foldl handleBlock ⟨ctx, [], []⟩
      let (ok, pending) := s.ctx.pendingRequests.removeAll s.completedPending
      let ctx := { s.ctx with pendingRequests := pending }
      if ok then
        let (ok, cached) := ctx.cachedRequests.removeAll s.completedCached
        let ctx := { ctx with cachedRequests := cached }
        if ok then (.ok (), ctx) else (.error .keyError, ctx)
      else (.error .keyError, ctx)

/-- What can happen to a context. -/
inductive Call where
  | registerPeer (peer : PeerId)
  | unregisterPeer (peer : PeerId)
  | discoverPeer (peer : PeerId) (now : Time) (order : List PeerId)
  | injectNotification (peer : PeerId) (protocol : ProtocolName) (notification : Bytes) (now : Time)
  | injectRequest (protocol : ProtocolName) (peer : PeerId) (payload : Bytes)
  | injectResponse (peer : PeerId) (payload : Bytes)
  | poll
  /-- The context of another interface saves a block. -/
  | saveElsewhere (block : Proto.BlockData)

def handle (codec : Codec) (ctx : Context) : Call → Outcome
  | .registerPeer peer => (.ok (), ctx.registerPeer peer)
  | .unregisterPeer peer => (.ok (), ctx.unregisterPeer peer)
  | .discoverPeer peer now order => (.ok (), ctx.discoverPeer peer now order)
  | .injectNotification peer protocol notification now =>
    (.ok (), ctx.injectNotification codec peer protocol notification now)
  | .injectRequest protocol peer payload => ctx.injectRequest codec protocol peer payload
  | .injectResponse peer payload => ctx.injectResponse codec peer payload
  | .poll => (.ok (), ctx.poll.2)
  | .saveElsewhere block => (.ok (), ctx.saveBlockToDatabase block)

def Admissible (ctx : Context) : Call → Prop
  | .discoverPeer peer _ order => order.Nodup ∧ order.toFinset = insert peer ctx.knownPeers
  | _ => True

def Step (codec : Codec) (ctx : Context) (call : Call) (ctx' : Context) : Prop :=
  ctx.Admissible call ∧ ctx' = (ctx.handle codec call).2

section Chain

/-- The header of an empty block with a number below 64, all of whose hashes are zero. -/
def chainHeader (number : UInt8) : Bytes :=
  List.replicate 32 0 ++ [4 * number] ++ List.replicate 65 0

/-- The BLAKE2b digest of the header. -/
def chainHash : ℕ → BlockHash
  | 1 =>
    [0x64, 0x43, 0xa0, 0xb4, 0x6e, 0x04, 0x12, 0xe6, 0x26, 0x36, 0x30, 0x28, 0x11, 0x5a, 0x9f,
      0x2c, 0xf9, 0x63, 0xee, 0xed, 0x52, 0x6b, 0x8b, 0x33, 0xe5, 0x31, 0x6f, 0x08, 0xb5, 0x0d,
      0x0d, 0xc3]
  | 2 =>
    [0x05, 0xbd, 0xcc, 0x45, 0x4f, 0x60, 0xa0, 0x8d, 0x42, 0x7d, 0x05, 0xe7, 0xf1, 0x9f, 0x24,
      0x0f, 0xdc, 0x39, 0x1f, 0x57, 0x0a, 0xb7, 0x6f, 0xcb, 0x96, 0xec, 0xca, 0x0b, 0x58, 0x23,
      0xd3, 0xbf]
  | _ => []

def chainAnnounce (number : UInt8) : Bytes := chainHeader number ++ [1, 0]

def chainRequest (hash : BlockHash) (maxBlocks : UInt8) : Bytes :=
  [0x12, 32] ++ hash ++ [0x30, maxBlocks]

def chainBlock (number : UInt8) : Proto.BlockData :=
  ⟨chainHash number.toNat, chainHeader number, [], [], []⟩

def chainResponse (numbers : List UInt8) : Bytes :=
  numbers.flatMap fun number =>
    [0x0a, 0x86, 0x01, 0x0a, 32] ++ chainHash number.toNat ++ [0x12, 98] ++ chainHeader number

def chainBlocks : ℕ → Bytes → Option (List Proto.BlockData)
  | _, [] => some []
  | n + 1, 0x0a :: 0x86 :: 0x01 :: 0x0a :: 32 :: bytes =>
    match bytes.drop 32 with
    | 0x12 :: 98 :: rest =>
      (chainBlocks n (rest.drop 98)).map (⟨bytes.take 32, rest.take 98, [], [], []⟩ :: ·)
    | _ => none
  | _, _ => none

def chainCodec : Codec where
  parseRequest
    | 0x12 :: 32 :: bytes =>
      match bytes.drop 32 with
      | [0x30, maxBlocks] => some ⟨bytes.take 32, [], 0, maxBlocks.toNat⟩
      | _ => none
    | _ => none
  parseResponse bytes := chainBlocks bytes.length bytes
  decodeAnnounce bytes :=
    if bytes = chainAnnounce 1 then some (1, chainHash 1)
    else if bytes = chainAnnounce 2 then some (2, chainHash 2)
    else none

example : chainCodec.parseResponse (chainResponse [1, 2]) = some [chainBlock 1, chainBlock 2] := by
  decide +kernel

end Chain

end SwarmHost.Substrate.Context
