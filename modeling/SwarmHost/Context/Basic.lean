import Mathlib.Data.Finset.Card
import SwarmHost.Backend.Substrate

/-! # The context of the default substrate filters

The context is what the filters of one interface share: the connected peers with
the blocks they announced, the numbers of announced blocks, the requests waiting
for a block, and the events for the executor. The block store is a database that
the interfaces of a host have in common.
-/

namespace SwarmHost.Substrate

/-- A block hash. The filters keep it in hexadecimal, which determines the bytes. -/
abbrev BlockHash := Bytes

/-- A moment in microseconds. -/
abbrev Time := ℤ

namespace Proto

structure BlockRequest where
  hash : Bytes
  number : Bytes
  direction : ℤ
  maxBlocks : ℕ
  deriving DecidableEq

structure BlockData where
  hash : BlockHash
  header : Bytes
  body : List Bytes
  justification : Bytes
  justifications : Bytes
  deriving DecidableEq

end Proto

/-- The codecs of the messages: protobuf for requests and responses, and the SCALE codec with the
header hash for announcements. -/
structure Codec where
  parseRequest : Bytes → Option Proto.BlockRequest
  parseResponse : Bytes → Option (List Proto.BlockData)
  /-- Number and hash of the block that a notification announces. -/
  decodeAnnounce : Bytes → Option (ℕ × BlockHash)

inductive Direction where
  | ascending
  | descending
  deriving DecidableEq

def Direction.next (number : ℤ) : Direction → ℤ
  | .ascending => number + 1
  | .descending => number - 1

structure BlockRequest where
  original : Bytes
  request : Proto.BlockRequest
  deriving DecidableEq

namespace BlockRequest

def maxBlocks (r : BlockRequest) : ℕ := r.request.maxBlocks

def direction (r : BlockRequest) : Direction :=
  if r.request.direction = 0 then .ascending else .descending

def hash (r : BlockRequest) : Bytes := r.request.hash

def number (r : BlockRequest) : ℕ := r.request.number.foldr (fun b n => b.toNat + 256 * n) 0

def toBytes (r : BlockRequest) : Bytes := r.original

end BlockRequest

/-- Hash, header, body and justification of a block read from the database. -/
abbrev BlockFields := BlockHash × Bytes × Option (List Bytes) × Option Bytes

namespace BlockResponse

def fromBlock (hash : BlockHash) (header : Bytes) (body : List Bytes) (justification : Bytes) :
    List Proto.BlockData :=
  [⟨hash, header, body, justification, []⟩]

/-- An absent body or justification is left out of the message. -/
def fromBlocks (blocks : List BlockFields) : List Proto.BlockData :=
  blocks.map fun (hash, header, body, justification) =>
    ⟨hash, header, body.getD [], justification.getD [], []⟩

end BlockResponse

structure StoredBlock where
  hash : BlockHash
  header : Option Bytes
  body : Option (List Bytes)
  justification : Option Bytes
  deriving DecidableEq

/-- An empty header or justification is not stored; the body always is. -/
def StoredBlock.encode (block : Proto.BlockData) : StoredBlock where
  hash := block.hash
  header := if block.header = [] then none else some block.header
  body := some block.body
  justification := if block.justification = [] then none else some block.justification

inductive PendingEvent where
  | connect (peer : PeerId)
  | forward (peers : List PeerId) (protocol : ProtocolName) (notification : Option Bytes)
  | sendRequest (protocol : ProtocolName) (peer : PeerId) (request : Bytes)
  | sendResponse (peer : PeerId) (response : List Proto.BlockData)
  deriving DecidableEq

/-- The exceptions that a filter function can raise. -/
inductive PyError where
  | decodeError
  | keyError
  | typeError
  | exception (message : String)
  /-- A loop that does not end. -/
  | diverged
  deriving DecidableEq

structure PeerContext where
  knownBlocks : Finset BlockHash
  busy : Bool
  deriving DecidableEq

def PeerContext.new : PeerContext := ⟨∅, false⟩

/-- A request that waits for a provider, with the peers that expect its response. -/
structure CachedRequest where
  request : BlockRequest
  peers : List PeerId
  deriving DecidableEq

structure Context where
  database : Dict BlockHash StoredBlock
  peers : Dict PeerId PeerContext
  numberToBlockHash : Dict ℤ BlockHash
  blockHashToNumber : Dict BlockHash ℤ
  cachedRequests : Dict BlockHash CachedRequest
  pendingRequests : Dict BlockHash (List PeerId)
  pendingPeers : Dict PeerId Time
  knownPeers : Finset PeerId
  pendingEvents : List PendingEvent
  started : Time
  blockAnnounce : Option Bytes

/-- The outcome of a filter function, which keeps its changes when it raises. -/
abbrev Outcome := Except PyError Unit × Context

namespace Context

def new (now : Time) : Context := ⟨∅, ∅, ∅, ∅, ∅, ∅, ∅, ∅, [], now, none⟩

/-- Map a number and a hash to each other, unless they are mapped already. -/
def setBlockHash (ctx : Context) (number : ℤ) (hash : BlockHash) : Context :=
  { ctx with
    numberToBlockHash := if number ∈ ctx.numberToBlockHash then ctx.numberToBlockHash
      else ctx.numberToBlockHash.insert number hash
    blockHashToNumber := if hash ∈ ctx.blockHashToNumber then ctx.blockHashToNumber
      else ctx.blockHashToNumber.insert hash number }

def getBlockHashFromNumber (ctx : Context) (number : ℤ) : Option BlockHash :=
  ctx.numberToBlockHash.get? number

def getProvider (ctx : Context) (block : BlockHash) : Option PeerId :=
  (ctx.peers.entries.find? fun (_, peer) => block ∈ peer.knownBlocks ∧ peer.busy = false).map
    Prod.fst

def isUnknownBlock (ctx : Context) (block : BlockHash) : Bool :=
  ctx.peers.entries.all fun (_, peer) => block ∉ peer.knownBlocks

def saveBlockToDatabase (ctx : Context) (block : Proto.BlockData) : Context :=
  { ctx with database := ctx.database.insert block.hash (.encode block) }

def forwardNotification (ctx : Context) (protocol : ProtocolName) (peers : List PeerId)
    (notification : Option Bytes) : Context :=
  { ctx with pendingEvents := ctx.pendingEvents ++ [.forward peers protocol notification] }

def sendRequest (ctx : Context) (protocol : ProtocolName) (peer : PeerId) (request : Bytes) :
    Context :=
  { ctx with pendingEvents := ctx.pendingEvents ++ [.sendRequest protocol peer request] }

def sendResponse (ctx : Context) (peer : PeerId) (response : List Proto.BlockData) : Context :=
  { ctx with pendingEvents := ctx.pendingEvents ++ [.sendResponse peer response] }

/-- The loop that collects stored blocks from a number on. A limit that starts at zero never
comes back to it. -/
def collect (ctx : Context) (direction : Direction) :
    (fuel : ℕ) → (number maxBlocks : ℤ) → List BlockFields → Except PyError (List BlockFields)
  | 0, _, _, _ => .error .diverged
  | fuel + 1, number, maxBlocks, data =>
    match ctx.numberToBlockHash.get? number with
    | none => .ok data
    | some hash =>
      match ctx.database.get? hash with
      | none => .error .typeError
      | some block =>
        match block.header with
        | none => .error .keyError
        | some header =>
          let data := data ++ [(block.hash, header, block.body, block.justification)]
          if maxBlocks - 1 = 0 then .ok data
          else ctx.collect direction fuel (direction.next number) (maxBlocks - 1) data

/-- Respond with the stored blocks from a start block on. The loop passes each mapped number at most
once. -/
def createAndSendResponse (ctx : Context) (peer : PeerId) (startHash : BlockHash)
    (direction : Direction) (maxBlocks : ℤ) : Outcome :=
  match ctx.blockHashToNumber.get? startHash with
  | none => (.error (.exception "mapping between block hash and number doesn not exist"), ctx)
  | some startNumber =>
    let fuel := ctx.numberToBlockHash.keys.length + 1
    match ctx.collect direction fuel startNumber maxBlocks [] with
    | .error e => (.error e, ctx)
    | .ok data => (.ok (), ctx.sendResponse peer (BlockResponse.fromBlocks data))

/-- A registered peer starts anew, also if it was registered before. -/
def registerPeer (ctx : Context) (peer : PeerId) : Context :=
  { ctx with
    peers := ctx.peers.insert peer .new
    pendingPeers := ctx.pendingPeers.erase peer }

def unregisterPeer (ctx : Context) (peer : PeerId) : Context :=
  if peer ∈ ctx.peers then
    { ctx with peers := ctx.peers.erase peer, knownPeers := insert peer ctx.knownPeers }
  else ctx

def maxPeers : ℤ := 50

def connect (now : Time) (ctx : Context) (peer : PeerId) : Context :=
  { ctx with
    knownPeers := ctx.knownPeers.erase peer
    pendingPeers := ctx.pendingPeers.insert peer now
    pendingEvents := ctx.pendingEvents ++ [.connect peer] }

/-- `order` is the iteration order of the known peers with the new one. -/
def discoverPeer (ctx : Context) (peer : PeerId) (now : Time) (order : List PeerId) : Context :=
  if peer ∈ ctx.pendingPeers ∨ peer ∈ ctx.peers then ctx
  else
    let ctx := { ctx with knownPeers := insert peer ctx.knownPeers }
    let neededPeers : ℤ := maxPeers - ctx.peers.keys.length + ctx.pendingPeers.keys.length
    if neededPeers ≤ 0 then ctx
    else (order.take (min neededPeers.toNat ctx.knownPeers.card)).foldl (connect now) ctx

def poll (ctx : Context) : List PendingEvent × Context :=
  (ctx.pendingEvents, { ctx with pendingEvents := [] })

end Context

end SwarmHost.Substrate
