import SwarmHost.Context.Store
import SwarmHost.Encodings.Hex

/-! # The database behind the context

The database maps a block hash in hexadecimal to the JSON object of a block, whose
fields are hexadecimal too and may be missing. Reading an object back gives what the
stored block of the context has, so a context that works on the database does what
the context with its own blocks does.
-/

namespace SwarmHost.Substrate

inductive JsonValue where
  | string (text : String)
  | array (texts : List String)
  deriving DecidableEq

/-- The JSON object of a block. The database keeps its text, which determines it. -/
abbrev JsonObject := Dict String JsonValue

abbrev Redis := Dict String JsonObject

def StoredBlock.read (block : StoredBlock) : Except PyError BlockFields :=
  match block.header with
  | none => .error .keyError
  | some header => .ok (block.hash, header, block.body, block.justification)

section Encoding

def encodeBlock (block : Proto.BlockData) : JsonObject :=
  let encoded : JsonObject := (∅ : JsonObject).insert "hash" (.string (Hex.encode block.hash))
  let encoded := if block.header = [] then encoded
    else encoded.insert "header" (.string (Hex.encode block.header))
  -- a list of bodies is compared with bytes here, so they always differ
  let encoded := encoded.insert "body" (.array (block.body.map Hex.encode))
  if block.justification = [] then encoded
  else encoded.insert "justification" (.string (Hex.encode block.justification))

def fromHex (text : String) : Except PyError Bytes :=
  match Hex.decode text with
  | some bytes => .ok bytes
  | none => .error (.exception "non-hexadecimal number found in fromhex() arg")

def JsonValue.bytes : JsonValue → Except PyError Bytes
  | .string text => fromHex text
  | .array _ => .error .typeError

def JsonValue.list : JsonValue → Except PyError (List Bytes)
  | .string text => text.toList.mapM fun c => fromHex (.singleton c)
  | .array texts => texts.mapM fromHex

def JsonObject.item (object : JsonObject) (key : String) : Except PyError JsonValue :=
  match object.get? key with
  | some value => .ok value
  | none => .error .keyError

def decodeBlock (block : JsonObject) : Except PyError BlockFields := do
  let justification ← (block.get? "justification").mapM JsonValue.bytes
  let body ← (block.get? "body").mapM JsonValue.list
  let hash ← JsonObject.item block "hash" >>= JsonValue.bytes
  let header ← JsonObject.item block "header" >>= JsonValue.bytes
  return (hash, header, body, justification)

theorem fromHex_encode (bytes : Bytes) : fromHex (Hex.encode bytes) = .ok bytes := by
  rw [fromHex, Hex.decode_encode]

theorem mapM_fromHex (bytes : List Bytes) : (bytes.map Hex.encode).mapM fromHex = .ok bytes := by
  induction bytes with
  | nil => rfl
  | cons b bytes ih =>
    rw [List.map_cons, List.mapM_cons, fromHex_encode, ih]
    rfl

section Keys

variable (block : Proto.BlockData)

theorem get?_encodeBlock_hash :
    (encodeBlock block).get? "hash" = some (.string (Hex.encode block.hash)) := by
  unfold encodeBlock
  split_ifs <;> simp [Dict.get?_insert]

theorem get?_encodeBlock_header : (encodeBlock block).get? "header" =
    if block.header = [] then none else some (.string (Hex.encode block.header)) := by
  unfold encodeBlock
  split_ifs <;> simp [Dict.get?_insert]

theorem get?_encodeBlock_body :
    (encodeBlock block).get? "body" = some (.array (block.body.map Hex.encode)) := by
  unfold encodeBlock
  split_ifs <;> simp [Dict.get?_insert]

theorem get?_encodeBlock_justification : (encodeBlock block).get? "justification" =
    if block.justification = [] then none
      else some (.string (Hex.encode block.justification)) := by
  unfold encodeBlock
  split_ifs <;> simp [Dict.get?_insert]

end Keys

/-- Reading the object of a block gives what its stored block has. -/
theorem decodeBlock_encodeBlock (block : Proto.BlockData) :
    decodeBlock (encodeBlock block) = (StoredBlock.encode block).read := by
  have hjustification : ((encodeBlock block).get? "justification").mapM JsonValue.bytes =
      .ok (StoredBlock.encode block).justification := by
    rw [get?_encodeBlock_justification, StoredBlock.encode]
    split
    · rfl
    · change (do let a ← fromHex _; pure (some a)) = _
      rw [fromHex_encode]
      rfl
  have hbody : ((encodeBlock block).get? "body").mapM JsonValue.list =
      .ok (StoredBlock.encode block).body := by
    rw [get?_encodeBlock_body]
    change (do let a ← (block.body.map Hex.encode).mapM fromHex; pure (some a)) = _
    rw [mapM_fromHex]
    rfl
  have hhash : (JsonObject.item (encodeBlock block) "hash" >>= JsonValue.bytes) =
      .ok block.hash := by
    rw [JsonObject.item, get?_encodeBlock_hash]
    exact fromHex_encode block.hash
  rw [decodeBlock, hjustification, hbody, hhash, StoredBlock.read]
  have hheader := get?_encodeBlock_header block
  by_cases hempty : block.header = []
  · rw [if_pos hempty] at hheader
    simp only [JsonObject.item, hheader, StoredBlock.encode, hempty, if_true]
    rfl
  · rw [if_neg hempty] at hheader
    have hread : (JsonObject.item (encodeBlock block) "header" >>= JsonValue.bytes) =
        .ok block.header := by
      rw [JsonObject.item, hheader]
      exact fromHex_encode block.header
    rw [hread]
    simp only [StoredBlock.encode, hempty, if_false]
    rfl

end Encoding

namespace Redis

variable {redis : Redis} {ctx : Context} {codec : Codec} {d : Dict BlockHash StoredBlock}

def saveBlockToDatabase (redis : Redis) (block : Proto.BlockData) : Redis :=
  redis.insert (Hex.encode block.hash) (encodeBlock block)

/-- What the loop over the blocks of a response does to the database. -/
def store (redis : Redis) (blocks : List Proto.BlockData) : Redis :=
  blocks.foldl (fun redis block => if Hex.encode block.hash ∈ redis then redis
    else saveBlockToDatabase redis block) redis

/-- The loop that collects blocks from a number on. Loading the text of a missing block raises. -/
def collect (redis : Redis) (ctx : Context) (direction : Direction) :
    (fuel : ℕ) → (number maxBlocks : ℤ) → List BlockFields → Except PyError (List BlockFields)
  | 0, _, _, _ => .error .diverged
  | fuel + 1, number, maxBlocks, data =>
    match ctx.numberToBlockHash.get? number with
    | none => .ok data
    | some hash =>
      match redis.get? (Hex.encode hash) with
      | none => .error .typeError
      | some block =>
        match decodeBlock block with
        | .error e => .error e
        | .ok fields =>
          let data := data ++ [fields]
          if maxBlocks - 1 = 0 then .ok data
          else collect redis ctx direction fuel (direction.next number) (maxBlocks - 1) data

def createAndSendResponse (redis : Redis) (ctx : Context) (peer : PeerId) (startHash : BlockHash)
    (direction : Direction) (maxBlocks : ℤ) : Outcome :=
  match ctx.blockHashToNumber.get? startHash with
  | none => (.error (.exception "mapping between block hash and number doesn not exist"), ctx)
  | some startNumber =>
    let fuel := ctx.numberToBlockHash.keys.length + 1
    match collect redis ctx direction fuel startNumber maxBlocks [] with
    | .error e => (.error e, ctx)
    | .ok data => (.ok (), ctx.sendResponse peer (BlockResponse.fromBlocks data))

def injectRequest (redis : Redis) (codec : Codec) (ctx : Context) (protocol : ProtocolName)
    (peer : PeerId) (payload : Bytes) : Outcome :=
  match codec.parseRequest payload with
  | none => (.error .decodeError, ctx)
  | some message =>
    let request : BlockRequest := ⟨payload, message⟩
    match ctx.startHash request with
    | none => (.ok (), ctx)
    | some hash =>
      if Hex.encode hash ∈ redis then
        createAndSendResponse redis ctx peer hash request.direction request.maxBlocks
      else (.ok (), ctx.askForBlock protocol peer request hash)

def Represents (redis : Redis) (d : Dict BlockHash StoredBlock) : Prop :=
  ∀ hash, (redis.get? (Hex.encode hash)).map decodeBlock = (d.get? hash).map StoredBlock.read

theorem represents_empty : Represents ∅ ∅ := fun _ => rfl

theorem Represents.mem_iff (h : Represents redis d) (hash : BlockHash) :
    Hex.encode hash ∈ redis ↔ hash ∈ d := by
  have hsome := congrArg Option.isSome (h hash)
  rw [Option.isSome_map, Option.isSome_map] at hsome
  rw [Dict.mem_iff_isSome, Dict.mem_iff_isSome, hsome]

theorem Represents.save (h : Represents redis d) (block : Proto.BlockData) :
    Represents (saveBlockToDatabase redis block) (d.insert block.hash (.encode block)) := by
  intro hash
  rw [saveBlockToDatabase, Dict.get?_insert, Dict.get?_insert]
  by_cases heq : hash = block.hash
  · rw [if_pos heq, if_pos (congrArg Hex.encode heq)]
    exact congrArg some (decodeBlock_encodeBlock block)
  · rw [if_neg heq, if_neg (mt (fun he => Hex.encode_injective he) heq)]
    exact h hash

theorem Represents.store (h : Represents redis d) (blocks : List Proto.BlockData) :
    Represents (store redis blocks) (Context.store d blocks) := by
  induction blocks generalizing redis d with
  | nil => exact h
  | cons block blocks ih =>
    rw [Context.store_cons, Redis.store, List.foldl_cons, ← Redis.store]
    apply ih
    simp only [h.mem_iff]
    split
    · exact h
    · exact h.save block

theorem Represents.collect_eq (h : Represents redis ctx.database) (direction : Direction)
    (fuel : ℕ) (number maxBlocks : ℤ) (data : List BlockFields) :
    collect redis ctx direction fuel number maxBlocks data =
      ctx.collect direction fuel number maxBlocks data := by
  induction fuel generalizing number maxBlocks data with
  | zero => rfl
  | succ fuel ih =>
    rw [collect, Context.collect]
    cases ctx.numberToBlockHash.get? number with
    | none => rfl
    | some hash =>
      have hread := h hash
      cases hstored : ctx.database.get? hash with
      | none =>
        rw [hstored, Option.map_none, Option.map_eq_none_iff] at hread
        simp only [hread, hstored]
      | some block =>
        rw [hstored, Option.map_some, Option.map_eq_some_iff] at hread
        obtain ⟨object, hobject, hdecode⟩ := hread
        simp only [hobject, hdecode, hstored, StoredBlock.read]
        cases block.header with
        | none => rfl
        | some header => simp only [ih]

theorem Represents.createAndSendResponse_eq (h : Represents redis ctx.database) (peer : PeerId)
    (hash : BlockHash) (direction : Direction) (maxBlocks : ℤ) :
    createAndSendResponse redis ctx peer hash direction maxBlocks =
      ctx.createAndSendResponse peer hash direction maxBlocks := by
  rw [createAndSendResponse, Context.createAndSendResponse]
  cases ctx.blockHashToNumber.get? hash with
  | none => rfl
  | some number =>
    have hcollect := h.collect_eq direction (ctx.numberToBlockHash.keys.length + 1) number
      maxBlocks []
    cases hdata : ctx.collect direction (ctx.numberToBlockHash.keys.length + 1) number
        maxBlocks [] with
    | error | ok => simp only [hcollect, hdata]

theorem Represents.injectRequest_eq (h : Represents redis ctx.database) (protocol : ProtocolName)
    (peer : PeerId) (payload : Bytes) :
    injectRequest redis codec ctx protocol peer payload =
      ctx.injectRequest codec protocol peer payload := by
  rw [injectRequest, Context.injectRequest]
  cases codec.parseRequest payload with
  | none => rfl
  | some message =>
    dsimp only
    cases ctx.startHash ⟨payload, message⟩ with
    | none => rfl
    | some hash => simp only [h.mem_iff, h.createAndSendResponse_eq]

end Redis

/-- A context and the database behind it. -/
structure Backed where
  ctx : Context
  redis : Redis

namespace Backed

variable {codec : Codec} {s s' : Backed} {call : Context.Call} {calls : List Context.Call}

def new (now : Time) : Backed := ⟨.new now, ∅⟩

def nextRedis (codec : Codec) (s : Backed) : Context.Call → Redis
  | .injectResponse peer payload =>
    match codec.parseResponse payload, s.ctx.peers.get? peer with
    | some blocks, some _ => s.redis.store blocks
    | _, _ => s.redis
  | .saveElsewhere block => s.redis.saveBlockToDatabase block
  | _ => s.redis

/-- A call; requests are served from the database. -/
def handle (codec : Codec) (s : Backed) (call : Context.Call) : Except PyError Unit × Backed :=
  let outcome := match call with
    | .injectRequest protocol peer payload =>
      s.redis.injectRequest codec s.ctx protocol peer payload
    | call => s.ctx.handle codec call
  (outcome.1, ⟨outcome.2, s.nextRedis codec call⟩)

def Step (codec : Codec) (s : Backed) (call : Context.Call) (s' : Backed) : Prop :=
  s.ctx.Admissible call ∧ s' = (s.handle codec call).2

def Faithful (s : Backed) : Prop := s.redis.Represents s.ctx.database

theorem faithful_new (now : Time) : (new now).Faithful := Redis.represents_empty

theorem ctx_handle (codec : Codec) (h : s.Faithful) (call : Context.Call) :
    (s.handle codec call).1 = (s.ctx.handle codec call).1 ∧
      (s.handle codec call).2.ctx = (s.ctx.handle codec call).2 := by
  cases call with
  | injectRequest protocol peer payload =>
    simp only [handle, h.injectRequest_eq, Context.handle, and_self]
  | _ => exact ⟨rfl, rfl⟩

theorem faithful_next (codec : Codec) (h : s.Faithful) (call : Context.Call) :
    (s.nextRedis codec call).Represents (s.ctx.nextDatabase codec call) := by
  cases call with
  | injectResponse peer payload =>
    rw [nextRedis, Context.nextDatabase]
    cases codec.parseResponse payload with
    | none => exact h
    | some blocks =>
      cases s.ctx.peers.get? peer with
      | none => exact h
      | some p => exact h.store blocks
  | saveElsewhere block => exact h.save block
  | _ => exact h

/-- A context on the database takes the step that the context with its own blocks takes. -/
theorem refines_step (h : s.Faithful) (hstep : Step codec s call s') :
    Context.Step codec s.ctx call s'.ctx ∧ s'.Faithful := by
  obtain ⟨hadmissible, rfl⟩ := hstep
  have hctx := (ctx_handle codec h call).2
  refine ⟨⟨hadmissible, hctx⟩, ?_⟩
  rw [Faithful, hctx, Context.database_handle]
  exact faithful_next codec h call

theorem refines_run (h : s.Faithful) (hrun : Run (Step codec) s calls s') :
    Run (Context.Step codec) s.ctx calls s'.ctx ∧ s'.Faithful := by
  induction hrun with
  | nil s => exact ⟨.nil _, h⟩
  | cons hstep _ ih =>
    obtain ⟨hfirst, hfaithful⟩ := refines_step h hstep
    obtain ⟨hrest, hlast⟩ := ih hfaithful
    exact ⟨.cons hfirst hrest, hlast⟩

end Backed

end SwarmHost.Substrate
