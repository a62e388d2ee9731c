import SwarmHost.Context.Redis
import SwarmHost.Encodings.Protobuf

/-! # Relayed and stored blocks

A block that someone waits for is relayed right away and stored for later requests.
The relayed message is built from the fields of the block, with its list of
justifications in the place of its justification. The stored one has what the
database keeps, which is the first block with the hash unless another interface
saves one there, and cannot be served without a header.
-/

namespace SwarmHost.Substrate

structure SameBlock (a b : Proto.BlockData) : Prop where
  hash : a.hash = b.hash
  header : a.header = b.header
  body : a.body = b.body
  justification : a.justification = b.justification

theorem SameBlock.refl (block : Proto.BlockData) : SameBlock block block := ⟨rfl, rfl, rfl, rfl⟩

/-- The message of a block with nothing but what the database keeps of it. -/
def Proto.BlockData.kept (block : Proto.BlockData) : Proto.BlockData :=
  { block with justifications := [] }

theorem sameBlock_kept (block : Proto.BlockData) : SameBlock block block.kept :=
  ⟨rfl, rfl, rfl, rfl⟩

theorem StoredBlock.encode_eq_iff {a b : Proto.BlockData} :
    encode a = encode b ↔ SameBlock a b := by
  constructor
  · intro h
    have hfield : ∀ {c d : Bytes}, (if c = [] then none else some c) =
        (if d = [] then none else some d) → c = d := by
      intro c d hcd
      split at hcd <;> split at hcd <;> simp_all
    simp only [encode, StoredBlock.mk.injEq, Option.some.injEq] at h
    exact ⟨h.1, hfield h.2.1, h.2.2.1, hfield h.2.2.2⟩
  · intro h
    rw [encode, encode, h.hash, h.header, h.body, h.justification]

section Wire

open Protobuf

def Proto.BlockData.fields (block : Proto.BlockData) : List Field :=
  present 1 block.hash ++ present 2 block.header ++ block.body.map (3, ·) ++
    present 6 block.justification ++ present 8 block.justifications

def Proto.BlockData.ofFields (fields : List Field) : Proto.BlockData where
  hash := singular 1 fields
  header := singular 2 fields
  body := repeated 3 fields
  justification := singular 6 fields
  justifications := singular 8 fields

def serializeResponse (blocks : List Proto.BlockData) : Bytes :=
  write (blocks.map fun block => (1, write block.fields))

def parseResponse (bytes : Bytes) : Option (List Proto.BlockData) :=
  (read bytes).bind fun fields =>
    (repeated 1 fields).mapM fun message => (read message).map .ofFields

theorem Proto.BlockData.ofFields_fields (block : Proto.BlockData) :
    ofFields block.fields = block := by
  have hlast : ∀ content : Bytes, (if content = [] then [] else [content]).getLast?.getD [] =
      content := by
    intro content
    split
    · next hempty => exact hempty.symm
    · rfl
  simp [ofFields, fields, singular, repeated_present_of_ne, repeated_map_of_ne, repeated_map_self,
    hlast]

theorem mapM_read_write (blocks : List Proto.BlockData) :
    (blocks.map fun block => write block.fields).mapM
      (fun message => (read message).map Proto.BlockData.ofFields) = some blocks := by
  induction blocks with
  | nil => rfl
  | cons block blocks ih =>
    rw [List.map_cons, List.mapM_cons, read_write, Option.map_some,
      Proto.BlockData.ofFields_fields, ih]
    rfl

theorem parseResponse_serializeResponse (blocks : List Proto.BlockData) :
    parseResponse (serializeResponse blocks) = some blocks := by
  have hmessages : repeated 1 (blocks.map fun block => (1, write block.fields)) =
      blocks.map fun block => write block.fields := by
    rw [← repeated_map_self (blocks.map fun block => write block.fields), List.map_map]
    rfl
  rw [parseResponse, serializeResponse, read_write, Option.bind_some, hmessages]
  exact mapM_read_write blocks

example : parseResponse (Context.chainResponse [1, 2]) =
    some [Context.chainBlock 1, Context.chainBlock 2] := by decide +kernel

end Wire

namespace Context

variable {ctx : Context} {direction : Direction} {number : ℤ} {hash : BlockHash}
  {fields : BlockFields} {block b : Proto.BlockData} {requester : PeerId}

def storedFields (block : Proto.BlockData) : BlockFields :=
  (block.hash, block.header, some block.body, (StoredBlock.encode block).justification)

theorem fromBlocks_storedFields (block : Proto.BlockData) :
    BlockResponse.fromBlocks [storedFields block] = [block.kept] := by
  have hjustification : (if block.justification = [] then none else some block.justification).getD
      [] = block.justification := by
    split
    · next hempty => exact hempty.symm
    · rfl
  simp [BlockResponse.fromBlocks, storedFields, StoredBlock.encode, hjustification,
    Proto.BlockData.kept]

/-- A walk reads blocks with a header. -/
theorem readAt_iff (hstores : StoresBlocks ctx.database) :
    ctx.ReadAt number fields ↔
      ∃ block : Proto.BlockData, ctx.numberToBlockHash.get? number = some block.hash ∧
        ctx.database.get? block.hash = some (.encode block) ∧ block.header ≠ [] ∧
        fields = storedFields block := by
  constructor
  · rintro ⟨hash, stored, header, hhash, hstored, hheader, rfl⟩
    obtain ⟨block, rfl, rfl⟩ := hstores hash stored hstored
    obtain ⟨hne, hheader⟩ := Option.ite_none_left_eq_some.mp hheader
    obtain rfl := Option.some.inj hheader
    exact ⟨block, hhash, hstored, hne, rfl⟩
  · rintro ⟨block, hhash, hstored, hne, rfl⟩
    exact ⟨block.hash, _, block.header, hhash, hstored, if_neg hne, rfl⟩

theorem collect_one_iff (fuel : ℕ) :
    ctx.collect direction (fuel + 1) number 1 [] = .ok [fields] ↔ ctx.ReadAt number fields := by
  constructor
  · intro h
    by_cases hmapped : number ∈ ctx.numberToBlockHash
    · by_cases hread : ∃ fields, ctx.ReadAt number fields
      · obtain ⟨found, hfound⟩ := hread
        rw [collect_read fuel hfound] at h
        obtain rfl : found = fields := by simpa using h
        exact hfound
      · obtain ⟨e, he⟩ := @collect_unread ctx direction number 1 [] fuel hmapped hread
        rw [he] at h
        cases h
    · rw [collect_unmapped fuel hmapped] at h
      cases h
  · intro h
    rw [collect_read fuel h]
    rfl

theorem createAndSendResponse_one_iff (hnumber : ctx.blockHashToNumber.get? hash = some number) :
    ctx.createAndSendResponse requester hash direction 1 =
        (.ok (), ctx.sendResponse requester [b]) ↔
      ∃ fields, ctx.ReadAt number fields ∧ BlockResponse.fromBlocks [fields] = [b] := by
  rw [createAndSendResponse, hnumber]
  constructor
  · intro h
    cases hcollect : ctx.collect direction (ctx.numberToBlockHash.keys.length + 1) number 1 [] with
    | error e => simp only [hcollect, Prod.mk.injEq, reduceCtorEq, false_and] at h
    | ok data =>
      have hresponse : BlockResponse.fromBlocks data = [b] := by
        simpa [hcollect, sendResponse] using h
      obtain ⟨fields, rfl, -⟩ := List.map_eq_singleton_iff.mp hresponse
      exact ⟨fields, (collect_one_iff _).mp hcollect, hresponse⟩
  · rintro ⟨fields, hread, hresponse⟩
    simp only [(collect_one_iff _).mpr hread, hresponse]

def Call.saved? (hash : BlockHash) : Call → Option Proto.BlockData
  | .saveElsewhere block => if block.hash = hash then some block else none
  | _ => none

/-- The database keeps what it has for a hash until another interface saves a block there. -/
theorem get?_database_step {codec : Codec} {call : Call} {ctx' : Context}
    (hstep : Step codec ctx call ctx') (h : hash ∈ ctx.database) :
    ctx'.database.get? hash = ((call.saved? hash).map .encode).or (ctx.database.get? hash) := by
  obtain ⟨-, rfl⟩ := hstep
  rw [database_handle]
  cases call with
  | injectResponse peer payload =>
    rw [nextDatabase]
    split
    · obtain ⟨stored, hget⟩ := Dict.mem_iff.mp h
      simp [get?_store, hget, Call.saved?]
    · rfl
  | saveElsewhere block =>
    rw [nextDatabase, Dict.get?_insert, Call.saved?]
    by_cases hhash : block.hash = hash
    · simp [hhash]
    · simp [hhash, Ne.symm hhash]
  | _ => rfl

theorem get?_database_run {codec : Codec} {later : List Call} {ctx' : Context}
    (hrun : Run (Step codec) ctx later ctx') (h : hash ∈ ctx.database) :
    ctx'.database.get? hash =
      ((later.filterMap (Call.saved? hash)).getLast?.map .encode).or (ctx.database.get? hash) := by
  induction hrun with
  | nil => rfl
  | @cons s t u call later hstep _ ih =>
    rw [ih (mem_database_step hstep h), get?_database_step hstep h, List.filterMap_cons]
    cases call.saved? hash with
    | none => rfl
    | some block =>
      rw [List.getLast?_cons]
      cases (later.filterMap (Call.saved? hash)).getLast? <;> rfl

/-- The block that decides what is stored for a hash has the same fields: the last one that another
interface saves after the response, or else the one that was stored before the response, or else the
first one in it. -/
def Decided (database : Dict BlockHash StoredBlock) (blocks : List Proto.BlockData)
    (later : List Call) (block : Proto.BlockData) : Prop :=
  match (later.filterMap (Call.saved? block.hash)).getLast? with
  | some last => SameBlock last block
  | none =>
    match database.get? block.hash with
    | some stored => stored = .encode block
    | none => ∀ first ∈ blocks.find? fun b => b.hash = block.hash, SameBlock first block

theorem decided_iff {codec : Codec} {peer : PeerId} {payload : Bytes}
    {blocks : List Proto.BlockData} (hparse : codec.parseResponse payload = some blocks)
    (hpeer : peer ∈ ctx.peers) (hblock : block ∈ blocks) {later : List Call} {ctx' : Context}
    (hrun : Run (Step codec) (ctx.handle codec (.injectResponse peer payload)).2 later ctx') :
    ctx'.database.get? block.hash = some (.encode block) ↔
      Decided ctx.database blocks later block := by
  obtain ⟨p, hp⟩ := Dict.mem_iff.mp hpeer
  have hstore : (ctx.handle codec (.injectResponse peer payload)).2.database =
      store ctx.database blocks := by
    rw [database_handle, nextDatabase, hparse, hp]
  have hmem : block.hash ∈ (ctx.handle codec (.injectResponse peer payload)).2.database :=
    hstore ▸ mem_store hblock
  rw [get?_database_run hrun hmem, hstore, get?_store, Decided]
  cases (later.filterMap (Call.saved? block.hash)).getLast? with
  | some last => simp [StoredBlock.encode_eq_iff]
  | none =>
    cases ctx.database.get? block.hash with
    | some stored => simp
    | none =>
      obtain ⟨first, hfirst⟩ := Option.isSome_iff_exists.mp
        (List.find?_isSome.mpr ⟨block, hblock, decide_eq_true rfl⟩ :
          (blocks.find? fun b => b.hash = block.hash).isSome)
      simp [hfirst, StoredBlock.encode_eq_iff]

end Context

namespace Backed

open Context

variable {codec : Codec} {serialize : List Proto.BlockData → Bytes} {s : Backed}
  {block b : Proto.BlockData} {sender waiter requester : PeerId}

def Relays (codec : Codec) (serialize : List Proto.BlockData → Bytes) (s : Backed)
    (sender : PeerId) (payload : Bytes) (waiter : PeerId) (block b : Proto.BlockData) : Prop :=
  ∃ sent : List (PeerId × Proto.BlockData),
    (s.handle codec (.injectResponse sender payload)).2.ctx.pendingEvents =
      s.ctx.pendingEvents ++ sent.map delivery ∧
    (waiter, block) ∈ sent ∧ codec.parseResponse (serialize (relayed block)) = some [b]

/-- The request is answered from the database, and the response decodes to one block. -/
def Serves (codec : Codec) (serialize : List Proto.BlockData → Bytes) (s : Backed)
    (protocol : ProtocolName) (requester : PeerId) (request : BlockRequest)
    (b : Proto.BlockData) : Prop :=
  ∃ response, s.redis.injectRequest codec s.ctx protocol requester request.toBytes =
      (.ok (), s.ctx.sendResponse requester response) ∧
    codec.parseResponse (serialize response) = some [b]

theorem relays_block_iff
    (hwire : ∀ response, codec.parseResponse (serialize response) = some response)
    {payload : Bytes} {blocks : List Proto.BlockData}
    (hparse : codec.parseResponse payload = some blocks) (hblock : block ∈ blocks)
    (hwait : waiter ∈ s.ctx.waiting block.hash) :
    s.Relays codec serialize sender payload waiter block b ↔
      sender ∈ s.ctx.peers ∧ relayed block = [b] := by
  have hctx : (s.handle codec (.injectResponse sender payload)).2.ctx =
      (s.ctx.injectResponse codec sender payload).2 := rfl
  rw [Relays, hctx, hwire, Option.some_inj]
  constructor
  · rintro ⟨sent, hsent, hmem, hb⟩
    refine ⟨?_, hb⟩
    by_contra hpeer
    rw [injectResponse_of_refused (.inr hpeer), List.self_eq_append_right,
      List.map_eq_nil_iff] at hsent
    rw [hsent] at hmem
    cases hmem
  · rintro ⟨hpeer, hb⟩
    obtain ⟨p, hp⟩ := Dict.mem_iff.mp hpeer
    refine ⟨s.ctx.deliveries blocks, ?_, ?_, hb⟩
    · rw [injectResponse_eq hparse hp, responded]
    · exact List.mem_flatMap.mpr ⟨block, hblock, List.mem_map.mpr ⟨waiter, hwait, rfl⟩⟩

theorem serves_block_iff
    (hwire : ∀ response, codec.parseResponse (serialize response) = some response)
    (hs : s.Faithful) (hstores : StoresBlocks s.ctx.database) {protocol : ProtocolName}
    {request : BlockRequest} (hrequest : codec.parseRequest request.toBytes = some request.request)
    {hash : BlockHash} (hstart : s.ctx.startHash request = some hash)
    (hstored : hash ∈ s.ctx.database) (hone : request.maxBlocks = 1) {number : ℤ}
    (hnumber : s.ctx.blockHashToNumber.get? hash = some number) :
    s.Serves codec serialize protocol requester request b ↔
      ∃ block : Proto.BlockData, s.ctx.numberToBlockHash.get? number = some block.hash ∧
        s.ctx.database.get? block.hash = some (.encode block) ∧ block.header ≠ [] ∧
        b = block.kept := by
  have hone' : (request.maxBlocks : ℤ) = 1 := by rw [hone]; rfl
  have hinject : s.redis.injectRequest codec s.ctx protocol requester request.toBytes =
      s.ctx.createAndSendResponse requester hash request.direction 1 := by
    rw [hs.injectRequest_eq, injectRequest_of_stored protocol requester hrequest hstart hstored,
      hone']
  rw [Serves, hinject]
  constructor
  · rintro ⟨response, hresponse, hb⟩
    obtain rfl : response = [b] := Option.some.inj ((hwire response).symm.trans hb)
    obtain ⟨fields, hread, hfields⟩ := (createAndSendResponse_one_iff hnumber).mp hresponse
    obtain ⟨block, hhash, hget, hne, rfl⟩ := (readAt_iff hstores).mp hread
    rw [fromBlocks_storedFields] at hfields
    exact ⟨block, hhash, hget, hne, (List.cons.inj hfields).1.symm⟩
  · rintro ⟨block, hhash, hget, hne, rfl⟩
    refine ⟨[block.kept], (createAndSendResponse_one_iff hnumber).mpr ?_, hwire _⟩
    exact ⟨storedFields block, (readAt_iff hstores).mpr ⟨block, hhash, hget, hne, rfl⟩,
      fromBlocks_storedFields block⟩

/-- A block that is delivered while a peer waits for it is relayed and later served as the block
that it is exactly if its sender is registered, its list of justifications is its justification,
it has a header, its number is mapped to it, and the block that decides what is stored for its hash
has the same fields. -/
theorem relays_and_serves_iff (codec : Codec) (serialize : List Proto.BlockData → Bytes)
    (hwire : ∀ response, codec.parseResponse (serialize response) = some response)
    (now : Time) (calls : List Call) (s : Backed) (hrun : Run (Step codec) (new now) calls s)
    (sender : PeerId) (payload : Bytes) (blocks : List Proto.BlockData)
    (hparse : codec.parseResponse payload = some blocks) (block : Proto.BlockData)
    (hblock : block ∈ blocks) (waiter : PeerId) (hwait : waiter ∈ s.ctx.waiting block.hash)
    (later : List Call) (t : Backed)
    (hlater : Run (Step codec) (s.handle codec (.injectResponse sender payload)).2 later t)
    (protocol : ProtocolName) (requester : PeerId) (request : BlockRequest)
    (hrequest : codec.parseRequest request.toBytes = some request.request)
    (hstart : t.ctx.startHash request = some block.hash) (hone : request.maxBlocks = 1)
    (number : ℤ) (hannounced : t.ctx.blockHashToNumber.get? block.hash = some number) :
    (∃ b, SameBlock block b ∧ s.Relays codec serialize sender payload waiter block b ∧
        t.Serves codec serialize protocol requester request b) ↔
      sender ∈ s.ctx.peers ∧ block.justifications = block.justification ∧ block.header ≠ [] ∧
        t.ctx.numberToBlockHash.get? number = some block.hash ∧
        Decided s.ctx.database blocks later block := by
  obtain ⟨hctx, hs⟩ := refines_run (faithful_new now) hrun
  have hinject : Step codec s (.injectResponse sender payload)
      (s.handle codec (.injectResponse sender payload)).2 := ⟨trivial, rfl⟩
  obtain ⟨hdeliver, hdelivered⟩ := refines_step hs hinject
  obtain ⟨hctx', ht⟩ := refines_run hdelivered hlater
  have hstores : StoresBlocks t.ctx.database :=
    storesBlocks_run (Run.append_iff.mpr ⟨_, hctx, .cons hdeliver hctx'⟩)
  have hstored : sender ∈ s.ctx.peers → block.hash ∈ t.ctx.database := by
    intro hpeer
    obtain ⟨p, hp⟩ := Dict.mem_iff.mp hpeer
    refine hctx'.invariant (I := fun ctx => block.hash ∈ ctx.database)
      (fun _ _ _ => mem_database_step) ?_
    rw [hdeliver.2, Context.handle, injectResponse_eq hparse hp]
    exact mem_store hblock
  have hdecided : sender ∈ s.ctx.peers → (t.ctx.database.get? block.hash = some (.encode block) ↔
      Decided s.ctx.database blocks later block) := by
    intro hpeer
    rw [hdeliver.2] at hctx'
    exact decided_iff hparse hpeer hblock hctx'
  constructor
  · rintro ⟨b, hsame, hrelays, hserves⟩
    obtain ⟨hpeer, hrelayed⟩ := (relays_block_iff hwire hparse hblock hwait).mp hrelays
    obtain ⟨found, hhash, hget, hheader, rfl⟩ := (serves_block_iff hwire ht hstores hrequest hstart
      (hstored hpeer) hone hannounced).mp hserves
    have hfound : SameBlock block found :=
      ⟨hsame.hash, hsame.header, hsame.body, hsame.justification⟩
    have hjustification : block.justifications = found.justification :=
      congrArg Proto.BlockData.justification (List.cons.inj hrelayed).1
    rw [← hfound.hash] at hhash hget
    rw [← StoredBlock.encode_eq_iff.mpr hfound] at hget
    rw [← hfound.header] at hheader
    exact ⟨hpeer, hjustification.trans hfound.justification.symm, hheader, hhash,
      (hdecided hpeer).mp hget⟩
  · rintro ⟨hpeer, hjustification, hheader, hhash, hlast⟩
    have hget := (hdecided hpeer).mpr hlast
    have hrelayed : relayed block = [block.kept] := by
      rw [relayed, BlockResponse.fromBlock, hjustification]
      rfl
    refine ⟨block.kept, sameBlock_kept block, ?_, ?_⟩
    · exact (relays_block_iff hwire hparse hblock hwait).mpr ⟨hpeer, hrelayed⟩
    · exact (serves_block_iff hwire ht hstores hrequest hstart (hstored hpeer) hone hannounced).mpr
        ⟨block, hhash, hget, hheader, rfl⟩

section Example

def wireCodec : Codec := { chainCodec with parseResponse := parseResponse }

def justifiedBlock (justification justifications : Bytes) : Proto.BlockData :=
  ⟨chainHash 1, chainHeader 1, [[9]], justification, justifications⟩

def waitingCalls : List Call :=
  [.registerPeer [1], .injectNotification [1] "/sup/block-announces/1" (chainAnnounce 1) 0,
    .injectRequest "/sup/sync/2" [2] (chainRequest (chainHash 1) 1)]

theorem wireCodec_parseResponse (blocks : List Proto.BlockData) :
    wireCodec.parseResponse (serializeResponse blocks) = some blocks :=
  parseResponse_serializeResponse blocks

def deliver (block : Proto.BlockData) (s : Backed) : Backed :=
  (s.handle wireCodec (.injectResponse [1] (serializeResponse [block]))).2

theorem relays_and_serves_justified : ∃ s b,
    Run (Step wireCodec) (new 0) waitingCalls s ∧ SameBlock (justifiedBlock [4] [4]) b ∧
    s.Relays wireCodec serializeResponse [1] (serializeResponse [justifiedBlock [4] [4]]) [2]
      (justifiedBlock [4] [4]) b ∧
    (deliver (justifiedBlock [4] [4]) s).Serves wireCodec serializeResponse "/sup/sync/2" [3]
      (chainBlockRequest 1) b := by
  obtain ⟨s, hrun, hwait, hpeer, hstart, hnumber, hcanonical, hfresh⟩ :
      ∃ s, Run (Step wireCodec) (new 0) waitingCalls s ∧ [2] ∈ s.ctx.waiting (chainHash 1) ∧
        [1] ∈ s.ctx.peers ∧
        (deliver (justifiedBlock [4] [4]) s).ctx.startHash (chainBlockRequest 1) =
          some (chainHash 1) ∧
        (deliver (justifiedBlock [4] [4]) s).ctx.blockHashToNumber.get? (chainHash 1) = some 1 ∧
        (deliver (justifiedBlock [4] [4]) s).ctx.numberToBlockHash.get? 1 = some (chainHash 1) ∧
        s.ctx.database.get? (chainHash 1) = none := by
    refine ⟨_, .cons ⟨trivial, rfl⟩ (.cons ⟨trivial, rfl⟩ (.cons ⟨trivial, rfl⟩ (.nil _))),
      ?_, ?_, ?_, ?_, ?_, ?_⟩
    all_goals decide +kernel
  have hdecided : Decided s.ctx.database [justifiedBlock [4] [4]] [] (justifiedBlock [4] [4]) := by
    have hget : s.ctx.database.get? (justifiedBlock [4] [4]).hash = none := hfresh
    simp [Decided, hget, SameBlock.refl]
  obtain ⟨b, hb⟩ := (relays_and_serves_iff wireCodec serializeResponse wireCodec_parseResponse 0
    waitingCalls s hrun [1] (serializeResponse [justifiedBlock [4] [4]]) [justifiedBlock [4] [4]]
    (wireCodec_parseResponse _) (justifiedBlock [4] [4]) (List.mem_singleton_self _) [2] hwait []
    (deliver (justifiedBlock [4] [4]) s) (.nil _) "/sup/sync/2" [3] (chainBlockRequest 1)
    (by decide +kernel) hstart rfl 1 hnumber).mpr
    ⟨hpeer, rfl, by decide +kernel, hcanonical, hdecided⟩
  exact ⟨s, b, hrun, hb⟩

/-- The justification of the block does not reach the peer that waits for it. -/
theorem not_relays_justified : ∃ s,
    Run (Step wireCodec) (new 0) waitingCalls s ∧ [2] ∈ s.ctx.waiting (chainHash 1) ∧
    (deliver (justifiedBlock [4] []) s).ctx.pendingEvents =
      s.ctx.pendingEvents ++ [.sendResponse [2] [justifiedBlock [] []]] ∧
    (deliver (justifiedBlock [4] []) s).Serves wireCodec serializeResponse "/sup/sync/2" [3]
      (chainBlockRequest 1) (justifiedBlock [4] []) ∧
    ¬ ∃ b, SameBlock (justifiedBlock [4] []) b ∧
      s.Relays wireCodec serializeResponse [1] (serializeResponse [justifiedBlock [4] []]) [2]
        (justifiedBlock [4] []) b := by
  obtain ⟨s, hrun, hwait, hevents, hstart, hnumber, hcanonical, hblock⟩ :
      ∃ s, Run (Step wireCodec) (new 0) waitingCalls s ∧ [2] ∈ s.ctx.waiting (chainHash 1) ∧
        (deliver (justifiedBlock [4] []) s).ctx.pendingEvents =
          s.ctx.pendingEvents ++ [.sendResponse [2] [justifiedBlock [] []]] ∧
        (deliver (justifiedBlock [4] []) s).ctx.startHash (chainBlockRequest 1) =
          some (chainHash 1) ∧
        (deliver (justifiedBlock [4] []) s).ctx.blockHashToNumber.get? (chainHash 1) = some 1 ∧
        (deliver (justifiedBlock [4] []) s).ctx.numberToBlockHash.get? 1 = some (chainHash 1) ∧
        (deliver (justifiedBlock [4] []) s).ctx.database.get? (chainHash 1) =
          some (.encode (justifiedBlock [4] [])) := by
    refine ⟨_, .cons ⟨trivial, rfl⟩ (.cons ⟨trivial, rfl⟩ (.cons ⟨trivial, rfl⟩ (.nil _))),
      ?_, ?_, ?_, ?_, ?_, ?_⟩
    all_goals decide +kernel
  have hdelivered : Run (Step wireCodec) (new 0) (waitingCalls ++ [.injectResponse [1]
      (serializeResponse [justifiedBlock [4] []])]) (deliver (justifiedBlock [4] []) s) :=
    Run.append_iff.mpr ⟨s, hrun, .cons ⟨trivial, rfl⟩ (.nil _)⟩
  obtain ⟨hctx, hfaithful⟩ := refines_run (faithful_new 0) hdelivered
  refine ⟨s, hrun, hwait, hevents, (serves_block_iff wireCodec_parseResponse hfaithful
    (storesBlocks_run hctx) (by decide +kernel) hstart (Dict.mem_of_get? hblock) rfl hnumber).mpr
    ⟨justifiedBlock [4] [], hcanonical, hblock, by decide +kernel, rfl⟩, ?_⟩
  rintro ⟨b, hsame, sent, -, -, hb⟩
  have hrelayed : relayed (justifiedBlock [4] []) = [b] :=
    Option.some.inj ((wireCodec_parseResponse _).symm.trans hb)
  obtain rfl := (List.cons.inj hrelayed).1
  exact absurd hsame.justification (by decide)

end Example

end Backed

end SwarmHost.Substrate
