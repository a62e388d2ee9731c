import Mathlib.Data.List.Perm.Subperm
import SwarmHost.Context.Changes

/-! # Serving blocks from the database

A request for a stored block is answered by walking from its number over the
numbers of announced blocks. The walk raises at an announced block that was not
downloaded or has no header, and a block that shares its number with one that was
announced earlier is replaced by it.
-/

namespace SwarmHost.Substrate

namespace Direction

def advance (direction : Direction) (number : ℤ) (steps : ℕ) : ℤ :=
  match direction with
  | .ascending => number + steps
  | .descending => number - steps

variable {direction : Direction} {number : ℤ}

@[simp] theorem advance_zero : direction.advance number 0 = number := by
  cases direction <;> simp [advance]

theorem advance_next (steps : ℕ) :
    direction.advance (direction.next number) steps = direction.advance number (steps + 1) := by
  cases direction <;> simp only [advance, next] <;> omega

theorem advance_injective : Function.Injective (direction.advance number) := by
  intro i j h
  cases direction <;> simp only [advance] at h <;> omega

end Direction

namespace Context

variable {codec : Codec} {ctx : Context} {direction : Direction} {number maxBlocks : ℤ}
  {data : List BlockFields} {fields : BlockFields}

section Walk

/-- The block mapped to a number is stored with a header, and these are its fields. -/
def ReadAt (ctx : Context) (number : ℤ) (fields : BlockFields) : Prop :=
  ∃ hash block header, ctx.numberToBlockHash.get? number = some hash ∧
    ctx.database.get? hash = some block ∧ block.header = some header ∧
    fields = (block.hash, header, block.body, block.justification)

def WalkStored (ctx : Context) (direction : Direction) (number maxBlocks : ℤ) : Prop :=
  ∀ i : ℕ, (maxBlocks ≤ 0 ∨ i < maxBlocks) →
    (∀ j ≤ i, direction.advance number j ∈ ctx.numberToBlockHash) →
      ∃ fields, ctx.ReadAt (direction.advance number i) fields

structure Walk (ctx : Context) (direction : Direction) (number maxBlocks : ℤ)
    (blocks : List BlockFields) : Prop where
  read : ∀ i fields, blocks[i]? = some fields → ctx.ReadAt (direction.advance number i) fields
  bounded : 0 < maxBlocks → blocks.length ≤ maxBlocks
  nonempty : number ∈ ctx.numberToBlockHash → blocks ≠ []

theorem collect_unmapped (fuel : ℕ) (h : number ∉ ctx.numberToBlockHash) :
    ctx.collect direction (fuel + 1) number maxBlocks data = .ok data := by
  simp only [collect, Dict.notMem_iff.mp h]

theorem collect_unread (fuel : ℕ) (hmapped : number ∈ ctx.numberToBlockHash)
    (h : ¬ ∃ fields, ctx.ReadAt number fields) :
    ∃ e, ctx.collect direction (fuel + 1) number maxBlocks data = .error e := by
  obtain ⟨hash, hhash⟩ := Dict.mem_iff.mp hmapped
  cases hblock : ctx.database.get? hash with
  | none => exact ⟨.typeError, by simp only [collect, hhash, hblock]⟩
  | some block =>
    cases hheader : block.header with
    | none => exact ⟨.keyError, by simp only [collect, hhash, hblock, hheader]⟩
    | some header => exact absurd ⟨_, hash, block, header, hhash, hblock, hheader, rfl⟩ h

theorem collect_read (fuel : ℕ) (h : ctx.ReadAt number fields) :
    ctx.collect direction (fuel + 1) number maxBlocks data =
      if maxBlocks - 1 = 0 then .ok (data ++ [fields])
      else ctx.collect direction fuel (direction.next number) (maxBlocks - 1)
        (data ++ [fields]) := by
  obtain ⟨hash, block, header, hhash, hblock, hheader, rfl⟩ := h
  simp only [collect, hhash, hblock, hheader]

theorem walkStored_one_iff (hmapped : number ∈ ctx.numberToBlockHash) :
    ctx.WalkStored direction number 1 ↔ ∃ fields, ctx.ReadAt number fields := by
  constructor
  · intro h
    have h0 := h 0 (.inr (by omega)) (by simpa using hmapped)
    rwa [Direction.advance_zero] at h0
  · rintro h i hi _
    obtain rfl : i = 0 := by omega
    rwa [Direction.advance_zero]

theorem walkStored_iff (hmapped : number ∈ ctx.numberToBlockHash) (hmax : maxBlocks ≠ 1) :
    ctx.WalkStored direction number maxBlocks ↔ (∃ fields, ctx.ReadAt number fields) ∧
      ctx.WalkStored direction (direction.next number) (maxBlocks - 1) := by
  constructor
  · intro h
    constructor
    · have h0 := h 0 (by omega) (by simpa using hmapped)
      rwa [Direction.advance_zero] at h0
    · intro i hi hj
      rw [Direction.advance_next]
      apply h (i + 1) (by omega)
      intro j hji
      cases j with
      | zero => simpa using hmapped
      | succ j =>
        rw [← Direction.advance_next]
        exact hj j (by omega)
  · rintro ⟨h0, h⟩ i hi hj
    cases i with
    | zero => rwa [Direction.advance_zero]
    | succ i =>
      rw [← Direction.advance_next]
      apply h i (by omega)
      intro j hji
      rw [Direction.advance_next]
      exact hj (j + 1) (by omega)

theorem Walk.cons {blocks : List BlockFields} (h : ctx.ReadAt number fields)
    (hmax : maxBlocks ≠ 1)
    (hw : Walk ctx direction (direction.next number) (maxBlocks - 1) blocks) :
    Walk ctx direction number maxBlocks (fields :: blocks) where
  read i f hi := by
    cases i with
    | zero =>
      obtain rfl : fields = f := by simpa using hi
      rwa [Direction.advance_zero]
    | succ i =>
      rw [← Direction.advance_next]
      exact hw.read i f (by simpa using hi)
  bounded hpos := by
    have := hw.bounded (by omega)
    rw [List.length_cons]
    omega
  nonempty _ := by simp

theorem Walk.single (h : ctx.ReadAt number fields) : Walk ctx direction number 1 [fields] where
  read i f hi := by
    cases i with
    | zero =>
      obtain rfl : fields = f := by simpa using hi
      rwa [Direction.advance_zero]
    | succ i => simp at hi
  bounded _ := by simp
  nonempty _ := by simp

theorem Walk.nil (h : number ∉ ctx.numberToBlockHash) : Walk ctx direction number maxBlocks [] where
  read i f hi := by simp at hi
  bounded hpos := by
    rw [List.length_nil]
    omega
  nonempty hmapped := absurd hmapped h

theorem walkStored_of_unmapped (h : number ∉ ctx.numberToBlockHash) :
    ctx.WalkStored direction number maxBlocks := by
  intro i _ hj
  have h0 := hj 0 (Nat.zero_le i)
  rw [Direction.advance_zero] at h0
  exact absurd h0 h

/-- With fuel beyond the mapped numbers, the walk collects its blocks if they are all stored and
raises otherwise. -/
theorem collect_spec {fuel : ℕ}
    (hfuel : ¬ ∀ j < fuel, direction.advance number j ∈ ctx.numberToBlockHash) :
    (ctx.WalkStored direction number maxBlocks → ∃ blocks,
        ctx.collect direction fuel number maxBlocks data = .ok (data ++ blocks) ∧
          Walk ctx direction number maxBlocks blocks) ∧
      (¬ ctx.WalkStored direction number maxBlocks →
        ∃ e, ctx.collect direction fuel number maxBlocks data = .error e) := by
  induction fuel generalizing number maxBlocks data with
  | zero => exact absurd (fun j hj => absurd hj (Nat.not_lt_zero j)) hfuel
  | succ fuel ih =>
    by_cases hmapped : number ∈ ctx.numberToBlockHash
    · by_cases hread : ∃ fields, ctx.ReadAt number fields
      · obtain ⟨fields, hf⟩ := hread
        rw [collect_read fuel hf]
        by_cases hmax : maxBlocks = 1
        · subst hmax
          rw [walkStored_one_iff hmapped]
          exact ⟨fun _ => ⟨[fields], by simp, .single hf⟩, fun hnot => absurd ⟨fields, hf⟩ hnot⟩
        · rw [if_neg (by omega), walkStored_iff hmapped hmax]
          have hfuel' : ¬ ∀ j < fuel,
              direction.advance (direction.next number) j ∈ ctx.numberToBlockHash := by
            refine fun h => hfuel fun j hj => ?_
            cases j with
            | zero => simpa using hmapped
            | succ j =>
              rw [← Direction.advance_next]
              exact h j (by omega)
          obtain ⟨hok, herr⟩ :=
            @ih (direction.next number) (maxBlocks - 1) (data ++ [fields]) hfuel'
          constructor
          · rintro ⟨_, hstored⟩
            obtain ⟨blocks, hblocks, hw⟩ := hok hstored
            exact ⟨fields :: blocks, by rw [hblocks]; simp, hw.cons hf hmax⟩
          · intro hnot
            exact herr fun hstored => hnot ⟨⟨fields, hf⟩, hstored⟩
      · refine ⟨fun hstored => absurd ?_ hread, fun _ => collect_unread fuel hmapped hread⟩
        have h0 := hstored 0 (by omega) (by simpa using hmapped)
        rwa [Direction.advance_zero] at h0
    · rw [collect_unmapped fuel hmapped]
      constructor
      · intro _
        exact ⟨[], by simp, .nil hmapped⟩
      · intro hnot
        exact absurd (walkStored_of_unmapped hmapped) hnot

/-- Not all of one number more than are mapped can be mapped. -/
theorem exists_unmapped (ctx : Context) (direction : Direction) (number : ℤ) :
    ¬ ∀ j < ctx.numberToBlockHash.keys.length + 1,
      direction.advance number j ∈ ctx.numberToBlockHash := by
  intro h
  have hnodup : ((List.range (ctx.numberToBlockHash.keys.length + 1)).map
      (direction.advance number)).Nodup := List.nodup_range.map Direction.advance_injective
  have hsub : (List.range (ctx.numberToBlockHash.keys.length + 1)).map
      (direction.advance number) ⊆ ctx.numberToBlockHash.keys := by
    intro n hn
    obtain ⟨j, hj, rfl⟩ := List.mem_map.mp hn
    exact h j (List.mem_range.mp hj)
  have hlength := (List.subperm_of_subset hnodup hsub).length_le
  rw [List.length_map, List.length_range] at hlength
  omega

end Walk

section Database

/-- Every block is stored under its own hash. -/
def KeyedByHash (ctx : Context) : Prop :=
  ∀ hash block, ctx.database.get? hash = some block → block.hash = hash

def StoresBlocks (d : Dict BlockHash StoredBlock) : Prop :=
  ∀ hash stored, d.get? hash = some stored →
    ∃ block : Proto.BlockData, block.hash = hash ∧ stored = .encode block

variable {d : Dict BlockHash StoredBlock}

theorem StoresBlocks.keyedByHash (h : StoresBlocks ctx.database) : KeyedByHash ctx := by
  intro hash stored hget
  obtain ⟨block, rfl, rfl⟩ := h hash stored hget
  rfl

theorem storesBlocks_empty : StoresBlocks ∅ := by
  intro hash stored h
  cases h

theorem storesBlocks_insert (h : StoresBlocks d) (block : Proto.BlockData) :
    StoresBlocks (d.insert block.hash (.encode block)) := by
  intro hash stored hget
  rw [Dict.get?_insert] at hget
  split at hget
  · next heq => exact ⟨block, heq.symm, (Option.some.inj hget).symm⟩
  · exact h hash stored hget

theorem store_cons (d : Dict BlockHash StoredBlock) (block : Proto.BlockData)
    (blocks : List Proto.BlockData) :
    store d (block :: blocks) =
      store (if block.hash ∈ d then d else d.insert block.hash (.encode block)) blocks := rfl

theorem storesBlocks_store (h : StoresBlocks d) (blocks : List Proto.BlockData) :
    StoresBlocks (store d blocks) := by
  induction blocks generalizing d with
  | nil => exact h
  | cons block blocks ih =>
    rw [store_cons]
    apply ih
    split
    · exact h
    · exact storesBlocks_insert h block

theorem mem_store_of_mem {hash : BlockHash} (h : hash ∈ d) (blocks : List Proto.BlockData) :
    hash ∈ store d blocks := by
  induction blocks generalizing d with
  | nil => exact h
  | cons block blocks ih =>
    rw [store_cons]
    apply ih
    split
    · exact h
    · exact Dict.mem_insert.mpr (.inr h)

theorem mem_store {block : Proto.BlockData} {blocks : List Proto.BlockData}
    (h : block ∈ blocks) : block.hash ∈ store d blocks := by
  induction blocks generalizing d with
  | nil => cases h
  | cons b blocks ih =>
    rw [store_cons]
    cases h with
    | head =>
      apply mem_store_of_mem
      split
      · assumption
      · exact Dict.mem_insert.mpr (.inl rfl)
    | tail _ h => exact ih h

/-- What is stored stays, and of the blocks with one hash the first is stored. -/
theorem get?_store (d : Dict BlockHash StoredBlock) (blocks : List Proto.BlockData)
    (hash : BlockHash) : (store d blocks).get? hash =
      (d.get? hash).or ((blocks.find? fun block => block.hash = hash).map .encode) := by
  induction blocks generalizing d with
  | nil => simp [store]
  | cons block blocks ih =>
    rw [store_cons, ih, List.find?_cons]
    by_cases hhash : block.hash = hash
    · subst hhash
      cases hget : d.get? block.hash with
      | none => simp [Dict.notMem_iff.mpr hget]
      | some stored => simp [Dict.mem_of_get? hget, hget]
    · have hget : (if block.hash ∈ d then d else d.insert block.hash (.encode block)).get? hash =
          d.get? hash := by
        split
        · rfl
        · exact Dict.get?_insert_ne _ (Ne.symm hhash)
      simp [hget, hhash]

/-- The database after a call: a response stores the blocks that are missing, and another interface
replaces a block. -/
def nextDatabase (codec : Codec) (ctx : Context) : Call → Dict BlockHash StoredBlock
  | .injectResponse peer payload =>
    match codec.parseResponse payload, ctx.peers.get? peer with
    | some blocks, some _ => store ctx.database blocks
    | _, _ => ctx.database
  | .saveElsewhere block => ctx.database.insert block.hash (.encode block)
  | _ => ctx.database

theorem database_handle (codec : Codec) (ctx : Context) (call : Call) :
    (ctx.handle codec call).2.database = ctx.nextDatabase codec call := by
  cases call with
  | registerPeer | poll | saveElsewhere => rfl
  | unregisterPeer peer => exact congrArg Tables.database (tables_unregisterPeer ctx peer)
  | discoverPeer peer now order => exact congrArg Tables.database (tables_discoverPeer ..)
  | injectNotification peer protocol notification now =>
    rcases tables_injectNotification codec ctx peer protocol notification now with
      ⟨ht, _⟩ | ⟨number, hash, sender, _, ht⟩
    · exact congrArg Tables.database ht
    · exact congrArg Tables.database ht
  | injectRequest protocol peer payload =>
    rcases tables_injectRequest codec ctx protocol peer payload with ht | ⟨request, hash, _, hask⟩
    · exact congrArg Tables.database ht
    · rw [handle, hask]
      exact (asks_askForBlock ctx protocol peer request hash).database
  | injectResponse peer payload =>
    rw [handle, nextDatabase]
    cases hparse : codec.parseResponse payload with
    | none => rw [injectResponse_of_refused (.inl hparse)]
    | some blocks =>
      cases hpeer : ctx.peers.get? peer with
      | none => rw [injectResponse_of_refused (.inr (Dict.notMem_iff.mpr hpeer))]
      | some p => rw [injectResponse_eq hparse hpeer, responded]

theorem database_step {P : Dict BlockHash StoredBlock → Prop}
    (hstore : ∀ d blocks, P d → P (store d blocks))
    (hsave : ∀ d (block : Proto.BlockData), P d → P (d.insert block.hash (.encode block)))
    {call : Call} {ctx' : Context} (hstep : Step codec ctx call ctx') (h : P ctx.database) :
    P ctx'.database := by
  obtain ⟨-, rfl⟩ := hstep
  rw [database_handle]
  cases call with
  | injectResponse peer payload =>
    rw [nextDatabase]
    split
    · exact hstore _ _ h
    · exact h
  | saveElsewhere block => exact hsave _ block h
  | _ => exact h

theorem storesBlocks_step {call : Call} {ctx' : Context} (hstep : Step codec ctx call ctx')
    (h : StoresBlocks ctx.database) : StoresBlocks ctx'.database :=
  database_step (P := StoresBlocks) (fun _ blocks hd => storesBlocks_store hd blocks)
    (fun _ block hd => storesBlocks_insert hd block) hstep h

theorem storesBlocks_run {now : Time} {calls : List Call}
    (hrun : Run (Step codec) (new now) calls ctx) : StoresBlocks ctx.database :=
  hrun.invariant (I := fun ctx => StoresBlocks ctx.database) (fun _ _ _ => storesBlocks_step)
    storesBlocks_empty

theorem mem_database_step {hash : BlockHash} {call : Call} {ctx' : Context}
    (hstep : Step codec ctx call ctx') (h : hash ∈ ctx.database) : hash ∈ ctx'.database :=
  database_step (P := (hash ∈ ·)) (fun _ blocks hd => mem_store_of_mem hd blocks)
    (fun _ _ hd => Dict.mem_insert.mpr (.inr hd)) hstep h

end Database

section Serving

variable {request : BlockRequest} {hash : BlockHash} {fieldsList : List BlockFields}

structure ServedBlocks (ctx : Context) (request : BlockRequest) (hash : BlockHash)
    (blocks : List Proto.BlockData) : Prop where
  first : ∃ block rest, blocks = block :: rest ∧ block.hash = hash
  stored : ∀ b ∈ blocks, ∃ block header, ctx.database.get? b.hash = some block ∧
    block.header = some header ∧
    b = ⟨block.hash, header, block.body.getD [], block.justification.getD [], []⟩
  consecutive : ∃ number, ∀ i b, blocks[i]? = some b →
    ctx.numberToBlockHash.get? (request.direction.advance number i) = some b.hash
  bounded : 0 < request.maxBlocks → blocks.length ≤ request.maxBlocks

structure Served (codec : Codec) (ctx : Context) (protocol : ProtocolName) (peer : PeerId)
    (request : BlockRequest) (hash : BlockHash) : Prop where
  ok : (ctx.injectRequest codec protocol peer request.toBytes).1 = .ok ()
  response : ∃ blocks, ServedBlocks ctx request hash blocks ∧
    (ctx.injectRequest codec protocol peer request.toBytes).2.pendingEvents =
      ctx.pendingEvents ++ [.sendResponse peer blocks]

theorem ReadAt.stored (hkeyed : KeyedByHash ctx) (h : ctx.ReadAt number fields) :
    ctx.numberToBlockHash.get? number = some fields.1 ∧
      ∃ block header, ctx.database.get? fields.1 = some block ∧ block.header = some header ∧
        fields = (block.hash, header, block.body, block.justification) := by
  obtain ⟨hash, block, header, hhash, hblock, hheader, rfl⟩ := h
  obtain rfl := hkeyed hash block hblock
  exact ⟨hhash, block, header, hblock, hheader, rfl⟩

theorem Walk.first (hkeyed : KeyedByHash ctx)
    (hw : Walk ctx direction number maxBlocks (fields :: fieldsList)) :
    ctx.numberToBlockHash.get? number = some fields.1 := by
  have h := (hw.read 0 fields rfl).stored hkeyed
  rw [Direction.advance_zero] at h
  exact h.1

theorem Walk.served (hkeyed : KeyedByHash ctx)
    (hcanonical : ctx.numberToBlockHash.get? number = some hash)
    (hw : Walk ctx request.direction number request.maxBlocks fieldsList) :
    ServedBlocks ctx request hash (BlockResponse.fromBlocks fieldsList) := by
  have hread : ∀ i b, (BlockResponse.fromBlocks fieldsList)[i]? = some b →
      ctx.numberToBlockHash.get? (request.direction.advance number i) = some b.hash ∧
        ∃ block header, ctx.database.get? b.hash = some block ∧ block.header = some header ∧
          b = ⟨block.hash, header, block.body.getD [], block.justification.getD [], []⟩ := by
    intro i b hi
    rw [BlockResponse.fromBlocks, List.getElem?_map] at hi
    obtain ⟨fields, hf, rfl⟩ := Option.map_eq_some_iff.mp hi
    obtain ⟨hhash, block, header, hblock, hheader, rfl⟩ := (hw.read i fields hf).stored hkeyed
    exact ⟨hhash, block, header, hblock, hheader, rfl⟩
  constructor
  · cases hlist : fieldsList with
    | nil => exact absurd hlist (hw.nonempty (Dict.mem_of_get? hcanonical))
    | cons fields rest =>
      rw [hlist] at hw
      exact ⟨_, _, rfl, Option.some.inj ((hw.first hkeyed).symm.trans hcanonical)⟩
  · intro b hb
    obtain ⟨i, hi⟩ := List.getElem?_of_mem hb
    exact (hread i b hi).2
  · exact ⟨number, fun i b hi => (hread i b hi).1⟩
  · intro hpos
    have := hw.bounded (by omega)
    rw [BlockResponse.fromBlocks, List.length_map]
    omega

theorem createAndSendResponse_spec (peer : PeerId)
    (hnumber : ctx.blockHashToNumber.get? hash = some number) :
    (ctx.WalkStored direction number maxBlocks → ∃ fieldsList,
        ctx.createAndSendResponse peer hash direction maxBlocks =
          (.ok (), ctx.sendResponse peer (BlockResponse.fromBlocks fieldsList)) ∧
        Walk ctx direction number maxBlocks fieldsList) ∧
      (¬ ctx.WalkStored direction number maxBlocks → ∃ e,
        ctx.createAndSendResponse peer hash direction maxBlocks = (.error e, ctx)) := by
  obtain ⟨hok, herr⟩ := @collect_spec ctx direction number maxBlocks []
    (ctx.numberToBlockHash.keys.length + 1) (exists_unmapped ctx direction number)
  constructor
  · intro hstored
    obtain ⟨fieldsList, hcollect, hw⟩ := hok hstored
    exact ⟨fieldsList, by simp only [createAndSendResponse, hnumber, hcollect]; rfl, hw⟩
  · intro hnot
    obtain ⟨e, hcollect⟩ := herr hnot
    exact ⟨e, by simp only [createAndSendResponse, hnumber, hcollect]⟩

theorem injectRequest_of_stored (protocol : ProtocolName) (peer : PeerId)
    (hparse : codec.parseRequest request.toBytes = some request.request)
    (hstart : ctx.startHash request = some hash) (hstored : hash ∈ ctx.database) :
    ctx.injectRequest codec protocol peer request.toBytes =
      ctx.createAndSendResponse peer hash request.direction request.maxBlocks := by
  have heta : (⟨request.toBytes, request.request⟩ : BlockRequest) = request := rfl
  simp only [injectRequest, hparse, heta, hstart, hstored, if_true]

theorem ServedBlocks.canonical (hkeyed : KeyedByHash ctx)
    (hw : Walk ctx direction number maxBlocks fieldsList)
    (h : ServedBlocks ctx request hash (BlockResponse.fromBlocks fieldsList)) :
    ctx.numberToBlockHash.get? number = some hash := by
  obtain ⟨block, rest, hblocks, rfl⟩ := h.first
  cases fieldsList with
  | nil => cases hblocks
  | cons fields fieldsList =>
    obtain rfl := (List.cons.inj hblocks).1
    exact hw.first hkeyed

/-- A request for a stored block is served iff the block is the one mapped to its own number and all
blocks that the walk comes to from there are stored with a header. -/
theorem served_iff (codec : Codec) (now : Time) (calls : List Call) (ctx : Context)
    (hrun : Run (Step codec) (new now) calls ctx) (protocol : ProtocolName) (peer : PeerId)
    (request : BlockRequest) (hparse : codec.parseRequest request.toBytes = some request.request)
    (hash : BlockHash) (hstart : ctx.startHash request = some hash)
    (hstored : hash ∈ ctx.database) :
    Served codec ctx protocol peer request hash ↔
      ∃ number, ctx.blockHashToNumber.get? hash = some number ∧
        ctx.numberToBlockHash.get? number = some hash ∧
        ctx.WalkStored request.direction number request.maxBlocks := by
  have hkeyed : KeyedByHash ctx := (storesBlocks_run hrun).keyedByHash
  have hinject := injectRequest_of_stored protocol peer hparse hstart hstored
  constructor
  · rintro ⟨hok, blocks, hserved, hevents⟩
    rw [hinject] at hok hevents
    cases hnumber : ctx.blockHashToNumber.get? hash with
    | none => simp [createAndSendResponse, hnumber] at hok
    | some number =>
      obtain ⟨hwalks, hraises⟩ := @createAndSendResponse_spec ctx request.direction number
        request.maxBlocks hash peer hnumber
      by_cases hwalk : ctx.WalkStored request.direction number request.maxBlocks
      · obtain ⟨fieldsList, hcreate, hw⟩ := hwalks hwalk
        rw [hcreate] at hevents
        obtain rfl : BlockResponse.fromBlocks fieldsList = blocks := by
          simpa [sendResponse] using hevents
        exact ⟨number, rfl, hserved.canonical hkeyed hw, hwalk⟩
      · obtain ⟨e, hcreate⟩ := hraises hwalk
        rw [hcreate] at hok
        cases hok
  · rintro ⟨number, hnumber, hcanonical, hwalk⟩
    obtain ⟨fieldsList, hcreate, hw⟩ := (createAndSendResponse_spec peer hnumber).1 hwalk
    constructor
    · rw [hinject, hcreate]
    · refine ⟨_, hw.served hkeyed hcanonical, ?_⟩
      rw [hinject, hcreate]
      rfl

def downloadCalls : List Call :=
  [.registerPeer [1], .injectNotification [1] "/sup/block-announces/1" (chainAnnounce 1) 0,
    .injectNotification [1] "/sup/block-announces/1" (chainAnnounce 2) 0,
    .injectRequest "/sup/sync/2" [2] (chainRequest (chainHash 1) 1),
    .injectResponse [1] (chainResponse [1])]

def chainBlockRequest (maxBlocks : UInt8) : BlockRequest :=
  ⟨chainRequest (chainHash 1) maxBlocks, ⟨chainHash 1, [], 0, maxBlocks.toNat⟩⟩

theorem served_one :
    ∃ ctx, Run (Step chainCodec) (new 0) downloadCalls ctx ∧ chainHash 1 ∈ ctx.database ∧
      Served chainCodec ctx "/sup/sync/2" [2] (chainBlockRequest 1) (chainHash 1) := by
  obtain ⟨ctx, hrun, hstart, hstored, hnumber, hcanonical, hblock⟩ :
      ∃ ctx, Run (Step chainCodec) (new 0) downloadCalls ctx ∧
        ctx.startHash (chainBlockRequest 1) = some (chainHash 1) ∧
        chainHash 1 ∈ ctx.database ∧ ctx.blockHashToNumber.get? (chainHash 1) = some 1 ∧
        ctx.numberToBlockHash.get? 1 = some (chainHash 1) ∧
        ctx.database.get? (chainHash 1) = some (.encode (chainBlock 1)) := by
    refine ⟨_, .cons ⟨trivial, rfl⟩ (.cons ⟨trivial, rfl⟩ (.cons ⟨trivial, rfl⟩
      (.cons ⟨trivial, rfl⟩ (.cons ⟨trivial, rfl⟩ (.nil _))))), ?_, ?_, ?_, ?_, ?_⟩
    all_goals decide +kernel
  refine ⟨ctx, hrun, hstored, (served_iff chainCodec 0 downloadCalls ctx hrun "/sup/sync/2" [2]
    (chainBlockRequest 1) (by decide +kernel) (chainHash 1) hstart hstored).mpr
    ⟨1, hnumber, hcanonical, ?_⟩⟩
  refine (walkStored_one_iff (Dict.mem_of_get? hcanonical)).mpr
    ⟨_, chainHash 1, _, chainHeader 1, hcanonical, hblock, ?_, rfl⟩
  decide +kernel

theorem not_served_two :
    ∃ ctx, Run (Step chainCodec) (new 0) downloadCalls ctx ∧
      chainCodec.parseRequest (chainBlockRequest 2).toBytes = some (chainBlockRequest 2).request ∧
      ctx.startHash (chainBlockRequest 2) = some (chainHash 1) ∧ chainHash 1 ∈ ctx.database ∧
      ¬ Served chainCodec ctx "/sup/sync/2" [2] (chainBlockRequest 2) (chainHash 1) := by
  obtain ⟨ctx, hrun, hstart, hstored, hraised⟩ :
      ∃ ctx, Run (Step chainCodec) (new 0) downloadCalls ctx ∧
        ctx.startHash (chainBlockRequest 2) = some (chainHash 1) ∧
        chainHash 1 ∈ ctx.database ∧ (ctx.injectRequest chainCodec "/sup/sync/2" [2]
          (chainBlockRequest 2).toBytes).1 = .error .typeError := by
    refine ⟨_, .cons ⟨trivial, rfl⟩ (.cons ⟨trivial, rfl⟩ (.cons ⟨trivial, rfl⟩
      (.cons ⟨trivial, rfl⟩ (.cons ⟨trivial, rfl⟩ (.nil _))))), ?_, ?_, ?_⟩
    all_goals decide +kernel
  refine ⟨ctx, hrun, by decide +kernel, hstart, hstored, fun h => ?_⟩
  exact absurd (hraised.symm.trans h.ok) (by simp)

end Serving

end Context

end SwarmHost.Substrate
