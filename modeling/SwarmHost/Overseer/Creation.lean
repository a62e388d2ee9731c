import SwarmHost.Backend.Mockchain
import SwarmHost.Overseer.Loop

/-! # Interfaces whose creation fails

Creating an interface runs the preinit code, spawns the interface in the backend,
adds a node to the graph and loads the filter, in this order. A spawned interface
runs from then on: nothing stops its tasks, removes its node or gives its address
back when a later stage fails.
-/

namespace SwarmHost

variable {T : NetworkBackend} {E : Executor T}

namespace Overseer

variable {s : Overseer T} {address : T.Address} {filter : String} {preinit : Option String}

def spawned? (E : Executor T) (s : Overseer T) (address : T.Address) (preinit : Option String) :
    Option T.InterfaceId :=
  match s.preinitParameters E preinit with
  | .error _ => none
  | .ok parameters =>
    match (T.spawnInterface s.backend address parameters).1 with
    | .error _ => none
    | .ok handle => some (T.interfaceId handle)

/-- If the interface is spawned then its number is new and the executor loads its filter. -/
def Admits (E : Executor T) (s : Overseer T) (address : T.Address) (filter : String)
    (preinit : Option String) : Prop :=
  ∀ id ∈ s.spawned? E address preinit, id ∉ s.interfaces ∧ E.new id filter none = .ok ()

structure SameTables (s s' : Overseer T) : Prop where
  interfaces : s'.interfaces = s.interfaces
  interfacePeerIds : s'.interfacePeerIds = s.interfacePeerIds
  links : s'.links = s.links
  edges : s'.edges = s.edges
  eventStreams : s'.eventStreams = s.eventStreams

theorem createInterface_of_not_spawned (h : s.spawned? E address preinit = none) :
    (∃ e, (s.createInterface E address filter preinit).1 = .error e) ∧
      SameTables s (s.createInterface E address filter preinit).2 := by
  unfold spawned? at h
  unfold createInterface
  cases hparameters : s.preinitParameters E preinit with
  | error e => exact ⟨⟨_, rfl⟩, rfl, rfl, rfl, rfl, rfl⟩
  | ok parameters =>
    rw [hparameters] at h
    dsimp only at h ⊢
    split
    · exact ⟨⟨_, rfl⟩, rfl, rfl, rfl, rfl, rfl⟩
    · next handle backend hspawn =>
      rw [hspawn] at h
      cases h

theorem createInterface_of_admitted {id : T.InterfaceId}
    (h : s.spawned? E address preinit = some id) (hid : id ∉ s.interfaces)
    (hfilter : E.new id filter none = .ok ()) :
    (s.createInterface E address filter preinit).1 = .ok id := by
  unfold spawned? at h
  unfold createInterface
  cases hparameters : s.preinitParameters E preinit with
  | error e =>
    rw [hparameters] at h
    cases h
  | ok parameters =>
    rw [hparameters] at h
    dsimp only at h ⊢
    split
    · next hspawn =>
      rw [hspawn] at h
      cases h
    · next handle backend hspawn =>
      rw [hspawn] at h
      obtain rfl := Option.some.inj h
      simp [hid, hfilter]

theorem createInterface_of_refused {id : T.InterfaceId}
    (h : s.spawned? E address preinit = some id)
    (hrefused : ¬ (id ∉ s.interfaces ∧ E.new id filter none = .ok ())) :
    ∃ e, (s.createInterface E address filter preinit).1 = .error e := by
  unfold spawned? at h
  unfold createInterface
  cases hparameters : s.preinitParameters E preinit with
  | error e =>
    rw [hparameters] at h
    cases h
  | ok parameters =>
    rw [hparameters] at h
    dsimp only at h ⊢
    split
    · exact ⟨_, rfl⟩
    · next handle backend hspawn =>
      rw [hspawn] at h
      obtain rfl := Option.some.inj h
      split
      · exact ⟨_, rfl⟩
      · next hid =>
        split
        · exact ⟨_, rfl⟩
        · next hfilter => exact absurd ⟨hid, hfilter⟩ hrefused

theorem mem_interfaces_createInterface {i : T.InterfaceId}
    (hi : i ∈ (s.createInterface E address filter preinit).2.interfaces) :
    i ∈ s.interfaces ∨ s.spawned? E address preinit = some i := by
  unfold spawned?
  unfold createInterface at hi
  cases hparameters : s.preinitParameters E preinit with
  | error e =>
    rw [hparameters] at hi
    exact .inl hi
  | ok parameters =>
    rw [hparameters] at hi
    dsimp only at hi ⊢
    split at hi
    · exact .inl hi
    · next handle backend hspawn =>
      rw [hspawn]
      dsimp only at hi ⊢
      split at hi
      · exact .inl hi
      · split at hi
        · exact .inl hi
        · rcases Dict.mem_insert.mp hi with rfl | hi
          · exact .inr rfl
          · exact .inl hi

theorem backend_createInterface : (s.createInterface E address filter preinit).2.backend =
    match s.preinitParameters E preinit with
    | .error _ => s.backend
    | .ok parameters => (T.spawnInterface s.backend address parameters).2 := by
  unfold createInterface
  cases s.preinitParameters E preinit with
  | error e => rfl
  | ok parameters =>
    dsimp only
    split
    · next hspawn => rw [hspawn]
    · next handle backend hspawn =>
      rw [hspawn]
      dsimp only
      split
      · rfl
      · split <;> rfl

end Overseer

/-- The overseer and the interfaces that run. -/
structure Host (T : NetworkBackend) where
  overseer : Overseer T
  /-- The interfaces whose tasks were started: the network and its forwarder, or the listener. -/
  tasks : List T.InterfaceId

namespace Host

variable {h : Host T} {address : T.Address} {filter : String} {preinit : Option String}

/-- Spawning an interface starts its tasks, whatever the overseer does with its handle. -/
def createInterface (E : Executor T) (h : Host T) (address : T.Address) (filter : String)
    (preinit : Option String) : Except Error T.InterfaceId × Host T :=
  let (result, overseer) := h.overseer.createInterface E address filter preinit
  (result, ⟨overseer, h.tasks ++ (h.overseer.spawned? E address preinit).toList⟩)

/-- The tables are the same, and the same tasks run. -/
structure LeavesNothing (h h' : Host T) : Prop where
  tables : h.overseer.SameTables h'.overseer
  tasks : h'.tasks = h.tasks

/-- A failed creation leaves nothing behind exactly if it fails before anything is spawned. -/
theorem leavesNothing_iff_admits :
    (∀ e, (h.createInterface E address filter preinit).1 = .error e →
        h.LeavesNothing (h.createInterface E address filter preinit).2) ↔
      h.overseer.Admits E address filter preinit := by
  constructor
  · intro hatomic id hid
    by_contra hrefused
    obtain ⟨e, he⟩ := Overseer.createInterface_of_refused hid hrefused
    have htasks := (hatomic e he).tasks
    change h.tasks ++ (h.overseer.spawned? E address preinit).toList = h.tasks at htasks
    rw [Option.mem_def.mp hid] at htasks
    simp at htasks
  · intro hadmits e he
    cases hid : h.overseer.spawned? E address preinit with
    | none =>
      refine ⟨(Overseer.createInterface_of_not_spawned hid).2, ?_⟩
      change h.tasks ++ (h.overseer.spawned? E address preinit).toList = h.tasks
      rw [hid, Option.toList_none, List.append_nil]
    | some id =>
      obtain ⟨hnew, hfilter⟩ := hadmits id hid
      have hok := Overseer.createInterface_of_admitted hid hnew hfilter
      change (h.overseer.createInterface E address filter preinit).1 = .error e at he
      rw [hok] at he
      cases he

end Host

section Mockchain

open Mockchain

variable {env : Environment} {E : Executor (mockchain env)} {s s' : Overseer (mockchain env)}
  {address : SocketAddr} {filter : String} {preinit : Option String}

namespace Overseer

def Numbered (s : Overseer (mockchain env)) : Prop := ∀ i ∈ s.interfaces, i < s.backend.nextIfaceId

theorem spawnInterface_cases (b : MockchainBackend) (address : SocketAddr) (parameters : Option ℕ) :
    (∃ e, b.spawnInterface env address parameters = (.error e, b) ∧ address ∈ b.interfaces) ∨
    (∃ e, b.spawnInterface env address parameters = (.error e, b.nextInterfaceId.2) ∧
      env.bind b.nextIfaceId address = .error e) ∨
    (b.spawnInterface env address parameters =
        (.ok ⟨b.nextIfaceId, UInt64.ofNat b.nextIfaceId⟩,
          { b.nextInterfaceId.2 with interfaces := b.interfaces.insert address b.nextIfaceId }) ∧
      address ∉ b.interfaces ∧ env.bind b.nextIfaceId address = .ok ()) := by
  unfold MockchainBackend.spawnInterface
  split
  · next h => exact .inl ⟨_, rfl, h⟩
  · next h =>
    simp only [MockchainBackend.nextInterfaceId, MockchainHandle.new]
    cases hbind : env.bind b.nextIfaceId address with
    | error e => exact .inr (.inl ⟨e, rfl, rfl⟩)
    | ok u => exact .inr (.inr ⟨rfl, h, rfl⟩)

theorem spawned?_cases (E : Executor (mockchain env)) (s : Overseer (mockchain env))
    (address : SocketAddr) (filter : String) (preinit : Option String) :
    (s.spawned? E address preinit = none ∧
      (s.createInterface E address filter preinit).2.backend.interfaces = s.backend.interfaces ∧
      s.backend.nextIfaceId ≤
        (s.createInterface E address filter preinit).2.backend.nextIfaceId) ∨
    (s.spawned? E address preinit = some s.backend.nextIfaceId ∧
      address ∉ s.backend.interfaces ∧
      address ∈ (s.createInterface E address filter preinit).2.backend.interfaces ∧
      (s.createInterface E address filter preinit).2.backend.nextIfaceId =
        s.backend.nextIfaceId + 1) := by
  rw [backend_createInterface]
  unfold spawned?
  cases s.preinitParameters E preinit with
  | error e => exact .inl ⟨rfl, rfl, le_rfl⟩
  | ok parameters =>
    dsimp only
    rcases spawnInterface_cases s.backend address parameters with
      ⟨e, hspawn, _⟩ | ⟨e, hspawn, _⟩ | ⟨hspawn, hfree, _⟩
    · rw [hspawn]
      exact .inl ⟨rfl, rfl, le_rfl⟩
    · rw [hspawn]
      exact .inl ⟨rfl, rfl, Nat.le_succ _⟩
    · rw [hspawn]
      exact .inr ⟨rfl, hfree, Dict.mem_insert.mpr (Or.inl rfl), rfl⟩

theorem numbered_createInterface (hs : s.Numbered) :
    (s.createInterface E address filter preinit).2.Numbered := by
  intro i hi
  rcases spawned?_cases E s address filter preinit with
    ⟨hnone, -, hle⟩ | ⟨hsome, -, -, hnext⟩
  · rcases mem_interfaces_createInterface hi with hi | hi
    · exact lt_of_lt_of_le (hs i hi) hle
    · rw [hnone] at hi
      cases hi
  · rw [hnext]
    rcases mem_interfaces_createInterface hi with hi | hi
    · exact Nat.lt_succ_of_lt (hs i hi)
    · rw [hsome] at hi
      obtain rfl := Option.some.inj hi
      exact Nat.lt_succ_self _

theorem numbered_step {call : Call (mockchain env)} (h : Step E s call s') (hs : s.Numbered) :
    s'.Numbered := by
  rcases mem_interfaces_or_creates h with hmem | ⟨address, filter, preinit, rfl⟩
  · rcases untouched_or_creates h with hsame | ⟨address, filter, preinit, rfl, rfl⟩
    · intro i hi
      rw [hsame.backend]
      exact hs i ((hmem i).mp hi)
    · exact numbered_createInterface hs
  · obtain rfl : s' = (s.createInterface E address filter preinit).2 := (Option.some.inj h).symm
    exact numbered_createInterface hs

theorem numbered_run {calls : List (Call (mockchain env))} (h : Run (Step E) (new ()) calls s) :
    s.Numbered :=
  h.invariant (fun _ _ _ hstep hs => numbered_step hstep hs) fun _ hi => by cases hi

def Frees (s s' : Overseer (mockchain env)) (address : SocketAddr) : Prop :=
  address ∈ s'.backend.interfaces → address ∈ s.backend.interfaces

/-- For an address that was free, a creation with preinit code that runs, on a socket that the
system binds and with a filter that the executor loads succeeds. -/
def Repeats (E : Executor (mockchain env)) (s s' : Overseer (mockchain env))
    (address : SocketAddr) : Prop :=
  address ∉ s.backend.interfaces → env.bind s'.backend.nextIfaceId address = .ok () →
    ∀ filter preinit parameters, s'.preinitParameters E preinit = .ok parameters →
      E.new s'.backend.nextIfaceId filter none = .ok () →
      (s'.createInterface E address filter preinit).1 = .ok s'.backend.nextIfaceId

theorem repeats_of_frees (hs : s'.Numbered) (h : Frees s s' address) : Repeats E s s' address := by
  intro hfree hbind filter preinit parameters hparameters hfilter
  refine createInterface_of_admitted ?_ (fun hmem => Nat.lt_irrefl _ (hs _ hmem)) hfilter
  unfold spawned?
  rw [hparameters]
  dsimp only
  rcases spawnInterface_cases s'.backend address parameters with
    ⟨_, _, htaken⟩ | ⟨_, _, herror⟩ | ⟨hspawn, _⟩
  · exact absurd (h htaken) hfree
  · rw [hbind] at herror
    cases herror
  · rw [hspawn]

end Overseer

/-- A failed creation leaves nothing behind, and with the mockchain backend its address can be
used again, exactly if it fails before the interface is spawned: if the interface is spawned, its
number is new and the executor loads its filter. -/
theorem Host.createInterface_leavesNothing_iff (filter : String) (preinit : Option String) :
    (∀ (T : NetworkBackend) (E : Executor T) (h : Host T) (address : T.Address),
      (∀ e, (h.createInterface E address filter preinit).1 = .error e →
          h.LeavesNothing (h.createInterface E address filter preinit).2) ↔
        h.overseer.Admits E address filter preinit) ∧
    ∀ (env : Environment) (E : Executor (mockchain env)) (calls : List (Call (mockchain env)))
      (h : Host (mockchain env)) (address : SocketAddr),
      Run (Overseer.Step E) (.new ()) calls h.overseer →
      ((∀ e, (h.createInterface E address filter preinit).1 = .error e →
          h.LeavesNothing (h.createInterface E address filter preinit).2 ∧
          h.overseer.Frees (h.createInterface E address filter preinit).2.overseer address ∧
          h.overseer.Repeats E (h.createInterface E address filter preinit).2.overseer address) ↔
        h.overseer.Admits E address filter preinit) := by
  refine ⟨fun T E h address => leavesNothing_iff_admits, ?_⟩
  intro env E calls h address hrun
  constructor
  · intro hatomic
    exact leavesNothing_iff_admits.mp fun e he => (hatomic e he).1
  · intro hadmits e he
    have hfrees :
        h.overseer.Frees (h.createInterface E address filter preinit).2.overseer address := by
      intro htaken
      rcases Overseer.spawned?_cases E h.overseer address filter preinit with
        ⟨-, hsame, -⟩ | ⟨hsome, -⟩
      · rwa [← hsame]
      · obtain ⟨hnew, hfilter⟩ := hadmits _ hsome
        have hok := Overseer.createInterface_of_admitted hsome hnew hfilter
        exact absurd (hok.symm.trans he) (by simp)
    exact ⟨leavesNothing_iff_admits.mpr hadmits e he, hfrees,
      Overseer.repeats_of_frees
        (Overseer.numbered_createInterface (Overseer.numbered_run hrun)) hfrees⟩

def Executor.loadingOnly (T : NetworkBackend) (code : String) : Executor T where
  initializeInterface _ _ := .error (.executorError .executorDoesntExist)
  new _ filter _ := if filter = code then .ok () else .error (.executorError (.runtimeError ""))

/-- The executor rejects the filter of the first interface: its node stays in the graph, its
listener runs, and its address is in use when the creation is repeated with a filter that loads. -/
theorem Host.not_leavesNothing_rejectedFilter :
    let E := Executor.loadingOnly (mockchain Mockchain.local) "filter"
    let address : SocketAddr := ⟨[127, 0, 0, 1], 8888⟩
    let h : Host (mockchain Mockchain.local) := ⟨.new (), []⟩
    let h' := (h.createInterface E address "fitler" none).2
    (h.createInterface E address "fitler" none).1 = .error (.executorError (.runtimeError "")) ∧
      ¬ h.LeavesNothing h' ∧ h'.overseer.links.nodes = [0] ∧ h'.tasks = [0] ∧
      (h'.createInterface E address "filter" none).1 = .error .addressInUse ∧
      (h.createInterface E address "filter" none).1 = .ok 0 := by
  intro E address h h'
  refine ⟨rfl, ?_, rfl, rfl, rfl, rfl⟩
  intro hleaves
  cases hleaves.tasks

end Mockchain

end SwarmHost
