import Mathlib.Data.List.TakeWhile
import SwarmHost.Backend.Substrate
import SwarmHost.Filter.Events
import SwarmHost.Runs.Basic

/-! # Answering inbound requests

The filter is run beside a ledger of the requests that were injected for each
registered peer and not answered yet. The table of pending requests holds one
request of a peer, so responses and requests match up exactly along the runs in
which requests of one peer do not overlap and no batch stops before a response.
-/

namespace SwarmHost.Filter

variable {T : NetworkBackend} {f : Filter T} {p : T.PeerId}

/-- One input of a filter with the answer of the executor. -/
structure Turn (T : NetworkBackend) where
  input : FilterInput T
  answer : ExecutorAnswer T

def prepared (f : Filter T) (turn : Turn T) : Filter T := (f.prepare turn.answer turn.input).filter

def events (f : Filter T) (turn : Turn T) : List (ExecutorEvent T) :=
  (f.prepare turn.answer turn.input).events.toOption.getD []

def effects (f : Filter T) (turn : Turn T) : List (FilterEffect T) :=
  (f.handle turn.answer turn.input).2.2

def next (f : Filter T) (turn : Turn T) : Filter T := (f.handle turn.answer turn.input).2.1

def injected : FilterInput T → Option (T.PeerId × T.RequestId)
  | .command (.injectRequest _ peer request) => some (peer, T.requestId request)
  | _ => none

def unregistered : FilterInput T → Option T.PeerId
  | .command (.unregisterPeer peer) => some peer
  | _ => none

section Prepare

/-- What a method does before it processes the events. -/
structure PrepareSpec (f : Filter T) (input : FilterInput T) (m : Prepared T) : Prop where
  peers : ∀ p ∈ f.peers, unregistered input ≠ some p → p ∈ m.filter.peers
  pending : ∀ p, m.filter.pendingInbound.get? p =
    match injected input with
    | none => f.pendingInbound.get? p
    | some (q, id) => if p = q then some id else f.pendingInbound.get? p
  responded : responded m.effects = []

theorem PrepareSpec.of_same {input : FilterInput T} {effects : List (FilterEffect T)}
    {events : ExecutorAnswer T} (hinput : injected input = none)
    (hsent : Filter.responded effects = []) : PrepareSpec f input ⟨f, effects, events⟩ :=
  ⟨fun _ hp _ => hp, fun _ => by rw [hinput], hsent⟩

theorem addProtocol_spec {input : FilterInput T} (hinput : injected input = none)
    (answer : ExecutorAnswer T) (peer : T.PeerId) (protocol : T.Protocol) :
    PrepareSpec f input (f.addProtocol answer peer protocol) := by
  unfold addProtocol
  split
  · exact .of_same hinput rfl
  · exact ⟨fun p hp _ => Dict.mem_insert.mpr (Or.inr hp), fun p => by rw [hinput], rfl⟩

theorem registerPeer_spec (answer : ExecutorAnswer T) (peer : T.PeerId) (sink : T.PacketSink) :
    PrepareSpec f (.command (.registerPeer peer sink)) (f.registerPeer answer peer sink) := by
  unfold registerPeer
  split
  · exact .of_same rfl rfl
  · cases answer with
    | error => exact .of_same rfl rfl
    | ok => exact ⟨fun p hp _ => Dict.mem_insert.mpr (Or.inr hp), fun _ => rfl, rfl⟩

theorem unregisterPeer_spec (answer : ExecutorAnswer T) (peer : T.PeerId) :
    PrepareSpec f (.command (.unregisterPeer peer)) (f.unregisterPeer answer peer) := by
  unfold unregisterPeer
  split
  · refine ⟨fun p hp hne => Dict.mem_erase.mpr ⟨?_, hp⟩, fun _ => rfl, rfl⟩
    rintro rfl
    exact hne rfl
  · exact .of_same rfl rfl

theorem injectNotification_spec (answer : ExecutorAnswer T) (protocol : T.Protocol)
    (peer : T.PeerId) (notification : T.Message) :
    PrepareSpec f (.command (.injectNotification protocol peer notification))
      (f.injectNotification answer protocol peer notification) := by
  unfold injectNotification
  split
  · exact .of_same rfl rfl
  · rw [sendToAll_entries]
    obtain ⟨hp, hpending, hsent⟩ := forward_frame f protocol notification f.peers.keys
    exact ⟨fun p hp' _ => (hp p).mpr hp', fun p => by rw [hpending]; rfl, hsent⟩
  · exact .of_same rfl rfl

theorem prepareSpec (f : Filter T) (answer : ExecutorAnswer T) (input : FilterInput T) :
    PrepareSpec f input (f.prepare answer input) := by
  cases input with
  | poll => exact .of_same rfl rfl
  | command command =>
    cases command with
    | registerPeer peer sink => exact registerPeer_spec answer peer sink
    | discoverPeer peer => exact .of_same rfl rfl
    | unregisterPeer peer => exact unregisterPeer_spec answer peer
    | protocolOpened peer protocol | protocolClosed peer protocol =>
      exact addProtocol_spec rfl answer peer protocol
    | installNotificationFilter | installRequestResponseFilter => exact .of_same rfl rfl
    | injectNotification protocol peer notification =>
      exact injectNotification_spec answer protocol peer notification
    | injectRequest protocol peer request =>
      exact ⟨fun _ hp _ => hp, fun p => Dict.get?_insert .., rfl⟩
    | injectResponse => exact .of_same rfl rfl

theorem next_eq (f : Filter T) (turn : Turn T) :
    f.next turn = ((f.prepared turn).processEvents (f.events turn)).2.1 := by
  simp only [next, events, prepared, handle]
  cases (f.prepare turn.answer turn.input).events <;> rfl

theorem responded_effects (f : Filter T) (turn : Turn T) : responded (f.effects turn) =
    responded ((f.prepared turn).processEvents (f.events turn)).2.2 := by
  have hnil := (prepareSpec f turn.answer turn.input).responded
  simp only [effects, events, prepared, handle]
  cases (f.prepare turn.answer turn.input).events with
  | error => exact hnil
  | ok events =>
    dsimp only
    rw [responded_append, hnil]
    rfl

theorem sent_effects (f : Filter T) (turn : Turn T) (p : T.PeerId) :
    sent p (f.effects turn) =
      sent p ((f.prepared turn).processEvents (f.events turn)).2.2 := by
  rw [sent, responded_effects]
  rfl

theorem pending_prepared (f : Filter T) (turn : Turn T) :
    (f.prepared turn).pending ≤ ↑(injected turn.input).toList + f.pending := by
  have hget := (prepareSpec f turn.answer turn.input).pending
  change ∀ p, (f.prepared turn).pendingInbound.get? p = _ at hget
  cases hinj : injected turn.input with
  | none =>
    rw [hinj] at hget
    exact (Multiset.coe_eq_coe.mpr (Dict.perm_of_get? hget)).le.trans (by simp [pending])
  | some qid =>
    obtain ⟨q, id⟩ := qid
    rw [hinj] at hget
    have hinsert : ∀ p, (f.prepared turn).pendingInbound.get? p =
        (f.pendingInbound.insert q id).get? p := fun p => by rw [hget, Dict.get?_insert]
    calc
      (f.prepared turn).pending = ((q, id) :: (f.pendingInbound.erase q).entries : List _) :=
        Multiset.coe_eq_coe.mpr ((Dict.perm_of_get? hinsert).trans (Dict.perm_insert _ q id))
      _ ≤ ((q, id) :: f.pendingInbound.entries : List _) :=
        Multiset.coe_le.mpr ((Dict.erase_sublist _ q).cons_cons _).subperm

/-- A turn responds only to requests that were pending or are injected, each at most once, and
with a payload of a response event of the turn. -/
theorem turn_conserves (f : Filter T) (turn : Turn T) :
    (f.next turn).pending + closed (f.effects turn) ≤
        ↑(injected turn.input).toList + f.pending ∧
      ∀ r ∈ responded (f.effects turn), .sendResponse r.1 r.2.2 ∈ f.events turn := by
  have hbatch := processEvents_conserves (f.prepared turn) (f.events turn)
  constructor
  · rw [next_eq, closed, responded_effects]
    exact hbatch.pending.trans (pending_prepared f turn)
  · rw [responded_effects]
    exact hbatch.payload

end Prepare

/-- A filter beside the unanswered requests of its registered peers, oldest first. -/
structure Tracked (T : NetworkBackend) where
  filter : Filter T
  unanswered : T.PeerId → List T.RequestId

namespace Tracked

variable {t u : Tracked T} {turn : Turn T}

def new (interface : T.InterfaceId) : Tracked T := ⟨.new interface, fun _ => []⟩

/-- The ledger when the events of a turn are processed: a request of a registered peer is added,
and the requests of a peer that is unregistered are dropped. -/
def admitted (t : Tracked T) (input : FilterInput T) (p : T.PeerId) : List T.RequestId :=
  if unregistered input = some p then []
  else
    match injected input with
    | none => t.unanswered p
    | some (q, id) =>
      if p = q ∧ p ∈ t.filter.peers then t.unanswered p ++ [id] else t.unanswered p

/-- Every response event for a peer answers the oldest unanswered request. -/
def step (t : Tracked T) (turn : Turn T) : Tracked T where
  filter := t.filter.next turn
  unanswered p := (t.admitted turn.input p).drop (produced p (t.filter.events turn)).length

def Step (t : Tracked T) (turn : Turn T) (u : Tracked T) : Prop := u = t.step turn

/-- However many response events for a peer are processed, the `k`-th of them goes out under the
identifier of the `k`-th unanswered request. -/
def Answerable (t : Tracked T) : Prop :=
  ∀ p payloads, (sent p (t.filter.processEvents (payloads.map (.sendResponse p ·))).2.2).take
    (t.unanswered p).length = (t.unanswered p).zip payloads

/-- The response events of a turn go out, each under the identifier of the oldest request that is
unanswered at that point. -/
def Delivers (t : Tracked T) (turn : Turn T) : Prop :=
  ∀ p, (sent p (t.filter.effects turn)).take (t.admitted turn.input p).length =
    (t.admitted turn.input p).zip (produced p (t.filter.events turn))

/-- A request of a registered peer comes only when its last one was answered, and no event stops
the batch before the first response event of a peer with an unanswered request. -/
structure Orderly (t : Tracked T) (turn : Turn T) : Prop where
  single : ∀ p id, injected turn.input = some (p, id) → p ∈ t.filter.peers → t.unanswered p = []
  reached : ∀ p, t.admitted turn.input p ≠ [] → produced p (t.filter.events turn) ≠ [] →
    produced p ((t.filter.prepared turn).reached (t.filter.events turn)) ≠ []

def Registered (t : Tracked T) : Prop := ∀ p, t.unanswered p ≠ [] → p ∈ t.filter.peers

/-- Every peer has at most one unanswered request, the one in the table. -/
def Single (t : Tracked T) : Prop :=
  ∀ p, t.unanswered p = [] ∨
    ∃ id, t.unanswered p = [id] ∧ t.filter.pendingInbound.get? p = some id

theorem registered_new (interface : T.InterfaceId) : Registered (new interface : Tracked T) :=
  fun _ h => absurd rfl h

theorem single_new (interface : T.InterfaceId) : Single (new interface : Tracked T) :=
  fun _ => Or.inl rfl

theorem mem_peers_of_admitted (h : Registered t) (hp : t.admitted turn.input p ≠ []) :
    p ∈ (t.filter.prepared turn).peers := by
  unfold admitted at hp
  split at hp
  · exact absurd rfl hp
  · rename_i hne
    refine (prepareSpec t.filter turn.answer turn.input).peers p ?_ hne
    split at hp
    · exact h p hp
    · split at hp
      · rename_i hpq
        exact hpq.2
      · exact h p hp

theorem registered_step (t : Tracked T) (turn : Turn T) (u : Tracked T) (hu : Step t turn u)
    (h : Registered t) : Registered u := by
  subst hu
  intro p hp
  have hadm : t.admitted turn.input p ≠ [] := by
    intro hnil
    apply hp
    simp only [step, hnil, List.drop_nil]
  change p ∈ (t.filter.next turn).peers
  rw [next_eq, (batchSpec _ _).peers]
  exact mem_peers_of_admitted h hadm

theorem length_answers (pending : Option T.RequestId) (payloads : List Bytes) :
    (answers (T := T) pending payloads).length ≤ 1 := by
  cases pending with
  | none | some => simp [answers]

theorem answers_single_iff (id : T.RequestId) {rc pr : List Bytes} (h : rc <+: pr) :
    ((answers (T := T) (some id) rc).take 1 = [id].zip pr ∧
      ([id].drop pr.length = [] ∨ ∃ id', [id].drop pr.length = [id'] ∧
        (if rc = [] then some id else none) = some id')) ↔ (pr ≠ [] → rc ≠ []) := by
  cases rc with
  | nil =>
    cases pr with
    | nil | cons => simp [answers]
  | cons y rc =>
    obtain ⟨rest, rfl⟩ := h
    simp [answers]

/-- Two unanswered requests share the one entry of the table. -/
theorem not_answers_pair (pending : Option T.RequestId) (id₀ id₁ : T.RequestId)
    {rc pr : List Bytes} (h : (answers (T := T) pending rc).take 2 = [id₀, id₁].zip pr)
    (h' : [id₀, id₁].drop pr.length = [] ∨ ∃ id', [id₀, id₁].drop pr.length = [id'] ∧
      (if rc = [] then pending else none) = some id') : False := by
  have hlen := congrArg List.length h
  have hle := length_answers (T := T) pending rc
  match pr with
  | [] => simp at h'
  | [x] =>
    have hrc : rc ≠ [] := by
      rintro rfl
      cases pending <;> simp [answers] at hlen
    simp [hrc] at h'
  | _ :: _ :: _ =>
    simp only [List.length_take, List.length_zip, List.length_cons] at hlen
    omega

theorem admitted_cases (hr : Registered t) (hs : Single t) (turn : Turn T) (p : T.PeerId) :
    t.admitted turn.input p = [] ∨
    (∃ id, t.admitted turn.input p = [id] ∧
      (t.filter.prepared turn).pendingInbound.get? p = some id ∧
      ∀ id', injected turn.input = some (p, id') → p ∈ t.filter.peers → t.unanswered p = []) ∨
    ∃ id₀ id₁, t.admitted turn.input p = [id₀, id₁] ∧
      injected turn.input = some (p, id₁) ∧ p ∈ t.filter.peers ∧ t.unanswered p ≠ [] := by
  have hpending := (prepareSpec t.filter turn.answer turn.input).pending p
  change (t.filter.prepared turn).pendingInbound.get? p = _ at hpending
  unfold admitted
  split
  · exact Or.inl rfl
  cases hinj : injected turn.input with
  | none =>
    rw [hinj] at hpending
    rcases hs p with hnil | ⟨id, hid, hpend⟩
    · exact Or.inl hnil
    · exact Or.inr (Or.inl ⟨id, hid, hpending.trans hpend, fun _ h => by cases h⟩)
  | some qid =>
    obtain ⟨q, id⟩ := qid
    rw [hinj] at hpending
    dsimp only at hpending ⊢
    by_cases hq : p = q
    · subst hq
      rw [if_pos rfl] at hpending
      split
      · rename_i hp
        rcases hs p with hnil | ⟨id₀, hid, -⟩
        · exact Or.inr (Or.inl ⟨id, by simp [hnil], hpending, fun _ _ _ => hnil⟩)
        · exact Or.inr (Or.inr ⟨id₀, id, by simp [hid], rfl, hp.2, by simp [hid]⟩)
      · rename_i hp
        apply Or.inl
        by_contra hne
        exact hp ⟨rfl, hr p hne⟩
    · rw [if_neg hq] at hpending
      rw [if_neg fun h => hq h.1]
      rcases hs p with hnil | ⟨id₀, hid, hpend⟩
      · exact Or.inl hnil
      · refine Or.inr (Or.inl ⟨id₀, hid, hpending.trans hpend, ?_⟩)
        rintro id' ⟨⟩
        exact absurd rfl hq

theorem admitted_of_injected {id : T.RequestId} (h : injected turn.input = some (p, id))
    (hp : p ∈ t.filter.peers) : t.admitted turn.input p = t.unanswered p ++ [id] := by
  have hne : unregistered turn.input ≠ some p := by
    intro hu
    unfold injected at h
    split at h
    · rename_i hinput
      rw [hinput] at hu
      cases hu
    · cases h
  rw [admitted, if_neg hne, h]
  exact if_pos ⟨rfl, hp⟩

/-- The requests of one peer in a turn: its responses go out in order and what is left is at most
one request, the one in the table. -/
def DeliversTo (t : Tracked T) (turn : Turn T) (p : T.PeerId) : Prop :=
  (sent p (t.filter.effects turn)).take (t.admitted turn.input p).length =
    (t.admitted turn.input p).zip (produced p (t.filter.events turn)) ∧
  ((t.step turn).unanswered p = [] ∨ ∃ id, (t.step turn).unanswered p = [id] ∧
    (t.step turn).filter.pendingInbound.get? p = some id)

theorem deliversTo_iff (hr : Registered t) (hne : t.admitted turn.input p ≠ []) :
    DeliversTo t turn p ↔
      let rc := produced p ((t.filter.prepared turn).reached (t.filter.events turn))
      let pr := produced p (t.filter.events turn)
      let pending := (t.filter.prepared turn).pendingInbound.get? p
      (answers (T := T) pending rc).take (t.admitted turn.input p).length =
        (t.admitted turn.input p).zip pr ∧
      ((t.admitted turn.input p).drop pr.length = [] ∨
        ∃ id, (t.admitted turn.input p).drop pr.length = [id] ∧
          (if rc = [] then pending else none) = some id) := by
  have hp := mem_peers_of_admitted hr hne
  have hspec := batchSpec (t.filter.prepared turn) (t.filter.events turn)
  simp only [DeliversTo, step, sent_effects, next_eq, hspec.sent p hp, hspec.pending p hp]

theorem deliversTo_of_nil (h : t.admitted turn.input p = []) : DeliversTo t turn p := by
  simp [DeliversTo, step, h]

theorem deliversTo_single_iff (hr : Registered t) {id : T.RequestId}
    (h : t.admitted turn.input p = [id])
    (hpending : (t.filter.prepared turn).pendingInbound.get? p = some id) :
    DeliversTo t turn p ↔ (produced p (t.filter.events turn) ≠ [] →
      produced p ((t.filter.prepared turn).reached (t.filter.events turn)) ≠ []) := by
  rw [deliversTo_iff hr (by simp [h]), h, hpending]
  exact answers_single_iff id (produced_mono (reached_initial _ _) p)

theorem not_deliversTo_pair (hr : Registered t) {id₀ id₁ : T.RequestId}
    (h : t.admitted turn.input p = [id₀, id₁]) : ¬ DeliversTo t turn p := by
  rw [deliversTo_iff hr (by simp [h]), h]
  rintro ⟨htake, hleft⟩
  exact not_answers_pair _ id₀ id₁ htake hleft

/-- A turn is delivered and leaves every request answerable exactly when it is orderly. -/
theorem delivers_iff_orderly (hr : Registered t) (hs : Single t) (turn : Turn T) :
    Delivers t turn ∧ Single (t.step turn) ↔ Orderly t turn := by
  have hboth : Delivers t turn ∧ Single (t.step turn) ↔ ∀ p, DeliversTo t turn p :=
    forall_and.symm
  rw [hboth]
  constructor
  · intro hd
    constructor
    · intro p id hinj hp
      rcases admitted_cases hr hs turn p with hnil | ⟨_, _, _, h⟩ | ⟨id₀, id₁, h, -⟩
      · rw [admitted_of_injected hinj hp] at hnil
        exact absurd hnil (by simp)
      · exact h id hinj hp
      · exact absurd (hd p) (not_deliversTo_pair hr h)
    · intro p hne
      rcases admitted_cases hr hs turn p with hnil | ⟨id, h, hpending, -⟩ | ⟨id₀, id₁, h, -⟩
      · exact absurd hnil hne
      · exact (deliversTo_single_iff hr h hpending).mp (hd p)
      · exact absurd (hd p) (not_deliversTo_pair hr h)
  · rintro ⟨hsingle, hreached⟩ p
    rcases admitted_cases hr hs turn p with hnil | ⟨id, h, hpending, -⟩ | ⟨_, id₁, _, hinj, hp, hne⟩
    · exact deliversTo_of_nil hnil
    · exact (deliversTo_single_iff hr h hpending).mpr (hreached p (by simp [h]))
    · exact absurd (hsingle p id₁ hinj hp) hne

theorem sent_responses (hp : p ∈ t.filter.peers) (payloads : List Bytes) :
    sent p (t.filter.processEvents (payloads.map (.sendResponse p ·))).2.2 =
      answers (t.filter.pendingInbound.get? p) payloads := by
  have hall : t.filter.reached (payloads.map (.sendResponse p ·)) =
      payloads.map (.sendResponse p ·) := by
    unfold reached
    rw [List.takeWhile_eq_self_iff]
    intro e he
    obtain ⟨payload, -, rfl⟩ := List.mem_map.mp he
    simp [Aborts, hp]
  rw [(batchSpec _ _).sent p hp, hall, produced_responses]

theorem answerable_iff_single (hr : Registered t) : Answerable t ↔ Single t := by
  constructor
  · intro h p
    match hids : t.unanswered p with
    | [] => exact Or.inl rfl
    | [id] =>
      have hp := hr p (by simp [hids])
      have h₁ := h p [[]]
      rw [sent_responses hp, hids] at h₁
      refine Or.inr ⟨id, rfl, ?_⟩
      cases hpending : t.filter.pendingInbound.get? p with
      | none => simp [answers, hpending] at h₁
      | some id' => simpa [answers, hpending] using h₁
    | id₀ :: id₁ :: rest =>
      have hp := hr p (by simp [hids])
      have h₂ := congrArg List.length (h p [[], []])
      have hle := length_answers (T := T) (t.filter.pendingInbound.get? p) [[], []]
      rw [sent_responses hp, hids] at h₂
      simp only [List.length_take, List.length_zip, List.length_cons, List.length_nil] at h₂
      omega
  · intro h p payloads
    rcases h p with hnil | ⟨id, hid, hpending⟩
    · simp [hnil]
    · rw [sent_responses (hr p (by simp [hid])), hid, hpending]
      cases payloads <;> simp [answers]

/-- Along a run every inbound request stays answerable and every response event goes out under the
oldest unanswered request of its peer, exactly when every turn of the run is orderly. -/
theorem requests_answered_iff (interface : T.InterfaceId) (turns : List (Turn T)) :
    Always Step Answerable (new interface) turns ∧
        Along Step (fun t turn _ => Delivers t turn) (new interface) turns ↔
      Along Step (fun t turn _ => Orderly t turn) (new interface) turns := by
  refine always_and_along_iff registered_step ?_ (registered_new interface) ?_
  · intro t turn u hu hr ha
    have hr' := registered_step t turn u hu hr
    rw [answerable_iff_single hr']
    subst hu
    exact delivers_iff_orderly hr ((answerable_iff_single hr).mp ha) turn
  · rw [answerable_iff_single (registered_new interface)]
    exact single_new interface

/-- A peer registers, sends two requests and is then answered twice. -/
def overlappingTurns : List (Turn loopback) :=
  [⟨.command (.registerPeer [1] ⟨[1]⟩), .ok []⟩,
    ⟨.command (.injectRequest "/sup/sync/2" [1] ⟨0, [10]⟩), .ok []⟩,
    ⟨.command (.injectRequest "/sup/sync/2" [1] ⟨1, [11]⟩), .ok []⟩,
    ⟨.poll, .ok [.sendResponse [1] [20], .sendResponse [1] [21]]⟩]

theorem requests_lost :
    ¬ (Always Step Answerable (new (T := loopback) 0) overlappingTurns ∧
      Along Step (fun t turn _ => Delivers t turn) (new (T := loopback) 0) overlappingTurns) := by
  rintro ⟨-, h⟩
  have hrun : Run Step (new (T := loopback) 0) overlappingTurns.dropLast
      (overlappingTurns.dropLast.foldl step (new 0)) := .cons rfl (.cons rfl (.cons rfl (.nil _)))
  have hpoll := h _ _ _ _ List.prefix_rfl hrun rfl [1]
  revert hpoll
  decide

end Tracked

end SwarmHost.Filter
