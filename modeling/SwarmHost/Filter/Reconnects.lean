import SwarmHost.Filter.Requests

/-! # Requests of peers that disconnect

A filter that is told that a peer is gone keeps the pending request of the peer.
The pending requests belong to registered peers exactly along the runs in which
no peer with a pending request leaves and no peer that is not registered sends
one, unless the executor responds in the same turn.
-/

namespace SwarmHost.Filter

variable {T : NetworkBackend} {f : Filter T} {p : T.PeerId}

def Known (f : Filter T) : Prop := ∀ p ∈ f.pendingInbound, p ∈ f.peers

/-- The answer of the executor is a batch in which the first event that fails is a response for the
peer. -/
def Relieves (f : Filter T) (p : T.PeerId) (answer : ExecutorAnswer T) : Prop :=
  ∃ events payload, answer = .ok events ∧
    events.find? (fun e => f.Aborts e) = some (.sendResponse p payload)

/-- A peer that leaves has no pending request and a peer that sends one is registered, unless the
executor responds at once. -/
def Settles (f : Filter T) (turn : Turn T) : Prop :=
  match turn.input with
  | .command (.unregisterPeer p) => p ∈ f.peers → p ∈ f.pendingInbound →
    Relieves { f with peers := f.peers.erase p } p turn.answer
  | .command (.injectRequest _ p request) => p ∉ f.peers →
    Relieves { f with pendingInbound := f.pendingInbound.insert p (T.requestId request) } p
      turn.answer
  | _ => True

section Batch

theorem relieves_iff {answer : ExecutorAnswer T} : f.Relieves p answer ↔
    ∃ payload, (answer.toOption.getD []).find? (fun e => f.Aborts e) =
      some (.sendResponse p payload) := by
  constructor
  · rintro ⟨events, payload, rfl, h⟩
    exact ⟨payload, h⟩
  · rintro ⟨payload, h⟩
    cases answer with
    | error => cases h
    | ok events => exact ⟨events, payload, rfl, h⟩

theorem produced_ne_nil_iff {e : ExecutorEvent T} :
    produced p [e] ≠ [] ↔ ∃ payload, e = .sendResponse p payload := by
  constructor
  · intro h
    obtain ⟨payload, hmem⟩ := List.exists_mem_of_ne_nil _ h
    rw [mem_produced, List.mem_singleton] at hmem
    exact ⟨payload, hmem.symm⟩
  · rintro ⟨payload, rfl⟩
    exact List.ne_nil_of_mem (mem_produced.mpr (List.mem_singleton.mpr rfl))

/-- The pending request of a peer that is not registered is given up exactly when the batch ends
with a response for it. -/
theorem notMem_pending_processEvents_iff (es : List (ExecutorEvent T)) (hp : p ∉ f.peers)
    (hpending : p ∈ f.pendingInbound) :
    p ∉ (f.processEvents es).2.1.pendingInbound ↔
      ∃ payload, es.find? (fun e => f.Aborts e) = some (.sendResponse p payload) := by
  induction es generalizing f with
  | nil => simpa [processEvents] using hpending
  | cons e es ih =>
    have hspec := eventSpec f e
    have hresponse : ∀ payload, f.Aborts (.sendResponse p payload) := fun _ => ⟨hp, hpending⟩
    rcases hout : f.processEvent e with ⟨_ | ⟨⟨⟩⟩, f', effects⟩
    · rw [hout] at hspec
      have he : f.Aborts e := by
        by_contra he
        exact absurd (hspec.ok.mpr he) (by simp)
      rw [processEvents_cons_of_error hout, List.find?_cons_of_pos (by simpa using he),
        Dict.notMem_iff, hspec.pending]
      obtain ⟨id, hid⟩ := Dict.mem_iff.mp hpending
      by_cases hnil : produced p [e] = []
      · have hne : ¬ ∃ payload, e = .sendResponse p payload := by
          rw [← produced_ne_nil_iff]
          exact not_not.mpr hnil
        simpa [hnil, hid] using hne
      · simpa [hnil] using produced_ne_nil_iff.mp hnil
    · rw [hout] at hspec
      have he : ¬ f.Aborts e := hspec.ok.mp rfl
      have hnil : produced p [e] = [] := by
        by_contra hne
        obtain ⟨payload, rfl⟩ := produced_ne_nil_iff.mp hne
        exact he (hresponse payload)
      have hp' : p ∉ f'.peers := fun h => hp ((hspec.peers p).mp h)
      have hpending' : p ∈ f'.pendingInbound := by
        have hget := hspec.pending p
        rw [if_pos hnil] at hget
        rw [Dict.mem_iff_isSome] at hpending ⊢
        exact hget ▸ hpending
      have haborts : (fun e => decide (f'.Aborts e)) = fun e => decide (f.Aborts e) := by
        funext e'
        exact decide_eq_decide.mpr (hspec.aborts_iff he e')
      rw [processEvents_cons_of_ok hout, List.find?_cons_of_neg (by simpa using he)]
      exact (ih hp' hpending').trans (by rw [haborts])

theorem pending_processEvents_le (f : Filter T) (es : List (ExecutorEvent T))
    {r : T.PeerId × T.RequestId} (hr : r ∈ (f.processEvents es).2.1.pending) : r ∈ f.pending :=
  Multiset.mem_of_le ((Multiset.le_add_right _ _).trans (processEvents_conserves f es).pending) hr

theorem mem_pending_iff {r : T.PeerId × T.RequestId} :
    r ∈ f.pending ↔ f.pendingInbound.get? r.1 = some r.2 :=
  Dict.mem_entries

/-- What is left of the pending requests after a batch belongs to registered peers exactly when the
others were responded to. -/
theorem known_processEvents_iff (f : Filter T) (es : List (ExecutorEvent T)) :
    (f.processEvents es).2.1.Known ↔ ∀ p ∈ f.pendingInbound, p ∉ f.peers →
      ∃ payload, es.find? (fun e => f.Aborts e) = some (.sendResponse p payload) := by
  have hpeers := (batchSpec f es).peers
  constructor
  · intro h p hpending hp
    rw [← notMem_pending_processEvents_iff es hp hpending]
    intro hmem
    exact hp ((hpeers p).mp (h p hmem))
  · intro h p hmem
    rw [hpeers]
    by_contra hp
    have hpending : p ∈ f.pendingInbound := by
      obtain ⟨id, hid⟩ := Dict.mem_iff.mp hmem
      have hr : (p, id) ∈ (f.processEvents es).2.1.pending := mem_pending_iff.mpr hid
      exact Dict.mem_of_get? (mem_pending_iff.mp (pending_processEvents_le f es hr))
    exact (notMem_pending_processEvents_iff es hp hpending).mpr (h p hpending hp) hmem

end Batch

section Turns

/-- A turn keeps the pending requests to registered peers exactly when it settles those of the peer
that it is about. -/
theorem known_next_iff (h : f.Known) (turn : Turn T) : (f.next turn).Known ↔ f.Settles turn := by
  have hspec := prepareSpec f turn.answer turn.input
  rw [next_eq, known_processEvents_iff]
  obtain ⟨input, answer⟩ := turn
  -- other inputs touch neither the pending requests nor the peers
  have hother : injected input = none → unregistered input = none →
      ∀ p ∈ (f.prepared ⟨input, answer⟩).pendingInbound,
        p ∉ (f.prepared ⟨input, answer⟩).peers → False := by
    intro hinj hun p hpending hp
    have hget := hspec.pending p
    rw [hinj] at hget
    change (f.prepared ⟨input, answer⟩).pendingInbound.get? p = f.pendingInbound.get? p at hget
    refine hp (hspec.peers p (h p ?_) (by simp [hun]))
    rwa [Dict.mem_iff_isSome, ← hget, ← Dict.mem_iff_isSome]
  cases input with
  | poll => exact iff_of_true (fun p hpending hp => (hother rfl rfl p hpending hp).elim) trivial
  | command command =>
    cases command with
    | unregisterPeer p =>
      simp only [Settles, prepared, events, prepare, unregisterPeer]
      split
      · next hp =>
        dsimp only
        rw [relieves_iff]
        constructor
        · intro hall _ hpending
          exact hall p hpending (by simp)
        · intro hone q hpending hq
          obtain rfl : q = p := by
            by_contra hne
            exact hq (Dict.mem_erase.mpr ⟨hne, h q hpending⟩)
          exact hone hp hpending
      · next hp =>
        exact ⟨fun _ hmem => absurd hmem hp, fun _ q hpending hq => absurd (h q hpending) hq⟩
    | injectRequest protocol p request =>
      simp only [Settles, prepared, events, prepare, injectRequest]
      rw [relieves_iff]
      constructor
      · intro hall hp
        exact hall p (Dict.mem_insert.mpr (Or.inl rfl)) hp
      · intro hone q hpending hq
        obtain rfl : q = p := by
          by_contra hne
          exact hq (h q ((Dict.mem_insert.mp hpending).resolve_left hne))
        exact hone hq
    | _ => exact iff_of_true (fun p hpending hp => (hother rfl rfl p hpending hp).elim) trivial

/-- A filter beside the requests that each peer made since it was last unregistered. -/
structure Sessions (T : NetworkBackend) where
  filter : Filter T
  asked : T.PeerId → List T.RequestId

namespace Sessions

variable {t u : Sessions T} {turn : Turn T}

def new (interface : T.InterfaceId) : Sessions T := ⟨.new interface, fun _ => []⟩

def asking (t : Sessions T) (input : FilterInput T) (p : T.PeerId) : List T.RequestId :=
  if unregistered input = some p then []
  else
    match injected input with
    | none => t.asked p
    | some (q, id) => if p = q then t.asked p ++ [id] else t.asked p

def next (t : Sessions T) (turn : Turn T) : Sessions T :=
  ⟨t.filter.next turn, t.asking turn.input⟩

def Step (t : Sessions T) (turn : Turn T) (u : Sessions T) : Prop := t.next turn = u

/-- A response goes out under the identifier of a request that the peer made since it was last
unregistered. -/
def Recent (t : Sessions T) (turn : Turn T) : Prop :=
  ∀ r ∈ responded (t.filter.effects turn), r.2.1 ∈ t.asking turn.input r.1

/-- Every pending request was made since the peer was last unregistered. -/
def Fresh (t : Sessions T) : Prop := ∀ r ∈ t.filter.pending, r.2 ∈ t.asked r.1

end Sessions

theorem mem_peers_of_responded (f : Filter T) (es : List (ExecutorEvent T))
    {r : T.PeerId × T.RequestId × Bytes} (hr : r ∈ responded (f.processEvents es).2.2) :
    r.1 ∈ f.peers := by
  have hone : ∀ (f : Filter T) (e : ExecutorEvent T), r ∈ responded (f.processEvent e).2.2 →
      r.1 ∈ f.peers := by
    intro f e hr
    cases e with
    | connect q => cases hr
    | forward peers protocol notification =>
      rw [processEvent, (forward_frame f protocol notification peers).2.2] at hr
      cases hr
    | sendRequest q protocol payload =>
      simp only [processEvent] at hr
      cases hq : f.peers.get? q <;> rw [hq] at hr <;> cases hr
    | sendResponse q payload =>
      simp only [processEvent] at hr
      cases hid : f.pendingInbound.get? q with
      | none =>
        rw [hid] at hr
        cases hr
      | some id =>
        cases hq : f.peers.get? q with
        | none =>
          simp only [hid, hq] at hr
          cases hr
        | some info =>
          simp only [hid, hq] at hr
          obtain rfl := List.mem_singleton.mp hr
          exact Dict.mem_of_get? hq
  induction es generalizing f with
  | nil => cases hr
  | cons e es ih =>
    have hspec := eventSpec f e
    rcases hout : f.processEvent e with ⟨_ | ⟨⟨⟩⟩, f', effects⟩
    · rw [processEvents_cons_of_error hout] at hr
      exact hone f e (by rw [hout]; exact hr)
    · rw [processEvents_cons_of_ok hout, responded_append] at hr
      rcases List.mem_append.mp hr with hr | hr
      · exact hone f e (by rw [hout]; exact hr)
      · rw [hout] at hspec
        exact (hspec.peers r.1).mp (ih f' hr)

theorem notMem_prepared_of_unregistered {turn : Turn T} (h : unregistered turn.input = some p) :
    p ∉ (f.prepared turn).peers := by
  obtain ⟨input, answer⟩ := turn
  cases input with
  | poll => cases h
  | command command =>
    cases command with
    | unregisterPeer q =>
      obtain rfl : q = p := Option.some.inj h
      simp only [prepared, prepare, unregisterPeer]
      split
      · simp
      · assumption
    | _ => cases h

namespace Sessions

variable {t u : Sessions T} {turn : Turn T}

theorem mem_asking (h : t.Fresh) {r : T.PeerId × T.RequestId}
    (hr : r ∈ ((injected turn.input).toList : Multiset _) + t.filter.pending)
    (hne : unregistered turn.input ≠ some r.1) : r.2 ∈ t.asking turn.input r.1 := by
  rw [asking, if_neg hne]
  rcases Multiset.mem_add.mp hr with hr | hr
  · have hinj : injected turn.input = some r := by simpa using hr
    rw [hinj]
    simp
  · have hold := h r hr
    cases injected turn.input with
    | none => exact hold
    | some q =>
      dsimp only
      split
      · exact List.mem_append_left _ hold
      · exact hold

theorem recent_of_fresh (hfresh : t.Fresh) (turn : Turn T) : t.Recent turn := by
  intro r hr
  have hclosed : (r.1, r.2.1) ∈ closed (t.filter.effects turn) :=
    Multiset.mem_coe.mpr (List.mem_map_of_mem hr)
  have hmem := Multiset.mem_of_le ((Multiset.le_add_left _ _).trans
    (turn_conserves t.filter turn).1) hclosed
  refine mem_asking hfresh hmem fun hun => ?_
  rw [responded_effects] at hr
  exact notMem_prepared_of_unregistered hun (mem_peers_of_responded _ _ hr)

theorem fresh_next (hfresh : t.Fresh) (hknown : (t.filter.next turn).Known) :
    (t.next turn).Fresh := by
  intro r hr
  have hmem := Multiset.mem_of_le ((Multiset.le_add_right _ _).trans
    (turn_conserves t.filter turn).1) hr
  refine mem_asking hfresh hmem fun hun => ?_
  apply notMem_prepared_of_unregistered (f := t.filter) hun
  have hp := hknown r.1 (Dict.mem_of_get? (mem_pending_iff.mp hr))
  rw [next_eq] at hp
  exact ((batchSpec _ _).peers r.1).mp hp

/-- Along a run the pending requests belong to registered peers, and no response goes out under a
request from before its peer was last unregistered, exactly when every turn settles the requests of
the peer that it is about. -/
theorem known_iff_settles (interface : T.InterfaceId) (turns : List (Turn T)) :
    Always Step (fun t => t.filter.Known) (new interface) turns ∧
        Along Step (fun t turn _ => t.Recent turn) (new interface) turns ↔
      Along Step (fun t turn _ => t.filter.Settles turn) (new interface) turns := by
  have hstart : (new interface : Sessions T).filter.Known ∧ (new interface : Sessions T).Fresh :=
    ⟨fun _ h => absurd h (Dict.notMem_empty _), fun _ h => absurd h (Multiset.notMem_zero _)⟩
  constructor
  · rintro ⟨hknown, -⟩
    refine (always_iff_along (I := fun t : Sessions T => t.filter.Known) ?_ hstart.1).mp hknown
    rintro t turn u rfl ht
    exact known_next_iff ht turn
  · intro hsettles
    obtain ⟨halways, halong⟩ := always_and_along_of
      (I := fun t : Sessions T => t.filter.Known ∧ t.Fresh)
      (P := fun t turn _ => t.Recent turn) (by
        rintro t turn u rfl hset ⟨hknown, hfresh⟩
        have hnext := (known_next_iff hknown turn).mpr hset
        exact ⟨⟨hnext, fresh_next hfresh hnext⟩, recent_of_fresh hfresh turn⟩) hstart hsettles
    exact ⟨halways.mono fun _ h => h.1, halong⟩

/-- A peer sends a request, leaves and comes back, and then the executor responds. -/
def lateResponse : List (Turn loopback) :=
  [⟨.command (.registerPeer [1] ⟨[1]⟩), .ok []⟩,
    ⟨.command (.injectRequest "/sup/sync/2" [1] ⟨0, [10]⟩), .ok []⟩,
    ⟨.command (.unregisterPeer [1]), .ok []⟩,
    ⟨.command (.registerPeer [1] ⟨[1]⟩), .ok []⟩,
    ⟨.poll, .ok [.sendResponse [1] [20]]⟩]

theorem not_known_lateResponse :
    ¬ Always Step (fun t => t.filter.Known) (new (T := loopback) 0) lateResponse ∧
      ¬ Along Step (fun t turn _ => t.Recent turn) (new (T := loopback) 0) lateResponse := by
  constructor
  · intro h
    have hrun : Run Step (new (T := loopback) 0) (lateResponse.take 3)
        ((lateResponse.take 3).foldl next (new 0)) := run_foldl (fun _ _ => rfl) _ _
    have hknown := h _ _ ( List.take_prefix 3 _) hrun [1] (by decide)
    revert hknown
    decide
  · intro h
    have hrun : Run Step (new (T := loopback) 0) lateResponse.dropLast
        (lateResponse.dropLast.foldl next (new 0)) := run_foldl (fun _ _ => rfl) _ _
    have hrecent := h _ _ _ _ List.prefix_rfl hrun rfl ([1], 0, [20]) (by decide)
    revert hrecent
    decide

end Sessions

end Turns

end SwarmHost.Filter
