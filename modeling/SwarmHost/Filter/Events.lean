import Mathlib.Algebra.Order.Group.Multiset
import SwarmHost.Filter.Basic

/-! # Processing the events of the executor

What a batch of events does to one registered peer: its pending request answers
the first response event that is reached, and later ones find nothing. A batch
stops at the first event that needs a peer that is not registered.
-/

namespace SwarmHost.Filter

variable {T : NetworkBackend} {f : Filter T} {p q : T.PeerId}

def produced (p : T.PeerId) (events : List (ExecutorEvent T)) : List Bytes :=
  events.filterMap fun
    | .sendResponse q payload => if q = p then some payload else none
    | _ => none

/-- The responses handed to the sinks: peer, request identifier and payload. -/
def responded (effects : List (FilterEffect T)) : List (T.PeerId × T.RequestId × Bytes) :=
  effects.filterMap fun
    | .sendResponse q _ requestId payload => some (q, requestId, payload)
    | _ => none

def sent (p : T.PeerId) (effects : List (FilterEffect T)) : List (T.RequestId × Bytes) :=
  (responded effects).filterMap fun (q, response) => if q = p then some response else none

/-- Processing the event fails and ends the batch. -/
def Aborts (f : Filter T) : ExecutorEvent T → Prop
  | .sendRequest q _ _ => q ∉ f.peers
  | .sendResponse q _ => q ∉ f.peers ∧ q ∈ f.pendingInbound
  | _ => False

instance (f : Filter T) : DecidablePred f.Aborts
  | .connect _ => inferInstanceAs (Decidable False)
  | .forward _ _ _ => inferInstanceAs (Decidable False)
  | .sendRequest _ _ _ => inferInstanceAs (Decidable (_ ∉ f.peers))
  | .sendResponse _ _ => inferInstanceAs (Decidable (_ ∉ f.peers ∧ _ ∈ f.pendingInbound))

def reached (f : Filter T) (events : List (ExecutorEvent T)) : List (ExecutorEvent T) :=
  events.takeWhile fun event => !f.Aborts event

theorem produced_append (p : T.PeerId) (es es' : List (ExecutorEvent T)) :
    produced p (es ++ es') = produced p es ++ produced p es' := List.filterMap_append

theorem responded_append (es es' : List (FilterEffect T)) :
    responded (es ++ es') = responded es ++ responded es' := List.filterMap_append

theorem sent_append (p : T.PeerId) (es es' : List (FilterEffect T)) :
    sent p (es ++ es') = sent p es ++ sent p es' := by
  rw [sent, responded_append, List.filterMap_append]
  rfl

theorem sent_eq_nil {effects : List (FilterEffect T)} (h : responded effects = [])
    (p : T.PeerId) : sent p effects = [] := by
  rw [sent, h]
  rfl

@[simp] theorem produced_nil (p : T.PeerId) : produced p ([] : List (ExecutorEvent T)) = [] := rfl

@[simp] theorem sent_nil (p : T.PeerId) : sent p ([] : List (FilterEffect T)) = [] := rfl

theorem produced_cons (p : T.PeerId) (e : ExecutorEvent T) (es : List (ExecutorEvent T)) :
    produced p (e :: es) = produced p [e] ++ produced p es := produced_append p [e] es

@[simp] theorem produced_responses (p : T.PeerId) (payloads : List Bytes) :
    produced p (payloads.map (.sendResponse (T := T) p)) = payloads := by
  induction payloads with
  | nil => rfl
  | cons payload payloads ih =>
    rw [List.map_cons, produced_cons, ih]
    simp [produced]

theorem mem_produced {events : List (ExecutorEvent T)} {payload : Bytes} :
    payload ∈ produced p events ↔ .sendResponse p payload ∈ events := by
  simp only [produced, List.mem_filterMap]
  constructor
  · rintro ⟨e, he, h⟩
    cases e with
    | sendResponse q payload' =>
      simp only [Option.ite_none_right_eq_some, Option.some.injEq] at h
      obtain ⟨rfl, rfl⟩ := h
      exact he
    | _ => cases h
  · intro h
    exact ⟨_, h, by simp⟩

theorem reached_initial (f : Filter T) (events : List (ExecutorEvent T)) :
    f.reached events <+: events := List.takeWhile_prefix _

theorem produced_mono {es es' : List (ExecutorEvent T)} (h : es <+: es') (p : T.PeerId) :
    produced p es <+: produced p es' := by
  obtain ⟨rest, rfl⟩ := h
  exact ⟨_, (produced_append p es rest).symm⟩

section Forward

theorem sendPacket_frame (f : Filter T) (protocol : T.Protocol) (notification : T.Message)
    (p : T.PeerId) :
    (∀ q, q ∈ (f.sendPacket protocol notification p).1.peers ↔ q ∈ f.peers) ∧
    (f.sendPacket protocol notification p).1.pendingInbound = f.pendingInbound ∧
    responded (f.sendPacket protocol notification p).2 = [] := by
  unfold sendPacket
  cases h : f.peers.get? p with
  | none => exact ⟨fun _ => Iff.rfl, rfl, rfl⟩
  | some info =>
    refine ⟨fun q => ?_, rfl, ?_⟩
    · rw [Dict.mem_insert, or_iff_right_of_imp]
      rintro rfl
      exact Dict.mem_of_get? h
    · dsimp only
      split <;> rfl

theorem forward_frame (f : Filter T) (protocol : T.Protocol) (notification : T.Message)
    (peers : List T.PeerId) :
    (∀ q, q ∈ (f.forward protocol notification peers).1.peers ↔ q ∈ f.peers) ∧
    (f.forward protocol notification peers).1.pendingInbound = f.pendingInbound ∧
    responded (f.forward protocol notification peers).2 = [] := by
  induction peers generalizing f with
  | nil => exact ⟨fun _ => Iff.rfl, rfl, rfl⟩
  | cons p peers ih =>
    obtain ⟨hp, hpending, hsent⟩ := sendPacket_frame f protocol notification p
    obtain ⟨ihp, ihpending, ihsent⟩ := ih (f.sendPacket protocol notification p).1
    refine ⟨fun q => (ihp q).trans (hp q), ihpending.trans hpending, ?_⟩
    rw [forward, responded_append, hsent, ihsent, List.append_nil]

end Forward

structure EventSpec (f : Filter T) (e : ExecutorEvent T)
    (out : Except Error Unit × Filter T × List (FilterEffect T)) : Prop where
  ok : out.1 = .ok () ↔ ¬ f.Aborts e
  peers : ∀ q, q ∈ out.2.1.peers ↔ q ∈ f.peers
  pending : ∀ q, out.2.1.pendingInbound.get? q =
    if produced q [e] = [] then f.pendingInbound.get? q else none
  sent : ∀ q ∈ f.peers, sent q out.2.2 =
    (f.pendingInbound.get? q).toList.flatMap fun id => (produced q [e]).map (id, ·)

theorem eventSpec (f : Filter T) (e : ExecutorEvent T) : EventSpec f e (f.processEvent e) := by
  cases e with
  | connect p =>
    exact ⟨by simp [processEvent, Aborts], fun _ => Iff.rfl, fun _ => rfl, by simp [produced, sent,
      responded, processEvent]⟩
  | forward peers protocol notification =>
    obtain ⟨hp, hpending, hsent⟩ := forward_frame f protocol notification peers
    exact ⟨by simp [processEvent, Aborts], hp, fun q => by simp [processEvent, produced, hpending],
      fun q _ => by simp [processEvent, produced, sent_eq_nil hsent]⟩
  | sendRequest p protocol payload =>
    simp only [processEvent]
    cases h : f.peers.get? p with
    | none =>
      have hp : p ∉ f.peers := Dict.notMem_iff.mpr h
      exact ⟨by simp [Aborts, hp], fun _ => Iff.rfl, fun _ => rfl, by simp [produced]⟩
    | some info =>
      have hp : p ∈ f.peers := Dict.mem_of_get? h
      exact ⟨by simp [Aborts, hp], fun _ => Iff.rfl, fun _ => rfl,
        by simp [produced, sent, responded]⟩
  | sendResponse p payload =>
    simp only [processEvent]
    cases hid : f.pendingInbound.get? p with
    | none =>
      have hp : p ∉ f.pendingInbound := Dict.notMem_iff.mpr hid
      refine ⟨by simp [Aborts, hp], fun _ => Iff.rfl, fun q => ?_, fun q _ => ?_⟩
      · by_cases hq : p = q
        · subst hq; simp [hid]
        · simp [produced, hq]
      · by_cases hq : p = q
        · subst hq; simp [hid]
        · simp [produced, hq]
    | some id =>
      have hpending : ∀ q, (f.pendingInbound.erase p).get? q =
          if produced q [.sendResponse p payload] = [] then f.pendingInbound.get? q else none := by
        intro q
        rw [Dict.get?_erase]
        by_cases hq : p = q
        · subst hq; simp [produced]
        · simp [produced, hq, Ne.symm hq]
      have hmem : p ∈ f.pendingInbound := Dict.mem_of_get? hid
      cases h : f.peers.get? p with
      | none =>
        have hp : p ∉ f.peers := Dict.notMem_iff.mpr h
        refine ⟨by simp [Aborts, hp, hmem], fun _ => Iff.rfl, hpending, fun q hq => ?_⟩
        have hne : p ≠ q := by
          rintro rfl
          exact hp hq
        simp [produced, hne]
      | some info =>
        have hp : p ∈ f.peers := Dict.mem_of_get? h
        refine ⟨by simp [Aborts, hp], fun _ => Iff.rfl, hpending, fun q _ => ?_⟩
        by_cases hq : p = q
        · subst hq; simp [produced, sent, responded, hid]
        · simp [produced, sent, responded, hq]

theorem EventSpec.aborts_iff {e : ExecutorEvent T}
    {out : Except Error Unit × Filter T × List (FilterEffect T)} (h : EventSpec f e out)
    (he : ¬ f.Aborts e) (e' : ExecutorEvent T) : out.2.1.Aborts e' ↔ f.Aborts e' := by
  cases e' with
  | connect | forward => exact Iff.rfl
  | sendRequest q => exact not_congr (h.peers q)
  | sendResponse q payload =>
    simp only [Aborts, h.peers]
    apply and_congr_right
    intro hq
    rw [Dict.mem_iff_isSome, Dict.mem_iff_isSome, h.pending]
    split
    · rfl
    · rename_i hne
      obtain ⟨payload', hmem⟩ := List.exists_mem_of_ne_nil _ hne
      rw [mem_produced, List.mem_singleton] at hmem
      subst hmem
      have hnone : q ∉ f.pendingInbound := fun hpq => he ⟨hq, hpq⟩
      simp [Dict.notMem_iff.mp hnone]

def answers (pending : Option T.RequestId) (payloads : List Bytes) : List (T.RequestId × Bytes) :=
  pending.toList.flatMap fun id => (payloads.take 1).map (id, ·)

structure BatchSpec (f : Filter T) (es : List (ExecutorEvent T))
    (out : Except Error Unit × Filter T × List (FilterEffect T)) : Prop where
  peers : ∀ q, q ∈ out.2.1.peers ↔ q ∈ f.peers
  pending : ∀ q ∈ f.peers, out.2.1.pendingInbound.get? q =
    if produced q (f.reached es) = [] then f.pendingInbound.get? q else none
  sent : ∀ q ∈ f.peers, sent q out.2.2 =
    answers (f.pendingInbound.get? q) (produced q (f.reached es))

theorem not_produced_of_aborts {e : ExecutorEvent T} (he : f.Aborts e) (hq : q ∈ f.peers) :
    produced q [e] = [] := by
  cases e with
  | sendResponse p payload =>
    have hne : p ≠ q := by
      rintro rfl
      exact he.1 hq
    simp [produced, hne]
  | _ => rfl

theorem processEvents_cons_of_error {e : ExecutorEvent T} {f' : Filter T} {err : Error}
    {effects : List (FilterEffect T)} (h : f.processEvent e = (.error err, f', effects))
    (es : List (ExecutorEvent T)) : f.processEvents (e :: es) = (.error err, f', effects) := by
  rw [processEvents, h]

theorem processEvents_cons_of_ok {e : ExecutorEvent T} {f' : Filter T}
    {effects : List (FilterEffect T)} (h : f.processEvent e = (.ok (), f', effects))
    (es : List (ExecutorEvent T)) : f.processEvents (e :: es) =
      ((f'.processEvents es).1, (f'.processEvents es).2.1,
        effects ++ (f'.processEvents es).2.2) := by
  rw [processEvents, h]

theorem reached_cons_of_aborts {e : ExecutorEvent T} (he : f.Aborts e)
    (es : List (ExecutorEvent T)) : f.reached (e :: es) = [] := by
  simp [reached, he]

theorem EventSpec.reached_cons {e : ExecutorEvent T}
    {out : Except Error Unit × Filter T × List (FilterEffect T)} (h : EventSpec f e out)
    (he : ¬ f.Aborts e) (es : List (ExecutorEvent T)) :
    f.reached (e :: es) = e :: out.2.1.reached es := by
  simp [reached, he, h.aborts_iff he]

theorem answers_append (pending : Option T.RequestId) {payload payloads : List Bytes}
    (h : payload.length ≤ 1) :
    (pending.toList.flatMap fun id => payload.map (id, ·)) ++
        answers (T := T) (if payload = [] then pending else none) payloads =
      answers (T := T) pending (payload ++ payloads) := by
  cases pending with
  | none => simp [answers]
  | some id =>
    match payload, h with
    | [], _ => simp [answers]
    | [payload], _ => simp [answers]

theorem length_produced_singleton (q : T.PeerId) (e : ExecutorEvent T) :
    (produced q [e]).length ≤ 1 := List.length_filterMap_le _ _

theorem batchSpec (f : Filter T) (es : List (ExecutorEvent T)) :
    BatchSpec f es (f.processEvents es) := by
  induction es generalizing f with
  | nil =>
    refine ⟨fun _ => Iff.rfl, fun _ _ => rfl, fun q _ => ?_⟩
    simp [processEvents, reached, answers]
  | cons e es ih =>
    have hspec := eventSpec f e
    rcases hout : f.processEvent e with ⟨_ | ⟨⟨⟩⟩, f', effects⟩
    · rw [hout] at hspec
      have he : f.Aborts e := by
        by_contra he
        exact absurd (hspec.ok.mpr he) (by simp)
      rw [processEvents_cons_of_error hout]
      refine ⟨hspec.peers, fun q hq => ?_, fun q hq => ?_⟩
      · rw [hspec.pending, not_produced_of_aborts he hq, reached_cons_of_aborts he]
        rfl
      · rw [hspec.sent q hq, not_produced_of_aborts he hq, reached_cons_of_aborts he]
        rfl
    · rw [hout] at hspec
      have he : ¬ f.Aborts e := hspec.ok.mp rfl
      have ih := ih f'
      have hreached : ∀ q, produced q (f.reached (e :: es)) =
          produced q [e] ++ produced q (f'.reached es) := fun q => by
        rw [hspec.reached_cons he, produced_cons]
      rw [processEvents_cons_of_ok hout]
      refine ⟨fun q => (ih.peers q).trans (hspec.peers q), fun q hq => ?_, fun q hq => ?_⟩
      · rw [ih.pending q ((hspec.peers q).mpr hq), hspec.pending, hreached]
        split <;> split <;> simp_all
      · rw [sent_append, hspec.sent q hq, ih.sent q ((hspec.peers q).mpr hq), hspec.pending,
          hreached]
        exact answers_append _ (length_produced_singleton q e)

section Conservation

def pending (f : Filter T) : Multiset (T.PeerId × T.RequestId) := f.pendingInbound.entries

def closed (effects : List (FilterEffect T)) : Multiset (T.PeerId × T.RequestId) :=
  (responded effects).map fun r => (r.1, r.2.1)

theorem closed_append (es es' : List (FilterEffect T)) :
    closed (es ++ es') = closed es + closed es' := by
  simp [closed, responded_append]

/-- A request is responded to by taking it from the table, with a payload of a response event. -/
structure Conserves (f : Filter T) (es : List (ExecutorEvent T))
    (out : Except Error Unit × Filter T × List (FilterEffect T)) : Prop where
  pending : out.2.1.pending + closed out.2.2 ≤ f.pending
  payload : ∀ r ∈ responded out.2.2, .sendResponse r.1 r.2.2 ∈ es

theorem Conserves.of_same {es : List (ExecutorEvent T)}
    {out : Except Error Unit × Filter T × List (FilterEffect T)}
    (hp : out.2.1.pendingInbound = f.pendingInbound) (hr : responded out.2.2 = []) :
    Conserves f es out := by
  refine ⟨?_, by simp [hr]⟩
  simp [Filter.pending, closed, hp, hr]

theorem processEvent_conserves (f : Filter T) (e : ExecutorEvent T) :
    Conserves f [e] (f.processEvent e) := by
  cases e with
  | connect p => exact .of_same rfl rfl
  | forward peers protocol notification =>
    obtain ⟨-, hpending, hsent⟩ := forward_frame f protocol notification peers
    exact .of_same hpending hsent
  | sendRequest p protocol payload =>
    simp only [processEvent]
    cases f.peers.get? p with
    | none | some => exact .of_same rfl rfl
  | sendResponse p payload =>
    simp only [processEvent]
    cases hid : f.pendingInbound.get? p with
    | none => exact .of_same rfl rfl
    | some id =>
      have hperm : f.pending = (p, id) ::ₘ ↑(f.pendingInbound.erase p).entries :=
        Multiset.coe_eq_coe.mpr (Dict.perm_cons_erase hid)
      dsimp only
      cases f.peers.get? p with
      | none =>
        refine ⟨?_, by simp [responded]⟩
        rw [hperm]
        simp only [Filter.pending, closed, responded, List.filterMap_nil, List.map_nil,
          Multiset.coe_nil, add_zero]
        exact Multiset.le_cons_self _ _
      | some info =>
        refine ⟨?_, by simp [responded]⟩
        rw [hperm]
        simp [Filter.pending, closed, responded, ← Multiset.singleton_add, add_comm]

theorem processEvents_conserves (f : Filter T) (es : List (ExecutorEvent T)) :
    Conserves f es (f.processEvents es) := by
  induction es generalizing f with
  | nil => exact .of_same rfl rfl
  | cons e es ih =>
    have hone := processEvent_conserves f e
    rcases hout : f.processEvent e with ⟨_ | ⟨⟨⟩⟩, f', effects⟩
    · rw [hout] at hone
      rw [processEvents_cons_of_error hout]
      refine ⟨hone.pending, fun r hr => ?_⟩
      rw [List.mem_singleton.mp (hone.payload r hr)]
      exact List.mem_cons_self
    · rw [hout] at hone
      have ih := ih f'
      rw [processEvents_cons_of_ok hout]
      constructor
      · calc
          _ = ((f'.processEvents es).2.1.pending + closed (f'.processEvents es).2.2) +
              closed effects := by
                rw [closed_append, add_comm (closed effects), ← add_assoc]
          _ ≤ f'.pending + closed effects := add_le_add_left ih.pending _
          _ ≤ f.pending := hone.pending
      · intro r hr
        rw [responded_append, List.mem_append] at hr
        rcases hr with hr | hr
        · rw [List.mem_singleton.mp (hone.payload r hr)]
          exact List.mem_cons_self
        · exact List.mem_cons_of_mem _ (ih.payload r hr)

end Conservation

end SwarmHost.Filter
