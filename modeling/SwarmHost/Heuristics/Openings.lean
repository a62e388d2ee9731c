import SwarmHost.Heuristics.Reference

/-! # The interfaces that have a protocol open

The heuristics backend keeps, with the counters of a peer on a protocol, the interfaces
that have the protocol open. There are counters only once a message was counted, so an
opening that is reported before is lost.
-/

namespace SwarmHost

variable {T : NetworkBackend} (i : T.InterfaceId) (p : T.PeerId) (q : T.Protocol)

namespace HeuristicsEvent

def counts : HeuristicsEvent T → Prop
  | .messageReceived _ protocol peer _ => peer = p ∧ protocol = q
  | .messageSent _ protocol peers _ => p ∈ peers ∧ protocol = q
  | _ => False

def upgrade : HeuristicsEvent T → Option Bool
  | .openProtocol j peer protocol => if j = i ∧ peer = p ∧ protocol = q then some true else none
  | .closeProtocol j peer protocol => if j = i ∧ peer = p ∧ protocol = q then some false else none
  | _ => none

theorem upgrade_eq_some_true {e : HeuristicsEvent T} :
    e.upgrade i p q = some true ↔ e = .openProtocol i p q := by
  cases e <;> simp [upgrade]

end HeuristicsEvent

/-- What the heuristics backend has to learn about a protocol of a peer at an interface: a
registration of the peer, or an upgrade of the protocol there. -/
inductive Tidings where
  | registered
  | opened
  | closed
  deriving DecidableEq

def HeuristicsEvent.tidings : HeuristicsEvent T → Option Tidings
  | .registerPeer _ peer => if peer = p then some .registered else none
  | .openProtocol j peer protocol => if j = i ∧ peer = p ∧ protocol = q then some .opened else none
  | .closeProtocol j peer protocol => if j = i ∧ peer = p ∧ protocol = q then some .closed else none
  | _ => none

/-- The tidings among the reports, each with the number of reports before it. -/
def tidingsOf (events : List (HeuristicsEvent T)) : List (Tidings × ℕ) :=
  events.zipIdx.filterMap fun (e, n) => (e.tidings i p q).map (·, n)

/-- The last upgrade is an opening, and before it a message of the peer on the protocol was reported
after a registration of the peer. -/
def OpenedAfterMessage (tidings : List (Tidings × ℕ)) (reports : List (HeuristicsEvent T)) : Prop :=
  ∃ n, (tidings.filter (·.1 ≠ .registered)).getLast? = some (.opened, n) ∧
    ∃ k e, reports[k]? = some e ∧ e.counts p q ∧ k < n ∧ ∃ m < k, (.registered, m) ∈ tidings

/-- A message of the peer on the protocol was reported after a registration of the peer. -/
def Counted (events : List (HeuristicsEvent T)) : Prop :=
  ∃ before e after, events = before ++ e :: after ∧ e.counts p q ∧
    ∃ j, .registerPeer j p ∈ before

/-- The last report about the protocol at the interface is an opening, and it came after a message
was counted. -/
def Opened (events : List (HeuristicsEvent T)) : Prop :=
  ∃ before after, events = before ++ .openProtocol i p q :: after ∧
    (∀ e ∈ after, e.upgrade i p q = none) ∧ Counted p q before

section Histories

variable {i p q} {events : List (HeuristicsEvent T)} {e : HeuristicsEvent T}

theorem not_counted_nil : ¬ Counted p q ([] : List (HeuristicsEvent T)) := by
  rintro ⟨before, e, after, h, -⟩
  simp at h

theorem not_opened_nil : ¬ Opened i p q ([] : List (HeuristicsEvent T)) := by
  rintro ⟨before, after, h, -⟩
  simp at h

theorem counted_concat : Counted p q (events ++ [e]) ↔
    Counted p q events ∨ e.counts p q ∧ ∃ j, .registerPeer j p ∈ events := by
  constructor
  · rintro ⟨before, e', after, h, hcounts, hreg⟩
    rcases List.eq_nil_or_concat after with rfl | ⟨after, last, rfl⟩
    · obtain ⟨rfl, heq⟩ := List.append_inj' h rfl
      cases heq
      exact .inr ⟨hcounts, hreg⟩
    · rw [List.concat_eq_append, ← List.cons_append, ← List.append_assoc] at h
      obtain ⟨rfl, -⟩ := List.append_inj' h rfl
      exact .inl ⟨before, e', after, rfl, hcounts, hreg⟩
  · rintro (⟨before, e', after, rfl, hcounts, hreg⟩ | ⟨hcounts, hreg⟩)
    · exact ⟨before, e', after ++ [e], by simp, hcounts, hreg⟩
    · exact ⟨events, e, [], rfl, hcounts, hreg⟩

theorem opened_concat : Opened i p q (events ++ [e]) ↔
    (e.upgrade i p q).elim (Opened i p q events) (· = true ∧ Counted p q events) := by
  constructor
  · rintro ⟨before, after, h, hafter, hcounted⟩
    rcases List.eq_nil_or_concat after with rfl | ⟨after, last, rfl⟩
    · obtain ⟨rfl, heq⟩ := List.append_inj' h rfl
      cases heq
      simpa [HeuristicsEvent.upgrade] using hcounted
    · rw [List.concat_eq_append, ← List.cons_append, ← List.append_assoc] at h
      obtain ⟨rfl, heq⟩ := List.append_inj' h rfl
      cases heq
      rw [hafter e (by simp)]
      exact ⟨before, after, rfl, fun e' he' => hafter e' (by simp [he']), hcounted⟩
  · intro h
    cases hupgrade : e.upgrade i p q with
    | none =>
      rw [hupgrade] at h
      obtain ⟨before, after, rfl, hafter, hcounted⟩ := h
      refine ⟨before, after ++ [e], by simp, ?_, hcounted⟩
      intro e' he'
      rcases List.mem_append.mp he' with he' | he'
      · exact hafter e' he'
      · rw [List.mem_singleton.mp he', hupgrade]
    | some opens =>
      rw [hupgrade] at h
      obtain ⟨rfl, hcounted⟩ := h
      obtain rfl := (HeuristicsEvent.upgrade_eq_some_true i p q).mp hupgrade
      exact ⟨events, [], rfl, by simp, hcounted⟩

theorem tidingsOf_concat : tidingsOf i p q (events ++ [e]) =
    tidingsOf i p q events ++ ((e.tidings i p q).map (·, events.length)).toList := by
  rw [tidingsOf, tidingsOf, List.zipIdx_append, List.filterMap_append]
  cases h : e.tidings i p q <;> simp [h]

theorem mem_tidingsOf {x : Tidings} {n : ℕ} : (x, n) ∈ tidingsOf i p q events ↔
    ∃ e, events[n]? = some e ∧ e.tidings i p q = some x := by
  simp [tidingsOf, List.mem_zipIdx_iff_getElem?]

theorem registered_mem_tidingsOf {n : ℕ} : (.registered, n) ∈ tidingsOf i p q events ↔
    ∃ j, events[n]? = some (.registerPeer j p) := by
  rw [mem_tidingsOf]
  constructor
  · rintro ⟨e, he, htidings⟩
    cases e with
    | registerPeer j peer =>
      obtain ⟨rfl, -⟩ := Option.ite_none_right_eq_some.mp htidings
      exact ⟨j, he⟩
    | _ => simp [HeuristicsEvent.tidings] at htidings
  · rintro ⟨j, he⟩
    exact ⟨_, he, if_pos rfl⟩

theorem counted_iff : Counted p q events ↔ ∃ k e, events[k]? = some e ∧ e.counts p q ∧
    ∃ m < k, (.registered, m) ∈ tidingsOf i p q events := by
  simp only [registered_mem_tidingsOf]
  constructor
  · rintro ⟨before, e, after, rfl, hcounts, j, hreg⟩
    obtain ⟨m, hm⟩ := List.getElem?_of_mem hreg
    obtain ⟨hlt, -⟩ := List.getElem?_eq_some_iff.mp hm
    refine ⟨before.length, e, by simp, hcounts, m, hlt, j, ?_⟩
    rw [List.getElem?_append_left hlt, hm]
  · rintro ⟨k, e, hk, hcounts, m, hm, j, hreg⟩
    obtain ⟨hlt, rfl⟩ := List.getElem?_eq_some_iff.mp hk
    refine ⟨events.take k, _, events.drop (k + 1), ?_, hcounts, j, ?_⟩
    · rw [← List.drop_eq_getElem_cons hlt, List.take_append_drop]
    · exact List.mem_of_getElem? ((List.getElem?_take_of_lt hm).trans hreg)

theorem upgrade_eq_tidings (e : HeuristicsEvent T) : e.upgrade i p q =
    (e.tidings i p q).bind fun x => if x = .registered then none else some (x == .opened) := by
  cases e with
  | registerPeer j peer => by_cases h : peer = p <;> simp [HeuristicsEvent.upgrade,
      HeuristicsEvent.tidings, h]
  | openProtocol j peer protocol | closeProtocol j peer protocol =>
    by_cases h : j = i ∧ peer = p ∧ protocol = q <;>
      simp [HeuristicsEvent.upgrade, HeuristicsEvent.tidings, h]
  | _ => rfl

/-- The reports after the last upgrade make no difference. -/
theorem openedAfterMessage_concat {tidings : List (Tidings × ℕ)} (extra : List (Tidings × ℕ))
    (hn : ∀ x n, (x, n) ∈ tidings → n < events.length)
    (hextra : ∀ x n, (x, n) ∈ extra → x = .registered ∧ n = events.length) :
    OpenedAfterMessage p q (tidings ++ extra) (events ++ [e]) ↔
      OpenedAfterMessage p q tidings events := by
  have hfilter : (tidings ++ extra).filter (·.1 ≠ .registered) =
      tidings.filter (·.1 ≠ .registered) := by
    have hnil : extra.filter (·.1 ≠ .registered) = [] := by
      rw [List.filter_eq_nil_iff]
      rintro ⟨x, n⟩ hx
      simp [(hextra x n hx).1]
    rw [List.filter_append, hnil, List.append_nil]
  rw [OpenedAfterMessage, OpenedAfterMessage, hfilter]
  refine exists_congr fun n => and_congr_right fun hlast => ?_
  have hlt : n < events.length := hn _ _ (List.mem_filter.mp (List.mem_of_getLast? hlast)).1
  refine exists_congr fun k => exists_congr fun e' => ?_
  constructor
  · rintro ⟨he, hcounts, hk, m, hm, hreg⟩
    rw [List.getElem?_append_left (hk.trans hlt)] at he
    refine ⟨he, hcounts, hk, m, hm, (List.mem_append.mp hreg).resolve_right fun hmem => ?_⟩
    have := (hextra _ _ hmem).2
    omega
  · rintro ⟨he, hcounts, hk, m, hm, hreg⟩
    refine ⟨?_, hcounts, hk, m, hm, List.mem_append_left _ hreg⟩
    rw [List.getElem?_append_left (hk.trans hlt), he]

theorem opened_iff : Opened i p q events ↔
    OpenedAfterMessage p q (tidingsOf i p q events) events := by
  induction events using List.reverseRecOn with
  | nil =>
    refine iff_of_false not_opened_nil ?_
    rintro ⟨n, hlast, -⟩
    cases hlast
  | append_singleton events e ih =>
    have hn : ∀ x n, (x, n) ∈ tidingsOf i p q events → n < events.length := by
      intro x n hx
      obtain ⟨e', he', -⟩ := mem_tidingsOf.mp hx
      exact (List.getElem?_eq_some_iff.mp he').1
    rw [opened_concat, upgrade_eq_tidings, tidingsOf_concat]
    cases htidings : e.tidings i p q with
    | none => simpa [ih] using (openedAfterMessage_concat [] hn (by simp)).symm
    | some x =>
      cases x with
      | registered =>
        simpa [ih] using (openedAfterMessage_concat [(.registered, events.length)] hn
          (by simp)).symm
      | opened =>
        have hlast : ∀ n, ((tidingsOf i p q events ++ [(Tidings.opened, events.length)]).filter
            (·.1 ≠ .registered)).getLast? = some (.opened, n) ↔ events.length = n := by
          simp [List.filter_append]
        simp only [OpenedAfterMessage, Option.bind_some, reduceCtorEq, if_false, beq_self_eq_true,
          Option.elim_some, true_and, Option.map_some, Option.toList_some, hlast, exists_eq_left',
          counted_iff (i := i)]
        refine exists_congr fun k => exists_congr fun e' => ?_
        constructor
        · rintro ⟨he, hcounts, m, hm, hreg⟩
          have hk : k < events.length := (List.getElem?_eq_some_iff.mp he).1
          refine ⟨?_, hcounts, hk, m, hm, List.mem_append_left _ hreg⟩
          rw [List.getElem?_append_left hk, he]
        · rintro ⟨he, hcounts, hk, m, hm, hreg⟩
          rw [List.getElem?_append_left hk] at he
          exact ⟨he, hcounts, m, hm, by simpa using hreg⟩
      | closed => simp [OpenedAfterMessage, List.filter_append]

end Histories

namespace PeerHeuristics

variable (info : PeerHeuristics T) (protocol : T.Protocol) (message : MessageInfo)

theorem interfaces_registerMessageReceived :
    ((info.registerMessageReceived protocol message).entry q).interfaces =
      (info.entry q).interfaces := by
  simp only [registerMessageReceived, entry, Dict.get?_insert]
  split
  · subst protocol
    rfl
  · rfl

theorem interfaces_registerMessageSent :
    ((info.registerMessageSent protocol message).entry q).interfaces =
      (info.entry q).interfaces := by
  simp only [registerMessageSent, entry, Dict.get?_insert]
  split
  · subst protocol
    rfl
  · rfl

end PeerHeuristics

namespace HeuristicsBackend

def Tracks (b : HeuristicsBackend T) : Prop := ∃ info ∈ b.peers.get? p, q ∈ info.protocols

instance (b : HeuristicsBackend T) : Decidable (b.Tracks p q) :=
  inferInstanceAs (Decidable (∃ info ∈ b.peers.get? p, q ∈ info.protocols))

variable {i p q} {b : HeuristicsBackend T}

theorem tracks_modify {r : T.PeerId} {f : PeerHeuristics T → PeerHeuristics T}
    (hf : ∀ info, q ∈ (f info).protocols ↔ q ∈ info.protocols) :
    Tracks p q ⟨b.peers.modify r f⟩ ↔ b.Tracks p q := by
  simp only [Tracks, Dict.get?_modify]
  split
  · subst r
    cases b.peers.get? p with
    | none => simp
    | some info => simp [hf]
  · rfl

theorem tracks_registerMessage {r : T.PeerId} {protocol : T.Protocol}
    {f : PeerHeuristics T → PeerHeuristics T}
    (hf : ∀ info, q ∈ (f info).protocols ↔ q = protocol ∨ q ∈ info.protocols) :
    Tracks p q ⟨b.peers.modify r f⟩ ↔
      b.Tracks p q ∨ (r = p ∧ protocol = q) ∧ p ∈ b.peers := by
  simp only [Tracks, Dict.get?_modify]
  by_cases hr : p = r
  · subst r
    cases hp : b.peers.get? p with
    | none => simp [Dict.mem_iff_isSome, hp]
    | some info =>
      have hcomm : protocol = q ↔ q = protocol := eq_comm
      have hmem : p ∈ b.peers := Dict.mem_of_get? hp
      simp [hf, hcomm, hmem, or_comm]
  · simp [hr, Ne.symm hr]

theorem tracks_messagesSent {protocol : T.Protocol} {info : MessageInfo} {peers : List T.PeerId} :
    Tracks p q
        ⟨peers.foldl (fun d r => d.modify r (·.registerMessageSent protocol info)) b.peers⟩ ↔
      b.Tracks p q ∨ (p ∈ peers ∧ protocol = q) ∧ p ∈ b.peers := by
  induction peers generalizing b with
  | nil => simp
  | cons r peers ih =>
    have hone : Tracks p q ⟨b.peers.modify r (·.registerMessageSent protocol info)⟩ ↔
        b.Tracks p q ∨ (r = p ∧ protocol = q) ∧ p ∈ b.peers :=
      tracks_registerMessage fun info => by simp [PeerHeuristics.registerMessageSent]
    have hrest := ih (b := ⟨b.peers.modify r (·.registerMessageSent protocol info)⟩)
    rw [List.foldl_cons, hrest, hone, Dict.mem_modify, List.mem_cons, eq_comm (a := p) (b := r)]
    tauto

theorem tracks_handleEvent (e : HeuristicsEvent T) :
    (b.handleEvent e).Tracks p q ↔ b.Tracks p q ∨ e.counts p q ∧ p ∈ b.peers := by
  cases e with
  | linkInterfaces => simp [handleEvent, HeuristicsEvent.counts]
  | registerPeer j r =>
    simp only [handleEvent, Tracks, Dict.get?_insert, HeuristicsEvent.counts, false_and, or_false]
    split
    · subst r
      cases b.peers.get? p <;> simp
    · rfl
  | unregisterPeer j r =>
    simp only [HeuristicsEvent.counts, false_and, or_false]
    exact tracks_modify fun info => Iff.rfl
  | messageReceived j protocol r info =>
    exact tracks_registerMessage fun info => by simp [PeerHeuristics.registerMessageReceived]
  | messageSent j protocol peers info => exact tracks_messagesSent
  | openProtocol j r protocol | closeProtocol j r protocol =>
    simp only [HeuristicsEvent.counts, false_and, or_false]
    exact tracks_modify fun info => Dict.mem_modify

theorem interfaces_messagesSent (b : HeuristicsBackend T) (protocol : T.Protocol)
    (info : MessageInfo) (peers : List T.PeerId) :
    (counters ⟨peers.foldl (fun d r => d.modify r (·.registerMessageSent protocol info)) b.peers⟩
      p q).interfaces = (b.counters p q).interfaces := by
  induction peers generalizing b with
  | nil => rfl
  | cons r peers ih =>
    rw [List.foldl_cons]
    apply (ih ⟨_⟩).trans
    exact counters_modify b p q MessageHeuristics.interfaces fun peer =>
      peer.interfaces_registerMessageSent q protocol info

theorem tracks_of_mem_interfaces (h : i ∈ (b.counters p q).interfaces) : b.Tracks p q := by
  unfold counters at h
  cases hp : b.peers.get? p with
  | none => simp [hp, MessageHeuristics.new] at h
  | some info =>
    refine ⟨info, hp, ?_⟩
    rw [Dict.mem_iff_isSome]
    cases hq : info.protocols.get? q with
    | none => simp [hp, PeerHeuristics.entry, hq, MessageHeuristics.new] at h
    | some m => rfl

theorem mem_interfaces_modifyInterfaces {r : T.PeerId} {protocol : T.Protocol}
    {change : Finset T.InterfaceId → Finset T.InterfaceId} :
    i ∈ ((b.modifyInterfaces r protocol change).counters p q).interfaces ↔
      if r = p ∧ protocol = q then b.Tracks p q ∧ i ∈ change (b.counters p q).interfaces
      else i ∈ (b.counters p q).interfaces := by
  simp only [counters, modifyInterfaces, Dict.get?_modify, Tracks]
  by_cases hr : p = r
  · subst r
    cases b.peers.get? p with
    | none => simp [MessageHeuristics.new]
    | some info =>
      simp only [if_true, Option.map_some, Option.elim_some, PeerHeuristics.entry,
        Dict.get?_modify, true_and, Option.mem_some_iff, exists_eq_left', Dict.mem_iff_isSome]
      by_cases hq : q = protocol
      · subst protocol
        cases info.protocols.get? q <;> simp [MessageHeuristics.new]
      · simp [hq, Ne.symm hq]
  · simp [hr, Ne.symm hr]

theorem mem_interfaces_counters (e : HeuristicsEvent T) :
    i ∈ ((b.handleEvent e).counters p q).interfaces ↔
      (e.upgrade i p q).elim (i ∈ (b.counters p q).interfaces) (· = true ∧ b.Tracks p q) := by
  cases e with
  | linkInterfaces => rfl
  | registerPeer j r =>
    rw [counters_registerPeer]
    rfl
  | unregisterPeer j r =>
    exact iff_of_eq (counters_modify b p q (i ∈ ·.interfaces) fun _ => rfl)
  | messageReceived j protocol r info =>
    refine iff_of_eq (counters_modify b p q (i ∈ ·.interfaces) fun peer => ?_)
    exact congrArg (i ∈ ·) (peer.interfaces_registerMessageReceived q protocol info)
  | messageSent j protocol peers info =>
    exact iff_of_eq (congrArg (i ∈ ·) (interfaces_messagesSent b protocol info peers))
  | openProtocol j r protocol | closeProtocol j r protocol =>
    refine mem_interfaces_modifyInterfaces.trans ?_
    simp only [HeuristicsEvent.upgrade]
    by_cases hrq : r = p ∧ protocol = q
    · by_cases hj : j = i
      · simp [hj, hrq]
      · simpa [hj, hrq, Ne.symm hj] using tracks_of_mem_interfaces
    · simp [hrq]

/-- The interface is among those of the counters iff the last report was an opening that could be
recorded. -/
theorem mem_interfaces_foldl_iff (events : List (HeuristicsEvent T)) :
    ((events.foldl handleEvent new).Tracks p q ↔ Counted p q events) ∧
      (i ∈ ((events.foldl handleEvent new).counters p q).interfaces ↔ Opened i p q events) := by
  induction events using List.reverseRecOn with
  | nil =>
    refine ⟨iff_of_false ?_ not_counted_nil, iff_of_false ?_ not_opened_nil⟩
    · simp [Tracks, new]
    · simp [counters, new, MessageHeuristics.new]
  | append_singleton events e ih =>
    obtain ⟨htracks, hmem⟩ := ih
    rw [List.foldl_concat, tracks_handleEvent, mem_interfaces_counters, counted_concat,
      opened_concat, htracks, hmem]
    refine ⟨?_, Iff.rfl⟩
    rw [mem_foldl_iff_exists]

end HeuristicsBackend

end SwarmHost
