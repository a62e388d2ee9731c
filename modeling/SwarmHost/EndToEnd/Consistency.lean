import Mathlib.Tactic.Abel
import SwarmHost.EndToEnd.Basic

/-! # Requests and responses under way

Every request identifier is in one place at a time: announced, on its way to the
filter, in the table of pending requests or in a response on its way back. A
state is consistent if this holds and the network has a response channel for
every identifier under way; moving requests along keeps a state consistent.
-/

namespace SwarmHost.EndToEnd

open Substrate

section Tokens

variable {env : Environment}

def eventRequest : NetworkEvent → Option (PeerId × ℕ)
  | .requestReceived peer _ requestId _ => some (peer, requestId)
  | _ => none

def taskRequest : Task → Option (PeerId × ℕ)
  | .emit event => eventRequest event
  | .remember .. => none

def key (r : PeerId × Request) : PeerId × ℕ := (r.1, r.2.id)

def interfaceRequests (i : ℕ) (event : InterfaceEvent (substrate env)) : List (PeerId × ℕ) :=
  (Overseer.reported i (.interfaceEvent event)).map key

def commandResponse : Command → Option (ℕ × Bytes)
  | .sendResponse _ requestId response => some (requestId, response)
  | _ => none

def announcing (tasks : List Task) : Multiset (PeerId × ℕ) := tasks.filterMap taskRequest

def announced (events : List NetworkEvent) : Multiset (PeerId × ℕ) := events.filterMap eventRequest

def reporting (i : ℕ) (events : List (InterfaceEvent (substrate env))) :
    Multiset (PeerId × ℕ) := events.flatMap (interfaceRequests i)

def queued (commands : List (FilterCommand (substrate env))) : Multiset (PeerId × ℕ) :=
  (requests commands).map key

def responding (effects : List (FilterEffect (substrate env))) : Multiset (ℕ × Bytes) :=
  (Filter.responded effects).map Prod.snd

def commanded (commands : List Command) : Multiset (ℕ × Bytes) :=
  commands.filterMap commandResponse

theorem announcing_emit (event : NetworkEvent) (tasks : List Task) :
    announcing (.emit event :: tasks) = announced [event] + announcing tasks := by
  simp only [announcing, announced, Multiset.coe_add]
  congr 1
  cases hr : eventRequest event <;> simp [taskRequest, hr]

theorem announced_append (l l' : List NetworkEvent) :
    announced (l ++ l') = announced l + announced l' := by
  simp [announced]

theorem reporting_append (i : ℕ) (l l' : List (InterfaceEvent (substrate env))) :
    reporting i (l ++ l') = reporting i l + reporting i l' := by
  simp [reporting]

theorem queued_append (l l' : List (FilterCommand (substrate env))) :
    queued (l ++ l') = queued l + queued l' := by
  simp [queued, requests_append]

theorem queued_le_of_sublist {l l' : List (FilterCommand (substrate env))} (hl : l.Sublist l') :
    queued l ≤ queued l' :=
  Multiset.coe_le.mpr ((hl.filterMap _).map _).subperm

theorem responding_cons (effect : FilterEffect (substrate env))
    (effects : List (FilterEffect (substrate env))) :
    responding (effect :: effects) =
      commanded (toCommand effect).toList + responding effects := by
  simp only [responding, commanded, Multiset.coe_add]
  cases effect <;> rfl

theorem commanded_append (l l' : List Command) :
    commanded (l ++ l') = commanded l + commanded l' := by
  simp [commanded]

theorem reporting_toInterfaceEvent (i : ℕ) (event : NetworkEvent) :
    reporting i [(toInterfaceEvent i event : InterfaceEvent (substrate env))] =
      announced [event] := by
  cases event with
  | requestReceived =>
    simp [reporting, interfaceRequests, toInterfaceEvent, Overseer.reported, key, announced,
      eventRequest]
  | _ => rfl

theorem injected_command (command : FilterCommand (substrate env)) :
    ((Filter.injected (.command command)).toList : Multiset (PeerId × ℕ)) = queued [command] := by
  cases command <;> rfl

theorem reported_of_foreign {i : ℕ} {call : Call (substrate env)} (h : foreign i call) :
    Overseer.reported i call = [] := by
  cases call with
  | interfaceEvent event =>
    cases event with
    | requestReceived j peer protocol request =>
      have hne : j ≠ i := by simpa [foreign, concerns] using h
      simp [Overseer.reported, hne]
    | _ => rfl
  | _ => rfl

theorem map_fst_responding (effects : List (FilterEffect (substrate env))) :
    (responding effects).map Prod.fst = (Filter.closed effects).map Prod.snd := by
  simp [responding, Filter.closed, Function.comp_def]

theorem mem_responses {events : List (ExecutorEvent (substrate env))} {peer : PeerId}
    {payload : Bytes} (he : .sendResponse peer payload ∈ events) :
    (peer, payload) ∈ responses events :=
  List.mem_filterMap.mpr ⟨_, he, rfl⟩

end Tokens

namespace System

variable {h : Host} {s s' : System h}

/-- The requests on their way to an answer of the filter. -/
def inflight (s : System h) : Multiset (PeerId × ℕ) :=
  announcing s.tasks + announced s.events + reporting h.interface s.forwarding.toList +
    reporting h.interface s.stream + queued ((s.overseer.queue h.interface).drop s.taken) +
    s.filter.pending

/-- The responses on their way back to the network. -/
def outgoing (s : System h) : Multiset (ℕ × Bytes) :=
  responding s.outbox + commanded s.commands

/-- The request identifiers under way. -/
def ids (s : System h) : Multiset ℕ := s.inflight.map Prod.snd + s.outgoing.map Prod.fst

/-- The network has, or is about to store, the response channel of the request. -/
def Holds (s : System h) (requestId channel : ℕ) : Prop :=
  ∃ digest, s.network.pendingRequests.get? requestId = some (digest, channel) ∨
    .remember requestId digest channel ∈ s.tasks

def Hosted (s : System h) : Prop := h.interface ∈ s.overseer.interfaces

/-- What holds between the tasks and the log in every state. -/
structure Consistent (s : System h) : Prop where
  hosted : s.Hosted
  issued : s.issued = List.range s.network.nextRequestId
  received_lt : ∀ r ∈ s.received, r.requestId < s.network.nextRequestId
  received_nodup : (s.received.map Inbound.requestId).Nodup
  answered : ∀ id ∈ s.answered, ∃ r ∈ s.received, r.requestId = id
  ids_nodup : (s.ids + (s.answered : Multiset ℕ)).Nodup
  inflight : ∀ r ∈ s.inflight, ⟨r.1, r.2⟩ ∈ s.received
  outgoing : ∀ r ∈ s.outgoing, ∃ p, ⟨p, r.1⟩ ∈ s.received ∧ (p, r.2) ∈ s.produced
  holds : ∀ id ∈ s.ids, ∃ channel, s.Holds id channel
  channel : ∀ id channel, s.Holds id channel →
    ∃ r, s.received[channel]? = some r ∧ r.requestId = id
  delivered : ∀ d ∈ s.delivered, ∃ r, s.received[d.1]? = some r ∧ r.requestId ∈ s.answered ∧
    (r.peer, d.2) ∈ s.produced
  delivered_nodup : (s.delivered.map Prod.fst).Nodup

theorem inflight_start (o : Overseer (substrate h.env))
    {info : InterfaceInfo (substrate h.env)} (ho : o.interfaces.get? h.interface = some info)
    (hq : info.filter = []) : (start h o).inflight = 0 := by
  have hempty : o.queue h.interface = [] := by simp [Overseer.queue, ho, hq]
  simp only [inflight, start, hempty]
  rfl

theorem consistent_start (o : Overseer (substrate h.env)) {info : InterfaceInfo (substrate h.env)}
    (ho : o.interfaces.get? h.interface = some info) (hq : info.filter = []) :
    Consistent (start h o) := by
  have hin := inflight_start o ho hq
  have hout : (start h o).outgoing = 0 := rfl
  have hids : (start h o).ids = 0 := by rw [ids, hin, hout]; rfl
  exact {
    hosted := Dict.mem_of_get? ho
    issued := rfl
    received_lt := fun _ hr => by cases hr
    received_nodup := List.nodup_nil
    answered := fun _ hid => by cases hid
    ids_nodup := by rw [hids]; exact Multiset.nodup_zero
    inflight := by rw [hin]; simp
    outgoing := by rw [hout]; simp
    holds := by rw [hids]; simp
    channel := by
      rintro id channel ⟨digest, hget | hmem⟩
      · cases hget
      · cases hmem
    delivered := fun _ hd => by cases hd
    delivered_nodup := List.nodup_nil }

/-- The log of requests and responses and the response channels are the same. -/
structure Keeps (s s' : System h) : Prop where
  received : s'.received = s.received
  produced : ∀ r ∈ s.produced, r ∈ s'.produced
  answered : s'.answered = s.answered
  delivered : s'.delivered = s.delivered
  holds : ∀ id channel, s'.Holds id channel ↔ s.Holds id channel
  hosted : s.Hosted → s'.Hosted

theorem Keeps.of_same (hr : s'.received = s.received)
    (hp : ∀ r ∈ s.produced, r ∈ s'.produced) (ha : s'.answered = s.answered)
    (hd : s'.delivered = s.delivered)
    (hn : s'.network.pendingRequests = s.network.pendingRequests)
    (ht : ∀ id digest channel, .remember id digest channel ∈ s'.tasks ↔
      .remember id digest channel ∈ s.tasks)
    (ho : s'.overseer = s.overseer) : Keeps s s' :=
  ⟨hr, hp, ha, hd, fun id channel => by simp only [Holds, hn, ht], fun hs => by
    rw [Hosted, ho]
    exact hs⟩

theorem Keeps.of_network (hn : s'.network = s.network) (ht : s'.tasks = s.tasks)
    (hr : s'.received = s.received) (hp : ∀ r ∈ s.produced, r ∈ s'.produced)
    (ha : s'.answered = s.answered) (hd : s'.delivered = s.delivered)
    (ho : s.Hosted → s'.Hosted) : Keeps s s' :=
  ⟨hr, hp, ha, hd, fun _ _ => by simp only [Holds, hn, ht], ho⟩

theorem Consistent.of_keeps (hs : Consistent s) (hk : Keeps s s')
    (hi : s'.issued = List.range s'.network.nextRequestId)
    (hn : s.network.nextRequestId ≤ s'.network.nextRequestId)
    (hids : s'.ids ≤ s.ids) (hin : ∀ r ∈ s'.inflight, r ∈ s.inflight)
    (hout : ∀ r ∈ s'.outgoing, r ∈ s.outgoing ∨
      ∃ p, (p, r.1) ∈ s.inflight ∧ (p, r.2) ∈ s'.produced) : Consistent s' where
  hosted := hk.hosted hs.hosted
  issued := hi
  received_lt r hr := (hs.received_lt r (hk.received ▸ hr)).trans_le hn
  received_nodup := hk.received ▸ hs.received_nodup
  answered := by
    rw [hk.answered, hk.received]
    exact hs.answered
  ids_nodup := by
    rw [hk.answered]
    exact Multiset.nodup_of_le (add_le_add_left hids _) hs.ids_nodup
  inflight r hr := hk.received ▸ hs.inflight r (hin r hr)
  outgoing r hr := by
    rw [hk.received]
    rcases hout r hr with hr | ⟨p, hp, hpayload⟩
    · obtain ⟨p, hp, hpayload⟩ := hs.outgoing r hr
      exact ⟨p, hp, hk.produced _ hpayload⟩
    · exact ⟨p, hs.inflight _ hp, hpayload⟩
  holds id hid := by
    obtain ⟨channel, hc⟩ := hs.holds id (Multiset.mem_of_le hids hid)
    exact ⟨channel, (hk.holds id channel).mpr hc⟩
  channel id channel hc := by
    rw [hk.received]
    exact hs.channel id channel ((hk.holds id channel).mp hc)
  delivered := by
    rw [hk.delivered, hk.received, hk.answered]
    intro d hd
    obtain ⟨r, hr, ha, hp⟩ := hs.delivered d hd
    exact ⟨r, hr, ha, hk.produced _ hp⟩
  delivered_nodup := hk.delivered ▸ hs.delivered_nodup

theorem Consistent.of_moved (hs : Consistent s) (hk : Keeps s s')
    (hi : s'.issued = s.issued) (hn : s'.network.nextRequestId = s.network.nextRequestId)
    (hin : s'.inflight ≤ s.inflight) (hout : s'.outgoing = s.outgoing) : Consistent s' := by
  refine hs.of_keeps hk (by rw [hi, hn, hs.issued]) hn.ge ?_ ?_ ?_
  · rw [ids, ids, hout]
    exact add_le_add_left (Multiset.map_le_map hin) _
  · exact fun r hr => Multiset.mem_of_le hin hr
  · rw [hout]
    exact fun r hr => Or.inl hr

theorem Consistent.stored (hs : Consistent s) (ht : s.tasks = []) {id : ℕ} (hid : id ∈ s.ids) :
    id ∉ s.answered ∧ ∃ digest channel r,
      s.network.pendingRequests.get? id = some (digest, channel) ∧
      s.received[channel]? = some r ∧ r.requestId = id := by
  refine ⟨fun ha => Multiset.disjoint_left.mp (Multiset.disjoint_of_nodup_add hs.ids_nodup) hid
    ha, ?_⟩
  obtain ⟨channel, digest, hget | hmem⟩ := hs.holds id hid
  · obtain ⟨r, hr, hrid⟩ := hs.channel id channel ⟨digest, Or.inl hget⟩
    exact ⟨digest, channel, r, hget, hr, hrid⟩
  · rw [ht] at hmem
    cases hmem

theorem Consistent.ids_lt (hs : Consistent s) {id : ℕ} (hid : id ∈ s.ids) :
    id < s.network.nextRequestId := by
  obtain ⟨channel, hc⟩ := hs.holds id hid
  obtain ⟨r, hr, rfl⟩ := hs.channel id channel hc
  exact hs.received_lt r (List.mem_of_getElem? hr)

theorem Consistent.answered_lt (hs : Consistent s) {id : ℕ} (hid : id ∈ s.answered) :
    id < s.network.nextRequestId := by
  obtain ⟨r, hr, rfl⟩ := hs.answered id hid
  exact hs.received_lt r hr

theorem Consistent.unique (hs : Consistent s) {r r' : Inbound} (hr : r ∈ s.received)
    (hr' : r' ∈ s.received) (heq : r.requestId = r'.requestId) : r = r' :=
  List.inj_on_of_nodup_map hs.received_nodup hr hr' heq

theorem Consistent.channel_unique (hs : Consistent s) {id c c' : ℕ} (hc : s.Holds id c)
    (hc' : s.Holds id c') : c = c' := by
  obtain ⟨r, hr, hrid⟩ := hs.channel id c hc
  obtain ⟨r', hr', hrid'⟩ := hs.channel id c' hc'
  have hlt : c < (s.received.map Inbound.requestId).length := by
    rw [List.length_map]
    exact (List.getElem?_eq_some_iff.mp hr).1
  refine (List.getElem?_inj hlt hs.received_nodup).mp ?_
  rw [List.getElem?_map, List.getElem?_map, hr, hr', Option.map_some, Option.map_some, hrid, hrid']

theorem Consistent.fresh (hs : Consistent s) :
    s.network.nextRequestId ∉ s.received.map Inbound.requestId ∧
      s.network.nextRequestId ∉ s.ids + (s.answered : Multiset ℕ) := by
  constructor
  · intro hmem
    obtain ⟨r, hr, heq⟩ := List.mem_map.mp hmem
    exact absurd heq (hs.received_lt r hr).ne
  · intro hmem
    rcases Multiset.mem_add.mp hmem with hmem | hmem
    · exact absurd rfl (hs.ids_lt hmem).ne
    · exact absurd rfl (hs.answered_lt hmem).ne

/-- A request comes in under the next identifier, with a channel at the end of the log. -/
structure Admits (s s' : System h) (peer : PeerId) : Prop where
  received : s'.received = s.received ++ [⟨peer, s.network.nextRequestId⟩]
  next : s'.network.nextRequestId = s.network.nextRequestId + 1
  issued : s'.issued = s.issued ++ [s.network.nextRequestId]
  inflight : s'.inflight = (peer, s.network.nextRequestId) ::ₘ s.inflight
  outgoing : s'.outgoing = s.outgoing
  produced : s'.produced = s.produced
  answered : s'.answered = s.answered
  delivered : s'.delivered = s.delivered
  holds : ∀ id channel, s'.Holds id channel ↔
    s.Holds id channel ∨ id = s.network.nextRequestId ∧ channel = s.received.length
  hosted : s.Hosted → s'.Hosted

theorem Admits.ids {peer : PeerId} (ha : Admits s s' peer) :
    s'.ids = s.network.nextRequestId ::ₘ s.ids := by
  rw [System.ids, ha.inflight, ha.outgoing, Multiset.map_cons, Multiset.cons_add, System.ids]

theorem Admits.mem_received {peer : PeerId} (ha : Admits s s' peer) {r : Inbound}
    (hr : r ∈ s.received) : r ∈ s'.received := by
  rw [ha.received]
  exact List.mem_append_left _ hr

theorem Admits.getElem? {peer : PeerId} (ha : Admits s s' peer) {n : ℕ} {r : Inbound}
    (hr : s.received[n]? = some r) : s'.received[n]? = some r := by
  rw [ha.received, List.getElem?_append_left (List.getElem?_eq_some_iff.mp hr).1, hr]

theorem Consistent.of_admits (hs : Consistent s) {peer : PeerId} (ha : Admits s s' peer) :
    Consistent s' where
  hosted := ha.hosted hs.hosted
  issued := by rw [ha.issued, ha.next, List.range_succ, ← hs.issued]
  received_lt := by
    rw [ha.received, ha.next]
    intro r hr
    rcases List.mem_append.mp hr with hr | hr
    · exact (hs.received_lt r hr).trans (Nat.lt_succ_self _)
    · rw [List.mem_singleton.mp hr]
      exact Nat.lt_succ_self _
  received_nodup := by
    rw [ha.received, List.map_append, List.map_singleton]
    refine List.nodup_append.mpr ⟨hs.received_nodup, List.nodup_singleton _, ?_⟩
    rintro id hid _ hid' rfl
    rw [List.mem_singleton.mp hid'] at hid
    exact hs.fresh.1 hid
  answered := by
    rw [ha.answered]
    intro id hid
    obtain ⟨r, hr, hrid⟩ := hs.answered id hid
    exact ⟨r, ha.mem_received hr, hrid⟩
  ids_nodup := by
    rw [ha.ids, ha.answered, Multiset.cons_add, Multiset.nodup_cons]
    exact ⟨hs.fresh.2, hs.ids_nodup⟩
  inflight := by
    rw [ha.inflight]
    intro r hr
    rcases Multiset.mem_cons.mp hr with rfl | hr
    · rw [ha.received]
      exact List.mem_append_right _ (List.mem_singleton_self _)
    · exact ha.mem_received (hs.inflight r hr)
  outgoing := by
    rw [ha.outgoing, ha.produced]
    intro r hr
    obtain ⟨p, hp, hpayload⟩ := hs.outgoing r hr
    exact ⟨p, ha.mem_received hp, hpayload⟩
  holds := by
    rw [ha.ids]
    intro id hid
    rcases Multiset.mem_cons.mp hid with rfl | hid
    · exact ⟨_, (ha.holds _ _).mpr (Or.inr ⟨rfl, rfl⟩)⟩
    · obtain ⟨channel, hc⟩ := hs.holds id hid
      exact ⟨channel, (ha.holds _ _).mpr (Or.inl hc)⟩
  channel id channel hc := by
    rcases (ha.holds id channel).mp hc with hc | ⟨rfl, rfl⟩
    · obtain ⟨r, hr, hrid⟩ := hs.channel id channel hc
      exact ⟨r, ha.getElem? hr, hrid⟩
    · rw [ha.received]
      exact ⟨_, List.getElem?_concat_length, rfl⟩
  delivered := by
    rw [ha.delivered, ha.answered, ha.produced]
    intro d hd
    obtain ⟨r, hr, hrest⟩ := hs.delivered d hd
    exact ⟨r, ha.getElem? hr, hrest⟩
  delivered_nodup := ha.delivered ▸ hs.delivered_nodup

/-- A response leaves on the channel of its request, which is closed. -/
structure Answers (s s' : System h) (id channel : ℕ) (response : Bytes) : Prop where
  stored : s.Holds id channel
  unanswered : id ∉ s.answered
  received : s'.received = s.received
  next : s'.network.nextRequestId = s.network.nextRequestId
  issued : s'.issued = s.issued
  inflight : s'.inflight = s.inflight
  outgoing : s.outgoing = (id, response) ::ₘ s'.outgoing
  produced : s'.produced = s.produced
  answered : s'.answered = s.answered ++ [id]
  delivered : s'.delivered = s.delivered ++ [(channel, response)]
  holds : ∀ id' c, s'.Holds id' c ↔ id' ≠ id ∧ s.Holds id' c
  hosted : s.Hosted → s'.Hosted

section Answers

variable {id channel : ℕ} {response : Bytes}

theorem Answers.ids (ha : Answers s s' id channel response) : s.ids = id ::ₘ s'.ids := by
  rw [System.ids, ha.outgoing, Multiset.map_cons, System.ids, ha.inflight,
    ← Multiset.singleton_add, ← Multiset.singleton_add]
  abel

/-- The identifier moves from those under way to the answered ones. -/
theorem Answers.ids_add (ha : Answers s s' id channel response) :
    s'.ids + (s'.answered : Multiset ℕ) = s.ids + (s.answered : Multiset ℕ) := by
  rw [ha.ids, ha.answered, ← Multiset.coe_add, Multiset.coe_singleton, ← Multiset.singleton_add]
  abel

theorem Answers.ne_of_mem (ha : Answers s s' id channel response) (hs : Consistent s) {id' : ℕ}
    (hid : id' ∈ s'.ids) : id' ≠ id := by
  rintro rfl
  have hnodup := hs.ids_nodup
  rw [ha.ids, Multiset.cons_add, Multiset.nodup_cons] at hnodup
  exact hnodup.1 (Multiset.mem_add.mpr (Or.inl hid))

theorem Answers.produced_for (ha : Answers s s' id channel response) (hs : Consistent s) :
    ∃ p, s.received[channel]? = some ⟨p, id⟩ ∧ (p, response) ∈ s.produced := by
  obtain ⟨r, hr, hrid⟩ := hs.channel id channel ha.stored
  obtain ⟨p, hp, hpayload⟩ := hs.outgoing (id, response)
    (ha.outgoing ▸ Multiset.mem_cons_self _ _)
  obtain rfl : r = ⟨p, id⟩ := hs.unique (List.mem_of_getElem? hr) hp hrid
  exact ⟨p, hr, hpayload⟩

theorem Consistent.of_answers (hs : Consistent s) (ha : Answers s s' id channel response) :
    Consistent s' where
  hosted := ha.hosted hs.hosted
  issued := by rw [ha.issued, ha.next, hs.issued]
  received_lt := by rw [ha.received, ha.next]; exact hs.received_lt
  received_nodup := by rw [ha.received]; exact hs.received_nodup
  answered := by
    obtain ⟨p, hp, _⟩ := ha.produced_for hs
    rw [ha.answered, ha.received]
    intro id' hid'
    rcases List.mem_append.mp hid' with hid' | hid'
    · exact hs.answered id' hid'
    · rw [List.mem_singleton.mp hid']
      exact ⟨_, List.mem_of_getElem? hp, rfl⟩
  ids_nodup := by rw [ha.ids_add]; exact hs.ids_nodup
  inflight := by rw [ha.inflight, ha.received]; exact hs.inflight
  outgoing := by
    rw [ha.received, ha.produced]
    exact fun r hr => hs.outgoing r (ha.outgoing ▸ Multiset.mem_cons_of_mem hr)
  holds id' hid' := by
    obtain ⟨c, hc⟩ := hs.holds id' (ha.ids ▸ Multiset.mem_cons_of_mem hid')
    exact ⟨c, (ha.holds id' c).mpr ⟨ha.ne_of_mem hs hid', hc⟩⟩
  channel id' c hc := by
    rw [ha.received]
    exact hs.channel id' c ((ha.holds id' c).mp hc).2
  delivered := by
    obtain ⟨p, hp, hpayload⟩ := ha.produced_for hs
    rw [ha.delivered, ha.received, ha.answered, ha.produced]
    intro d hd
    rcases List.mem_append.mp hd with hd | hd
    · obtain ⟨r, hr, hans, hprod⟩ := hs.delivered d hd
      exact ⟨r, hr, List.mem_append_left _ hans, hprod⟩
    · rw [List.mem_singleton.mp hd]
      exact ⟨_, hp, List.mem_append_right _ (List.mem_singleton_self _), hpayload⟩
  delivered_nodup := by
    obtain ⟨p, hp, _⟩ := ha.produced_for hs
    rw [ha.delivered, List.map_append, List.map_singleton]
    refine List.nodup_append.mpr ⟨hs.delivered_nodup, List.nodup_singleton _, ?_⟩
    rintro c hc _ hc' rfl
    obtain ⟨d, hd, hdc⟩ := List.mem_map.mp hc
    obtain ⟨r, hr, hans, -⟩ := hs.delivered d hd
    rw [hdc, List.mem_singleton.mp hc', hp, Option.some.injEq] at hr
    subst hr
    exact ha.unanswered hans

end Answers

end System

end SwarmHost.EndToEnd
