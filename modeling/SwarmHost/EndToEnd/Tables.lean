import SwarmHost.Filter.Sinks
import SwarmHost.Overseer.Peers

/-! # The two tables of connected peers

The overseer and the filter of an interface both keep a table of the connected
peers. The overseer enters a peer and sends a command; the filter enters it when
it takes the command, if the executor agrees and the peer is new. Once all
commands are taken the tables agree, provided that the last command about each
peer was carried out.
-/

namespace SwarmHost

variable {T : NetworkBackend}

/-- The overseer with the filter of one of its interfaces. -/
structure Paired (T : NetworkBackend) where
  overseer : Overseer T
  /-- The number of commands the filter has taken from its queue. -/
  taken : ℕ
  filter : Filter T
  /-- The sink that came with the latest connection of each peer. -/
  latest : T.PeerId → Option T.PacketSink

namespace Paired

inductive Action (T : NetworkBackend) where
  | call (call : Call T)
  | command (answer : ExecutorAnswer T)
  | poll (answer : ExecutorAnswer T)

section Definitions

variable (E : Executor T) (i : T.InterfaceId) (s : Paired T)

/-- The interface was just created. -/
def start (overseer : Overseer T) : Paired T := ⟨overseer, 0, .new i, fun _ => none⟩

def noted : Call T → T.PeerId → Option T.PacketSink
  | .interfaceEvent (.peerConnected j peer _ sink) =>
    if j = i then Function.update s.latest peer (some sink) else s.latest
  | _ => s.latest

/-- One of the two tasks moves; `none` if it is not ready or panics. -/
def step : Action T → Option (Paired T)
  | .call call => (s.overseer.handle E call).map fun (_, overseer) =>
    { s with overseer := overseer, latest := s.noted i call }
  | .command answer => (s.overseer.queue i)[s.taken]?.map fun command =>
    { s with filter := s.filter.next ⟨.command command, answer⟩, taken := s.taken + 1 }
  | .poll answer => some { s with filter := s.filter.next ⟨.poll, answer⟩ }

def Step (action : Action T) (s' : Paired T) : Prop := s.step E i action = some s'

/-- When all commands are taken, both tables have the same peers, and the filter has for each the
sink that came with its latest connection. -/
def Agrees : Prop :=
  ∃ info, s.overseer.interfaces.get? i = some info ∧ (s.taken = info.filter.length →
    (∀ p, p ∈ info.peers ↔ p ∈ s.filter.peers) ∧
    ∀ p sink, s.filter.sink? p = some sink → ∃ given, s.latest p = some given ∧ T.Uses given sink)

/-- The filter carries out a registration unless a later command about the peer waits: the executor
agrees, and the peer is new or its sink is the given one. No connection of a known peer is
ignored. -/
def Registers : Action T → Prop
  | .call (.interfaceEvent (.peerConnected j p _ _)) => j = i → p ∈ s.overseer.interfacePeerIds →
    ∀ info, s.overseer.interfaces.get? i = some info → p ∉ info.peers
  | .command answer => ∀ p sink, (s.overseer.queue i)[s.taken]? = some (.registerPeer p sink) →
    (∀ c ∈ (s.overseer.queue i).drop (s.taken + 1), c.about ≠ some p) →
    (p ∉ s.filter.peers ∧ ∃ events, answer = .ok events) ∨
      ∃ info, s.filter.peers.get? p = some info ∧ T.Uses sink info.sink
  | _ => True

end Definitions

section Invariant

variable {E : Executor T} {i : T.InterfaceId} {s s' : Paired T} {info : InterfaceInfo T}

/-- The overseer has the peers that its commands register, and the filter has those that no waiting
command is about. -/
structure Consistent (i : T.InterfaceId) (s : Paired T) (info : InterfaceInfo T) : Prop where
  hosted : s.overseer.interfaces.get? i = some info
  taken : s.taken ≤ info.filter.length
  peers : ∀ p, p ∈ info.peers ↔ (outcome p info.filter).isSome
  latest : ∀ p sink, outcome p info.filter = some sink → s.latest p = some sink
  filter : ∀ p, (∀ c ∈ info.filter.drop s.taken, c.about ≠ some p) →
    Option.Rel T.Uses (outcome p info.filter) (s.filter.sink? p)

theorem Consistent.agrees (h : Consistent i s info) : s.Agrees i := by
  refine ⟨info, h.hosted, fun htaken => ?_⟩
  have hrel : ∀ p, Option.Rel T.Uses (outcome p info.filter) (s.filter.sink? p) := by
    intro p
    apply h.filter p
    simp [htaken]
  constructor
  · intro p
    rw [h.peers, ← Filter.isSome_sink?, Filter.isSome_of_rel (hrel p)]
  · intro p sink hsink
    have hp := hrel p
    rw [hsink] at hp
    cases hout : outcome p info.filter with
    | none =>
      rw [hout] at hp
      cases hp
    | some given =>
      rw [hout] at hp
      cases hp with
      | some huses => exact ⟨given, h.latest p given hout, huses⟩

theorem Consistent.command {command : FilterCommand T} {answer : ExecutorAnswer T}
    (h : Consistent i s info) (hcommand : info.filter[s.taken]? = some command)
    (hregisters : s.Registers i (.command answer)) :
    Consistent i { s with
      filter := s.filter.next ⟨.command command, answer⟩
      taken := s.taken + 1 } info := by
  obtain ⟨hlt, hget⟩ := List.getElem?_eq_some_iff.mp hcommand
  have hdrop : info.filter.drop s.taken = command :: info.filter.drop (s.taken + 1) := by
    rw [← hget, List.drop_eq_getElem_cons hlt]
  have hconcerned : Filter.concerned (.command command) = command.about := by
    cases command <;> rfl
  refine ⟨h.hosted, hlt, h.peers, h.latest, fun p hrest => ?_⟩
  by_cases hp : command.about = some p
  · -- this is the last command about the peer
    have hlast : outcome p info.filter = command.given := by
      have hsplit : info.filter = (info.filter.take s.taken ++ [command]) ++
          info.filter.drop (s.taken + 1) := by
        rw [List.append_assoc, List.singleton_append, ← hdrop, List.take_append_drop]
      rw [hsplit, outcome_append_of_forall hrest, outcome_concat, if_pos hp]
    rw [hlast]
    cases command with
    | registerPeer q sink =>
      obtain rfl : q = p := Option.some.inj hp
      have hqueue := Overseer.queue_of_get? h.hosted
      rcases hregisters q sink (hqueue ▸ hcommand) (hqueue ▸ hrest) with
        ⟨hnew, events, rfl⟩ | ⟨info', hold, huses⟩
      · exact Filter.rel_registerPeer hnew sink events
      · have hkeeps := Filter.keeps_registerPeer (Dict.mem_of_get? hold) sink answer
        rw [Filter.Keeps] at hkeeps
        refine Filter.rel_uses_trans ?_ hkeeps
        rw [Filter.sink?, hold]
        exact .some huses
    | unregisterPeer q =>
      obtain rfl : q = p := Option.some.inj hp
      rw [Filter.sink?_unregisterPeer]
      exact .none
    | _ => cases hp
  · have hold := h.filter p (by
      rw [hdrop]
      intro c hc
      rcases List.mem_cons.mp hc with rfl | hc
      · exact hp
      · exact hrest c hc)
    exact Filter.rel_uses_trans hold (Filter.keeps_next (hconcerned ▸ hp))

theorem Consistent.poll (h : Consistent i s info) (answer : ExecutorAnswer T) :
    Consistent i { s with filter := s.filter.next ⟨.poll, answer⟩ } info := by
  refine ⟨h.hosted, h.taken, h.peers, h.latest, fun p hp => ?_⟩
  exact Filter.rel_uses_trans (h.filter p hp) (Filter.keeps_next (by simp [Filter.concerned]))

theorem Consistent.append {info' : InterfaceInfo T} {new : List (FilterCommand T)}
    (h : Consistent i s info) (hhosted : s'.overseer.interfaces.get? i = some info')
    (hfilter : info'.filter = info.filter ++ new) (htaken : s'.taken = s.taken)
    (hsame : s'.filter = s.filter)
    (hpeers : ∀ p, p ∈ info'.peers ↔ (outcome p info'.filter).isSome)
    (hlatest : ∀ p sink, outcome p info'.filter = some sink → s'.latest p = some sink) :
    Consistent i s' info' := by
  refine ⟨hhosted, ?_, hpeers, hlatest, fun p hp => ?_⟩
  · rw [hfilter, htaken, List.length_append]
    exact Nat.le_add_right_of_le h.taken
  · rw [hfilter, htaken, List.drop_append_of_le_length h.taken] at hp
    rw [hfilter, hsame, outcome_append_of_forall fun c hc => hp c (List.mem_append_right _ hc)]
    exact h.filter p fun c hc => hp c (List.mem_append_left _ hc)

theorem Consistent.other {call : Call T} {overseer : Overseer T} (h : Consistent i s info)
    (hcall : Overseer.relates i call = false) (hstep : Overseer.Step E s.overseer call overseer) :
    ∃ info', Consistent i { s with overseer := overseer, latest := s.noted i call } info' := by
  obtain ⟨info', new, hinfo', hfilter, -, habout, hpeers⟩ := hstep.extends hcall info h.hosted
  have hout : ∀ p, outcome p info'.filter = outcome p info.filter := by
    intro p
    rw [hfilter, outcome_append_of_forall]
    intro c hc
    simp [habout c hc]
  have hnoted : s.noted i call = s.latest := by
    unfold noted
    split
    · have hne := of_decide_eq_false hcall
      rw [if_neg hne]
    · rfl
  refine ⟨info', h.append hinfo' hfilter rfl rfl ?_ ?_⟩
  · intro p
    rw [hpeers, hout]
    exact h.peers p
  · intro p sink hp
    rw [hout] at hp
    dsimp only
    rw [hnoted]
    exact h.latest p sink hp

theorem Consistent.connected {p : T.PeerId} {protocols : List T.Protocol} {sink : T.PacketSink}
    (h : Consistent i s info)
    (hregisters : s.Registers i (.call (.interfaceEvent (.peerConnected i p protocols sink)))) :
    ∃ info', Consistent i { s with
      overseer := (s.overseer.registerPeer i p protocols sink).2
      latest := s.noted i (.interfaceEvent (.peerConnected i p protocols sink)) } info' := by
  unfold Overseer.registerPeer
  split
  · next hown =>
    have hp : p ∉ info.peers := hregisters rfl hown info h.hosted
    refine ⟨info, h.hosted, h.taken, h.peers, fun q given hq => ?_, h.filter⟩
    have hne : q ≠ p := by
      rintro rfl
      apply hp
      rw [h.peers, hq]
      rfl
    simp only [noted, if_true]
    rw [Function.update_of_ne hne]
    exact h.latest q given hq
  · rw [h.hosted]
    refine ⟨_, h.append (Dict.get?_insert_self _ _ _) rfl rfl rfl ?_ ?_⟩
    · intro q
      simp only [InterfaceInfo.send, outcome_concat, FilterCommand.about, FilterCommand.given,
        Dict.mem_insert, Option.some.injEq]
      by_cases hq : p = q
      · simp [hq]
      · simp [hq, Ne.symm hq, h.peers q]
    · intro q given hq
      simp only [InterfaceInfo.send, outcome_concat, FilterCommand.about, FilterCommand.given,
        Option.some.injEq] at hq
      simp only [noted, if_true]
      split at hq
      · next heq =>
        subst heq
        rw [Function.update_self]
        exact hq
      · next hne =>
        rw [Function.update_of_ne (Ne.symm hne)]
        exact h.latest q given hq

theorem Consistent.disconnected (h : Consistent i s info) (p : T.PeerId) :
    ∃ info', Consistent i { s with
      overseer := (s.overseer.unregisterPeer i p).2
      latest := s.noted i (.interfaceEvent (.peerDisconnected i p)) } info' := by
  unfold Overseer.unregisterPeer
  split
  · exact ⟨info, h⟩
  · rw [h.hosted]
    dsimp only
    split
    · refine ⟨_, h.append (Dict.get?_insert_self _ _ _) rfl rfl rfl ?_ ?_⟩
      · intro q
        simp only [InterfaceInfo.send, outcome_concat, FilterCommand.about, FilterCommand.given,
          Dict.mem_erase, Option.some.injEq]
        by_cases hq : p = q
        · simp [hq]
        · simp [hq, Ne.symm hq, h.peers q]
      · intro q given hq
        simp only [InterfaceInfo.send, outcome_concat, FilterCommand.about, FilterCommand.given,
          Option.some.injEq] at hq
        split at hq
        · cases hq
        · exact h.latest q given hq
    · exact ⟨info, h⟩

theorem consistent_step {action : Action T} (hstep : s.Step E i action s')
    (hregisters : s.Registers i action) (h : ∃ info, Consistent i s info) :
    ∃ info, Consistent i s' info := by
  obtain ⟨info, h⟩ := h
  cases action with
  | poll answer =>
    obtain rfl := Option.some.inj hstep
    exact ⟨info, h.poll answer⟩
  | command answer =>
    obtain ⟨command, hcommand, rfl⟩ := Option.map_eq_some_iff.mp hstep
    rw [Overseer.queue_of_get? h.hosted] at hcommand
    exact ⟨info, h.command hcommand hregisters⟩
  | call call =>
    obtain ⟨⟨result, overseer⟩, hhandle, rfl⟩ := Option.map_eq_some_iff.mp hstep
    cases hcall : Overseer.relates i call with
    | false =>
      exact h.other hcall (Option.map_eq_some_iff.mpr ⟨(result, overseer), hhandle, rfl⟩)
    | true =>
      unfold Overseer.relates at hcall
      split at hcall
      · obtain rfl := of_decide_eq_true hcall
        obtain rfl := Overseer.snd_eq_of_some hhandle
        exact h.connected hregisters
      · obtain rfl := of_decide_eq_true hcall
        obtain rfl := Overseer.snd_eq_of_some hhandle
        exact h.disconnected _
      · cases hcall

end Invariant

/-- The tables of the overseer and the filter agree whenever all commands are taken, in every run
in which the last command about a peer is carried out. -/
theorem agrees_of_registers {E : Executor T} {i : T.InterfaceId} {o : Overseer T}
    {info : InterfaceInfo T} (ho : o.interfaces.get? i = some info) (hp : info.peers = ∅)
    (hq : info.filter = []) {actions : List (Action T)}
    (h : Along (Step E i) (fun s action _ => s.Registers i action) (start i o) actions) :
    Always (Step E i) (Agrees i) (start i o) actions := by
  have hstart : Consistent i (start i o) info := by
    refine ⟨ho, Nat.zero_le _, fun p => ?_, fun p sink hsink => ?_, fun p _ => ?_⟩
    · simp [hp, hq, outcome]
    · rw [hq] at hsink
      cases hsink
    · rw [hq]
      exact .none
  refine (always_of_along (I := fun s => ∃ info, Consistent i s info) ?_ ⟨info, hstart⟩ h).mono ?_
  · exact fun s action s' hstep hregisters hs => consistent_step hstep hregisters hs
  · rintro s ⟨info, hs⟩
    exact hs.agrees

section Example

def hosting : Overseer loopback :=
  (Overseer.createInterface (.loading loopback) (Overseer.new ⟨[]⟩) ⟨[127, 0, 0, 1], 0⟩ "" none).2

/-- A peer connects, disconnects and connects again, and the executor takes it each time. -/
def reconnects : List (Action loopback) :=
  [.call (.interfaceEvent (.peerConnected 0 [7] [] ⟨[7]⟩)),
    .call (.interfaceEvent (.peerDisconnected 0 [7])), .command (.ok []), .command (.ok []),
    .call (.interfaceEvent (.peerConnected 0 [7] [] ⟨[7]⟩)), .command (.ok [])]

theorem agrees_reconnects : ∃ s : Paired loopback,
    Run (Step (T := loopback) (.loading _) 0) (start (T := loopback) 0 hosting) reconnects s ∧
      [7] ∈ s.filter.peers ∧ Agrees (T := loopback) 0 s := by
  obtain ⟨s, hrun, hs⟩ : ∃ s : Paired loopback,
      Run (Step (T := loopback) (.loading _) 0) (start (T := loopback) 0 hosting) reconnects s ∧
        [7] ∈ s.filter.peers :=
    ⟨_, Run.foldlM_iff.mpr rfl, by decide⟩
  refine ⟨s, hrun, hs, ?_⟩
  refine agrees_of_registers (o := hosting) rfl rfl rfl ?_ _ _ (List.prefix_refl _) hrun
  have hown : [7] ∉ hosting.interfacePeerIds := by decide
  refine along_cons_iff.mpr fun t ht => ⟨fun _ h => absurd h hown, ?_⟩
  obtain rfl := Option.some.inj ht
  refine along_cons_iff.mpr fun t ht => ⟨trivial, ?_⟩
  obtain rfl := Option.some.inj ht
  refine along_cons_iff.mpr fun t ht => ⟨fun p sink hc _ => ?_, ?_⟩
  · cases hc
    exact .inl ⟨by decide, [], rfl⟩
  obtain rfl := Option.some.inj ht
  refine along_cons_iff.mpr fun t ht => ⟨fun p sink hc _ => ?_, ?_⟩
  · cases hc
  obtain rfl := Option.some.inj ht
  refine along_cons_iff.mpr fun t ht => ⟨fun _ h => absurd h hown, ?_⟩
  obtain rfl := Option.some.inj ht
  refine along_cons_iff.mpr fun t ht => ⟨fun p sink hc _ => ?_, along_nil⟩
  cases hc
  exact .inl ⟨by decide, [], rfl⟩

def refused : List (Action loopback) :=
  [.call (.interfaceEvent (.peerConnected 0 [7] [] ⟨[7]⟩)),
    .command (.error (.executorError (.runtimeError "")))]

/-- A peer is reported twice, with different sinks. -/
def repeated : List (Action loopback) :=
  [.call (.interfaceEvent (.peerConnected 0 [7] [] ⟨[7]⟩)), .command (.ok []),
    .call (.interfaceEvent (.peerConnected 0 [7] [] ⟨[8]⟩)), .command (.ok [])]

theorem not_agrees_refused :
    ¬ Always (Step (T := loopback) (.loading _) 0) (Agrees (T := loopback) 0) (start 0 hosting)
        refused ∧
      ¬ Always (Step (T := loopback) (.loading _) 0) (Agrees (T := loopback) 0) (start 0 hosting)
        repeated := by
  constructor
  · intro h
    obtain ⟨info, hinfo, hagrees⟩ := h _ _ (List.prefix_refl _) (Run.foldlM_iff.mpr rfl)
    cases hinfo
    have hp := ((hagrees rfl).1 [7]).mp (by decide)
    revert hp
    decide
  · intro h
    obtain ⟨info, hinfo, hagrees⟩ := h _ _ (List.prefix_refl _) (Run.foldlM_iff.mpr rfl)
    cases hinfo
    obtain ⟨given, hgiven, huses⟩ := (hagrees rfl).2 [7] ⟨[7]⟩ (by decide)
    cases hgiven
    -- using a sink does not change it
    have hsame : ∀ sink : loopback.PacketSink, loopback.Uses ⟨[8]⟩ sink → sink = ⟨[8]⟩ := by
      intro sink hu
      induction hu with
      | refl => rfl
      | tail _ hstep ih =>
        obtain ⟨_, _, rfl⟩ := hstep
        exact ih
    have hsink := hsame ⟨[7]⟩ huses
    revert hsink
    decide

end Example

end Paired

end SwarmHost
