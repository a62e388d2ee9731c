import SwarmHost.Overseer.Queues
import SwarmHost.Overseer.Topology

/-! # The peers of an interface

The commands in the queue of a filter say which peers of the interface are connected.
-/

namespace SwarmHost

variable {T : NetworkBackend}

def FilterCommand.given : FilterCommand T → Option T.PacketSink
  | .registerPeer _ sink => some sink
  | _ => none

def outcome (p : T.PeerId) (commands : List (FilterCommand T)) : Option T.PacketSink :=
  commands.foldl (fun sink c => if c.about = some p then c.given else sink) none

theorem outcome_concat (p : T.PeerId) (commands : List (FilterCommand T)) (c : FilterCommand T) :
    outcome p (commands ++ [c]) = if c.about = some p then c.given else outcome p commands := by
  simp [outcome]

theorem outcome_append_of_forall {p : T.PeerId} {new : List (FilterCommand T)}
    (h : ∀ c ∈ new, c.about ≠ some p) (commands : List (FilterCommand T)) :
    outcome p (commands ++ new) = outcome p commands := by
  induction new using List.reverseRecOn with
  | nil => rw [List.append_nil]
  | append_singleton new c ih =>
    rw [← List.append_assoc, outcome_concat, if_neg (h c (by simp))]
    exact ih fun c' hc' => h c' (List.mem_append_left _ hc')

namespace Overseer

variable {E : Executor T} {s s' : Overseer T} {i : T.InterfaceId} {p : T.PeerId}

def Connected (s : Overseer T) (i : T.InterfaceId) (p : T.PeerId) : Prop :=
  ∃ info ∈ s.interfaces.get? i, p ∈ info.peers

instance (s : Overseer T) (i : T.InterfaceId) (p : T.PeerId) : Decidable (s.Connected i p) :=
  inferInstanceAs (Decidable (∃ info ∈ s.interfaces.get? i, p ∈ info.peers))

/-- The table of each interface has the peers that its commands register. -/
def Enrolled (s : Overseer T) : Prop := ∀ i p, s.Connected i p ↔ (outcome p (s.queue i)).isSome

theorem connected_iff {info : InterfaceInfo T} (h : s.interfaces.get? i = some info) :
    s.Connected i p ↔ p ∈ info.peers := by
  simp [Connected, h]

theorem not_connected_of_notMem (h : i ∉ s.interfaces) : ¬ s.Connected i p := by
  simp [Connected, Dict.notMem_iff.mp h]

theorem get?_of_created {call : Call T} {info : InterfaceInfo T} (h : Step E s call s')
    (hi : i ∉ s.interfaces) (hinfo : s'.interfaces.get? i = some info) :
    info.peers = ∅ ∧ info.filter = [] := by
  have hmem : i ∈ s'.interfaces := Dict.mem_of_get? hinfo
  rcases mem_interfaces_or_creates h with hsame | ⟨address, filter, preinit, rfl⟩
  · exact absurd ((hsame i).mp hmem) hi
  · obtain ⟨⟨r, t⟩, hhandle, rfl⟩ := Option.map_eq_some_iff.mp h
    obtain rfl := snd_eq_of_some hhandle
    change (s.createInterface E address filter preinit).2.interfaces.get? i = some info at hinfo
    unfold createInterface at hinfo
    split at hinfo
    · exact absurd (Dict.mem_of_get? hinfo) hi
    · split at hinfo
      · exact absurd (Dict.mem_of_get? hinfo) hi
      · dsimp only at hinfo
        split at hinfo
        · exact absurd (Dict.mem_of_get? hinfo) hi
        · split at hinfo
          · exact absurd (Dict.mem_of_get? hinfo) hi
          · rw [Dict.get?_insert] at hinfo
            split at hinfo
            · obtain rfl := Option.some.inj hinfo
              exact ⟨rfl, rfl⟩
            · exact absurd (Dict.mem_of_get? hinfo) hi

theorem enrolled_new (parameters : T.NetworkParameters) : (new parameters : Overseer T).Enrolled :=
  fun i p => by simp [Connected, queue, new, outcome]

section Step

variable {info info' : InterfaceInfo T} {c : FilterCommand T}

theorem enrolled_insert (hs : s.Enrolled) (hinfo : s.interfaces.get? i = some info)
    (hs' : s'.interfaces = s.interfaces.insert i info') (hc : info'.filter = info.filter ++ [c])
    (hpeers : ∀ p, p ∈ info'.peers ↔
      if c.about = some p then c.given.isSome = true else p ∈ info.peers) :
    s'.Enrolled := by
  intro j p
  by_cases hj : j = i
  · subst hj
    have hinfo' : s'.interfaces.get? j = some info' := by simp [hs']
    have hold := hs j p
    rw [connected_iff hinfo, queue_of_get? hinfo] at hold
    rw [connected_iff hinfo', queue_of_get? hinfo', hc, outcome_concat, hpeers]
    split
    · rfl
    · exact hold
  · have hsame : s'.interfaces.get? j = s.interfaces.get? j := by
      rw [hs', Dict.get?_insert_ne _ hj]
    have hold := hs j p
    rw [Connected, queue] at hold ⊢
    rw [hsame]
    exact hold

theorem enrolled_registerPeer (hs : s.Enrolled) (peer : T.PeerId) (protocols : List T.Protocol)
    (sink : T.PacketSink) : (s.registerPeer i peer protocols sink).2.Enrolled := by
  unfold registerPeer
  split
  · exact hs
  · cases hi : s.interfaces.get? i with
    | none => exact hs
    | some info =>
      refine enrolled_insert hs hi rfl rfl fun p => ?_
      simp only [InterfaceInfo.send, Dict.mem_insert, FilterCommand.about, FilterCommand.given,
        Option.some.injEq, Option.isSome_some]
      by_cases hp : peer = p
      · simp [hp]
      · simp [hp, Ne.symm hp]

theorem enrolled_unregisterPeer (hs : s.Enrolled) (peer : T.PeerId) :
    (s.unregisterPeer i peer).2.Enrolled := by
  unfold unregisterPeer
  split
  · exact hs
  · cases hi : s.interfaces.get? i with
    | none => exact hs
    | some info =>
      dsimp only
      split
      · refine enrolled_insert hs hi rfl rfl fun p => ?_
        simp only [InterfaceInfo.send, Dict.mem_erase, FilterCommand.about, FilterCommand.given,
          Option.some.injEq, Option.isSome_none]
        by_cases hp : peer = p
        · simp [hp]
        · simp [hp, Ne.symm hp]
      · exact hs

theorem enrolled_step {call : Call T} (h : Step E s call s') (hs : s.Enrolled) : s'.Enrolled := by
  intro i p
  cases hcall : relates i call with
  | false =>
    by_cases hi : i ∈ s.interfaces
    · obtain ⟨info, hinfo⟩ := Dict.mem_iff.mp hi
      obtain ⟨info', new, hinfo', hnew, -, habout, hpeers⟩ := h.extends hcall info hinfo
      have hold := hs i p
      rw [connected_iff hinfo, queue_of_get? hinfo] at hold
      rw [connected_iff hinfo', queue_of_get? hinfo', hpeers, hnew, outcome_append_of_forall]
      · exact hold
      · intro c hc
        simp [habout c hc]
    · by_cases hi' : i ∈ s'.interfaces
      · obtain ⟨info, hinfo⟩ := Dict.mem_iff.mp hi'
        obtain ⟨hpeers, hfilter⟩ := get?_of_created h hi hinfo
        rw [connected_iff hinfo, queue_of_get? hinfo, hpeers, hfilter]
        simp [outcome]
      · rw [queue_of_notMem hi']
        simp [not_connected_of_notMem hi', outcome]
  | true =>
    obtain ⟨⟨r, t⟩, hhandle, rfl⟩ := Option.map_eq_some_iff.mp h
    unfold relates at hcall
    split at hcall
    · obtain rfl := snd_eq_of_some hhandle
      exact enrolled_registerPeer hs _ _ _ i p
    · obtain rfl := snd_eq_of_some hhandle
      exact enrolled_unregisterPeer hs _ i p
    · cases hcall

end Step

end Overseer

end SwarmHost
