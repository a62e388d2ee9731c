import SwarmHost.Peerset.Specs

/-! # Slots are counted right

In every run of the peerset, and of its table alone, the counters of each set are
the numbers of peers that occupy its slots, and no check fails.
-/

namespace SwarmHost.Substrate.Peerset

variable {s s' : Peerset} {event : Event}

theorem sound_fromConfig (order : HashOrder) (now : Instant) (sets : List SetConfig) :
    (fromConfig order now sets).Sound := by
  have hnum : (PeersState.new sets).numSets = sets.length := by
    simp [PeersState.new, PeersState.numSets]
  have hlen : 0 + sets.length = (PeersState.new sets).numSets := by rw [hnum, Nat.zero_add]
  obtain ⟨-, hissues⟩ : initSets? order now (.new sets) 0 sets = some _ ∧ _ :=
    does_initSets (PeersState.accounted_new sets) hlen
  refine ⟨hissues.accounted (PeersState.accounted_new sets), ?_, ?_⟩
  · rw [numSets_fromConfig]
    simp [fromConfig]
  · intro set hset
    rw [numSets_fromConfig] at hset
    obtain ⟨-, hafter⟩ := noSlotNodes_initSets order now
      (PeersState.accounted_new sets).sized hlen
    have hget : sets[set]? = some sets[set] := List.getElem?_eq_getElem hset
    have h := hafter set _ hget
    rw [Nat.zero_add] at h
    have hnew : ((PeersState.new sets).setInfo set).noSlotNodes = ∅ := by
      simp [PeersState.setInfo, PeersState.new, hget]
    rw [fromConfig, h, hnew, Finset.empty_union, reserved]
    simp [hget]

/-- A step passes the checks, and the state stays sound. -/
theorem sound_step (hstep : s.Step event s') (h : s.Sound ∧ s.Pending s.rx) :
    (s'.Sound ∧ s'.Pending s'.rx) ∧ s.next? event = some s' := by
  obtain ⟨hrange, rfl⟩ := hstep
  obtain ⟨hs, hrx⟩ := h
  cases event with
  | send action =>
    refine ⟨⟨⟨hs.accounted, hs.length, hs.sync⟩, ?_⟩, rfl⟩
    intro a ha
    rcases List.mem_append.mp ha with ha | ha
    · exact hrx a ha
    · obtain rfl := List.mem_singleton.mp ha
      exact hrange
  | incoming now set p index =>
    have h : Does Answering s (s.incoming? now set p index) (s.incoming now set p index) :=
      does_incoming hs hrange p index
    have hans := answers_incoming hs.accounted.sized hrange now p index
    refine ⟨⟨h.sound, ?_⟩, h.checked⟩
    intro a ha
    rw [next, hans.rx] at ha
    rw [next, hans.numSets]
    exact hrx a ha
  | dropped now set p reason =>
    have h : Does Fades s (s.dropped? now set p reason) (s.dropped now set p reason) :=
      does_dropped hs hrange p reason
    have hforgets := forgets_dropped hs.accounted.sized now set p reason
    refine ⟨⟨h.sound, ?_⟩, h.checked⟩
    intro a ha
    rw [next, hforgets.rx] at ha
    rw [next, hforgets.numSets]
    exact hrx a ha
  | poll order now =>
    obtain ⟨hchecked, -, hsound, hpending⟩ := does_pollLoop order now hs hrx
    refine ⟨⟨hsound, hpending⟩, ?_⟩
    rw [next?, hchecked]
    rfl

/-- In every state of a run the counters of a set are the numbers of its peers that occupy slots,
the nodes that occupy none are those that are reserved, every node has a state for each set, and
only nodes that matter are stored. No counter goes below zero and no assertion fails. The same
holds for the table alone under its own operations. -/
theorem slots_accounted (order : HashOrder) (now : Instant) (sets : List SetConfig)
    (events : List Event) (ops : List PeersState.Operation) :
    (initSets? order now (.new sets) 0 sets = some (fromConfig order now sets).data ∧
      Always Step Sound (fromConfig order now sets) events ∧
      Along Step (fun s event s' => s.next? event = some s') (fromConfig order now sets) events) ∧
    Always PeersState.Step PeersState.Accounted (.new sets) ops ∧
    Along PeersState.Step (fun d op d' => d.exec? op = some d') (.new sets) ops := by
  have hacc := PeersState.accounted_new sets
  constructor
  · have hlen : 0 + sets.length = (PeersState.new sets).numSets := by
      simp [PeersState.new, PeersState.numSets]
    obtain ⟨hchecked, -⟩ : initSets? order now (.new sets) 0 sets = some _ ∧ _ :=
      does_initSets hacc hlen
    have hstart : (fromConfig order now sets).Sound ∧
        (fromConfig order now sets).Pending (fromConfig order now sets).rx :=
      ⟨sound_fromConfig order now sets, by simp [Pending, fromConfig]⟩
    obtain ⟨hsound, halong⟩ := always_and_along (I := fun s : Peerset => s.Sound ∧ s.Pending s.rx)
      (P := fun s event s' => s.next? event = some s') (fun _ _ _ hstep h => sound_step hstep h)
      hstart
    exact ⟨hchecked, hsound.mono fun _ h => h.1, halong⟩
  · apply always_and_along _ hacc
    rintro d op d' ⟨hallowed, rfl⟩ hd
    exact ⟨PeersState.accounted_exec hd hallowed, PeersState.exec?_eq hd hallowed⟩

end SwarmHost.Substrate.Peerset
