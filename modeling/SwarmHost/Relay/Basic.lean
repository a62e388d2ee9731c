import SwarmHost.Executor.Filters
import SwarmHost.Heuristics.Traffic
import SwarmHost.Overseer.Peers
import SwarmHost.Overseer.Sends

/-! # The overseer, the filters and the heuristics backend as tasks

The overseer handles a call and sends what the call makes it send, one message after
another. The filters of the interfaces take their commands and the heuristics backend
its events at any time in between. A channel is a log with the number of messages
that were taken from it.
-/

namespace SwarmHost

variable {T : NetworkBackend}

def FilterInput.command? : FilterInput T → Option (FilterCommand T)
  | .command c => some c
  | .poll => none

/-- The state of the tasks and the channels between them. -/
structure Relay (T : NetworkBackend) where
  overseer : Overseer T
  /-- What the overseer sends before it handles the next call. -/
  sends : List (Sending T)
  /-- For each filter, the results of the calls that sent its commands. -/
  replies : T.InterfaceId → List (Except Error Unit)
  /-- The commands in the channel of each filter, from the start. -/
  delivered : T.InterfaceId → List (FilterCommand T)
  /-- The number of commands each filter has taken. -/
  taken : T.InterfaceId → ℕ
  filters : T.InterfaceId → Filter T
  executors : T.InterfaceId → PyO3Executor T
  /-- What each filter does before it takes the next input. -/
  outbox : T.InterfaceId → List (FilterEffect T)
  /-- The events in the channel of the heuristics backend, from the start. -/
  reports : List (HeuristicsEvent T)
  /-- The number of events the heuristics backend has handled. -/
  handled : ℕ

namespace Relay

/-- The step of one of the tasks. A call of the overseer comes with the iteration order of the
interfaces. -/
inductive Action (T : NetworkBackend) where
  | oversee (call : Call T) (order : List T.InterfaceId)
  | send
  | filterCommand (interface : T.InterfaceId) (answer : ExecutorAnswer T)
  | filterPoll (interface : T.InterfaceId) (answer : ExecutorAnswer T)
  | perform (interface : T.InterfaceId)
  | heuristics

def start (parameters : T.NetworkParameters) : Relay T where
  overseer := .new parameters
  sends := []
  replies _ := []
  delivered _ := []
  taken _ := 0
  filters := .new
  executors _ := .new
  outbox _ := []
  reports := []
  handled := 0

def heuristics (s : Relay T) : HeuristicsBackend T :=
  (s.reports.take s.handled).foldl HeuristicsBackend.handleEvent .new

def command? (s : Relay T) (i : T.InterfaceId) : Option (FilterCommand T) :=
  (s.delivered i)[s.taken i]?

def oversee (E : Executor T) (s : Relay T) (call : Call T) (order : List T.InterfaceId) :
    Option (Relay T) :=
  if s.sends.isEmpty ∧ order.Perm s.overseer.interfaces.keys then
    (s.overseer.handle E call).map fun (result, overseer) =>
      let sends := s.overseer.sends order call
      { s with
        overseer := overseer
        sends := sends
        replies := fun i => s.replies i ++ List.replicate (commandsTo i sends).length result }
  else none

/-- The overseer sends its next message; the channels of the filters have room for `room`
commands. -/
def deliver (room : ℕ) (s : Relay T) : Option (Relay T) :=
  match s.sends with
  | [] => none
  | .command i c :: sends =>
    if (s.delivered i).length < s.taken i + room then
      some { s with
        sends := sends
        delivered := Function.update s.delivered i (s.delivered i ++ [c]) }
    else none
  | .report event :: sends => some { s with sends := sends, reports := s.reports ++ [event] }

def filterTurn (s : Relay T) (i : T.InterfaceId) (turn : Filter.Turn T) : Option (Relay T) :=
  if i ∈ s.overseer.interfaces ∧ (s.outbox i).isEmpty then
    some { s with
      filters := Function.update s.filters i ((s.filters i).next turn)
      outbox := Function.update s.outbox i ((s.filters i).effects turn) }
  else none

def takeCommand (s : Relay T) (i : T.InterfaceId) (answer : ExecutorAnswer T) :
    Option (Relay T) :=
  match s.command? i with
  | none => none
  | some command =>
    if (s.executors i).permits command answer then
      (s.filterTurn i ⟨.command command, answer⟩).map fun s' =>
        { s' with
          taken := Function.update s.taken i (s.taken i + 1)
          executors := Function.update s.executors i ((s.executors i).after command answer) }
    else none

def performEffect (s : Relay T) (i : T.InterfaceId) : Option (Relay T) :=
  match s.outbox i with
  | [] => none
  | effect :: effects =>
    some { s with
      outbox := Function.update s.outbox i effects
      reports := s.reports ++ effect.report.toList }

def takeEvent (s : Relay T) : Option (Relay T) :=
  if s.handled < s.reports.length then some { s with handled := s.handled + 1 } else none

/-- One step of the tasks; `none` if the task is not ready. -/
def step (room : ℕ) (E : Executor T) (s : Relay T) : Action T → Option (Relay T)
  | .oversee call order => s.oversee E call order
  | .send => s.deliver room
  | .filterCommand i answer => s.takeCommand i answer
  | .filterPoll i answer => s.filterTurn i ⟨.poll, answer⟩
  | .perform i => s.performEffect i
  | .heuristics => s.takeEvent

def Step (room : ℕ) (E : Executor T) (s : Relay T) (action : Action T) (s' : Relay T) : Prop :=
  s.step room E action = some s'

variable {room : ℕ} {E : Executor T} {s s' : Relay T} {action : Action T} {i : T.InterfaceId}

section Moves

/-- What a step can do, and what has to be the case for it. -/
inductive Moves (room : ℕ) (E : Executor T) (s : Relay T) : Action T → Relay T → Prop where
  | oversee {call : Call T} {order : List T.InterfaceId} {result : Except Error Unit}
      {overseer : Overseer T} : s.sends = [] → order.Perm s.overseer.interfaces.keys →
    s.overseer.handle E call = some (result, overseer) →
    Moves room E s (.oversee call order) { s with
      overseer := overseer
      sends := s.overseer.sends order call
      replies := fun i => s.replies i ++
        List.replicate (commandsTo i (s.overseer.sends order call)).length result }
  | command {i : T.InterfaceId} {c : FilterCommand T} {sends : List (Sending T)} :
    s.sends = .command i c :: sends → (s.delivered i).length < s.taken i + room →
    Moves room E s .send { s with
      sends := sends
      delivered := Function.update s.delivered i (s.delivered i ++ [c]) }
  | report {event : HeuristicsEvent T} {sends : List (Sending T)} :
    s.sends = .report event :: sends →
    Moves room E s .send { s with sends := sends, reports := s.reports ++ [event] }
  | take {i : T.InterfaceId} {c : FilterCommand T} {answer : ExecutorAnswer T} :
    i ∈ s.overseer.interfaces → s.outbox i = [] → s.command? i = some c →
    (s.executors i).permits c answer →
    Moves room E s (.filterCommand i answer) { s with
      filters := Function.update s.filters i ((s.filters i).next ⟨.command c, answer⟩)
      outbox := Function.update s.outbox i ((s.filters i).effects ⟨.command c, answer⟩)
      taken := Function.update s.taken i (s.taken i + 1)
      executors := Function.update s.executors i ((s.executors i).after c answer) }
  | poll {i : T.InterfaceId} {answer : ExecutorAnswer T} :
    i ∈ s.overseer.interfaces → s.outbox i = [] →
    Moves room E s (.filterPoll i answer) { s with
      filters := Function.update s.filters i ((s.filters i).next ⟨.poll, answer⟩)
      outbox := Function.update s.outbox i ((s.filters i).effects ⟨.poll, answer⟩) }
  | perform {i : T.InterfaceId} {effect : FilterEffect T} {effects : List (FilterEffect T)} :
    s.outbox i = effect :: effects →
    Moves room E s (.perform i) { s with
      outbox := Function.update s.outbox i effects
      reports := s.reports ++ effect.report.toList }
  | handle : s.handled < s.reports.length →
    Moves room E s .heuristics { s with handled := s.handled + 1 }

theorem Step.moves (h : Step room E s action s') : Moves room E s action s' := by
  cases action with
  | oversee call order =>
    obtain ⟨⟨hidle, horder⟩, h⟩ := Option.ite_none_right_eq_some.mp h
    obtain ⟨⟨result, overseer⟩, hcall, rfl⟩ := Option.map_eq_some_iff.mp h
    exact .oversee (List.isEmpty_iff.mp hidle) horder hcall
  | send =>
    change s.deliver room = some s' at h
    unfold deliver at h
    split at h
    · cases h
    · next i c sends hsends =>
      obtain ⟨hroom, heq⟩ := Option.ite_none_right_eq_some.mp h
      obtain rfl := Option.some.inj heq
      exact .command hsends hroom
    · next event sends hsends =>
      obtain rfl := Option.some.inj h
      exact .report hsends
  | filterCommand i answer =>
    change s.takeCommand i answer = some s' at h
    unfold takeCommand at h
    split at h
    · cases h
    · next c hc =>
      obtain ⟨hpermits, h⟩ := Option.ite_none_right_eq_some.mp h
      obtain ⟨t, ht, rfl⟩ := Option.map_eq_some_iff.mp h
      obtain ⟨⟨hi, hout⟩, heq⟩ := Option.ite_none_right_eq_some.mp ht
      obtain rfl := Option.some.inj heq
      exact .take hi (List.isEmpty_iff.mp hout) hc hpermits
  | filterPoll i answer =>
    obtain ⟨⟨hi, hout⟩, heq⟩ := Option.ite_none_right_eq_some.mp h
    obtain rfl := Option.some.inj heq
    exact .poll hi (List.isEmpty_iff.mp hout)
  | perform i =>
    change s.performEffect i = some s' at h
    unfold performEffect at h
    split at h
    · cases h
    · next effect effects hout =>
      obtain rfl := Option.some.inj h
      exact .perform hout
  | heuristics =>
    obtain ⟨hlt, heq⟩ := Option.ite_none_right_eq_some.mp h
    obtain rfl := Option.some.inj heq
    exact .handle hlt

end Moves

section Wiring

/-- The channels hold what the overseer has sent, and nothing is taken twice. -/
structure Wired (s : Relay T) : Prop where
  queue : ∀ i, s.overseer.queue i = s.delivered i ++ commandsTo i s.sends
  replies : ∀ i, (s.replies i).length = (s.overseer.queue i).length
  taken : ∀ i, s.taken i ≤ (s.delivered i).length
  handled : s.handled ≤ s.reports.length
  wellFormed : s.overseer.WellFormed

theorem wired_start (parameters : T.NetworkParameters) : Wired (start parameters : Relay T) where
  queue _ := rfl
  replies _ := rfl
  taken _ := le_rfl
  handled := le_rfl
  wellFormed := Overseer.wellFormed_new parameters

theorem command?_eq_some {c : FilterCommand T} (h : s.command? i = some c) :
    s.taken i < (s.delivered i).length := (List.getElem?_eq_some_iff.mp h).1

theorem Moves.wired (h : Moves room E s action s') (hs : s.Wired) : s'.Wired := by
  cases h with
  | @oversee call order result overseer hidle horder hcall =>
    have hemits := Overseer.emits_handle horder hcall
    have hstep : Overseer.Step E s.overseer call overseer := by simp [Overseer.Step, hcall]
    have hqueue : ∀ i, overseer.queue i =
        s.delivered i ++ commandsTo i (s.overseer.sends order call) := by
      intro i
      rw [hemits.queue, hs.queue, hidle, commandsTo_nil, List.append_nil]
    refine ⟨hqueue, fun i => ?_, hs.taken, hs.handled, ?_⟩
    · simp [hs.replies, hemits.queue]
    · exact Overseer.wellFormed_step _ _ _ hstep hs.wellFormed
  | @command j c sends hsends hroom =>
    refine ⟨fun i => ?_, hs.replies, fun i => ?_, hs.handled, hs.wellFormed⟩
    · rw [hs.queue, hsends, commandsTo_command]
      by_cases hi : j = i
      · subst hi
        simp
      · simp [hi, Ne.symm hi]
    · have hle := hs.taken i
      by_cases hi : i = j
      · subst hi
        simp only [Function.update_self, List.length_append]
        omega
      · simpa [hi] using hle
  | report hsends =>
    refine ⟨fun i => ?_, hs.replies, hs.taken, ?_, hs.wellFormed⟩
    · rw [hs.queue, hsends, commandsTo_report]
    · have hle := hs.handled
      simp only [List.length_append]
      omega
  | @take j c answer hj hout hc hpermits =>
    refine ⟨hs.queue, hs.replies, fun i => ?_, hs.handled, hs.wellFormed⟩
    by_cases hi : i = j
    · subst hi
      simp only [Function.update_self]
      exact command?_eq_some hc
    · simpa [hi] using hs.taken i
  | poll hj hout => exact ⟨hs.queue, hs.replies, hs.taken, hs.handled, hs.wellFormed⟩
  | perform hout =>
    refine ⟨hs.queue, hs.replies, hs.taken, ?_, hs.wellFormed⟩
    have hle := hs.handled
    simp only [List.length_append]
    omega
  | handle hlt => exact ⟨hs.queue, hs.replies, hs.taken, hlt, hs.wellFormed⟩

theorem wired_run {parameters : T.NetworkParameters} {actions : List (Action T)}
    (h : Run (Step room E) (start parameters) actions s) : s.Wired :=
  h.invariant (fun _ _ _ hstep hs => hstep.moves.wired hs) (wired_start parameters)

theorem Moves.enrolled (h : Moves room E s action s') (hs : s.overseer.Enrolled) :
    s'.overseer.Enrolled := by
  cases h with
  | @oversee call order result overseer hidle horder hcall =>
    have hstep : Overseer.Step E s.overseer call overseer := by simp [Overseer.Step, hcall]
    exact Overseer.enrolled_step hstep hs
  | _ => exact hs

end Wiring

section Turns

def done (s : Relay T) (i : T.InterfaceId) : List (FilterCommand T) :=
  (s.delivered i).take (s.taken i)

def turn? (s : Relay T) : Action T → Option (T.InterfaceId × Filter.Turn T)
  | .filterCommand i answer => (s.command? i).map fun c => (i, ⟨.command c, answer⟩)
  | .filterPoll i answer => some (i, ⟨.poll, answer⟩)
  | _ => none

/-- What a step does to one filter. -/
inductive Local (s : Relay T) (action : Action T) (s' : Relay T) (i : T.InterfaceId) : Prop where
  | rest : s'.done i = s.done i → s'.filters i = s.filters i → s'.outbox i ⊆ s.outbox i →
    Local s action s' i
  | turn {turn : Filter.Turn T} : s.turn? action = some (i, turn) →
    s'.done i = s.done i ++ turn.input.command?.toList →
    s'.filters i = (s.filters i).next turn → s'.outbox i = (s.filters i).effects turn →
    Local s action s' i

theorem done_of_command? {c : FilterCommand T} (hc : s.command? i = some c) :
    (s.delivered i).take (s.taken i + 1) = s.done i ++ [c] := by
  obtain ⟨hlt, rfl⟩ := List.getElem?_eq_some_iff.mp hc
  exact List.take_succ_eq_append_getElem hlt

theorem Moves.local (h : Moves room E s action s') (hs : s.Wired) (i : T.InterfaceId) :
    Local s action s' i := by
  cases h with
  | @command j c sends hsends hroom =>
    refine .rest ?_ rfl (List.Subset.refl _)
    unfold done
    by_cases hi : i = j
    · subst hi
      simp only [Function.update_self]
      rw [List.take_append_of_le_length (hs.taken i)]
    · simp only [Function.update_of_ne hi]
  | @take j c answer hj hout hc hpermits =>
    by_cases hi : i = j
    · subst hi
      have hturn : s.turn? (.filterCommand i answer) = some (i, ⟨.command c, answer⟩) := by
        simp [turn?, hc]
      refine .turn hturn ?_ ?_ ?_
      · simp only [done, Function.update_self]
        exact done_of_command? hc
      · exact Function.update_self ..
      · exact Function.update_self ..
    · refine .rest ?_ (Function.update_of_ne hi ..) ?_
      · simp only [done, Function.update_of_ne hi]
      · simp only [Function.update_of_ne hi]
        exact List.Subset.refl _
  | @poll j answer hj hout =>
    by_cases hi : i = j
    · subst hi
      refine .turn rfl (List.append_nil _).symm ?_ ?_
      · exact Function.update_self ..
      · exact Function.update_self ..
    · refine .rest rfl (Function.update_of_ne hi ..) ?_
      simp only [Function.update_of_ne hi]
      exact List.Subset.refl _
  | @perform j effect effects hout =>
    refine .rest rfl rfl ?_
    by_cases hi : i = j
    · subst hi
      simp only [Function.update_self, hout]
      exact List.subset_cons_self _ _
    · simp only [Function.update_of_ne hi]
      exact List.Subset.refl _
  | oversee | report | handle => exact .rest rfl rfl (List.Subset.refl _)

theorem Moves.reports (h : Moves room E s action s') : s.reports <+: s'.reports := by
  cases h with
  | report | perform => exact List.prefix_append _ _
  | _ => exact List.prefix_rfl

theorem Wired.mem_queue (hs : s.Wired) {turn : Filter.Turn T} {c : FilterCommand T}
    (h : s.turn? action = some (i, turn)) (hc : turn.input.command? = some c) :
    c ∈ s.overseer.queue i := by
  cases action with
  | filterCommand j answer =>
    obtain ⟨c', hc', heq⟩ := Option.map_eq_some_iff.mp h
    obtain ⟨rfl, rfl⟩ := Prod.mk.inj heq
    obtain rfl := Option.some.inj hc
    rw [hs.queue]
    exact List.mem_append_left _ (List.mem_of_getElem? hc')
  | filterPoll j answer =>
    obtain ⟨rfl, rfl⟩ := Prod.mk.inj (Option.some.inj h)
    cases hc
  | _ => cases h

theorem Wired.done_sublist (hs : s.Wired) (i : T.InterfaceId) :
    (s.done i).Sublist (s.overseer.queue i) := by
  rw [hs.queue]
  exact (List.take_sublist _ _).trans (List.sublist_append_left _ _)

end Turns

end Relay

end SwarmHost
