import SwarmHost.Concurrency.Moves
import SwarmHost.Overseer.Load
import SwarmHost.Runs.Fair

/-! # Tasks that wait for each other

A task waits for the one that reads the full channel it sends to, and a filter
that asked for a request waits for its network. Tasks that wait for each other do
so forever. If the overseer handles an event only when the filters have room for
all commands it sends for it, then it never waits, and no tasks wait for each other.
-/

namespace SwarmHost.Concurrency

open Substrate EndToEnd

inductive TaskId where
  | overseer
  | filter (i : ℕ)
  | network (i : ℕ)
  | forwarder (i : ℕ)
  deriving DecidableEq

namespace Mesh

variable {env : Environment}

/-- The first task goes on only after the second has done something. -/
def Waits (room : ℕ) (s : Mesh env) : TaskId → TaskId → Prop
  | .overseer, .filter i => ∃ command sends, s.sends = (i, command) :: sends ∧
    room ≤ (s.station i).queue.length
  | .filter i, .overseer => (s.station i).awaiting = false ∧ ∃ peer outbox,
    (s.station i).outbox = .connect peer :: outbox ∧ room ≤ s.connects.length
  | .filter i, .network j => j = i ∧ ((s.station i).awaiting = true ∨
    (s.station i).awaiting = false ∧ ∃ effect outbox command,
      (s.station i).outbox = effect :: outbox ∧ toCommand effect = some command ∧
        room ≤ (s.station i).commands.length)
  | .network i, .forwarder j => j = i ∧ ∃ event tasks,
    (s.station i).tasks = .emit event :: tasks ∧ room ≤ (s.station i).events.length
  | .forwarder i, .overseer => ∃ event, (s.station i).forwarding = some event ∧
    room ≤ (s.station i).stream.length
  | _, _ => False

def Blocked (room : ℕ) (s : Mesh env) (t : TaskId) : Prop := ∃ u, s.Waits room t u

section Forever

variable {h : Setting} {s s' : Mesh h.env} {i : ℕ} {a : Action h.env} {t u : TaskId}

theorem sends_ne_nil_of_blocked (hb : s.Blocked h.room .overseer) : s.sends ≠ [] := by
  obtain ⟨u, hu⟩ := hb
  cases u with
  | filter i =>
    obtain ⟨command, sends, hsends, -⟩ := hu
    simp [hsends]
  | _ => exact hu.elim

theorem busy_of_blocked_filter (hb : s.Blocked h.room (.filter i)) :
    (s.station i).awaiting = true ∨ (s.station i).outbox ≠ [] := by
  obtain ⟨u, hu⟩ := hb
  cases u with
  | overseer =>
    obtain ⟨-, peer, outbox, houtbox, -⟩ := hu
    exact .inr (by simp [houtbox])
  | network j =>
    obtain ⟨-, hawaiting | ⟨-, effect, outbox, command, houtbox, -⟩⟩ := hu
    · exact .inl hawaiting
    · exact .inr (by simp [houtbox])
  | _ => exact hu.elim

theorem tasks_ne_nil_of_blocked (hb : s.Blocked h.room (.network i)) :
    (s.station i).tasks ≠ [] := by
  obtain ⟨u, hu⟩ := hb
  cases u with
  | forwarder j =>
    obtain ⟨-, event, tasks, htasks, -⟩ := hu
    simp [htasks]
  | _ => exact hu.elim

theorem forwarding_ne_none_of_blocked (hb : s.Blocked h.room (.forwarder i)) :
    (s.station i).forwarding ≠ none := by
  obtain ⟨u, hu⟩ := hb
  cases u with
  | overseer =>
    obtain ⟨event, hforwarding, -⟩ := hu
    simp [hforwarding]
  | _ => exact hu.elim

theorem Step.overseer_waits (hstep : Step h s a s') (hw : s.Waits h.room .overseer (.filter i))
    (hb : s.Blocked h.room (.filter i)) : s'.Waits h.room .overseer (.filter i) := by
  obtain ⟨command, sends, hsends, hfull⟩ := hw
  have hqueue : (s'.station i).queue = (s.station i).queue := by
    refine (hstep.station i).queue.eq_of_full ?_ hfull
    rintro ⟨hawaiting, houtbox⟩
    rcases busy_of_blocked_filter hb with h | h
    · simp [hawaiting] at h
    · exact h houtbox
  refine ⟨command, sends, ?_, by rwa [hqueue]⟩
  rcases hstep.sends with heq | hnil | ⟨j, command', hcons, hroom⟩
  · rw [heq, hsends]
  · simp [hsends] at hnil
  · -- the channel of the filter is full, so nothing was sent
    rw [hsends] at hcons
    simp only [List.cons.injEq, Prod.mk.injEq] at hcons
    obtain ⟨⟨rfl, -⟩, -⟩ := hcons
    omega

theorem Step.filter_waits_overseer (hstep : Step h s a s')
    (hw : s.Waits h.room (.filter i) .overseer) (hb : s.Blocked h.room .overseer) :
    s'.Waits h.room (.filter i) .overseer := by
  obtain ⟨hawaiting, peer, outbox, houtbox, hfull⟩ := hw
  have hconnects := hstep.connects.eq_of_full (sends_ne_nil_of_blocked hb) hfull
  rcases (hstep.station i).outbox with
    ⟨heq, heq' | ⟨-, heq'⟩⟩ | ⟨-, ⟨hnil, -⟩ | ⟨effect, hcons, hroom, -⟩⟩
  · exact ⟨heq'.trans hawaiting, peer, outbox, heq.trans houtbox, by rwa [hconnects]⟩
  · exact ⟨heq', peer, outbox, heq.trans houtbox, by rwa [hconnects]⟩
  · simp [houtbox] at hnil
  · rw [houtbox] at hcons
    obtain ⟨rfl, -⟩ := List.cons.inj hcons
    exact absurd (hroom peer rfl) (not_lt.mpr hfull)

theorem Step.filter_waits_network (hstep : Step h s a s')
    (hw : s.Waits h.room (.filter i) (.network i)) (hb : s.Blocked h.room (.network i)) :
    s'.Waits h.room (.filter i) (.network i) := by
  have htasks := tasks_ne_nil_of_blocked hb
  obtain ⟨-, hawaiting | ⟨hawaiting, effect, outbox, command, houtbox, hcommand, hfull⟩⟩ := hw
  · refine ⟨rfl, .inl ?_⟩
    rcases (hstep.station i).outbox with ⟨-, heq | ⟨hnil, -⟩⟩ | ⟨hfalse, -⟩
    · rw [heq, hawaiting]
    · exact absurd hnil htasks
    · simp [hawaiting] at hfalse
  · have hcommands := (hstep.station i).commands.eq_of_full htasks hfull
    rcases (hstep.station i).outbox with
      ⟨heq, heq' | ⟨hnil, -⟩⟩ | ⟨-, ⟨hnil, -⟩ | ⟨effect', hcons, -, hroom⟩⟩
    · exact ⟨rfl, .inr ⟨heq'.trans hawaiting, effect, outbox, command, heq.trans houtbox, hcommand,
        by rwa [hcommands]⟩⟩
    · exact absurd hnil htasks
    · simp [houtbox] at hnil
    · rw [houtbox] at hcons
      obtain ⟨rfl, -⟩ := List.cons.inj hcons
      exact absurd (hroom command hcommand) (not_lt.mpr hfull)

theorem Step.network_waits (hstep : Step h s a s')
    (hw : s.Waits h.room (.network i) (.forwarder i)) (hb : s.Blocked h.room (.forwarder i)) :
    s'.Waits h.room (.network i) (.forwarder i) := by
  obtain ⟨-, event, tasks, htasks, hfull⟩ := hw
  have hevents := (hstep.station i).events.eq_of_full (forwarding_ne_none_of_blocked hb) hfull
  rcases (hstep.station i).tasks with heq | hnil | ⟨task, hcons, hroom⟩
  · exact ⟨rfl, event, tasks, heq.trans htasks, by rwa [hevents]⟩
  · simp [htasks] at hnil
  · rw [htasks] at hcons
    obtain ⟨rfl, -⟩ := List.cons.inj hcons
    exact absurd (hroom event rfl) (not_lt.mpr hfull)

theorem Step.forwarder_waits (hstep : Step h s a s')
    (hw : s.Waits h.room (.forwarder i) .overseer) (hb : s.Blocked h.room .overseer) :
    s'.Waits h.room (.forwarder i) .overseer := by
  obtain ⟨event, hforwarding, hfull⟩ := hw
  have hstream := (hstep.station i).stream.eq_of_full (sends_ne_nil_of_blocked hb) hfull
  rcases (hstep.station i).forwarding with heq | hnone | ⟨-, hroom⟩
  · exact ⟨event, heq.trans hforwarding, by rwa [hstream]⟩
  · simp [hforwarding] at hnone
  · exact absurd hroom (not_lt.mpr hfull)

theorem Step.waits (hstep : Step h s a s') (hw : s.Waits h.room t u) (hb : s.Blocked h.room u) :
    s'.Waits h.room t u := by
  cases t with
  | overseer =>
    cases u with
    | filter i => exact hstep.overseer_waits hw hb
    | _ => exact hw.elim
  | filter i =>
    cases u with
    | overseer => exact hstep.filter_waits_overseer hw hb
    | network j =>
      obtain rfl := hw.1
      exact hstep.filter_waits_network hw hb
    | _ => exact hw.elim
  | network i =>
    cases u with
    | forwarder j =>
      obtain rfl := hw.1
      exact hstep.network_waits hw hb
    | _ => exact hw.elim
  | forwarder i =>
    cases u with
    | overseer => exact hstep.forwarder_waits hw hb
    | _ => exact hw.elim

theorem Step.deadlock {D : Set TaskId} (hstep : Step h s a s')
    (hD : Deadlock (s.Waits h.room) D) : Deadlock (s'.Waits h.room) D := by
  refine ⟨hD.1, fun t ht => ?_⟩
  obtain ⟨u, hu, hw⟩ := hD.2 t ht
  obtain ⟨v, -, hv⟩ := hD.2 u hu
  exact ⟨u, hu, hstep.waits hw ⟨v, hv⟩⟩

theorem deadlock_run {D : Set TaskId} {actions : List (Action h.env)}
    (hrun : Run (Step h) s actions s') (hD : Deadlock (s.Waits h.room) D) :
    Deadlock (s'.Waits h.room) D :=
  hrun.invariant (I := fun t => Deadlock (t.Waits h.room) D)
    (fun _ _ _ hstep ht => hstep.deadlock ht) hD

end Forever

section Safety

variable {h : Setting} {s s' : Mesh h.env} {i : ℕ} {a : Action h.env}

/-- If the overseer takes an event then all commands it sends for it fit into the channels of the
filters. -/
def Roomy (h : Setting) (s : Mesh h.env) (a : Action h.env) : Prop :=
  ∀ sends ∈ a.sends?, ∀ i, (s.station i).queue.length + (addressed i sends).length ≤ h.room

/-- All commands that the overseer is about to send fit into the channels of the filters. -/
def Ample (h : Setting) (s : Mesh h.env) : Prop :=
  ∀ i, (s.station i).queue.length + (addressed i s.sends).length ≤ h.room

theorem addressed_cons (i : ℕ) (command : FilterCommand (substrate h.env))
    (sends : List (ℕ × FilterCommand (substrate h.env))) :
    (addressed i ((i, command) :: sends)) = command :: addressed i sends := by
  simp [addressed]

theorem addressed_cons_of_ne {i j : ℕ} (hij : j ≠ i) (command : FilterCommand (substrate h.env))
    (sends : List (ℕ × FilterCommand (substrate h.env))) :
    (addressed i ((j, command) :: sends)) = addressed i sends := by
  simp [addressed, hij]

theorem length_queue_set_le {st' : Station h.env} (hmoves : Moves h.room s i st') (j : ℕ) :
    ((s.set i st').station j).queue.length ≤ (s.station j).queue.length := by
  by_cases hj : j = i
  · subst hj
    rw [station_set_self]
    exact hmoves.queue.length_le_of_not_writes id
  · rw [station_set_ne hj]

theorem Step.ample (hstep : Step h s a s') (hroomy : s.Roomy h a) (hs : s.Ample h) :
    s'.Ample h := by
  intro j
  have hj := hs j
  cases hstep.effect with
  | own _ hmoves | connect _ hmoves _ =>
    exact (Nat.add_le_add_right (length_queue_set_le hmoves j) _).trans hj
  | @deliver i command sends hsends hroom =>
    by_cases hji : j = i
    · subst hji
      rw [hsends, addressed_cons] at hj
      simp only [station_set_self, List.length_append, List.length_cons, List.length_nil] at hj ⊢
      omega
    · rw [hsends, addressed_cons_of_ne (Ne.symm hji)] at hj
      simpa [station_set_ne hji] using hj
  | oversee ht _ hsends _ _ =>
    have hnew := hroomy _ hsends j
    rcases ht with rfl | ⟨i, event, stream, _, _, rfl⟩ | ⟨connect, connects, _, rfl⟩
    · exact hnew
    · by_cases hji : j = i
      · subst hji
        simpa using hnew
      · simpa [station_set_ne hji] using hnew
    · exact hnew

theorem not_blocked_overseer (hs : s.Ample h) : ¬ s.Blocked h.room .overseer := by
  rintro ⟨u, hu⟩
  cases u with
  | filter i =>
    obtain ⟨command, sends, hsends, hfull⟩ := hu
    have hi := hs i
    rw [hsends, addressed_cons, List.length_cons] at hi
    omega
  | _ => exact hu

/-- The order in which tasks are served if the overseer never waits. -/
def rank : TaskId → ℕ
  | .overseer => 0
  | .forwarder _ => 1
  | .network _ => 2
  | .filter _ => 3

theorem rank_lt_of_waits {t u : TaskId} (hs : s.Ample h) (hw : s.Waits h.room t u) :
    rank u < rank t := by
  cases t with
  | overseer => exact absurd ⟨u, hw⟩ (not_blocked_overseer hs)
  | _ =>
    cases u with
    | overseer => simp [rank]
    | forwarder | network => first | exact hw.elim | simp [rank]
    | filter j => exact hw.elim

theorem not_deadlock (hs : s.Ample h) (D : Set TaskId) : ¬ Deadlock (s.Waits h.room) D :=
  not_deadlock_of_rank rank (fun _ _ hw => rank_lt_of_waits hs hw) D

theorem ample_start (h : Setting) (parameters : Parameters) : (start h.env parameters).Ample h :=
  fun _ => Nat.zero_le _

def takes (s : Mesh h.env) : Action h.env → Option (Call (substrate h.env))
  | .request event _ => some event.call
  | .takeEvent i _ => (s.station i).stream.head?.map .interfaceEvent
  | .takeConnect _ => s.connects.head?.map fun connect => .connectToPeer connect.1 connect.2
  | _ => none

/-- If the overseer takes a call then the channel of every filter that it may send commands to has
room for as many as such a call sends to a filter. -/
def Headroom (h : Setting) (s : Mesh h.env) (a : Action h.env) : Prop :=
  ∀ call ∈ s.takes a, ∀ i, call.Addresses s.overseer i →
    (s.station i).queue.length + call.load ≤ h.room

theorem Oversees.length_addressed {call : Call (substrate h.env)}
    {sends : List (ℕ × FilterCommand (substrate h.env))} (hoversees : s.Oversees h call sends s')
    (hs : s.overseer.WellFormed) (i : ℕ) : (addressed i sends).length ≤ call.load ∧
      (¬ call.Addresses s.overseer i → addressed i sends = []) := by
  obtain ⟨-, overseer, hcall, hqueue, -⟩ := hoversees
  obtain ⟨hload, hsame⟩ := hcall.length_queue hs i
  rw [hqueue] at hload hsame
  rw [List.length_append] at hload
  exact ⟨by omega, fun hnot => List.append_right_eq_self.mp (hsame hnot)⟩

theorem Step.roomy (hstep : Step h s a s') (hs : s.overseer.WellFormed) (hample : s.Ample h)
    (hheadroom : s.Headroom h a) : s.Roomy h a := by
  intro sends hsends
  have hroomy : ∀ {call}, call ∈ s.takes a → (∀ i, (addressed i sends).length ≤ call.load ∧
      (¬ call.Addresses s.overseer i → addressed i sends = [])) →
      ∀ i, (s.station i).queue.length + (addressed i sends).length ≤ h.room := by
    intro call hcall hload i
    by_cases haddresses : call.Addresses s.overseer i
    · exact (Nat.add_le_add_left (hload i).1 _).trans (hheadroom call hcall i haddresses)
    · rw [(hload i).2 haddresses]
      exact (Nat.le_add_right _ _).trans (hample i)
  cases a with
  | request event sends' =>
    obtain rfl : sends' = sends := Option.some.inj hsends
    exact hroomy rfl (hstep.length_addressed hs)
  | takeEvent i sends' =>
    obtain rfl : sends' = sends := Option.some.inj hsends
    obtain ⟨-, event, stream, hstream, hoversees⟩ := hstep
    exact hroomy (by simp [takes, hstream]) (hoversees.length_addressed hs)
  | takeConnect sends' =>
    obtain rfl : sends' = sends := Option.some.inj hsends
    obtain ⟨i, peer, connects, hconnects, hoversees⟩ := hstep
    exact hroomy (by simp [takes, hconnects]) (hoversees.length_addressed hs)
  | _ => cases hsends

end Safety

end Mesh

end SwarmHost.Concurrency
