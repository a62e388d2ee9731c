import SwarmHost.Concurrency.Waiting

/-! # What holds in every state of the tasks

Channels never hold more than fits, a filter waits only for a reply that its
network still has to give, and the tasks of an interface do nothing before the
interface is created. An event that an interface reports names no other interface,
so the overseer can handle it.
-/

namespace SwarmHost.Concurrency

open Substrate EndToEnd

variable {env : Environment}

def Names (i : ℕ) (event : InterfaceEvent (substrate env)) : Prop :=
  ∀ j ∈ event.interface?, j = i

theorem names_toInterfaceEvent (i : ℕ) (event : NetworkEvent) :
    Names i (toInterfaceEvent i event : InterfaceEvent (substrate env)) := by
  intro j hj
  cases event with
  | peerDiscovered peer => cases hj
  | _ => exact (Option.some.inj hj).symm

/-- What holds of the tasks of one interface. -/
structure Station.Sound (room i : ℕ) (st : Station env) : Prop where
  events : st.events.length ≤ room
  stream : st.stream.length ≤ room
  commands : st.commands.length ≤ room
  replies : st.awaiting = true → ∃ command ∈ st.commands, isRequest command
  forwarded : ∀ event ∈ st.forwarding, Names i event
  streamed : ∀ event ∈ st.stream, Names i event

theorem Station.sound_new (room i : ℕ) : (Station.new i : Station env).Sound room i where
  events := Nat.zero_le _
  stream := Nat.zero_le _
  commands := Nat.zero_le _
  replies h := by cases h
  forwarded _ h := by cases h
  streamed _ h := by cases h

section Stations

variable {room : ℕ} {s : Mesh env} {i : ℕ} {st' : Station env}

theorem Touched.replies (h : Touched room s i st')
    (hs : (s.station i).awaiting = true → ∃ command ∈ (s.station i).commands, isRequest command)
    (hawaiting : st'.awaiting = true) : ∃ command ∈ st'.commands, isRequest command := by
  cases h with
  | moves hmoves =>
    cases hmoves with
    | @command command _ _ _ _ hcommands =>
      simp only [Bool.and_eq_true, Bool.not_eq_true'] at hawaiting
      obtain ⟨request, hmem, hrequest⟩ := hs hawaiting.1
      rw [hcommands] at hmem
      rcases List.mem_cons.mp hmem with rfl | hmem
      · simp [hrequest] at hawaiting
      · exact ⟨request, hmem, hrequest⟩
    | @sink effect _ command _ _ hcommand _ =>
      refine ⟨command, by simp, ?_⟩
      cases effect with
      | sendRequest peer sink protocol payload =>
        obtain rfl := Option.some.inj hcommand
        rfl
      | _ => cases hawaiting
    | _ => exact hs hawaiting
  | _ => exact hs hawaiting

theorem Touched.forwarded (h : Touched room s i st')
    (hs : ∀ event ∈ (s.station i).forwarding, Names i event) :
    ∀ event ∈ st'.forwarding, Names i event := by
  cases h with
  | moves hmoves =>
    cases hmoves with
    | forward _ _ =>
      rintro event ⟨⟩
      exact names_toInterfaceEvent i _
    | report _ _ =>
      rintro event ⟨⟩
    | _ => exact hs
  | _ => exact hs

theorem Touched.streamed (h : Touched room s i st')
    (hs : ∀ event ∈ (s.station i).forwarding, Names i event)
    (hs' : ∀ event ∈ (s.station i).stream, Names i event) :
    ∀ event ∈ st'.stream, Names i event := by
  cases h with
  | moves hmoves =>
    cases hmoves with
    | @report event hforwarding _ =>
      intro event' hmem
      rcases List.mem_append.mp hmem with hmem | hmem
      · exact hs' event' hmem
      · rw [List.mem_singleton.mp hmem]
        exact hs event hforwarding
    | _ => exact hs'
  | poll _ hstream => exact fun event hmem => hs' event (by simp [hstream, hmem])
  | _ => exact hs'

theorem Touched.sound (h : Touched room s i st') (hs : (s.station i).Sound room i) :
    st'.Sound room i where
  events := h.events.length_le hs.events
  stream := h.stream.length_le hs.stream
  commands := h.commands.length_le hs.commands
  replies := h.replies hs.replies
  forwarded := h.forwarded hs.forwarded
  streamed := h.streamed hs.forwarded hs.streamed

end Stations

namespace Mesh

variable {h : Setting} {s s' : Mesh h.env} {i : ℕ} {a : Action h.env}

/-- What holds of all tasks if the overseer takes only events for which there is room. -/
structure Sound (h : Setting) (s : Mesh h.env) : Prop where
  ample : s.Ample h
  connects : s.connects.length ≤ h.room
  station : ∀ i, (s.station i).Sound h.room i
  wellFormed : s.overseer.WellFormed
  created : ∀ i, i ∉ s.overseer.interfaces → s.station i = .new i ∧ addressed i s.sends = []

theorem sound_start (h : Setting) (parameters : Parameters) :
    (start h.env parameters).Sound h where
  ample := ample_start h parameters
  connects := Nat.zero_le _
  station i := Station.sound_new h.room i
  wellFormed := Overseer.wellFormed_new (T := substrate h.env) parameters
  created _ _ := ⟨rfl, rfl⟩

theorem Step.wellFormed (hstep : Step h s a s') (hs : s.overseer.WellFormed) :
    s'.overseer.WellFormed := by
  cases hstep.effect with
  | oversee _ _ _ hoverseer _ => exact Overseer.wellFormed_step _ _ _ hoverseer hs
  | _ => exact hs

theorem queue_eq_nil {overseer : Overseer (substrate h.env)} (hi : i ∉ overseer.interfaces) :
    overseer.queue i = [] := by
  rw [Overseer.queue, Dict.notMem_iff.mp hi]
  rfl

theorem Step.created (hstep : Step h s a s')
    (hs : ∀ i, i ∉ s.overseer.interfaces → s.station i = .new i ∧ addressed i s.sends = [])
    (hi : i ∉ s'.overseer.interfaces) : s'.station i = .new i ∧ addressed i s'.sends = [] := by
  have hset : ∀ j st', j ∈ s.overseer.interfaces → i ∉ s.overseer.interfaces →
      (s.set j st').station i = .new i := by
    intro j st' hj hi
    rw [station_set_ne (by rintro rfl; exact hi hj)]
    exact (hs i hi).1
  cases hstep.effect with
  | own hj _ | connect hj _ _ => exact ⟨hset _ _ hj hi, (hs i hi).2⟩
  | @deliver j command sends hsends _ =>
    have hj : j ∈ s.overseer.interfaces := by
      by_contra hj
      have hnil := (hs j hj).2
      rw [hsends, addressed_cons] at hnil
      cases hnil
    refine ⟨hset _ _ hj hi, ?_⟩
    have hnil := (hs i hi).2
    rwa [hsends, addressed_cons_of_ne (by rintro rfl; exact hi hj)] at hnil
  | oversee ht _ _ hoverseer hqueue =>
    have hold : i ∉ s.overseer.interfaces :=
      fun hmem => hi (Overseer.mem_interfaces_step hoverseer hmem)
    constructor
    · rcases ht with rfl | ⟨j, event, stream, hj, _, rfl⟩ | ⟨connect, connects, _, rfl⟩
      · exact (hs i hold).1
      · exact hset _ _ hj hold
      · exact (hs i hold).1
    · have heq := hqueue i
      rw [queue_eq_nil hi, queue_eq_nil hold] at heq
      exact heq.symm

theorem Step.sound (hstep : Step h s a s') (hroomy : s.Roomy h a) (hs : s.Sound h) :
    s'.Sound h where
  ample := hstep.ample hroomy hs.ample
  connects := hstep.connects.length_le hs.connects
  station i := (hstep.station i).sound (hs.station i)
  wellFormed := hstep.wellFormed hs.wellFormed
  created _ hi := hstep.created hs.created hi

end Mesh

end SwarmHost.Concurrency
