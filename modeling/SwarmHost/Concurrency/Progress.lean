import SwarmHost.Concurrency.Invariants

/-! # What the tasks have to do

What a task still has to do is counted by `pending`, which only the task itself
and the reply of a network lower. A task that has something to do can do it if
there is room for it, and a task that has nothing to do can take its next input.
-/

namespace SwarmHost.Concurrency

open Substrate EndToEnd

/-- The step in which a task does the next thing it has to do. -/
def Resumes {env : Environment} : TaskId → Action env → Prop
  | .overseer, .send => True
  | .filter i, .perform j => j = i
  | .network i, .task j => j = i
  | .forwarder i, .report j => j = i
  | _, _ => False

/-- The steps in which the overseer takes an event of an interface. -/
def TakesEvent {env : Environment} (i : ℕ) : Action env → Prop
  | .takeEvent j _ => j = i
  | _ => False

/-- The steps in which the overseer takes a connect of a filter. -/
def TakesConnect {env : Environment} : Action env → Prop
  | .takeConnect _ => True
  | _ => False

namespace Mesh

/-- How much a task has to do before it takes the next input; a request counts twice, for sending
it and for its reply. -/
def pending {env : Environment} (s : Mesh env) : TaskId → ℕ
  | .overseer => s.sends.length
  | .filter i => 2 * (s.station i).outbox.length + (s.station i).awaiting.toNat
  | .network i => (s.station i).tasks.length
  | .forwarder i => (s.station i).forwarding.toList.length

section Steps

variable {h : Setting} {s s' : Mesh h.env} {i : ℕ} {a : Action h.env} {t : TaskId}

theorem pending_pos_of_blocked (hb : s.Blocked h.room t) : 0 < s.pending t := by
  cases t with
  | overseer => exact List.length_pos_iff.mpr (sends_ne_nil_of_blocked hb)
  | filter i =>
    rcases busy_of_blocked_filter hb with hawaiting | houtbox
    · simp [pending, hawaiting]
    · have := List.length_pos_iff.mpr houtbox
      simp only [pending]
      omega
  | network i => exact List.length_pos_iff.mpr (tasks_ne_nil_of_blocked hb)
  | forwarder i =>
    obtain ⟨event, hevent⟩ := Option.ne_none_iff_exists'.mp (forwarding_ne_none_of_blocked hb)
    simp [pending, hevent]

/-- What a busy task has to do never grows. -/
theorem Step.pending_le (hstep : Step h s a s') (ht : 0 < s.pending t) :
    s'.pending t ≤ s.pending t := by
  cases t with
  | overseer =>
    rcases hstep.sends with heq | hnil | ⟨i, command, hcons, -⟩
    · simp [pending, heq]
    · simp [pending, hnil] at ht
    · simp [pending, hcons]
  | filter i =>
    simp only [pending] at ht ⊢
    rcases (hstep.station i).outbox with
      ⟨heq, heq' | ⟨-, hfalse⟩⟩ | ⟨hfalse, ⟨hnil, -⟩ | ⟨effect, hcons, -⟩⟩
    · rw [heq, heq']
    · rw [heq, hfalse]
      simp
    · simp [hnil, hfalse] at ht
    · have := Bool.toNat_le (s'.station i).awaiting
      rw [hcons, hfalse, List.length_cons]
      simp only [Bool.toNat_false]
      omega
  | network i =>
    rcases (hstep.station i).tasks with heq | hnil | ⟨task, hcons, -⟩
    · simp [pending, heq]
    · simp [pending, hnil] at ht
    · simp [pending, hcons]
  | forwarder i =>
    rcases (hstep.station i).forwarding with heq | hnone | ⟨hnone, -⟩
    · simp [pending, heq]
    · simp [pending, hnone] at ht
    · simp [pending, hnone]

theorem lt_of_performTask {room : ℕ} {st st' : Station h.env}
    (hst : st.performTask room = some st') :
    st'.tasks.length < st.tasks.length := by
  unfold Station.performTask at hst
  split at hst
  · cases hst
  · next event tasks htasks =>
    obtain ⟨-, heq⟩ := Option.ite_none_right_eq_some.mp hst
    obtain rfl := Option.some.inj heq
    simp [htasks]
  · next requestId digest channel tasks htasks =>
    obtain rfl := Option.some.inj hst
    simp [htasks]

theorem lt_of_reportEvent {room : ℕ} {st st' : Station h.env}
    (hst : st.reportEvent room = some st') :
    st'.forwarding.toList.length < st.forwarding.toList.length := by
  unfold Station.reportEvent at hst
  split at hst
  · next event hforwarding =>
    obtain ⟨-, heq⟩ := Option.ite_none_right_eq_some.mp hst
    obtain rfl := Option.some.inj heq
    simp [hforwarding]
  · cases hst

/-- A task that does something has less to do. -/
theorem Step.pending_lt (hstep : Step h s a s') (ha : Resumes t a) :
    s'.pending t < s.pending t := by
  cases t with
  | overseer =>
    cases a with
    | send =>
      change s.deliver h.room = some s' at hstep
      unfold deliver at hstep
      split at hstep
      · cases hstep
      · next i command sends hsends =>
        obtain ⟨-, heq⟩ := Option.ite_none_right_eq_some.mp hstep
        obtain rfl := Option.some.inj heq
        simp [pending, hsends]
    | _ => exact ha.elim
  | filter i =>
    cases a with
    | perform j =>
      obtain rfl : j = i := ha
      obtain ⟨st', -, ⟨hawaiting, effect, houtbox⟩, hs'⟩ := perform_eq_some hstep.2
      have hst' : s'.station j = st' := by
        rcases hs' with rfl | ⟨-, connect, rfl⟩ <;> exact station_set_self
      have := Bool.toNat_le st'.awaiting
      simp only [pending, hst', houtbox, hawaiting, List.length_cons, Bool.toNat_false]
      omega
    | _ => exact ha.elim
  | network i =>
    cases a with
    | task j =>
      obtain rfl : j = i := ha
      obtain ⟨-, hf⟩ := hstep
      obtain ⟨st', hst', rfl⟩ := Option.map_eq_some_iff.mp hf
      simpa [pending] using lt_of_performTask hst'
    | _ => exact ha.elim
  | forwarder i =>
    cases a with
    | report j =>
      obtain rfl : j = i := ha
      obtain ⟨-, hf⟩ := hstep
      obtain ⟨st', hst', rfl⟩ := Option.map_eq_some_iff.mp hf
      simpa [pending] using lt_of_reportEvent hst'
    | _ => exact ha.elim

theorem Step.stream_lt (hstep : Step h s a s') (ha : TakesEvent i a) :
    (s'.station i).stream.length < (s.station i).stream.length := by
  cases a with
  | takeEvent j sends =>
    obtain rfl : j = i := ha
    obtain ⟨-, event, stream, hstream, -, overseer, -, -, rfl⟩ := hstep
    simp [hstream]
  | _ => exact ha.elim

theorem Step.connects_lt (hstep : Step h s a s') (ha : TakesConnect a) :
    s'.connects.length < s.connects.length := by
  cases a with
  | takeConnect sends =>
    obtain ⟨i, peer, connects, hconnects, -, overseer, -, -, rfl⟩ := hstep
    simp [hconnects]
  | _ => exact ha.elim

theorem Step.events_lt (hstep : Step h s (.forward i) s') :
    (s'.station i).events.length < (s.station i).events.length := by
  obtain ⟨-, hf⟩ := hstep
  obtain ⟨st', hst', rfl⟩ := Option.map_eq_some_iff.mp hf
  rw [station_set_self]
  simp only [Station.takeEvent] at hst'
  split at hst'
  · next event events _ hevents =>
    obtain rfl := Option.some.inj hst'
    simp [hevents]
  · cases hst'

theorem Step.commands_lt (hstep : Step h s (.command i) s') :
    (s'.station i).commands.length < (s.station i).commands.length := by
  obtain ⟨-, hf⟩ := hstep
  obtain ⟨st', hst', rfl⟩ := Option.map_eq_some_iff.mp hf
  rw [station_set_self]
  simp only [Station.takeCommand] at hst'
  split at hst'
  · cases hst'
  · next command commands hcommands =>
    obtain ⟨t, -, rfl⟩ := Option.map_eq_some_iff.mp hst'
    cases command <;> simp [hcommands]

end Steps

section Enabledness

variable {h : Setting} {s : Mesh h.env} {i : ℕ}

theorem Sound.mem_interfaces (hs : s.Sound h) (hi : s.station i ≠ .new i) :
    i ∈ s.overseer.interfaces := by
  by_contra hmem
  exact hi (hs.created i hmem).1

theorem enabled_at {C : Action h.env → Prop} {a : Action h.env}
    {f : Station h.env → Option (Station h.env)} (ha : C a) (hi : i ∈ s.overseer.interfaces)
    (hstep : ∀ s', s.At i f s' → Step h s a s') (hf : (f (s.station i)).isSome) :
    Enabled (Step h) C s := by
  obtain ⟨st', hst'⟩ := Option.isSome_iff_exists.mp hf
  exact ⟨a, s.set i st', ha, hstep _ ⟨hi, by rw [hst', Option.map_some]⟩⟩

theorem enabled_send (hs : s.Sound h) (hsends : 0 < s.pending .overseer) :
    Enabled (Step h) (Resumes .overseer) s := by
  obtain ⟨⟨i, command⟩, sends, hcons⟩ := List.exists_cons_of_length_pos hsends
  have hroom : (s.station i).queue.length < h.room := by
    have hi := hs.ample i
    rw [hcons, addressed_cons, List.length_cons] at hi
    omega
  have hsome : (s.deliver h.room).isSome := by simp [deliver, hcons, hroom]
  obtain ⟨s', hs'⟩ := Option.isSome_iff_exists.mp hsome
  exact ⟨.send, s', trivial, hs'⟩

theorem enabled_report (hs : s.Sound h) (hforwarding : 0 < s.pending (.forwarder i))
    (hroom : (s.station i).stream.length < h.room) :
    Enabled (Step h) (Resumes (.forwarder i)) s := by
  obtain ⟨event, hevent⟩ : ∃ event, (s.station i).forwarding = some event := by
    cases hcases : (s.station i).forwarding with
    | none => simp [pending, hcases] at hforwarding
    | some event => exact ⟨event, rfl⟩
  have hi : i ∈ s.overseer.interfaces := hs.mem_interfaces fun heq => by cases heq ▸ hevent
  refine enabled_at (a := .report i) rfl hi (fun _ hat => hat) ?_
  simp [Station.reportEvent, hevent, hroom]

theorem enabled_task (hs : s.Sound h) (htasks : 0 < s.pending (.network i))
    (hroom : (s.station i).events.length < h.room) :
    Enabled (Step h) (Resumes (.network i)) s := by
  obtain ⟨task, tasks, hcons⟩ := List.exists_cons_of_length_pos htasks
  have hi : i ∈ s.overseer.interfaces := hs.mem_interfaces fun heq => by cases heq ▸ hcons
  refine enabled_at (a := .task i) rfl hi (fun _ hat => hat) ?_
  cases task <;> simp [Station.performTask, hcons, hroom]

theorem enabled_perform (hs : s.Sound h) {effect : FilterEffect (substrate h.env)}
    {outbox : List (FilterEffect (substrate h.env))} (hawaiting : (s.station i).awaiting = false)
    (houtbox : (s.station i).outbox = effect :: outbox)
    (hconnects : ∀ peer, effect = .connect peer → s.connects.length < h.room)
    (hcommands : ∀ command, toCommand effect = some command →
      (s.station i).commands.length < h.room) :
    Enabled (Step h) (Resumes (.filter i)) s := by
  have hi : i ∈ s.overseer.interfaces := hs.mem_interfaces fun heq => by cases heq ▸ houtbox
  have hsome : (s.perform h.room i).isSome := by
    cases effect with
    | connect peer => simp [perform, hawaiting, houtbox, hconnects peer rfl]
    | heuristics event => simp [perform, hawaiting, houtbox, toCommand]
    | _ =>
      simp [perform, hawaiting, houtbox, toCommand, Station.sendCommand, hcommands _ rfl]
  obtain ⟨s', hs'⟩ := Option.isSome_iff_exists.mp hsome
  exact ⟨.perform i, s', rfl, hi, hs'⟩

theorem enabled_forward (hs : s.Sound h) (hidle : s.pending (.forwarder i) = 0)
    (hevents : 0 < (s.station i).events.length) : Enabled (Step h) (· = .forward i) s := by
  obtain ⟨event, events, hcons⟩ := List.exists_cons_of_length_pos hevents
  have hi : i ∈ s.overseer.interfaces := hs.mem_interfaces fun heq => by cases heq ▸ hcons
  have hnone : (s.station i).forwarding = none := by
    simpa [pending] using hidle
  refine enabled_at (a := .forward i) (f := fun st => st.takeEvent i) rfl hi (fun _ hat => hat) ?_
  simp [Station.takeEvent, hnone, hcons]

theorem enabled_command (hs : s.Sound h) (hidle : s.pending (.network i) = 0)
    (hcommands : 0 < (s.station i).commands.length) : Enabled (Step h) (· = .command i) s := by
  obtain ⟨command, commands, hcons⟩ := List.exists_cons_of_length_pos hcommands
  have hi : i ∈ s.overseer.interfaces := hs.mem_interfaces fun heq => by cases heq ▸ hcons
  have hnil : (s.station i).tasks = [] := List.length_eq_zero_iff.mp hidle
  refine enabled_at (a := .command i) rfl hi (fun _ hat => hat) ?_
  simp [Station.takeCommand, hcons, Station.takeInput, hnil]

theorem addressed_flatMap (f : ℕ → List (FilterCommand (substrate h.env))) {keys : List ℕ}
    (hnd : keys.Nodup) (j : ℕ) :
    addressed j (keys.flatMap fun i => (f i).map (i, ·)) = if j ∈ keys then f j else [] := by
  have happend : ∀ l l' : List (ℕ × FilterCommand (substrate h.env)),
      addressed j (l ++ l') = addressed j l ++ addressed j l' := by
    intro l l'
    simp [addressed]
  have hmap : ∀ i, addressed j ((f i).map (i, ·)) = if i = j then f i else [] := by
    intro i
    by_cases hij : i = j <;> simp [addressed, List.filter_map, Function.comp_def, hij]
  induction keys with
  | nil => rfl
  | cons i keys ih =>
    rw [List.flatMap_cons, happend, hmap, ih hnd.of_cons]
    by_cases hij : i = j
    · subst hij
      simp [(List.nodup_cons.mp hnd).1]
    · simp [hij, Ne.symm hij]

theorem exists_sends {overseer overseer' : Overseer (substrate h.env)}
    {call : Call (substrate h.env)} (hcall : Overseer.Step h.executor overseer call overseer') :
    ∃ sends, ∀ i, overseer'.queue i = overseer.queue i ++ addressed i sends := by
  have hnd : overseer'.interfaces.keys.Nodup := overseer'.interfaces.nodup
  have hgrows : ∀ i, overseer.queue i <+: overseer'.queue i := by
    intro i
    cases hget : overseer.interfaces.get? i with
    | none =>
      rw [queue_eq_nil (Dict.notMem_iff.mpr hget)]
      exact List.nil_prefix
    | some info =>
      obtain ⟨info', new, hget', hnew, -⟩ := hcall.appends i info hget
      simp [Overseer.queue, hget, hget', hnew]
  refine ⟨overseer'.interfaces.keys.flatMap fun i =>
    ((overseer'.queue i).drop (overseer.queue i).length).map (i, ·), fun i => ?_⟩
  rw [addressed_flatMap _ hnd]
  obtain ⟨new, hnew⟩ := hgrows i
  split
  · rw [← hnew, List.drop_left]
  · next hmem =>
    have hnil : overseer'.queue i = [] := queue_eq_nil hmem
    rw [hnil] at hnew ⊢
    rw [List.append_nil, (List.append_eq_nil_iff.mp hnew).1]

theorem enabled_takeEvent (hs : s.Sound h) (hidle : s.pending .overseer = 0)
    (hstream : 0 < (s.station i).stream.length) : Enabled (Step h) (TakesEvent i) s := by
  obtain ⟨event, stream, hcons⟩ := List.exists_cons_of_length_pos hstream
  have hi : i ∈ s.overseer.interfaces := hs.mem_interfaces fun heq => by cases heq ▸ hcons
  have hnames : Names i event := (hs.station i).streamed event (by simp [hcons])
  have hsome : (s.overseer.handle h.executor (.interfaceEvent event)).isSome := by
    apply Overseer.isSome_handle hs.wellFormed
    intro j peer upgrade hcall
    obtain rfl := Call.interfaceEvent.inj hcall
    rwa [hnames j rfl]
  obtain ⟨⟨r, overseer⟩, hhandle⟩ := Option.isSome_iff_exists.mp hsome
  have hoverseer : Overseer.Step h.executor s.overseer (.interfaceEvent event) overseer :=
    Option.map_eq_some_iff.mpr ⟨_, hhandle, rfl⟩
  obtain ⟨sends, hqueue⟩ := exists_sends hoverseer
  exact ⟨.takeEvent i sends, _, rfl, hi, event, stream, hcons, List.length_eq_zero_iff.mp hidle,
    overseer, hoverseer, hqueue, rfl⟩

theorem enabled_takeConnect (hidle : s.pending .overseer = 0) (hconnects : 0 < s.connects.length) :
    Enabled (Step h) TakesConnect s := by
  obtain ⟨⟨i, peer⟩, connects, hcons⟩ := List.exists_cons_of_length_pos hconnects
  have hoverseer : Overseer.Step h.executor s.overseer (.connectToPeer i peer)
      (s.overseer.connectToPeer i peer).2 := rfl
  obtain ⟨sends, hqueue⟩ := exists_sends hoverseer
  exact ⟨.takeConnect sends, _, trivial, i, peer, connects, hcons,
    List.length_eq_zero_iff.mp hidle, _, hoverseer, hqueue, rfl⟩

end Enabledness

end Mesh

end SwarmHost.Concurrency
