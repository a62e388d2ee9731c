import SwarmHost.Collections.Channel
import SwarmHost.Concurrency.Basic

/-! # What a step can change

A step changes the tasks of at most one interface. `Moves` lists the ways in which
they change by themselves, with what has to be the case before, and `Touched` adds
those in which the overseer reads or writes one of their channels. What is kept
along runs is read off them channel by channel and task by task.
-/

namespace SwarmHost.Concurrency

open Substrate EndToEnd

def isRequest : Command → Bool
  | .sendRequest .. => true
  | _ => false

variable {env : Environment}

/-- The tasks of an interface after a step of one of them. -/
inductive Moves (room : ℕ) (s : Mesh env) (i : ℕ) : Station env → Prop where
  /-- The network takes an input that is no command. -/
  | input {network : Network} {tasks : List Task} :
    (s.station i).tasks = [] →
    Moves room s i { s.station i with network := network, tasks := tasks }
  /-- The network takes a command. -/
  | command {command : Command} {commands : List Command} {network : Network}
      {tasks : List Task} :
    (s.station i).tasks = [] → (s.station i).commands = command :: commands →
      Moves room s i { s.station i with
        network := network
        tasks := tasks
        commands := commands
        awaiting := (s.station i).awaiting && !isRequest command }
  /-- The network announces an event. -/
  | emit {event : NetworkEvent} {tasks : List Task} :
    (s.station i).tasks = .emit event :: tasks → (s.station i).events.length < room →
      Moves room s i { s.station i with
        events := (s.station i).events ++ [event], tasks := tasks }
  /-- The network stores a response channel. -/
  | remember {requestId : ℕ} {digest : UInt64} {channel : ℕ} {tasks : List Task}
      {network : Network} :
    (s.station i).tasks = .remember requestId digest channel :: tasks →
      Moves room s i { s.station i with network := network, tasks := tasks }
  /-- The forwarder takes an event. -/
  | forward {event : NetworkEvent} {events : List NetworkEvent} :
    (s.station i).forwarding = none → (s.station i).events = event :: events →
      Moves room s i { s.station i with
        forwarding := some (toInterfaceEvent i event), events := events }
  /-- The forwarder reports its event. -/
  | report {event : InterfaceEvent (substrate env)} :
    (s.station i).forwarding = some event → (s.station i).stream.length < room →
      Moves room s i { s.station i with
        forwarding := none, stream := (s.station i).stream ++ [event] }
  /-- The filter handles a command or polls. -/
  | turn {filter : Filter (substrate env)} {outbox : List (FilterEffect (substrate env))}
      {queue : List (FilterCommand (substrate env))} :
    (s.station i).awaiting = false → (s.station i).outbox = [] →
      queue = (s.station i).queue ∨ (∃ command, (s.station i).queue = command :: queue) →
      Moves room s i { s.station i with filter := filter, outbox := outbox, queue := queue }
  /-- The filter performs an effect that does not involve its network. -/
  | quiet {effect : FilterEffect (substrate env)} {outbox : List (FilterEffect (substrate env))} :
    (s.station i).awaiting = false → (s.station i).outbox = effect :: outbox →
      toCommand effect = none → (∀ peer, effect = .connect peer → s.connects.length < room) →
      Moves room s i { s.station i with outbox := outbox }
  /-- The filter sends a command to its network. -/
  | sink {effect : FilterEffect (substrate env)} {outbox : List (FilterEffect (substrate env))}
      {command : Command} :
    (s.station i).awaiting = false → (s.station i).outbox = effect :: outbox →
      toCommand effect = some command → (s.station i).commands.length < room →
      Moves room s i { s.station i with
        outbox := outbox
        commands := (s.station i).commands ++ [command]
        awaiting := awaits effect }

/-- The tasks of an interface after any step. -/
inductive Touched (room : ℕ) (s : Mesh env) (i : ℕ) : Station env → Prop where
  | same : Touched room s i (s.station i)
  | moves {st' : Station env} : Moves room s i st' → Touched room s i st'
  /-- The overseer takes an event. -/
  | poll {event : InterfaceEvent (substrate env)} {stream : List (InterfaceEvent (substrate env))} :
    s.sends = [] → (s.station i).stream = event :: stream →
      Touched room s i { s.station i with stream := stream }
  /-- The overseer sends a command. -/
  | deliver {command : FilterCommand (substrate env)}
      {sends : List (ℕ × FilterCommand (substrate env))} :
    s.sends = (i, command) :: sends → (s.station i).queue.length < room →
      Touched room s i { s.station i with queue := (s.station i).queue ++ [command] }

/-- A filter that waits for a reply gets it from its network; a busy filter only performs the first
of its effects. -/
def Performs (room : ℕ) (s : Mesh env) (i : ℕ) (st' : Station env) : Prop :=
  (st'.outbox = (s.station i).outbox ∧ (st'.awaiting = (s.station i).awaiting ∨
    (s.station i).tasks = [] ∧ st'.awaiting = false)) ∨
  (s.station i).awaiting = false ∧ ((s.station i).outbox = [] ∧ st'.awaiting = false ∨
    ∃ effect, (s.station i).outbox = effect :: st'.outbox ∧
      (∀ peer, effect = .connect peer → s.connects.length < room) ∧
      ∀ command, toCommand effect = some command → (s.station i).commands.length < room)

namespace Moves

variable {room : ℕ} {s : Mesh env} {i : ℕ} {st' : Station env}

theorem queue (h : Moves room s i st') :
    Passes room ((s.station i).awaiting = false ∧ (s.station i).outbox = []) False
      (s.station i).queue st'.queue := by
  cases h with
  | turn hawaiting houtbox hqueue =>
    rcases hqueue with rfl | ⟨command, hqueue⟩
    · exact .same _
    · exact .of_take ⟨hawaiting, houtbox⟩ hqueue
  | _ => exact .same _

theorem commands (h : Moves room s i st') :
    Passes room ((s.station i).tasks = [])
      ((s.station i).awaiting = false ∧ (s.station i).outbox ≠ [])
      (s.station i).commands st'.commands := by
  cases h with
  | command htasks hcommands => exact .of_take htasks hcommands
  | sink hawaiting houtbox _ hroom => exact .put ⟨hawaiting, by simp [houtbox]⟩ hroom
  | _ => exact .same _

theorem events (h : Moves room s i st') :
    Passes room ((s.station i).forwarding = none) ((s.station i).tasks ≠ [])
      (s.station i).events st'.events := by
  cases h with
  | emit htasks hroom => exact .put (by simp [htasks]) hroom
  | forward hforwarding hevents => exact .of_take hforwarding hevents
  | _ => exact .same _

theorem stream (h : Moves room s i st') :
    Passes room False ((s.station i).forwarding ≠ none) (s.station i).stream st'.stream := by
  cases h with
  | report hforwarding hroom => exact .put (by simp [hforwarding]) hroom
  | _ => exact .same _

theorem tasks (h : Moves room s i st') : st'.tasks = (s.station i).tasks ∨
    (s.station i).tasks = [] ∨ ∃ task, (s.station i).tasks = task :: st'.tasks ∧
      ∀ event, task = .emit event → (s.station i).events.length < room := by
  cases h with
  | input htasks | command htasks _ => exact .inr (.inl htasks)
  | emit htasks hroom => exact .inr (.inr ⟨_, htasks, fun _ _ => hroom⟩)
  | remember htasks => exact .inr (.inr ⟨_, htasks, fun _ heq => by cases heq⟩)
  | _ => exact .inl rfl

theorem forwarding (h : Moves room s i st') : st'.forwarding = (s.station i).forwarding ∨
    (s.station i).forwarding = none ∨
    st'.forwarding = none ∧ (s.station i).stream.length < room := by
  cases h with
  | forward hforwarding _ => exact .inr (.inl hforwarding)
  | report _ hroom => exact .inr (.inr ⟨rfl, hroom⟩)
  | _ => exact .inl rfl

theorem outbox (h : Moves room s i st') : Performs room s i st' := by
  cases h with
  | @command command _ _ _ htasks _ =>
    refine .inl ⟨rfl, ?_⟩
    cases hrequest : isRequest command with
    | false => exact .inl (by simp)
    | true => exact .inr ⟨htasks, by simp⟩
  | turn hawaiting houtbox _ => exact .inr ⟨hawaiting, .inl ⟨houtbox, hawaiting⟩⟩
  | quiet hawaiting houtbox hnone hconnect =>
    exact .inr ⟨hawaiting, .inr ⟨_, houtbox, hconnect, fun _ hsome => by simp [hnone] at hsome⟩⟩
  | @sink effect _ _ hawaiting houtbox hsome hroom =>
    refine .inr ⟨hawaiting, .inr ⟨_, houtbox, ?_, fun _ _ => hroom⟩⟩
    rintro peer rfl
    cases hsome
  | _ => exact .inl ⟨rfl, .inl rfl⟩

end Moves

namespace Touched

variable {room : ℕ} {s : Mesh env} {i : ℕ} {st' : Station env}

theorem queue (h : Touched room s i st') :
    Passes room ((s.station i).awaiting = false ∧ (s.station i).outbox = [])
      (∃ command sends, s.sends = (i, command) :: sends) (s.station i).queue st'.queue := by
  cases h with
  | moves hmoves => exact hmoves.queue.mono id False.elim
  | deliver hsends hroom => exact .put ⟨_, _, hsends⟩ hroom
  | _ => exact .same _

theorem commands (h : Touched room s i st') :
    Passes room ((s.station i).tasks = [])
      ((s.station i).awaiting = false ∧ (s.station i).outbox ≠ [])
      (s.station i).commands st'.commands := by
  cases h with
  | moves hmoves => exact hmoves.commands
  | _ => exact .same _

theorem events (h : Touched room s i st') :
    Passes room ((s.station i).forwarding = none) ((s.station i).tasks ≠ [])
      (s.station i).events st'.events := by
  cases h with
  | moves hmoves => exact hmoves.events
  | _ => exact .same _

theorem stream (h : Touched room s i st') :
    Passes room (s.sends = []) ((s.station i).forwarding ≠ none)
      (s.station i).stream st'.stream := by
  cases h with
  | moves hmoves => exact hmoves.stream.mono False.elim id
  | poll hidle hstream => exact .of_take hidle hstream
  | _ => exact .same _

theorem tasks (h : Touched room s i st') : st'.tasks = (s.station i).tasks ∨
    (s.station i).tasks = [] ∨ ∃ task, (s.station i).tasks = task :: st'.tasks ∧
      ∀ event, task = .emit event → (s.station i).events.length < room := by
  cases h with
  | moves hmoves => exact hmoves.tasks
  | _ => exact .inl rfl

theorem forwarding (h : Touched room s i st') : st'.forwarding = (s.station i).forwarding ∨
    (s.station i).forwarding = none ∨
    st'.forwarding = none ∧ (s.station i).stream.length < room := by
  cases h with
  | moves hmoves => exact hmoves.forwarding
  | _ => exact .inl rfl

theorem outbox (h : Touched room s i st') : Performs room s i st' := by
  cases h with
  | moves hmoves => exact hmoves.outbox
  | _ => exact .inl ⟨rfl, .inl rfl⟩

end Touched

namespace Mesh

variable {s s' : Mesh env} {i j : ℕ} {room : ℕ} {st st' : Station env}

@[simp] theorem station_set_self : (s.set i st).station i = st := Function.update_self ..

theorem station_set_ne (h : j ≠ i) : (s.set i st).station j = s.station j :=
  Function.update_of_ne h ..

theorem takeInput_eq_some {input : NetworkInput} (h : st.takeInput input = some st') :
    st.tasks = [] ∧ ∃ network tasks, st' = { st with network := network, tasks := tasks } := by
  unfold Station.takeInput at h
  split at h
  · next htasks =>
    obtain rfl := Option.some.inj h
    exact ⟨htasks, _, _, rfl⟩
  · cases h

theorem moves_takeInput {input : NetworkInput} (h : (s.station i).takeInput input = some st') :
    Moves room s i st' := by
  obtain ⟨htasks, network, tasks, rfl⟩ := takeInput_eq_some h
  exact .input htasks

theorem moves_takeCommand (h : (s.station i).takeCommand = some st') : Moves room s i st' := by
  unfold Station.takeCommand at h
  split at h
  · cases h
  · next command commands hcommands =>
    obtain ⟨t, ht, rfl⟩ := Option.map_eq_some_iff.mp h
    obtain ⟨htasks, network, tasks, rfl⟩ := takeInput_eq_some ht
    have hmoves : Moves room s i { s.station i with
        network := network
        tasks := tasks
        commands := commands
        awaiting := (s.station i).awaiting && !isRequest command } := .command htasks hcommands
    cases command <;> simpa [isRequest] using hmoves

theorem moves_performTask (h : (s.station i).performTask room = some st') :
    Moves room s i st' := by
  unfold Station.performTask at h
  split at h
  · cases h
  · next event tasks htasks =>
    obtain ⟨hroom, heq⟩ := Option.ite_none_right_eq_some.mp h
    obtain rfl := Option.some.inj heq
    exact .emit htasks hroom
  · next requestId digest channel tasks htasks =>
    obtain rfl := Option.some.inj h
    exact .remember htasks

theorem moves_takeEvent (h : (s.station i).takeEvent i = some st') : Moves room s i st' := by
  unfold Station.takeEvent at h
  split at h
  · next event events hforwarding hevents =>
    obtain rfl := Option.some.inj h
    exact .forward hforwarding hevents
  · cases h

theorem moves_reportEvent (h : (s.station i).reportEvent room = some st') :
    Moves room s i st' := by
  unfold Station.reportEvent at h
  split at h
  · next event hforwarding =>
    obtain ⟨hroom, heq⟩ := Option.ite_none_right_eq_some.mp h
    obtain rfl := Option.some.inj heq
    exact .report hforwarding hroom
  · cases h

theorem filterTurn_eq_some {turn : Filter.Turn (substrate env)}
    (h : st.filterTurn turn = some st') :
    st.awaiting = false ∧ st.outbox = [] ∧
      ∃ filter outbox, st' = { st with filter := filter, outbox := outbox } := by
  unfold Station.filterTurn at h
  split at h
  · next hawaiting houtbox =>
    obtain rfl := Option.some.inj h
    exact ⟨hawaiting, houtbox, _, _, rfl⟩
  · cases h

theorem moves_filterTurn {turn : Filter.Turn (substrate env)}
    (h : (s.station i).filterTurn turn = some st') : Moves room s i st' := by
  obtain ⟨hawaiting, houtbox, filter, outbox, rfl⟩ := filterTurn_eq_some h
  exact .turn hawaiting houtbox (Or.inl rfl)

theorem moves_takeFilterCommand {answer : ExecutorAnswer (substrate env)}
    (h : (s.station i).takeFilterCommand answer = some st') : Moves room s i st' := by
  unfold Station.takeFilterCommand at h
  split at h
  · cases h
  · next command queue hqueue =>
    obtain ⟨t, ht, rfl⟩ := Option.map_eq_some_iff.mp h
    obtain ⟨hawaiting, houtbox, filter, outbox, rfl⟩ := filterTurn_eq_some ht
    exact .turn hawaiting houtbox (Or.inr ⟨command, hqueue⟩)

/-- The filter of an interface performs the first of its effects: only its own tasks change, and
the channel to the overseer gets the peer of a connect. -/
theorem perform_eq_some (h : s.perform room i = some s') : ∃ st', Moves room s i st' ∧
    ((s.station i).awaiting = false ∧ ∃ effect, (s.station i).outbox = effect :: st'.outbox) ∧
    (s' = s.set i st' ∨ s.connects.length < room ∧
      ∃ connect, s' = { s.set i st' with connects := s.connects ++ [connect] }) := by
  unfold perform at h
  split at h
  · next peer outbox hawaiting houtbox =>
    obtain ⟨hroom, heq⟩ := Option.ite_none_right_eq_some.mp h
    obtain rfl := Option.some.inj heq
    exact ⟨_, .quiet hawaiting houtbox rfl fun _ _ => hroom, ⟨hawaiting, _, houtbox⟩,
      .inr ⟨hroom, _, rfl⟩⟩
  · next effect outbox hconnect hawaiting houtbox =>
    split at h
    · next hcommand =>
      obtain rfl := Option.some.inj h
      exact ⟨_, .quiet hawaiting houtbox hcommand fun peer heq => (hconnect peer heq).elim,
        ⟨hawaiting, _, houtbox⟩, .inl rfl⟩
    · next command hcommand =>
      obtain ⟨t, ht, rfl⟩ := Option.map_eq_some_iff.mp h
      obtain ⟨hroom, heq⟩ := Option.ite_none_right_eq_some.mp ht
      obtain rfl := Option.some.inj heq
      refine ⟨_, ?_, ⟨hawaiting, effect, ?_⟩, .inl rfl⟩
      · rw [houtbox]
        exact .sink hawaiting houtbox hcommand hroom
      · simp [houtbox]
  · cases h

end Mesh

def Action.sends? : Action env → Option (List (ℕ × FilterCommand (substrate env)))
  | .request _ sends | .takeEvent _ sends | .takeConnect sends => some sends
  | _ => none

/-- What a step does to all tasks. -/
inductive Effect (h : Setting) (s : Mesh h.env) (a : Action h.env) : Mesh h.env → Prop where
  /-- A task of an interface does something by itself. -/
  | own {i : ℕ} {st' : Station h.env} : i ∈ s.overseer.interfaces → Moves h.room s i st' →
    Effect h s a (s.set i st')
  /-- A filter asks for a connection. -/
  | connect {i : ℕ} {st' : Station h.env} {connect : ℕ × PeerId} : i ∈ s.overseer.interfaces →
    Moves h.room s i st' → s.connects.length < h.room →
    Effect h s a { s.set i st' with connects := s.connects ++ [connect] }
  /-- The overseer sends a command. -/
  | deliver {i : ℕ} {command : FilterCommand (substrate h.env)}
      {sends : List (ℕ × FilterCommand (substrate h.env))} :
    s.sends = (i, command) :: sends → (s.station i).queue.length < h.room →
    Effect h s a { s.set i { s.station i with queue := (s.station i).queue ++ [command] } with
      sends := sends }
  /-- The overseer handles a request, or an event that it has taken. -/
  | oversee {t : Mesh h.env} {call : Call (substrate h.env)} {overseer : Overseer (substrate h.env)}
      {sends : List (ℕ × FilterCommand (substrate h.env))} :
    t = s ∨ (∃ i event stream, i ∈ s.overseer.interfaces ∧
      (s.station i).stream = event :: stream ∧
      t = s.set i { s.station i with stream := stream }) ∨
      (∃ connect connects, s.connects = connect :: connects ∧ t = { s with connects := connects }) →
    s.sends = [] → a.sends? = some sends →
    Overseer.Step h.executor s.overseer call overseer →
    (∀ i, overseer.queue i = s.overseer.queue i ++ Mesh.addressed i sends) →
    Effect h s a { t with overseer := overseer, sends := sends }

namespace Mesh

variable {h : Setting} {s s' : Mesh h.env} {i j : ℕ} {a : Action h.env}

theorem At.effect {f : Station h.env → Option (Station h.env)} (hat : s.At i f s')
    (hmoves : ∀ st', f (s.station i) = some st' → Moves h.room s i st') : Effect h s a s' := by
  obtain ⟨hi, hf⟩ := hat
  obtain ⟨st', hst', rfl⟩ := Option.map_eq_some_iff.mp hf
  exact .own hi (hmoves st' hst')

theorem Step.effect (hstep : Step h s a s') : Effect h s a s' := by
  cases a with
  | request event sends =>
    obtain ⟨hidle, overseer, hoverseer, hqueue, rfl⟩ := hstep
    exact .oversee (.inl rfl) hidle rfl hoverseer hqueue
  | takeEvent i sends =>
    obtain ⟨hi, event, stream, hstream, hidle, overseer, hoverseer, hqueue, rfl⟩ := hstep
    exact .oversee (.inr (.inl ⟨i, event, stream, hi, hstream, rfl⟩)) hidle rfl hoverseer hqueue
  | takeConnect sends =>
    obtain ⟨i, peer, connects, hconnects, hidle, overseer, hoverseer, hqueue, rfl⟩ := hstep
    exact .oversee (.inr (.inr ⟨(i, peer), connects, hconnects, rfl⟩)) hidle rfl hoverseer hqueue
  | send =>
    change s.deliver h.room = some s' at hstep
    unfold deliver at hstep
    split at hstep
    · cases hstep
    · next i command sends hsends =>
      obtain ⟨hroom, heq⟩ := Option.ite_none_right_eq_some.mp hstep
      obtain rfl := Option.some.inj heq
      exact .deliver hsends hroom
  | inboundRequest | responseResolved | swarm =>
    simp only [Step] at hstep
    exact hstep.effect fun _ hst => moves_takeInput hst
  | command =>
    simp only [Step] at hstep
    exact hstep.effect fun _ hst => moves_takeCommand hst
  | task =>
    simp only [Step] at hstep
    exact hstep.effect fun _ hst => moves_performTask hst
  | forward =>
    simp only [Step] at hstep
    exact hstep.effect fun _ hst => moves_takeEvent hst
  | report =>
    simp only [Step] at hstep
    exact hstep.effect fun _ hst => moves_reportEvent hst
  | filterCommand =>
    simp only [Step] at hstep
    exact hstep.effect fun _ hst => moves_takeFilterCommand hst
  | filterPoll =>
    simp only [Step] at hstep
    exact hstep.effect fun _ hst => moves_filterTurn hst
  | perform i =>
    obtain ⟨hi, hperform⟩ := hstep
    obtain ⟨st', hmoves, -, rfl | ⟨hroom, connect, rfl⟩⟩ := perform_eq_some hperform
    · exact .own hi hmoves
    · exact .connect hi hmoves hroom

theorem Step.station (hstep : Step h s a s') (j : ℕ) : Touched h.room s j (s'.station j) := by
  have hset : ∀ i st', Touched h.room s i st' → Touched h.room s j ((s.set i st').station j) := by
    intro i st' htouched
    by_cases hj : j = i
    · subst hj
      rwa [station_set_self]
    · rw [station_set_ne hj]
      exact .same
  cases hstep.effect with
  | own hi hmoves | connect hi hmoves hroom => exact hset _ _ (.moves hmoves)
  | deliver hsends hroom => exact hset _ _ (.deliver hsends hroom)
  | oversee ht hidle _ _ _ =>
    rcases ht with rfl | ⟨i, event, stream, _, hstream, rfl⟩ | ⟨connect, connects, _, rfl⟩
    · exact .same
    · exact hset _ _ (.poll hidle hstream)
    · exact .same

theorem Step.sends (hstep : Step h s a s') : s'.sends = s.sends ∨ s.sends = [] ∨
    ∃ i command, s.sends = (i, command) :: s'.sends ∧ (s.station i).queue.length < h.room := by
  cases hstep.effect with
  | own | connect => exact .inl rfl
  | deliver hsends hroom => exact .inr (.inr ⟨_, _, hsends, hroom⟩)
  | oversee _ hidle _ _ _ => exact .inr (.inl hidle)

theorem Step.connects (hstep : Step h s a s') :
    Passes h.room (s.sends = []) True s.connects s'.connects := by
  cases hstep.effect with
  | own _ _ => exact .same _
  | connect _ _ hroom => exact .put trivial hroom
  | deliver _ _ => exact .same _
  | oversee ht hidle _ _ _ =>
    rcases ht with rfl | ⟨i, event, stream, _, hstream, rfl⟩ | ⟨connect, connects, hconnects, rfl⟩
    · exact .same _
    · exact .same _
    · exact .of_take hidle hconnects

end Mesh

end SwarmHost.Concurrency
