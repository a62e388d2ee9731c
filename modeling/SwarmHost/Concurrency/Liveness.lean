import SwarmHost.Concurrency.Progress

/-! # Blocked tasks go on

If the overseer takes only calls for which there is room and everything that is
possible again and again happens again and again, then the overseer gets ready
again and again, so the streams get room, so the forwarders get ready, so the
networks and with them the filters. Without the room the overseer and a filter can
wait for each other, and then they do so forever.
-/

namespace SwarmHost.Concurrency

open Substrate EndToEnd

namespace Mesh

/-- The tasks are scheduled fairly: what a task has to do next, and taking a message out of a
channel, happen again and again if they are possible again and again. -/
structure Scheduled {h : Setting} (τ : Trace (Step h)) : Prop where
  resumes : ∀ t, τ.Fair (Resumes t)
  takesEvent : ∀ i, τ.Fair (TakesEvent i)
  takesConnect : τ.Fair TakesConnect
  commands : ∀ i, τ.Fair (· = .command i)
  forwards : ∀ i, τ.Fair (· = .forward i)

section Traces

variable {h : Setting} {τ : Trace (Step h)} {t : TaskId}

theorem pending_next (n : ℕ) (hn : 0 < (τ.state n).pending t) :
    (τ.state (n + 1)).pending t ≤ (τ.state n).pending t :=
  Trace.next (P := fun s s' : Mesh h.env => 0 < s.pending t → s'.pending t ≤ s.pending t)
    (fun _ _ => le_rfl) (fun _ _ _ hstep => hstep.pending_le) n hn

theorem pending_of_occurs (n : ℕ) (hoccurs : τ.Occurs (Resumes t) n) :
    (τ.state (n + 1)).pending t < (τ.state n).pending t := by
  obtain ⟨a, ha, hresumes⟩ := hoccurs
  exact (τ.step n a ha).pending_lt hresumes

/-- A task that can go on again and again should it not go on does go on. -/
theorem lowered_of_ready (hfair : τ.Fair (Resumes t)) {n : ℕ} (hn : 0 < (τ.state n).pending t)
    (hready : (∀ m, n ≤ m → (τ.state m).pending t = (τ.state n).pending t) →
      ∀ k, n ≤ k → ∃ m, k ≤ m ∧ Enabled (Step h) (Resumes t) (τ.state m)) :
    ∃ m, n ≤ m ∧ (τ.state (m + 1)).pending t < (τ.state m).pending t :=
  Trace.lowered_of_fair (f := fun s : Mesh h.env => s.pending t) hfair pending_next
    pending_of_occurs hn hready

/-- A task that always goes on is ready again and again. -/
theorem idle_of_lowered (h : ∀ n, 0 < (τ.state n).pending t →
    ∃ m, n ≤ m ∧ (τ.state (m + 1)).pending t < (τ.state m).pending t) (n : ℕ) :
    ∃ m, n ≤ m ∧ (τ.state m).pending t = 0 :=
  Trace.zero_of_lowered (f := fun s : Mesh _ => s.pending t) (fun m _ => pending_next m)
    fun m _ => h m

variable (hroom : 0 < h.room) (hsound : ∀ n, (τ.state n).Sound h) (hfair : Scheduled τ)
include hsound hfair

theorem overseer_lowered {n : ℕ} (hn : 0 < (τ.state n).pending .overseer) :
    ∃ m, n ≤ m ∧ (τ.state (m + 1)).pending .overseer < (τ.state m).pending .overseer := by
  refine lowered_of_ready (hfair.resumes .overseer) hn fun hconst k hk => ⟨k, le_rfl, ?_⟩
  exact enabled_send (hsound k) (hconst k hk ▸ hn)

theorem overseer_idle (n : ℕ) : ∃ m, n ≤ m ∧ (τ.state m).pending .overseer = 0 :=
  idle_of_lowered (fun _ hn => overseer_lowered hsound hfair hn) n

include hroom

theorem stream_below (i n : ℕ) : ∃ m, n ≤ m ∧ ((τ.state m).station i).stream.length < h.room := by
  refine Trace.below_of_fair (f := fun s : Mesh h.env => (s.station i).stream.length)
    (hfair.takesEvent i) hroom (fun n => ((hsound n).station i).stream) ?_ ?_ n
  · rintro n ⟨a, ha, htakes⟩
    exact (τ.step n a ha).stream_lt htakes
  · intro n
    obtain ⟨m, hm, hidle⟩ := overseer_idle hsound hfair n
    exact ⟨m, hm, enabled_takeEvent (hsound m) hidle⟩

theorem connects_below (n : ℕ) : ∃ m, n ≤ m ∧ (τ.state m).connects.length < h.room := by
  refine Trace.below_of_fair (f := fun s : Mesh h.env => s.connects.length) hfair.takesConnect hroom
    (fun n => (hsound n).connects) ?_ ?_ n
  · rintro n ⟨a, ha, htakes⟩
    exact (τ.step n a ha).connects_lt htakes
  · intro n
    obtain ⟨m, hm, hidle⟩ := overseer_idle hsound hfair n
    exact ⟨m, hm, enabled_takeConnect hidle⟩

theorem forwarder_lowered {i n : ℕ} (hn : 0 < (τ.state n).pending (.forwarder i)) :
    ∃ m, n ≤ m ∧ (τ.state (m + 1)).pending (.forwarder i) <
      (τ.state m).pending (.forwarder i) := by
  refine lowered_of_ready (hfair.resumes _) hn fun hconst k hk => ?_
  obtain ⟨m, hm, hstream⟩ := stream_below hroom hsound hfair i k
  exact ⟨m, hm, enabled_report (hsound m) (hconst m (hk.trans hm) ▸ hn) hstream⟩

theorem forwarder_idle (i n : ℕ) : ∃ m, n ≤ m ∧ (τ.state m).pending (.forwarder i) = 0 :=
  idle_of_lowered (fun _ hn => forwarder_lowered hroom hsound hfair hn) n

theorem events_below (i n : ℕ) : ∃ m, n ≤ m ∧ ((τ.state m).station i).events.length < h.room := by
  refine Trace.below_of_fair (f := fun s : Mesh h.env => (s.station i).events.length)
    (hfair.forwards i) hroom (fun n => ((hsound n).station i).events) ?_ ?_ n
  · rintro n ⟨a, ha, rfl⟩
    exact (τ.step n _ ha).events_lt
  · intro n
    obtain ⟨m, hm, hidle⟩ := forwarder_idle hroom hsound hfair i n
    exact ⟨m, hm, enabled_forward (hsound m) hidle⟩

theorem network_lowered {i n : ℕ} (hn : 0 < (τ.state n).pending (.network i)) :
    ∃ m, n ≤ m ∧ (τ.state (m + 1)).pending (.network i) < (τ.state m).pending (.network i) := by
  refine lowered_of_ready (hfair.resumes _) hn fun hconst k hk => ?_
  obtain ⟨m, hm, hevents⟩ := events_below hroom hsound hfair i k
  exact ⟨m, hm, enabled_task (hsound m) (hconst m (hk.trans hm) ▸ hn) hevents⟩

theorem network_idle (i n : ℕ) : ∃ m, n ≤ m ∧ (τ.state m).pending (.network i) = 0 :=
  idle_of_lowered (fun _ hn => network_lowered hroom hsound hfair hn) n

theorem commands_below (i n : ℕ) :
    ∃ m, n ≤ m ∧ ((τ.state m).station i).commands.length < h.room := by
  refine Trace.below_of_fair (f := fun s : Mesh h.env => (s.station i).commands.length)
    (hfair.commands i) hroom (fun n => ((hsound n).station i).commands) ?_ ?_ n
  · rintro n ⟨a, ha, rfl⟩
    exact (τ.step n _ ha).commands_lt
  · intro n
    obtain ⟨m, hm, hidle⟩ := network_idle hroom hsound hfair i n
    exact ⟨m, hm, enabled_command (hsound m) hidle⟩

/-- A filter does not wait for a reply forever: its network takes all commands before the request,
and then the request. -/
theorem replied {i n : ℕ} : ∃ m, n ≤ m ∧ ((τ.state m).station i).awaiting = false := by
  by_contra hno
  push Not at hno
  have hawaiting : ∀ m, n ≤ m → ((τ.state m).station i).awaiting = true :=
    fun m hm => by simpa using hno m hm
  have hnonempty : ∀ m, n ≤ m → 0 < ((τ.state m).station i).commands.length := by
    intro m hm
    obtain ⟨command, hmem, -⟩ := ((hsound m).station i).replies (hawaiting m hm)
    exact List.length_pos_of_mem hmem
  have hkeep : ∀ m, n ≤ m → ((τ.state (m + 1)).station i).commands.length ≤
      ((τ.state m).station i).commands.length := by
    intro m hm
    refine Trace.next (P := fun s s' : Mesh h.env => (s.station i).awaiting = true →
      (s'.station i).commands.length ≤ (s.station i).commands.length)
      (fun _ _ => le_rfl) ?_ m (hawaiting m hm)
    intro s a s' hstep hs
    refine (hstep.station i).commands.length_le_of_not_writes ?_
    rintro ⟨hfalse, -⟩
    simp [hs] at hfalse
  have henabled : ∀ k, ∃ m, k ≤ m ∧ Enabled (Step h) (· = .command i) (τ.state m) := by
    intro k
    obtain ⟨m, hm, hidle⟩ := network_idle hroom hsound hfair i (max n k)
    exact ⟨m, (le_max_right n k).trans hm,
      enabled_command (hsound m) hidle (hnonempty m ((le_max_left n k).trans hm))⟩
  obtain ⟨m, hm, hzero⟩ := Trace.zero_of_lowered
    (f := fun s : Mesh h.env => (s.station i).commands.length) (fun m hm _ => hkeep m hm)
    fun m _ _ => by
      obtain ⟨k, hk, a, ha, rfl⟩ := hfair.commands i henabled m
      exact ⟨k, hk, (τ.step k _ ha).commands_lt⟩
  have hpos := hnonempty m hm
  omega

theorem filter_holds {i n : ℕ} (hn : 0 < (τ.state n).pending (.filter i))
    (hconst : ∀ m, n ≤ m → (τ.state m).pending (.filter i) = (τ.state n).pending (.filter i)) :
    ∃ effect outbox, ∀ m, n ≤ m → ((τ.state m).station i).awaiting = false ∧
      ((τ.state m).station i).outbox = effect :: outbox := by
  obtain ⟨k, hk, hreplied⟩ := replied hroom hsound hfair (i := i) (n := n)
  have hawaiting : ∀ m, n ≤ m → ((τ.state m).station i).awaiting = false := by
    intro m hm
    have hpending := (hconst m hm).trans (hconst k hk).symm
    simp only [pending, hreplied] at hpending
    cases hcases : ((τ.state m).station i).awaiting with
    | false => rfl
    | true =>
      simp only [hcases, Bool.toNat_true, Bool.toNat_false] at hpending
      omega
  have hlength : ∀ m, n ≤ m →
      ((τ.state m).station i).outbox.length = ((τ.state n).station i).outbox.length := by
    intro m hm
    have hpending := hconst m hm
    simp only [pending, hawaiting m hm, hawaiting n le_rfl] at hpending
    omega
  simp only [pending, hawaiting n le_rfl, Bool.toNat_false] at hn
  obtain ⟨effect, outbox, hcons⟩ := List.exists_cons_of_length_pos
    (show 0 < ((τ.state n).station i).outbox.length by omega)
  refine ⟨effect, outbox, fun m hm => ⟨hawaiting m hm, ?_⟩⟩
  induction m, hm using Nat.le_induction with
  | base => exact hcons
  | succ m hm ih =>
    have hnext := Trace.next (τ := τ) (P := fun s s' : Mesh h.env =>
      (s.station i).outbox = effect :: outbox → (s'.station i).outbox = effect :: outbox ∨
        (s'.station i).outbox = outbox) (fun _ hs => .inl hs) ?_ m ih
    · rcases hnext with heq | heq
      · exact heq
      · have hlong := hlength (m + 1) (hm.trans (Nat.le_succ m))
        simp [heq, hcons] at hlong
    · intro s a s' hstep hs
      rcases (hstep.station i).outbox with ⟨heq, -⟩ | ⟨-, ⟨hnil, -⟩ | ⟨effect', hcons', -⟩⟩
      · exact .inl (heq.trans hs)
      · simp [hs] at hnil
      · exact .inr (List.cons.inj (hcons'.symm.trans hs)).2

theorem filter_lowered {i n : ℕ} (hn : 0 < (τ.state n).pending (.filter i)) :
    ∃ m, n ≤ m ∧ (τ.state (m + 1)).pending (.filter i) < (τ.state m).pending (.filter i) := by
  refine lowered_of_ready (hfair.resumes _) hn fun hconst k hk => ?_
  obtain ⟨effect, outbox, hholds⟩ := filter_holds hroom hsound hfair hn hconst
  cases heffect : toCommand effect with
  | none =>
    obtain ⟨m, hm, hconnects⟩ := connects_below hroom hsound hfair k
    obtain ⟨hawaiting, houtbox⟩ := hholds m (hk.trans hm)
    refine ⟨m, hm, enabled_perform (hsound m) hawaiting houtbox (fun _ _ => hconnects) ?_⟩
    intro command hcommand
    simp [heffect] at hcommand
  | some command =>
    obtain ⟨m, hm, hcommands⟩ := commands_below hroom hsound hfair i k
    obtain ⟨hawaiting, houtbox⟩ := hholds m (hk.trans hm)
    refine ⟨m, hm, enabled_perform (hsound m) hawaiting houtbox ?_ fun _ _ => hcommands⟩
    rintro peer rfl
    cases heffect

/-- Every task that has something to do goes on. -/
theorem lowered (t : TaskId) {n : ℕ} (hn : 0 < (τ.state n).pending t) :
    ∃ m, n ≤ m ∧ (τ.state (m + 1)).pending t < (τ.state m).pending t := by
  cases t with
  | overseer => exact overseer_lowered hsound hfair hn
  | filter i => exact filter_lowered hroom hsound hfair hn
  | network i => exact network_lowered hroom hsound hfair hn
  | forwarder i => exact forwarder_lowered hroom hsound hfair hn

end Traces

/-- The tasks have nothing to do and the channels between them are empty. -/
structure Drained {env : Environment} (s : Mesh env) : Prop where
  pending : ∀ t, s.pending t = 0
  stream : ∀ i, (s.station i).stream = []
  connects : s.connects = []
  commands : ∀ i, (s.station i).commands = []
  events : ∀ i, (s.station i).events = []

/-- Any schedule that rests once everything is done is fair. -/
theorem scheduled_of_drained {h : Setting} {τ : Trace (Step h)} {s : Mesh h.env} {n : ℕ}
    (hs : s.Drained) (hrests : ∀ m, n ≤ m → τ.state m = s) : Scheduled τ where
  resumes t := Trace.fair_of_rests hrests fun a s' ha hstep => by
    have := hstep.pending_lt ha
    simp [hs.pending t] at this
  takesEvent i := Trace.fair_of_rests hrests fun a s' ha hstep => by
    have := hstep.stream_lt ha
    simp [hs.stream i] at this
  takesConnect := Trace.fair_of_rests hrests fun a s' ha hstep => by
    have := hstep.connects_lt ha
    simp [hs.connects] at this
  commands i := Trace.fair_of_rests hrests fun a s' ha hstep => by
    subst ha
    have := hstep.commands_lt
    simp [hs.commands i] at this
  forwards i := Trace.fair_of_rests hrests fun a s' ha hstep => by
    subst ha
    have := hstep.events_lt
    simp [hs.events i] at this

/-- If the overseer takes a call only while the filters that it may send commands to have room for
them, then no tasks ever wait for each other, and under every fair schedule each task that waits
goes on. -/
theorem continues_of_headroom (h : Setting) (hroom : 0 < h.room) (parameters : Parameters) :
    (∀ actions s,
      Run (fun s a s' => Step h s a s' ∧ s.Headroom h a) (start h.env parameters) actions s →
        ∀ D, ¬ Deadlock (s.Waits h.room) D) ∧
    ∀ τ : Trace (Step h), τ.state 0 = start h.env parameters →
      (∀ n a, τ.label n = some a → (τ.state n).Headroom h a) → Scheduled τ →
        ∀ n t, (τ.state n).Blocked h.room t →
          ∃ m, n ≤ m ∧ (τ.state (m + 1)).pending t < (τ.state m).pending t := by
  have hkeep : ∀ (s : Mesh h.env) a s', Step h s a s' → s.Headroom h a → s.Sound h → s'.Sound h :=
    fun _ _ _ hstep hheadroom hs => hstep.sound (hstep.roomy hs.wellFormed hs.ample hheadroom) hs
  constructor
  · intro actions s hrun D
    have hs : s.Sound h := hrun.invariant
      (fun s a s' hstep hs => hkeep s a s' hstep.1 hstep.2 hs) (sound_start h parameters)
    exact not_deadlock hs.ample D
  · intro τ hstart hheadroom hfair n t hblocked
    have hsound : ∀ n, (τ.state n).Sound h :=
      Trace.invariant hkeep hheadroom (hstart ▸ sound_start h parameters)
    exact lowered hroom hsound hfair t (pending_pos_of_blocked hblocked)

section Cycle

def narrow : Setting := ⟨Substrate.local, .loading loopback, 1⟩

/-- An interface is created and its script asks for two connections at once. -/
def asking : List (Action narrow.env) :=
  [.request (.createInterface ⟨[127, 0, 0, 1], 0⟩ "" none) [],
    .filterPoll 0 (.ok [.connect [7], .connect [8]]),
    .perform 0]

/-- The overseer takes the first connection, then the filter asks for the second. -/
def answering : List (Action narrow.env) := [.takeConnect [], .perform 0, .takeConnect []]

theorem run_asking : ∃ s s',
    Run (fun s a s' => Step narrow s a s' ∧ s.Headroom narrow a) (start narrow.env ⟨[]⟩) asking s ∧
    s.Waits narrow.room (.filter 0) .overseer ∧
    Run (fun s a s' => Step narrow s a s' ∧ s.Headroom narrow a) s answering s' ∧ s'.Drained := by
  have hlow : ∀ {s : Mesh narrow.env} {a}, (∀ i, (s.station i).queue = []) →
      (∀ call ∈ s.takes a, call.load ≤ 1) → s.Headroom narrow a := by
    intro s a hqueue hload call hcall i _
    simpa [hqueue i, narrow] using hload call hcall
  refine ⟨_, _, .cons ⟨⟨rfl, _, rfl, ?_, rfl⟩, ?_⟩ (.cons ⟨⟨?_, rfl⟩, ?_⟩ (.cons ⟨⟨?_, rfl⟩, ?_⟩
    (.nil _))), ⟨rfl, _, _, rfl, le_rfl⟩, .cons ⟨⟨_, _, _, rfl, rfl, _, rfl, ?_, rfl⟩, ?_⟩
    (.cons ⟨⟨?_, rfl⟩, ?_⟩ (.cons ⟨⟨_, _, _, rfl, rfl, _, rfl, ?_, rfl⟩, ?_⟩ (.nil _))), ?_⟩
  · intro i
    cases i <;> rfl
  · exact hlow (fun _ => rfl) (by rintro call ⟨⟩; exact le_rfl)
  · decide
  · rintro call ⟨⟩
  · decide
  · rintro call ⟨⟩
  · intro i
    cases i <;> rfl
  · exact hlow (fun i => by cases i <;> rfl) (by rintro call ⟨⟩; exact le_rfl)
  · decide
  · rintro call ⟨⟩
  · intro i
    cases i <;> rfl
  · exact hlow (fun i => by cases i <;> rfl) (by rintro call ⟨⟩; exact le_rfl)
  · refine ⟨fun t => ?_, fun i => ?_, rfl, fun i => ?_, fun i => ?_⟩
    · cases t with
      | overseer => rfl
      | filter i | network i | forwarder i => cases i <;> rfl
    all_goals cases i <;> rfl

/-- A filter that asks for two connections waits for the overseer, and goes on. -/
theorem continues_of_headroom_asking : ∃ τ : Trace (Step narrow),
    τ.state 0 = start narrow.env ⟨[]⟩ ∧
    (∀ n a, τ.label n = some a → (τ.state n).Headroom narrow a) ∧ Scheduled τ ∧
    (τ.state 3).Blocked narrow.room (.filter 0) ∧
    ∃ m, 3 ≤ m ∧ (τ.state (m + 1)).pending (.filter 0) < (τ.state m).pending (.filter 0) := by
  obtain ⟨s, s', hasking, hwaits, hanswering, hdrained⟩ := run_asking
  obtain ⟨τ', hstart', hrests, hheadroom'⟩ :=
    Trace.exists_of_run hanswering (.resting s') rfl fun _ _ hlabel => by cases hlabel
  obtain ⟨τ, hstart, hstate, hheadroom⟩ := Trace.exists_of_run hasking τ' hstart' hheadroom'
  have hfair : Scheduled τ := scheduled_of_drained (n := 6) hdrained fun m hm => by
    obtain ⟨k, rfl⟩ := Nat.exists_eq_add_of_le hm
    have hnext := hstate (3 + k)
    rw [← Nat.add_assoc] at hnext
    exact hnext.trans (hrests k)
  have hblocked : (τ.state 3).Blocked narrow.room (.filter 0) := by
    rw [show τ.state 3 = s from (hstate 0).trans hstart']
    exact ⟨.overseer, hwaits⟩
  exact ⟨τ, hstart, hheadroom, hfair, hblocked,
    (continues_of_headroom narrow (by decide) ⟨[]⟩).2 τ hstart hheadroom hfair 3 _ hblocked⟩

/-- An interface is created, its script asks for two connections at once, and before the overseer
takes the first of them two filters are installed. -/
def crossing : List (Action narrow.env) :=
  [.request (.createInterface ⟨[127, 0, 0, 1], 0⟩ "" none) [],
    .filterPoll 0 (.ok [.connect [7], .connect [8]]),
    .perform 0,
    .request (.installNotificationFilter 0 "" "" "")
      [(0, .installNotificationFilter "" "" (some ""))],
    .send,
    .request (.installNotificationFilter 0 "" "" "")
      [(0, .installNotificationFilter "" "" (some ""))]]

theorem run_crossing : ∃ s, Run (Step narrow) (start narrow.env ⟨[]⟩) crossing s ∧
    s.Waits narrow.room .overseer (.filter 0) ∧ s.Waits narrow.room (.filter 0) .overseer := by
  refine ⟨_, .cons ⟨rfl, _, rfl, ?_, rfl⟩ (.cons ⟨?_, rfl⟩ (.cons ⟨?_, rfl⟩
    (.cons ⟨rfl, _, rfl, ?_, rfl⟩ (.cons rfl (.cons ⟨rfl, _, rfl, ?_, rfl⟩ (.nil _)))))), ?_, ?_⟩
  · intro i
    cases i <;> rfl
  · decide
  · decide
  · intro i
    cases i <;> rfl
  · intro i
    cases i <;> rfl
  · exact ⟨_, _, rfl, le_rfl⟩
  · exact ⟨rfl, _, _, rfl, le_rfl⟩

/-- The overseer waits for the filter whose channel is full, and the filter for the overseer, whose
channel is full too; whatever else happens, both wait forever. -/
theorem deadlock_crossing : ∃ s, Run (Step narrow) (start narrow.env ⟨[]⟩) crossing s ∧
    ∀ actions s', Run (Step narrow) s actions s' →
      Deadlock (s'.Waits narrow.room) {.overseer, .filter 0} := by
  obtain ⟨s, hrun, hoverseer, hfilter⟩ := run_crossing
  refine ⟨s, hrun, fun actions s' hrun' => deadlock_run hrun' ⟨⟨.overseer, .inl rfl⟩, ?_⟩⟩
  rintro t (rfl | rfl)
  · exact ⟨.filter 0, .inr rfl, hoverseer⟩
  · exact ⟨.overseer, .inl rfl, hfilter⟩

end Cycle

end Mesh

end SwarmHost.Concurrency
