import SwarmHost.Notifications.Requests
import SwarmHost.Peerset.Agreement

/-! # The behaviour and its peerset

The peerset is part of the behaviour. It is called for every request of the remote
and for every connection that is lost, and its messages are taken when the
behaviour is polled. A request that it does not answer leaves the remote waiting.
-/

namespace SwarmHost.Substrate

namespace Peerset

variable {s s' s'' : Peerset} {x : PeerId × SetId} {index : IncomingIndex}

/-- The behaviour calls the peerset, which reads the clock. -/
def call (clock : PeersetCall → Instant) (s : Peerset) (call : PeersetCall) : Peerset :=
  match call with
  | .incoming set peer index => s.incoming (clock call) set peer index
  | .dropped set peer reason => s.dropped (clock call) set peer reason

def Message.index? : Message → Option IncomingIndex
  | .accept index | .reject index => some index
  | .connect .. | .drop .. => none

/-- The request of the pair ends with the message. -/
def Message.Answers (x : PeerId × SetId) (index : IncomingIndex) (message : Message) : Prop :=
  message = .accept index ∨ message = .reject index ∨ message = .connect x.2 x.1

/-- Nothing is emitted. -/
structure Calm (s s' : Peerset) : Prop where
  numSets : s'.data.numSets = s.data.numSets
  sized : s'.data.Sized
  rx : s'.rx = s.rx
  queue : s'.messageQueue = s.messageQueue

theorem Calm.trans (h : Calm s s') (h' : Calm s' s'') : Calm s s'' :=
  ⟨h'.numSets.trans h.numSets, h'.sized, h'.rx.trans h.rx, h'.queue.trans h.queue⟩

theorem calm_calls (hs : s.data.Sized) (clock : PeersetCall → Instant) {calls : List PeersetCall}
    (h : ∀ call ∈ calls, call.isDropped) : Calm s (calls.foldl (Peerset.call clock) s) := by
  induction calls generalizing s with
  | nil => exact ⟨rfl, hs, rfl, rfl⟩
  | cons call calls ih =>
    cases call with
    | incoming set peer index => cases h _ List.mem_cons_self
    | dropped set peer reason =>
      have hf := forgets_dropped hs (clock (.dropped set peer reason)) set peer reason
      have hc : Calm s (s.dropped (clock (.dropped set peer reason)) set peer reason) :=
        ⟨hf.numSets, hf.sized, hf.rx, hf.queue⟩
      exact hc.trans (ih hf.sized fun call hcall => h call (List.mem_cons_of_mem _ hcall))

theorem onAction_queue (hs : s.data.Sized) (order : HashOrder) (now : Instant) {action : Action}
    (hset : ∀ set ∈ action.set?, set < s.data.numSets) :
    (s.onAction order now action).data.Sized ∧
      (s.onAction order now action).data.numSets = s.data.numSets ∧
      ∃ messages, (s.onAction order now action).messageQueue = s.messageQueue ++ messages ∧
        ∀ m ∈ messages, m.index? = none := by
  by_cases hconnect : ∃ p, action = .connectToPeer p
  · obtain ⟨p, rfl⟩ := hconnect
    exact ⟨hs, rfl, [.connect 0 p], rfl, by simp [Message.index?]⟩
  · obtain ⟨xs, hxs⟩ := drops_onAction hs order now hset fun p h => hconnect ⟨p, h⟩
    refine ⟨hxs.sized, hxs.numSets, _, hxs.queue, ?_⟩
    rintro m hm
    obtain ⟨y, -, rfl⟩ := List.mem_map.mp hm
    rfl

/-- Polling takes the first message, after adding some that answer nothing. -/
theorem pollLoop_queue (order : HashOrder) (now : Instant) {actions : List Action}
    (hs : s.data.Sized) (ha : ∀ a ∈ actions, ∀ set ∈ a.set?, set < s.data.numSets) :
    let out := s.pollLoop order now actions
    out.2.data.Sized ∧ out.2.data.numSets = s.data.numSets ∧ out.2.rx ⊆ actions ∧
      ∃ messages, s.messageQueue ++ messages = out.1.toList ++ out.2.messageQueue ∧
        ∀ m ∈ messages, m.index? = none := by
  induction actions generalizing s with
  | nil =>
    unfold pollLoop
    cases hq : s.messageQueue with
    | nil | cons => exact ⟨hs, rfl, List.Subset.refl _, [], by simp, by simp⟩
  | cons action actions ih =>
    unfold pollLoop
    cases hq : s.messageQueue with
    | cons message queue => exact ⟨hs, rfl, List.Subset.refl _, [], by simp, by simp⟩
    | nil =>
      obtain ⟨hs', hnum, messages, hmessages, hnone⟩ :=
        onAction_queue hs order now (ha action List.mem_cons_self)
      obtain ⟨hs'', hnum', hsub, messages', hmessages', hnone'⟩ := ih hs' (by
        intro a hmem
        rw [hnum]
        exact ha a (List.mem_cons_of_mem _ hmem))
      refine ⟨hs'', hnum'.trans hnum, List.subset_cons_of_subset _ hsub, messages ++ messages',
        ?_, ?_⟩
      · rw [← hmessages', hmessages, hq, List.nil_append, List.nil_append]
      · intro m hm
        rcases List.mem_append.mp hm with hm | hm
        · exact hnone m hm
        · exact hnone' m hm

/-- A request of the pair that is reported now will be answered, or the pair connected. -/
def Attends (s : Peerset) (x : PeerId × SetId) : Prop :=
  ¬ s.data.Connected (x.2, x.1) ∨ (s.reservedOnly x.2 ∧ x.1 ∉ s.reserved x.2) ∨
    .connect x.2 x.1 ∈ s.messageQueue

instance (s : Peerset) (x : PeerId × SetId) : Decidable (s.Attends x) :=
  inferInstanceAs (Decidable (_ ∨ _))

theorem answers_of_attends (hs : s.data.Sized) (hset : x.2 < s.data.numSets) (now : Instant)
    (h : s.Attends x) : ∃ m ∈ (s.incoming now x.2 x.1 index).messageQueue, m.Answers x index := by
  rcases (answers_incoming hs hset now x.1 index).answer with ⟨hq, -⟩ | ⟨hq, -⟩ | ⟨hq, hc, -⟩
  · exact ⟨.accept index, by simp [hq], .inl rfl⟩
  · exact ⟨.reject index, by simp [hq], .inr (.inl rfl)⟩
  · rcases h with h | h | h
    · exact absurd hc h
    · have hreject : (s.incoming now x.2 x.1 index).messageQueue =
          s.messageQueue ++ [.reject index] := by
        have hcond : (s.updateTime now).reservedOnly x.2 ∧ x.1 ∉ (s.updateTime now).reserved x.2 :=
          h
        rw [incoming, if_pos hcond]
        rfl
      exact ⟨.reject index, by simp [hreject], .inr (.inl rfl)⟩
    · exact ⟨_, hq ▸ h, .inr (.inr rfl)⟩

/-- Nothing is said about a request of a pair that counts as connected. -/
theorem incoming_queue_of_connected (hs : s.data.Sized) (now : Instant)
    (hc : s.data.Connected (x.2, x.1)) (hr : ¬ (s.reservedOnly x.2 ∧ x.1 ∉ s.reserved x.2)) :
    (s.incoming now x.2 x.1 index).messageQueue = s.messageQueue := by
  have hcond : ¬ ((s.updateTime now).reservedOnly x.2 ∧ x.1 ∉ (s.updateTime now).reserved x.2) :=
    hr
  have hc' : (s.updateTime now).data.Connected (x.2, x.1) :=
    ((sameConnected_updateTime hs now).connected _).mpr hc
  rw [incoming, if_neg hcond, if_pos (PeersState.peer_eq_connected.mpr hc')]
  rfl

end Peerset

/-- The behaviour with its handlers and its peerset. -/
structure Joint where
  swarm : Swarm
  peerset : Peerset

inductive JointInput where
  /-- Something happens to the behaviour or to a handler. -/
  | swarm (clock : PeersetCall → Instant) (input : SwarmInput)
  /-- A handle of the peerset sends an action. -/
  | send (action : Peerset.Action)
  /-- The behaviour polls the peerset and handles the message. -/
  | poll (order : HashOrder) (now later : Instant) (clock : PeersetCall → Instant)

def SwarmInput.isPeersetMessage : SwarmInput → Bool
  | .call (.peersetMessage ..) => true
  | _ => false

namespace Joint

def start (order : HashOrder) (now : Instant) (sets : List SetConfig) : Joint :=
  ⟨.start sets.length, .fromConfig order now sets⟩

variable (j : Joint)

def notifications : Notifications := j.swarm.driven.notifications

def react (clock : PeersetCall → Instant) (input : SwarmInput) : Joint where
  swarm := j.swarm.next input
  peerset := ((j.swarm.next input).driven.notifications.calls.drop
    j.notifications.calls.length).foldl (Peerset.call clock) j.peerset

def next : JointInput → Joint
  | .swarm clock input => j.react clock input
  | .send action => { j with peerset := j.peerset.send action }
  | .poll order now later clock =>
    match j.peerset.pollNext order now with
    | (none, peerset) => { j with peerset := peerset }
    | (some message, peerset) =>
      { j with peerset := peerset }.react clock (.call (.peersetMessage later message))

/-- Messages of the peerset arrive by polling only, and handles name sets that exist. -/
def Admissible : JointInput → Prop
  | .swarm _ input => j.swarm.Admissible input ∧ input.isPeersetMessage = false
  | .send action => ∀ set ∈ action.set?, set < j.peerset.data.numSets
  | .poll .. => True

instance (input : JointInput) : Decidable (j.Admissible input) := by
  cases input <;> unfold Admissible <;> infer_instance

def Step (input : JointInput) (j' : Joint) : Prop := j.Admissible input ∧ j.next input = j'

/-- A message on its way answers each request that is alive. -/
def Answered (j : Joint) : Prop :=
  ∀ x, ∀ index ∈ j.notifications.aliveOf x, ∃ m ∈ j.peerset.messageQueue, m.Answers x index

/-- A pair waits for an answer exactly if one request of it is alive, and an answer to it is on
its way. -/
def Attended (j : Joint) : Prop :=
  (∀ x, PeerState.isIncoming (j.swarm.entry x) ↔ (j.notifications.aliveOf x).length = 1) ∧
    j.Answered

/-- No handler's request to close arrives while the entry waits for an answer, and a request of
the remote that the peerset would leave unanswered does not arrive. -/
def Attends (j : Joint) : JointInput → Prop
  | .swarm _ input => ∀ i, j.swarm.call? input = some i →
    ¬ j.swarm.driven.Unheeded i ∧ ∀ x, j.swarm.driven.asker? i = some x → j.peerset.Attends x
  | .send _ | .poll .. => True

/-- The tables fit together, and the numbers on their way were given. -/
structure Sound (j : Joint) : Prop where
  steady : j.swarm.driven.Steady
  numbered : j.notifications.Numbered
  sized : j.peerset.data.Sized
  numSets : j.peerset.data.numSets = j.notifications.numProtocols
  actions : ∀ a ∈ j.peerset.rx, ∀ set ∈ a.set?, set < j.peerset.data.numSets
  indices : ∀ m ∈ j.peerset.messageQueue, ∀ i ∈ m.index?, i < j.notifications.nextIncomingIndex

variable {j} {j' : Joint} {clock : PeersetCall → Instant} {input : SwarmInput}
  {x : PeerId × SetId}

theorem Sound.incoming_iff (h : j.Sound) (x : PeerId × SetId) :
    PeerState.isIncoming (j.swarm.entry x) ↔ (j.notifications.aliveOf x).length = 1 := by
  have hlength : (j.notifications.aliveOf x).length =
      (PeerState.isIncoming (j.swarm.entry x)).toNat := h.steady.length_aliveOf x
  rw [hlength]
  cases PeerState.isIncoming (j.swarm.entry x) <;> simp

theorem sound_start (order : HashOrder) (now : Instant) (sets : List SetConfig) :
    (start order now sets).Sound where
  steady := Driven.steady_start sets.length
  numbered := ⟨List.nodup_nil, by rintro i ⟨⟩⟩
  sized := (Peerset.fromConfig_spec order now sets).1
  numSets := Peerset.numSets_fromConfig order now sets
  actions := by rintro a ⟨⟩
  indices := by rintro m ⟨⟩

/-- What the behaviour does is a step of its own, or nothing. -/
theorem driven_next (hadm : j.swarm.Admissible input) :
    j.swarm.call? input = none ∧ (j.swarm.next input).driven = j.swarm.driven ∨
      ∃ i, j.swarm.call? input = some i ∧ (j.swarm.next input).driven = j.swarm.driven.next i := by
  have hstep : j.swarm.Step input (j.swarm.next input) := ⟨hadm, rfl⟩
  rcases hstep.logged with ⟨hcall, hlogged⟩ | ⟨i, hcall, -, hnext⟩
  · exact .inl ⟨hcall, congrArg Logged.driven hlogged⟩
  · exact .inr ⟨i, hcall, (congrArg Logged.driven hnext).symm⟩

theorem Sound.steady_react (h : j.Sound) (hadm : j.swarm.Admissible input)
    (hheeds : j.swarm.Heeds input) : (j.react clock input).swarm.driven.Steady :=
  Swarm.steady_step h.steady ⟨hadm, rfl⟩ hheeds

theorem numProtocols_react (hadm : j.swarm.Admissible input) :
    (j.react clock input).notifications.numProtocols = j.notifications.numProtocols := by
  simp only [notifications, react]
  rcases driven_next hadm with ⟨-, hd⟩ | ⟨i, -, hd⟩
  · rw [hd]
  · rw [hd, Driven.numProtocols_next]

/-- Nothing is emitted if no request is made. -/
theorem Sound.react_quiet (h : j.Sound) (hadm : j.swarm.Admissible input)
    (hheeds : j.swarm.Heeds input)
    (hquiet : j.notifications.Quiet (j.react clock input).notifications) :
    (j.react clock input).Sound ∧
      (j.react clock input).peerset.messageQueue = j.peerset.messageQueue := by
  obtain ⟨calls, hcalls, hdropped⟩ := hquiet.calls
  have hcalm : Peerset.Calm j.peerset (j.react clock input).peerset := by
    have hnew : (j.swarm.next input).driven.notifications.calls.drop j.notifications.calls.length =
        calls := by
      have hcalls' : (j.swarm.next input).driven.notifications.calls =
        j.notifications.calls ++ calls := hcalls
      rw [hcalls', List.drop_left]
    rw [react, hnew]
    exact Peerset.calm_calls h.sized clock hdropped
  refine ⟨⟨h.steady_react hadm hheeds, hquiet.numbered h.numbered, hcalm.sized, ?_, ?_, ?_⟩,
    hcalm.queue⟩
  · rw [hcalm.numSets, h.numSets, numProtocols_react hadm]
  · rw [hcalm.rx, hcalm.numSets]
    exact h.actions
  · rw [hcalm.queue, hquiet.index]
    exact h.indices

theorem react_asks (h : j.notifications.Asks x (j.react clock input).notifications) :
    (j.react clock input).peerset = j.peerset.incoming
      (clock (.incoming x.2 x.1 j.notifications.nextIncomingIndex)) x.2 x.1
      j.notifications.nextIncomingIndex := by
  have hcalls : (j.swarm.next input).driven.notifications.calls =
      j.notifications.calls ++ [.incoming x.2 x.1 j.notifications.nextIncomingIndex] := h.calls
  rw [react, hcalls, List.drop_left]
  rfl

theorem Sound.react_asks (h : j.Sound) (hadm : j.swarm.Admissible input)
    (hheeds : j.swarm.Heeds input) (hx : x.2 < j.notifications.numProtocols)
    (hasks : j.notifications.Asks x (j.react clock input).notifications) :
    (j.react clock input).Sound := by
  have hans := Peerset.answers_incoming h.sized (h.numSets ▸ hx)
    (clock (.incoming x.2 x.1 j.notifications.nextIncomingIndex)) x.1
    j.notifications.nextIncomingIndex
  rw [← Joint.react_asks hasks] at hans
  refine ⟨h.steady_react hadm hheeds, hasks.numbered h.numbered, hans.sized, ?_, ?_, ?_⟩
  · rw [hans.numSets, h.numSets, numProtocols_react hadm]
  · rw [hans.rx, hans.numSets]
    exact h.actions
  · rw [hasks.index]
    have hold : ∀ m ∈ j.peerset.messageQueue, ∀ i ∈ m.index?,
        i < j.notifications.nextIncomingIndex + 1 :=
      fun m hm i hi => Nat.lt_succ_of_lt (h.indices m hm i hi)
    rcases hans.answer with ⟨hq, -⟩ | ⟨hq, -⟩ | ⟨hq, -⟩
    · rw [hq, List.forall_mem_append]
      exact ⟨hold, by simp [Peerset.Message.index?]⟩
    · rw [hq, List.forall_mem_append]
      exact ⟨hold, by simp [Peerset.Message.index?]⟩
    · rwa [hq]

theorem isIncoming_peersetReportConnect {peer : PeerId} {set : SetId} (now : Instant)
    (delayId : DelayId) (entry : Option PeerState) :
    PeerState.isIncoming (PeerState.peersetReportConnect peer set now delayId entry).entry =
      false := by
  have henable : ∀ cs deadline, PeerState.isIncoming
      (PeerState.enableOrDelay peer set cs delayId deadline).entry = false := by
    intro cs deadline
    unfold PeerState.enableOrDelay
    split <;> rfl
  rcases entry with _ | state
  · rfl
  · cases state with
    | backoff timer deadline =>
      simp only [PeerState.peersetReportConnect]
      split <;> rfl
    | disabled cs backoffUntil =>
      cases backoffUntil with
      | none => exact henable ..
      | some backoffUntil =>
        simp only [PeerState.peersetReportConnect]
        split
        · rfl
        · exact henable ..
    | _ => rfl

theorem Sound.aliveOf_connect {later : Instant}
    (h : (j.react clock (.call (.peersetMessage later (.connect x.2 x.1)))).Sound) :
    (j.react clock (.call (.peersetMessage later (.connect x.2 x.1)))).notifications.aliveOf x =
      [] := by
  have hentry : PeerState.isIncoming ((j.react clock
      (.call (.peersetMessage later (.connect x.2 x.1)))).swarm.entry x) = false := by
    obtain ⟨env, -, hget, -⟩ : Notifications.Takes x (.connect later) j.notifications
        (j.notifications.touch x.1 x.2 (.connect later)) := Notifications.takes_touch
    have hreact : (j.react clock (.call (.peersetMessage later (.connect x.2 x.1)))).swarm.entry x =
        (PeerState.peersetReportConnect x.1 x.2 later env.nextDelayId
          (j.notifications.peers.get? x)).entry := by
      refine hget.trans ?_
      cases j.notifications.peers.get? x <;> rfl
    rw [hreact]
    exact isIncoming_peersetReportConnect ..
  have hlength := h.steady.length_aliveOf x
  rw [← Swarm.entry, hentry] at hlength
  exact List.eq_nil_of_length_eq_zero hlength

theorem Sound.answered_receive (h : j.Sound) {later : Instant} {message : Peerset.Message}
    (hans : ∀ x, ∀ index ∈ j.notifications.aliveOf x,
      ∃ m ∈ message :: j.peerset.messageQueue, m.Answers x index) :
    (j.react clock (.call (.peersetMessage later message))).Sound ∧
      (j.react clock (.call (.peersetMessage later message))).Answered := by
  have hquiet : j.notifications.Quiet
      (j.react clock (.call (.peersetMessage later message))).notifications := by
    change j.notifications.Quiet (j.swarm.driven.next (.peersetMessage later message)).notifications
    exact Driven.quiet_next h.numbered rfl
  have hadm : j.swarm.Admissible (.call (.peersetMessage later message)) := ⟨trivial, rfl, trivial⟩
  have hheeds : j.swarm.Heeds (.call (.peersetMessage later message)) := by
    rintro i ⟨⟩
    exact id
  obtain ⟨hsound, hqueue⟩ := h.react_quiet hadm hheeds hquiet
  refine ⟨hsound, ?_⟩
  intro x index hindex
  rw [hqueue]
  obtain ⟨m, hm, hm'⟩ := hans x index ((hquiet.alive x).subset hindex)
  rcases List.mem_cons.mp hm with rfl | hm
  · exfalso
    have hid := Notifications.mem_incomingIds_of_alive hindex
    rcases hm' with rfl | rfl | rfl
    · exact (Notifications.quiet_answersRequest h.numbered
        (Notifications.answersRequest_accept _ index) fun _ => rfl).2 hid
    · exact (Notifications.quiet_answersRequest h.numbered
        (Notifications.answersRequest_reject _ index) fun _ => rfl).2 hid
    · rw [hsound.aliveOf_connect] at hindex
      cases hindex
  · exact ⟨m, hm, hm'⟩

theorem Sound.poll (h : j.Sound) (hans : j.Answered) (order : HashOrder) (now : Instant) :
    { j with peerset := (j.peerset.pollNext order now).2 }.Sound ∧
      ∀ x, ∀ index ∈ j.notifications.aliveOf x,
        ∃ m ∈ (j.peerset.pollNext order now).1.toList ++
          (j.peerset.pollNext order now).2.messageQueue, m.Answers x index := by
  obtain ⟨hs, hnum, hsub, messages, hmessages, hnone⟩ :=
    Peerset.pollLoop_queue order now h.sized h.actions
  simp only [Peerset.pollNext]
  refine ⟨⟨h.steady, h.numbered, hs, hnum.trans h.numSets, ?_, ?_⟩, ?_⟩
  · intro a ha
    rw [hnum]
    exact h.actions a (hsub ha)
  · intro m hm i hi
    have hmem := List.mem_append_right (j.peerset.pollLoop order now j.peerset.rx).1.toList hm
    rw [← hmessages] at hmem
    rcases List.mem_append.mp hmem with hmem | hmem
    · exact h.indices m hmem i hi
    · rw [hnone m hmem] at hi
      cases hi
  · intro x index hindex
    obtain ⟨m, hm, hm'⟩ := hans x index hindex
    refine ⟨m, ?_, hm'⟩
    rw [← hmessages]
    exact List.mem_append_left _ hm

theorem asker_lt (hadm : j.swarm.Admissible input) {i : NotificationsInput}
    (hcall : j.swarm.call? input = some i) (hx : j.swarm.driven.asker? i = some x) :
    x.2 < j.notifications.numProtocols := by
  have hstep : j.swarm.Step input (j.swarm.next input) := ⟨hadm, rfl⟩
  rcases hstep.logged with ⟨hnone, -⟩ | ⟨i', hcall', hi, -⟩
  · rw [hnone] at hcall
    cases hcall
  · obtain rfl : i' = i := Option.some.inj (hcall'.symm.trans hcall)
    cases i' with
    | handlerEvent peer c event ban =>
      simp only [Driven.asker?] at hx
      split at hx
      · obtain rfl := Option.some.inj hx
        exact hi.2
      · cases hx
    | _ => cases hx

/-- A step of the behaviour makes one request or none. -/
theorem quiet_or_asks (h : j.Sound) (hadm : j.swarm.Admissible input) :
    j.notifications.Quiet (j.react clock input).notifications ∨
      ∃ i x, j.swarm.call? input = some i ∧ j.swarm.driven.asker? i = some x ∧
        j.notifications.Asks x (j.react clock input).notifications := by
  simp only [notifications, react]
  rcases driven_next hadm with ⟨-, hd⟩ | ⟨i, hcall, hd⟩
  · rw [hd]
    exact .inl (.refl _)
  · rw [hd]
    cases hx : j.swarm.driven.asker? i with
    | none => exact .inl (Driven.quiet_next h.numbered hx)
    | some x => exact .inr ⟨i, x, hcall, hx, Driven.asks_next hx⟩

theorem Sound.attended (h : j.Sound) (hans : j.Answered) : j.Attended := ⟨h.incoming_iff, hans⟩

theorem answered_asks (h : j.Sound) (hans : j.Answered) (hx : x.2 < j.notifications.numProtocols)
    (hasks : j.notifications.Asks x (j.react clock input).notifications)
    (hattends : j.peerset.Attends x) : (j.react clock input).Answered := by
  intro y index hindex
  by_cases hnew : y = x ∧ index = j.notifications.nextIncomingIndex
  · obtain ⟨rfl, rfl⟩ := hnew
    rw [react_asks hasks]
    exact Peerset.answers_of_attends h.sized (h.numSets ▸ hx) _ hattends
  · have hold : index ∈ j.notifications.aliveOf y := by
      by_cases hy : y = x
      · subst hy
        rw [hasks.alive, List.mem_append, List.mem_singleton] at hindex
        exact hindex.resolve_right fun hi => hnew ⟨rfl, hi⟩
      · rwa [hasks.others y hy] at hindex
    obtain ⟨m, hm, hm'⟩ := hans y index hold
    refine ⟨m, ?_, hm'⟩
    rw [react_asks hasks]
    rcases (Peerset.answers_incoming h.sized (h.numSets ▸ hx) _ x.1 _).answer with
      ⟨hq, -⟩ | ⟨hq, -⟩ | ⟨hq, -⟩
    · rw [hq]
      exact List.mem_append_left _ hm
    · rw [hq]
      exact List.mem_append_left _ hm
    · rwa [hq]

theorem attended_step {input : JointInput} (hstep : j.Step input j') (h : j.Sound ∧ j.Answered)
    (hattends : j.Attends input) : j'.Sound ∧ j'.Answered := by
  obtain ⟨hadm, rfl⟩ := hstep
  obtain ⟨hsound, hans⟩ := h
  cases input with
  | swarm clock input =>
    have hheeds : j.swarm.Heeds input := fun i hi => (hattends i hi).1
    rcases quiet_or_asks hsound hadm.1 with hquiet | ⟨i, x, hcall, hx, hasks⟩
    · obtain ⟨hsound', hqueue⟩ := hsound.react_quiet hadm.1 hheeds hquiet
      refine ⟨hsound', ?_⟩
      intro x index hindex
      rw [next, hqueue]
      exact hans x index ((hquiet.alive x).subset hindex)
    · have hlt := asker_lt hadm.1 hcall hx
      exact ⟨hsound.react_asks hadm.1 hheeds hlt hasks,
        answered_asks hsound hans hlt hasks ((hattends i hcall).2 x hx)⟩
  | send action =>
    refine ⟨⟨hsound.steady, hsound.numbered, hsound.sized, hsound.numSets, ?_, hsound.indices⟩,
      hans⟩
    intro a ha
    rcases List.mem_append.mp ha with ha | ha
    · exact hsound.actions a ha
    · obtain rfl := List.mem_singleton.mp ha
      exact hadm
  | poll order now later clock =>
    obtain ⟨hsound', hans'⟩ := hsound.poll hans order now
    rcases hpoll : j.peerset.pollNext order now with ⟨message, peerset⟩
    rw [hpoll] at hsound' hans'
    simp only [next, hpoll]
    cases message with
    | none => exact ⟨hsound', hans'⟩
    | some message => exact hsound'.answered_receive hans'

/-- Where the handler asks in vain, the request stays alive and the entry no longer waits. -/
theorem Sound.unattended_of_unheeded (h : j.Sound) (hadm : j.swarm.Admissible input)
    {i : NotificationsInput} (hcall : j.swarm.call? input = some i)
    (hi : j.swarm.driven.Unheeded i) : ¬ (j.react clock input).Attended := by
  intro hattended
  have hd : (j.swarm.next input).driven = j.swarm.driven.next i := by
    rcases driven_next hadm with ⟨hnone, -⟩ | ⟨i', hcall', hd⟩
    · rw [hnone] at hcall
      cases hcall
    · rw [hd, Option.some.inj (hcall'.symm.trans hcall)]
  cases i with
  | handlerEvent peer c event ban =>
    cases event with
    | closeDesired set =>
      obtain ⟨cs, backoffUntil, hentry⟩ := PeerState.exists_incoming hi
      have hlength : (j.notifications.aliveOf (peer, set)).length = 1 :=
        (h.incoming_iff (peer, set)).mp hi
      obtain ⟨env, -, hentry', -, halive⟩ : Notifications.Takes (peer, set)
          (.handlerEvent c (.closeDesired set) ban) j.notifications
          (j.notifications.touch peer set (.handlerEvent c (.closeDesired set) ban)) :=
        Notifications.takes_touch
      have hget : j.notifications.peers.get? (peer, set) = some (.incoming cs backoffUntil) :=
        hentry
      rw [hget] at hentry' halive
      have hlength' : ((j.react clock input).notifications.aliveOf (peer, set)).length = 1 := by
        rw [notifications, react, hd]
        exact (congrArg List.length halive).trans hlength
      have hincoming := (hattended.1 (peer, set)).mpr hlength'
      rw [Swarm.entry, react, hd] at hincoming
      have hpoisoned : ((j.swarm.driven.next (.handlerEvent peer c (.closeDesired set)
          ban)).notifications.peers.get? (peer, set)) = some .poisoned := hentry'
      rw [hpoisoned] at hincoming
      cases hincoming
    | _ => exact hi.elim
  | _ => exact hi.elim

theorem Sound.attends_of_answered (h : j.Sound)
    (hasks : j.notifications.Asks x (j.react clock input).notifications)
    (hans : (j.react clock input).Answered) : j.peerset.Attends x := by
  by_contra hnot
  rw [Peerset.Attends, not_or, not_or, not_not] at hnot
  obtain ⟨hconnected, hreserved, hconnect⟩ := hnot
  have hmem :
      j.notifications.nextIncomingIndex ∈ (j.react clock input).notifications.aliveOf x := by
    rw [hasks.alive]
    exact List.mem_append_right _ List.mem_cons_self
  obtain ⟨m, hm, hm'⟩ := hans x _ hmem
  rw [Joint.react_asks hasks,
    Peerset.incoming_queue_of_connected h.sized _ hconnected hreserved] at hm
  rcases hm' with rfl | rfl | rfl
  · exact Nat.lt_irrefl _ (h.indices _ hm _ rfl)
  · exact Nat.lt_irrefl _ (h.indices _ hm _ rfl)
  · exact hconnect hm

theorem attends_of_attended {input : JointInput} (hstep : j.Step input j')
    (h : j.Sound ∧ j.Answered) (hattended : j'.Attended) : j.Attends input := by
  obtain ⟨hadm, rfl⟩ := hstep
  cases input with
  | swarm clock input =>
    intro i hcall
    constructor
    · intro hi
      exact h.1.unattended_of_unheeded hadm.1 hcall hi hattended
    · intro x hx
      have hasks : j.notifications.Asks x (j.react clock input).notifications := by
        rcases driven_next hadm.1 with ⟨hnone, -⟩ | ⟨i', hcall', hd⟩
        · rw [hnone] at hcall
          cases hcall
        · obtain rfl : i' = i := Option.some.inj (hcall'.symm.trans hcall)
          simp only [notifications, react, hd]
          exact Driven.asks_next hx
      exact h.1.attends_of_answered hasks hattended.2
  | send | poll => trivial

theorem Attended.none_waiting (h : j.Attended) (hq : j.peerset.messageQueue = [])
    (x : PeerId × SetId) : ¬ PeerState.isIncoming (j.swarm.entry x) := by
  intro hincoming
  obtain ⟨index, hindex⟩ := List.length_eq_one_iff.mp ((h.1 x).mp hincoming)
  obtain ⟨m, hm, -⟩ := h.2 x index (by simp [hindex])
  rw [hq] at hm
  cases hm

/-- In every state of a run exactly the pairs with one request that is alive wait, and an answer is
on its way to each of these, if and only if no handler's request to close arrives while its entry
waits and no request arrives that the peerset leaves unanswered. Then no remote waits once the
messages were taken. -/
theorem attended_iff_attends (order : HashOrder) (now : Instant) (sets : List SetConfig)
    (inputs : List JointInput) :
    (Always Step Attended (start order now sets) inputs ↔
      Along Step (fun j input _ => j.Attends input) (start order now sets) inputs) ∧
    ∀ j : Joint, j.Attended → j.peerset.messageQueue = [] →
      ∀ x, ¬ PeerState.isIncoming (j.swarm.entry x) := by
  constructor
  · apply always_iff_along_of (I := fun j => j.Sound ∧ j.Answered)
    · exact fun _ _ _ hstep h hattends => attended_step hstep h hattends
    · exact fun _ _ _ hstep h hattended => attends_of_attended hstep h hattended
    · exact fun _ h => h.1.attended h.2
    · refine ⟨sound_start order now sets, ?_⟩
      rintro x index ⟨⟩
  · exact fun _ h hq x => h.none_waiting hq x

/-- The remote opens a substream and is accepted, the user disconnects it before the answer is
taken, and the remote opens another one. -/
def reopenedBeforeAnswer : List JointInput :=
  [.call (.connectionEstablished [7] 0), .handle [7] 0 (.inbound 0 [] []),
    .handle [7] 0 (.poll (Swarm.io false)), .event [7] 0 0, .call (.disconnectPeer 0 [7] 0),
    .call .popEvent, .command [7] 0 [], .handle [7] 0 (.poll (Swarm.io false)), .event [7] 0 0,
    .handle [7] 0 (.inbound 0 [] []), .handle [7] 0 (.poll (Swarm.io false)),
    .event [7] 0 0].map (.swarm fun _ => 0)

def oneSlot : Joint := ⟨.start 1, ⟨⟨∅, [⟨0, 0, 1, 1, ∅⟩]⟩, [(∅, false)], [], [], 0, 0, []⟩⟩

theorem start_oneSlot (order : HashOrder) : start order 0 [⟨1, 1, [], ∅, false⟩] = oneSlot := by
  rw [start, Peerset.Session.fromConfig_single]
  rfl

theorem not_attended_reopenedBeforeAnswer : ∃ order,
    ¬ Always Step Attended (start order 0 [⟨1, 1, [], ∅, false⟩]) reopenedBeforeAnswer := by
  let order : HashOrder := ⟨Finset.toList, Finset.nodup_toList, fun _ _ => Finset.mem_toList⟩
  refine ⟨order, ?_⟩
  rw [start_oneSlot]
  intro h
  have hadm : Checks next Admissible oneSlot reopenedBeforeAnswer := by decide +kernel
  obtain ⟨m, hm, hm'⟩ := (h _ _ (List.prefix_refl _) (hadm.run fun _ _ h => ⟨h, rfl⟩)).2
    ([7], 0) 1 (by decide +kernel)
  -- only the answer to the first request is on its way
  have hqueue : (reopenedBeforeAnswer.foldl next oneSlot).peerset.messageQueue = [.accept 0] := by
    decide +kernel
  rw [hqueue, List.mem_singleton] at hm
  subst hm
  rcases hm' with h | h | h <;> cases h

end Joint

end SwarmHost.Substrate
