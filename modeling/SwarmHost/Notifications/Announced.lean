import SwarmHost.Notifications.Log

/-! # The sink that the user holds

The user sends through the sink that was announced last. Whether a lost sink is
replaced is decided by positions in the list of connections: nobody remembers
which sink was announced. So it stays that of an open connection as long as an
announced connection is lost that no other open one precedes.
-/

namespace SwarmHost.Substrate

def NotificationsOut.sink? : NotificationsOut → Option NotificationsSink
  | .customProtocolOpen _ _ _ _ sink | .customProtocolReplaced _ _ sink => some sink
  | _ => none

def announced (told : List NotificationsOut) : Option NotificationsSink :=
  (told.filterMap (·.sink?)).getLast?

namespace PeerState

/-- The announced sink is that of an open connection, if there is one. -/
def Announces (entry : Option PeerState) (told : List NotificationsOut) : Prop :=
  sinks entry ≠ [] → ∃ c sink, (c, sink) ∈ sinks entry ∧ announced told = some sink

/-- If the connection is the one whose sink was announced, no connection before it is open. -/
def LeavesInTurn (entry : Option PeerState) (told : List NotificationsOut) (c : ConnectionId) :
    Prop :=
  match entry with
  | some (.enabled cs) =>
    match cs.lookup c with
    | some (.opened sink) =>
      announced told = some sink → Connections.opens (cs.take (cs.position c)) = []
    | _ => True
  | _ => True

instance (entry : Option PeerState) (told : List NotificationsOut) (c : ConnectionId) :
    Decidable (LeavesInTurn entry told c) := by
  unfold LeavesInTurn
  split
  · split <;> infer_instance
  · infer_instance

variable {entry : Option PeerState} {told : List NotificationsOut} {x : PeerId × SetId}
  {input : PairInput} {r : Reaction}

@[simp] theorem announced_append_sink {event : NotificationsOut} {sink : NotificationsSink}
    (h : event.sink? = some sink) : announced (told ++ [event]) = some sink := by
  simp [announced, h]

theorem announced_append_none {event : NotificationsOut} (h : event.sink? = none) :
    announced (told ++ [event]) = announced told := by
  simp [announced, h]

theorem Announces.keep {entry' : Option PeerState} {told' : List NotificationsOut}
    (h : Announces entry told) (hsinks : sinks entry' = sinks entry)
    (htold : announced told' = announced told) : Announces entry' told' := by
  rwa [Announces, hsinks, htold]

theorem announces_lossEvents {l : List (ConnectionId × NotificationsSink)}
    (hsinks : sinks entry = l) : Announces entry (told ++ lossEvents x.1 x.2 [] l) := by
  intro hne
  rcases l with _ | ⟨⟨c, sink⟩, l⟩
  · exact absurd hsinks hne
  · exact ⟨c, sink, by simp [hsinks], announced_append_sink rfl⟩

theorem lossEvents_of_ne_nil {peer : PeerId} {set : SetId}
    {l l' : List (ConnectionId × NotificationsSink)} (h : l ≠ []) :
    lossEvents peer set l l' = [] := by
  rcases l with _ | ⟨e, l⟩
  · exact absurd rfl h
  · rfl

theorem announces_lost {cs : Connections} {c : ConnectionId} {sink : NotificationsSink}
    {l : List (ConnectionId × NotificationsSink)} (h : Announces (some (.enabled cs)) told)
    (hturn : LeavesInTurn (some (.enabled cs)) told c) (hc : cs.lookup c = some (.opened sink))
    (hopens : cs.opens = Connections.opens (cs.take (cs.position c)) ++ (c, sink) :: l)
    (hsinks : sinks r.entry = Connections.opens (cs.take (cs.position c)) ++ l)
    (htold : r.told = lossEvents x.1 x.2 (Connections.opens (cs.take (cs.position c))) l) :
    Announces r.entry (told ++ r.told) := by
  simp only [LeavesInTurn, hc] at hturn
  by_cases hpre : Connections.opens (cs.take (cs.position c)) = []
  · rw [hpre] at hsinks htold
    rw [htold]
    exact announces_lossEvents hsinks
  · intro _
    rw [htold, lossEvents_of_ne_nil hpre, List.append_nil, hsinks]
    obtain ⟨c', sink', hmem, hannounced⟩ := h (by simp [sinks, hopens])
    refine ⟨c', sink', ?_, hannounced⟩
    rw [sinks, hopens, List.mem_append, List.mem_cons] at hmem
    rw [List.mem_append]
    rcases hmem with hmem | hmem | hmem
    · exact .inl hmem
    · obtain ⟨-, rfl⟩ : c' = c ∧ sink' = sink := by simpa using hmem
      exact absurd (hturn hannounced) hpre
    · exact .inr hmem

/-- A reaction keeps the announced sink among the open ones, if connections are lost in turn. -/
theorem announces_reaction (h : Announces entry told)
    (hturn : ∀ c, input.Loses c → LeavesInTurn entry told c)
    (hr : Reaction.Voices x input entry r) : Announces r.entry (told ++ r.told) := by
  cases hr with
  | same hsinks htold => exact h.keep hsinks (by rw [htold, List.append_nil])
  | notified message hsinks hne htold =>
    exact h.keep hsinks (by rw [htold, announced_append_none rfl])
  | closed hne hsinks htold => exact fun hne' => absurd hsinks hne'
  | @opened l l' c sink fallback handshake hsinks hsinks' htold =>
    intro _
    by_cases hnil : sinks entry = []
    · rw [htold, if_pos hnil]
      exact ⟨c, sink, by simp [hsinks'], announced_append_sink rfl⟩
    · obtain ⟨c', sink', hmem, hannounced⟩ := h hnil
      refine ⟨c', sink', ?_, by rwa [htold, if_neg hnil, List.append_nil]⟩
      rw [hsinks, List.mem_append] at hmem
      rw [hsinks', List.mem_append, List.mem_cons]
      tauto
  | @lost cs l c sink hloses hentry hc hopens hsinks htold =>
    subst hentry
    exact announces_lost h (hturn c hloses) hc hopens hsinks htold
  | unopened hinput hentry hc hs hs' hsinks htold =>
    rcases htold with htold | htold
    · exact h.keep hsinks (by rw [htold, List.append_nil])
    · rw [htold]
      exact announces_lossEvents hsinks
  | poisoned hentry htold =>
    intro hne
    rw [hentry] at hne
    exact absurd rfl hne

end PeerState

namespace Logged

open PeerState

def entry (l : Logged) (x : PeerId × SetId) : Option PeerState :=
  l.driven.notifications.peers.get? x

/-- For every pair with an open connection, the sink announced last is that of an open one. -/
def AnnouncesAll (l : Logged) : Prop :=
  ∀ x : PeerId × SetId, Announces (l.entry x) (l.told x)

def InTurn (l : Logged) : NotificationsInput → Prop
  | .connectionClosed _ peer c => ∀ set < l.driven.notifications.numProtocols,
    LeavesInTurn (l.entry (peer, set)) (l.told (peer, set)) c
  | .handlerEvent peer c (.closeDesired set) _ =>
    LeavesInTurn (l.entry (peer, set)) (l.told (peer, set)) c
  | _ => True

instance (l : Logged) : DecidablePred l.InTurn
  | .connectionClosed .. | .handlerEvent _ _ (.closeDesired _) _
  | .handlerEvent _ _ (.openResultOk ..) _ | .handlerEvent _ _ (.openResultErr _) _
  | .handlerEvent _ _ (.closeResult _) _ | .handlerEvent _ _ (.openDesiredByRemote _) _
  | .handlerEvent _ _ (.notification ..) _ | .connectionEstablished .. | .delayElapsed ..
  | .dialFailure .. | .peersetMessage .. | .disconnectPeer .. | .popEvent => by
    dsimp only [InTurn]; infer_instance

variable {l l' : Logged} {x : PeerId × SetId} {input : NotificationsInput} {numProtocols : ℕ}
  {inputs : List NotificationsInput}

theorem loses_answer {d : Driven} {index : IncomingIndex} {i : PairInput} {c : ConnectionId}
    (hi : i = .accept ∨ i = .reject) {i' : PairInput}
    (h : (d.answerLabel x index i).input? = some i') : ¬ i'.Loses c := by
  unfold Driven.answerLabel at h
  split at h
  · split at h
    · obtain rfl := Option.some.inj h
      rcases hi with rfl | rfl <;> exact id
    · cases h
  · cases h

theorem leavesInTurn_of_label (hx : input.isSwarm → x.2 < l.driven.notifications.numProtocols)
    (hturn : l.InTurn input) {i : PairInput} (hi : (l.driven.label x input).input? = some i)
    (c : ConnectionId) (hloses : i.Loses c) : LeavesInTurn (l.entry x) (l.told x) c := by
  cases input with
  | connectionClosed now peer c' =>
    simp only [Driven.label] at hi
    split at hi
    · next hpeer =>
      obtain rfl := Option.some.inj hi
      obtain rfl : c' = c := hloses
      subst hpeer
      exact hturn x.2 (hx rfl)
    · cases hi
  | handlerEvent peer c' event ban =>
    simp only [Driven.label] at hi
    split at hi
    · next hpair =>
      obtain rfl := Option.some.inj hi
      cases event with
      | closeDesired set =>
        obtain rfl : c' = c := hloses
        subst hpair
        exact hturn
      | _ => cases hloses
    · cases hi
  | peersetMessage now message =>
    cases message with
    | accept index => exact absurd hloses (loses_answer (.inl rfl) hi)
    | reject index => exact absurd hloses (loses_answer (.inr rfl) hi)
    | _ =>
      simp only [Driven.label] at hi
      split at hi <;> cases hi
      exact hloses.elim
  | popEvent =>
    simp only [Driven.label] at hi
    split at hi <;> cases hi
  | _ =>
    simp only [Driven.label] at hi
    split at hi <;> cases hi
    exact hloses.elim

/-- What is kept for every pair: only enabled peers have open connections. -/
def Sound (l : Logged) : Prop :=
  ∀ x : PeerId × SetId, Shuts (l.entry x) ∧ Announces (l.entry x) (l.told x)

theorem sound_step (hstep : l.Step input l') (hturn : l.InTurn input) (hl : l.Sound) :
    l'.Sound := by
  obtain ⟨-, rfl⟩ := hstep
  intro x
  obtain ⟨hshuts, hannounces⟩ := hl x
  cases hears_next x l input with
  | nothing hentry htold =>
    rw [entry, hentry, htold]
    exact ⟨hshuts, hannounces⟩
  | reaction env hi hx hentry htold =>
    rw [entry, hentry, htold]
    obtain ⟨hshuts', hvoices⟩ := PairInput.speaks_reaction x env _ hshuts
    exact ⟨hshuts', announces_reaction hannounces (leavesInTurn_of_label hx hturn hi) hvoices⟩

/-- The announced sink is that of an open connection, in every state of a run in which every
announced connection is lost in turn. -/
theorem announced_sink_open
    (hturn : Along Step (fun l input _ => l.InTurn input) (start numProtocols) inputs) :
    Always Step AnnouncesAll (start numProtocols) inputs := by
  have hstart : Sound (start numProtocols) := fun x => ⟨trivial, fun h => absurd rfl h⟩
  have halways : Always Step Sound (start numProtocols) inputs :=
    always_of_along (fun l input l' hstep hq hl => sound_step hstep hq hl) hstart hturn
  exact halways.mono fun l hl x => (hl x).2

def twoOpened (first second closed : ConnectionId) : List NotificationsInput :=
  [.peersetMessage 0 (.connect 0 [7]), .connectionEstablished [7] 0, .connectionEstablished [7] 1,
    .handlerEvent [7] 1 (.openDesiredByRemote 0) 0,
    .handlerEvent [7] first (.openResultOk 0 none [] ⟨[7], first⟩) 0,
    .handlerEvent [7] second (.openResultOk 0 none [] ⟨[7], second⟩) 0,
    .connectionClosed 0 [7] closed]

theorem announced_sink_open_oldestFirst :
    Run Step (start 1) (twoOpened 0 1 0) ((twoOpened 0 1 0).foldl next (start 1)) ∧
      Always Step AnnouncesAll (start 1) (twoOpened 0 1 0) := by
  have hadm : Checks next (fun l input => l.driven.Admissible input) (start 1)
      (twoOpened 0 1 0) := by decide
  have hturn : Checks next InTurn (start 1) (twoOpened 0 1 0) := by decide
  constructor
  · exact hadm.run fun _ _ h => ⟨h, rfl⟩
  · exact announced_sink_open (hturn.along fun _ _ _ h => h.2)

/-- The newer connection opens first, and its sink is not replaced when it closes. -/
theorem closed_sink_announced : ¬ Always Step AnnouncesAll (start 1) (twoOpened 1 0 1) := by
  intro h
  have hadm : Checks next (fun l input => l.driven.Admissible input) (start 1)
      (twoOpened 1 0 1) := by decide
  have hannounces := h _ _ (List.prefix_refl _) (hadm.run fun _ _ h => ⟨h, rfl⟩)
  obtain ⟨c, sink, hmem, hsink⟩ := hannounces ([7], 0) (by decide)
  have hsinks : sinks (((twoOpened 1 0 1).foldl next (start 1)).entry ([7], 0)) =
      [(0, ⟨[7], 0⟩)] := by decide
  have hlast : announced (((twoOpened 1 0 1).foldl next (start 1)).told ([7], 0)) =
      some ⟨[7], 1⟩ := by decide
  rw [hsinks] at hmem
  rw [hlast] at hsink
  simp_all

end Logged

end SwarmHost.Substrate
