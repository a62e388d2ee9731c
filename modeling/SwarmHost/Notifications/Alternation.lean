import SwarmHost.Notifications.Lively

/-! # What the user is told

The user is told that a protocol is open, then of a replaced sink and of
notifications any number of times, and then that it is closed, over and over. It
is told to be open just as long as an enabled peer has an open connection.
-/

namespace SwarmHost.Substrate

/-- Whether the protocol is open after the event, if the event may come: opened when it is closed,
and anything else when it is open. -/
def NotificationsOut.after (isOpen : Bool) : NotificationsOut → Option Bool
  | .customProtocolOpen .. => if isOpen then none else some true
  | .customProtocolClosed .. => if isOpen then some false else none
  | .customProtocolReplaced .. | .notification .. => if isOpen then some true else none

def openAfter (told : List NotificationsOut) : Option Bool :=
  told.foldlM NotificationsOut.after false

namespace PeerState

/-- The events may come, and the protocol is told to be open if it is. -/
def Tells (entry : Option PeerState) (told : List NotificationsOut) : Prop :=
  openAfter told = some (decide (sinks entry ≠ []))

variable {entry : Option PeerState} {told : List NotificationsOut} {x : PeerId × SetId}
  {input : PairInput} {r : Reaction}

theorem openAfter_append (events : List NotificationsOut) :
    openAfter (told ++ events) = (openAfter told).bind (events.foldlM NotificationsOut.after) :=
  List.foldlM_append

theorem Tells.openAfter_of_ne (h : Tells entry told) (hne : sinks entry ≠ []) :
    openAfter told = some true := by
  rw [h, decide_eq_true hne]

theorem Tells.openAfter_of_eq (h : Tells entry told) (heq : sinks entry = []) :
    openAfter told = some false := by
  rw [h, decide_eq_false (by simpa using heq)]

theorem tells_of_ne (hne : sinks entry ≠ []) (h : openAfter told = some true) :
    Tells entry told := by
  rw [Tells, h, decide_eq_true hne]

theorem tells_of_eq (heq : sinks entry = []) (h : openAfter told = some false) :
    Tells entry told := by
  rw [Tells, h, decide_eq_false (by simpa using heq)]

theorem tells_lossEvents {l l' : List (ConnectionId × NotificationsSink)}
    (h : openAfter told = some true) (hsinks : sinks entry = l ++ l') :
    Tells entry (told ++ lossEvents x.1 x.2 l l') := by
  rcases l with _ | ⟨e, l⟩
  · rcases l' with _ | ⟨⟨c, sink⟩, l'⟩
    · apply tells_of_eq hsinks
      rw [openAfter_append, h]
      rfl
    · apply tells_of_ne (by simp [hsinks])
      rw [openAfter_append, h]
      rfl
  · apply tells_of_ne (by simp [hsinks])
    rw [openAfter_append, h]
    rfl

/-- A reaction tells the user what it does, unless the entry is not put back or a connection asks to
close that is not open. -/
theorem tells_reaction (h : Tells entry told) (hr : Reaction.Voices x input entry r)
    (hrestores : r.Restores)
    (hasks : ∀ c i ban cs s, input = .handlerEvent c (.closeDesired i) ban →
      entry = some (.enabled cs) → cs.lookup c = some s → s = .closing ∨ s.isOpened) :
    Tells r.entry (told ++ r.told) := by
  cases hr with
  | same hsinks htold => rwa [Tells, hsinks, htold, List.append_nil]
  | notified message hsinks hne htold =>
    apply tells_of_ne (hsinks ▸ hne)
    rw [htold, openAfter_append, h.openAfter_of_ne hne]
    rfl
  | closed hne hsinks htold =>
    apply tells_of_eq hsinks
    rw [htold, openAfter_append, h.openAfter_of_ne hne]
    rfl
  | opened fallback handshake hsinks hsinks' htold =>
    apply tells_of_ne (by simp [hsinks'])
    rw [htold]
    by_cases hnil : sinks entry = []
    · rw [if_pos hnil, openAfter_append, h.openAfter_of_eq hnil]
      rfl
    · rw [if_neg hnil, List.append_nil, h.openAfter_of_ne hnil]
  | lost hloses hentry hc hopens hsinks htold =>
    rw [htold]
    apply tells_lossEvents _ hsinks
    apply h.openAfter_of_ne
    rw [hentry, sinks, hopens]
    simp
  | unopened hinput hentry hc hs hs' hsinks htold =>
    rcases hasks _ _ _ _ _ hinput hentry hc with hclosing | hopened
    · exact absurd hclosing hs
    · rw [hs'] at hopened
      cases hopened
  | poisoned hentry htold => exact absurd hentry hrestores

end PeerState

namespace Swarm

open PeerState

variable {s s' : Swarm} {x : PeerId × SetId} {input : SwarmInput} {numProtocols : ℕ}
  {inputs : List SwarmInput}

/-- For every peer and set the user is told what happens. -/
def TellsAll (s : Swarm) : Prop := ∀ x, Tells (s.entry x) (s.logged.told x)

theorem asks_of_lively (hs : s.Lively) (hstep : s.Step input s') {c : ConnectionId} {i : ℕ}
    {ban : Instant} {cs : Connections} {state : ConnectionState}
    (hinput : s.call? input = some (.handlerEvent x.1 c (.closeDesired i) ban)) (hi : i = x.2)
    (hentry : s.entry x = some (.enabled cs)) (hc : cs.lookup c = some state) :
    state = .closing ∨ state.isOpened := by
  obtain ⟨hadm, -⟩ := hstep
  cases input with
  | call input' =>
    obtain rfl := Option.some.inj hinput
    cases hadm.2.1
  | handle | command => cases hinput
  | event peer c' ban' =>
    obtain ⟨hlive, e, he, hindex⟩ := hadm
    have he : (s.links (peer, c')).events.head? = some e := he
    rw [call?, he] at hinput
    obtain ⟨rfl, rfl, rfl, rfl⟩ : peer = x.1 ∧ c' = c ∧ e = .closeDesired i ∧ ban' = ban := by
      simpa using hinput
    subst hi
    obtain ⟨v, hs', hv, -, -, hcons⟩ := hs.converses x c' hindex hlive
    have hview : s.driven.view x c' = some state.view := by
      have hlisted : listed (s.entry x) = cs := by rw [hentry]; rfl
      rw [Driven.view]
      exact congrArg (Option.map ConnectionState.view) (hlisted ▸ hc)
    obtain rfl : state.view = v := Option.some.inj (hview.symm.trans hv)
    have hown : (NotifsHandlerOut.closeDesired x.2).index = x.2 := rfl
    rw [Link.words_head he, if_pos hown] at hcons
    obtain ⟨v', hv', -⟩ := hcons.hear
    cases state with
    | closing => exact .inl rfl
    | opened sink => exact .inr rfl
    | _ => cases hv'

/-- What is kept as long as no handler asks to close in vain. -/
structure Telling (s : Swarm) : Prop where
  lively : s.Lively
  shuts : ∀ x, Shuts (s.entry x)
  tells : s.TellsAll

theorem telling_step (hs : s.Telling) (hstep : s.Step input s') (hheeds : s.Heeds input) :
    s'.Telling := by
  have hlively := lively_step hs.lively hstep hheeds
  have hx : ∀ x, Shuts (s'.entry x) ∧ Tells (s'.entry x) (s'.logged.told x) := by
    intro x
    rcases hstep.logged with ⟨-, hlogged⟩ | ⟨i, hi, -, hnext⟩
    · rw [entry, driven, hlogged]
      exact ⟨hs.shuts x, hs.tells x⟩
    · have hears : Logged.Hears x s.logged i s'.logged := hnext ▸ Logged.hears_next x s.logged i
      cases hears with
      | nothing hentry htold =>
        rw [entry, driven, hentry, htold]
        exact ⟨hs.shuts x, hs.tells x⟩
      | @reaction env j hj hswarm hentry htold =>
        have hrestored := hlively.steady.restored x
        have hentry' : s'.entry x = _ := hentry
        obtain ⟨hshuts, hvoices⟩ := PairInput.speaks_reaction x env j (hs.shuts x)
        rw [hentry', htold]
        refine ⟨hshuts, tells_reaction (hs.tells x) hvoices ?_ ?_⟩
        · rw [Reaction.Restores]
          exact hentry ▸ hrestored
        · rintro c k ban cs state rfl hcs hc
          obtain ⟨rfl, hk⟩ := Driven.label_handlerEvent hj
          exact asks_of_lively hs.lively hstep hi hk hcs hc
  exact ⟨hlively, fun x => (hx x).1, fun x => (hx x).2⟩

/-- The user is told what happens, in every state of a run in which no handler's request to close
arrives while the entry waits for an answer of the peerset. -/
theorem tellsAll_of_heeds
    (hheeds : Along Step (fun s input _ => s.Heeds input) (start numProtocols) inputs) :
    Always Step TellsAll (start numProtocols) inputs := by
  have hstart : (start numProtocols).Telling :=
    ⟨lively_start numProtocols, fun _ => trivial, fun _ => rfl⟩
  have halways : Always Step Telling (start numProtocols) inputs :=
    always_of_along (fun s input s' hstep hq hs => telling_step hs hstep hq) hstart hheeds
  exact halways.mono fun s hs => hs.tells

instance (s : Swarm) (input : SwarmInput) : Decidable (s.Heeds input) :=
  inferInstanceAs (Decidable (∀ i ∈ s.call? input, ¬ s.driven.Unheeded i))

/-- The remote opens a substream, the peerset accepts, and our substream is negotiated. -/
def accepted : List SwarmInput :=
  [.call (.connectionEstablished [7] 0), .call (.connectionEstablished [7] 1),
    .handle [7] 0 (.inbound 0 [] []), .handle [7] 0 (.poll (io false)), .event [7] 0 0,
    .call (.peersetMessage 0 (.accept 0)), .call .popEvent, .command [7] 0 [],
    .handle [7] 0 (.poll (io false)), .handle [7] 0 (.outbound 0 none []),
    .handle [7] 0 (.poll (io false)), .event [7] 0 0]

def acceptedThenBroken : List SwarmInput :=
  accepted ++ [.handle [7] 0 (.poll (io true)), .event [7] 0 0]

theorem tellsAll_of_heeds_broken :
    Run Step (start 1) acceptedThenBroken (acceptedThenBroken.foldl next (start 1)) ∧
      Always Step TellsAll (start 1) acceptedThenBroken := by
  have hadm : Checks next Admissible (start 1) acceptedThenBroken := by decide
  have hheeds : Checks next Heeds (start 1) acceptedThenBroken := by decide
  constructor
  · exact hadm.run fun _ _ h => ⟨h, rfl⟩
  · exact tellsAll_of_heeds (hheeds.along fun _ _ _ h => h.2)

def ioClosed : ℕ → Io := fun _ => ⟨0, false, [.ok, .ok, .closed, .ok]⟩

/-- The accepted connection breaks and asks twice to close. The first request finds the entry
waiting for an answer about another connection; a third connection is opened before the second
request. -/
def askedTwice : List SwarmInput :=
  accepted ++ [.handle [7] 0 (.poll (io true)), .handle [7] 0 (.poll ioClosed),
    .handle [7] 0 (.poll (io false)), .call (.peersetMessage 0 (.drop 0 [7])),
    .handle [7] 1 (.inbound 0 [] []), .handle [7] 1 (.poll (io false)), .event [7] 1 0,
    .event [7] 0 0, .call (.connectionEstablished [7] 2),
    .call (.peersetMessage 0 (.connect 0 [7])), .call .popEvent, .call .popEvent, .call .popEvent,
    .call .popEvent, .command [7] 2 [], .handle [7] 2 (.poll (io false)),
    .handle [7] 2 (.outbound 0 none []), .handle [7] 2 (.poll (io false)), .event [7] 2 0,
    .event [7] 0 0]

/-- The protocol is told to be open although the entry is poisoned. -/
theorem open_untold_askedTwice : ¬ Always Step TellsAll (start 1) askedTwice := by
  intro h
  have hadm : Checks next Admissible (start 1) askedTwice := by decide
  have htells := h _ _ (List.prefix_refl _) (hadm.run fun _ _ h => ⟨h, rfl⟩)
  have hpair := htells ([7], 0)
  revert hpair
  unfold Tells
  decide

end Swarm

end SwarmHost.Substrate
