import SwarmHost.Notifications.Pairs
import SwarmHost.Notifications.Reactions

/-! # The dialogue about one protocol of one connection

The behaviour orders a handler to open or close a protocol and keeps a view of
what the handler does; the handler is in one of four phases and says what
happens. Both speak at any time, so the view is behind the words on their way and
the phase behind the orders on theirs. The two agree once the behaviour has heard
all of the words.
-/

namespace SwarmHost.Substrate

inductive Phase where
  | closed
  | desired
  | opening
  | opened
  deriving DecidableEq

/-- The phase that the behaviour takes the handler to be in, or wants it to be in. -/
inductive View where
  | closed
  | desired
  | opening
  | opened
  | closing
  | openingThenClosing
  deriving DecidableEq

/-- What the handler says. -/
inductive Word where
  | desired
  | ok
  | err
  | closeDesired
  | closeResult
  | notification
  deriving DecidableEq

/-- What the behaviour orders. -/
inductive Order where
  | open
  | close
  deriving DecidableEq

namespace View

def hear : View → Word → Option View
  | .closed, .desired => some .desired
  | .opening, .desired => some .opening
  | .opening, .ok => some .opened
  | .opening, .err => some .closed
  | .opened, .notification | .opened, .closeDesired => some .opened
  | .closing, .desired | .closing, .notification | .closing, .closeDesired => some .closing
  | .closing, .closeResult => some .closed
  | .openingThenClosing, .desired => some .openingThenClosing
  | .openingThenClosing, .ok | .openingThenClosing, .err => some .closing
  | _, _ => none

def hearAll (v : View) (words : List Word) : Option View := words.foldlM hear v

inductive Orders : Order → View → View → Prop where
  | openClosed : Orders .open .closed .opening
  | openDesired : Orders .open .desired .opening
  | closeClosed : Orders .close .closed .closing
  | closeDesired : Orders .close .desired .closing
  | closeOpened : Orders .close .opened .closing
  | closeOpening : Orders .close .opening .openingThenClosing

/-- The behaviour gives an order or none. -/
inductive Turn : View → List Order → View → Prop where
  | keep (v : View) : Turn v [] v
  | order {o : Order} {v v' : View} : Orders o v v' → Turn v [o] v'

variable {v v' v₁ : View} {o : Order} {w : Word} {words : List Word}

@[simp] theorem hearAll_nil : v.hearAll [] = some v := rfl

theorem hearAll_cons : v.hearAll (w :: words) = (v.hear w).bind (·.hearAll words) := rfl

theorem hearAll_append (words' : List Word) :
    v.hearAll (words ++ words') = (v.hearAll words).bind (·.hearAll words') :=
  List.foldlM_append

/-- An order does not depend on whether the words on their way were heard before. -/
theorem Orders.hear (ho : Orders o v v') (h : v.hear w = some v₁) :
    ∃ v₁', v'.hear w = some v₁' ∧ Orders o v₁ v₁' := by
  cases ho <;> cases w <;> cases h
  · exact ⟨_, rfl, .openDesired⟩
  · exact ⟨_, rfl, .closeDesired⟩
  · exact ⟨_, rfl, .closeOpened⟩
  · exact ⟨_, rfl, .closeOpened⟩
  · exact ⟨_, rfl, .closeOpening⟩
  · exact ⟨_, rfl, .closeOpened⟩
  · exact ⟨_, rfl, .closeClosed⟩

theorem Orders.hearAll (ho : Orders o v v') (h : v.hearAll words = some v₁) :
    ∃ v₁', v'.hearAll words = some v₁' ∧ Orders o v₁ v₁' := by
  induction words generalizing v v' with
  | nil =>
    obtain rfl := Option.some.inj h
    exact ⟨v', rfl, ho⟩
  | cons w words ih =>
    obtain ⟨v₂, hv₂, h⟩ := Option.bind_eq_some_iff.mp h
    obtain ⟨v₂', hv₂', ho⟩ := ho.hear hv₂
    obtain ⟨v₁', hv₁', ho⟩ := ih ho h
    refine ⟨v₁', ?_, ho⟩
    rw [hearAll_cons, hv₂']
    exact hv₁'

end View

inductive Phase.Says : Phase → List Word → Phase → Prop where
  | nothing (p : Phase) : Says p [] p
  | desired : Says .closed [.desired] .desired
  | ok : Says .opening [.ok] .opened
  | err : Says .opening [.err] .closed
  | notification : Says .opened [.notification] .opened
  | closeDesired : Says .opened [.closeDesired] .opened

inductive Phase.Obeys : Order → Phase → List Word → Phase → Prop where
  | openClosed : Obeys .open .closed [] .opening
  | openDesired : Obeys .open .desired [] .opening
  | openOpening : Obeys .open .opening [] .opening
  | openOpened : Obeys .open .opened [] .opened
  | closeOpening : Obeys .close .opening [.err, .closeResult] .closed
  | close {p : Phase} : p ≠ .opening → Obeys .close p [.closeResult] .closed

/-- The view when all words are heard, the orders on their way and the phase. -/
inductive Agree : View → List Order → Phase → Prop where
  | closed : Agree .closed [] .closed
  | desired : Agree .desired [] .desired
  | openOrdered {p : Phase} : p = .closed ∨ p = .desired → Agree .opening [.open] p
  | opening : Agree .opening [] .opening
  | opened : Agree .opened [] .opened
  | closing {p : Phase} : p ≠ .opening → Agree .closing [.close] p
  | bothOrdered {p : Phase} : p = .closed ∨ p = .desired →
      Agree .openingThenClosing [.open, .close] p
  | openingThenClosing : Agree .openingThenClosing [.close] .opening

/-- The two sides with what is on the way. -/
structure Dialogue where
  view : View
  words : List Word
  orders : List Order
  phase : Phase

namespace Dialogue

/-- The behaviour expects every word on its way, and agrees with the handler after the last. -/
def Consistent (d : Dialogue) : Prop :=
  ∃ v, d.view.hearAll d.words = some v ∧ Agree v d.orders d.phase

variable {v v' : View} {w : Word} {words words' : List Word} {o : Order}
  {orders orders' : List Order}
  {p p' : Phase}

theorem consistent_new : Consistent ⟨.closed, [], [], .closed⟩ := ⟨.closed, rfl, .closed⟩

theorem consistent_ordered : Consistent ⟨.opening, [], [.open], .closed⟩ :=
  ⟨.opening, rfl, .openOrdered (.inl rfl)⟩

theorem agree_order (ho : View.Orders o v v') (h : Agree v orders p) :
    Agree v' (orders ++ [o]) p := by
  cases ho with
  | openClosed => cases h; exact .openOrdered (.inl rfl)
  | openDesired => cases h; exact .openOrdered (.inr rfl)
  | closeClosed | closeDesired | closeOpened => cases h; exact .closing (by simp)
  | closeOpening =>
    cases h with
    | openOrdered hp => exact .bothOrdered hp
    | opening => exact .openingThenClosing

/-- The behaviour gives an order. -/
theorem Consistent.turn (h : Consistent ⟨v, words, orders, p⟩) (ht : View.Turn v orders' v') :
    Consistent ⟨v', words, orders ++ orders', p⟩ := by
  cases ht with
  | keep => rwa [List.append_nil]
  | order ho =>
    obtain ⟨v₁, hv₁, hagree⟩ := h
    obtain ⟨v₁', hv₁', ho⟩ := ho.hearAll hv₁
    exact ⟨v₁', hv₁', agree_order ho hagree⟩

theorem Consistent.hear (h : Consistent ⟨v, w :: words, orders, p⟩) :
    ∃ v', v.hear w = some v' ∧ Consistent ⟨v', words, orders, p⟩ := by
  obtain ⟨v₁, hv₁, hagree⟩ := h
  obtain ⟨v', hv', hv₁⟩ := Option.bind_eq_some_iff.mp hv₁
  exact ⟨v', hv', v₁, hv₁, hagree⟩

theorem agree_said (hs : Phase.Says p words p') (h : Agree v orders p) :
    ∃ v', v.hearAll words = some v' ∧ Agree v' orders p' := by
  cases hs with
  | nothing => exact ⟨v, rfl, h⟩
  | desired =>
    cases h with
    | closed => exact ⟨_, rfl, .desired⟩
    | openOrdered => exact ⟨_, rfl, .openOrdered (.inr rfl)⟩
    | closing => exact ⟨_, rfl, .closing (by simp)⟩
    | bothOrdered => exact ⟨_, rfl, .bothOrdered (.inr rfl)⟩
  | ok =>
    cases h with
    | openOrdered hp => simp at hp
    | opening => exact ⟨_, rfl, .opened⟩
    | closing hp => exact absurd rfl hp
    | bothOrdered hp => simp at hp
    | openingThenClosing => exact ⟨_, rfl, .closing (by simp)⟩
  | err =>
    cases h with
    | openOrdered hp => simp at hp
    | opening => exact ⟨_, rfl, .closed⟩
    | closing hp => exact absurd rfl hp
    | bothOrdered hp => simp at hp
    | openingThenClosing => exact ⟨_, rfl, .closing (by simp)⟩
  | notification | closeDesired =>
    cases h with
    | openOrdered hp => simp at hp
    | opened => exact ⟨_, rfl, .opened⟩
    | closing hp => exact ⟨_, rfl, .closing hp⟩
    | bothOrdered hp => simp at hp

theorem Consistent.said (h : Consistent ⟨v, words, orders, p⟩) (hs : Phase.Says p words' p') :
    Consistent ⟨v, words ++ words', orders, p'⟩ := by
  obtain ⟨v₁, hv₁, hagree⟩ := h
  have hv₁ : v.hearAll words = some v₁ := hv₁
  obtain ⟨v', hv', hagree⟩ := agree_said hs hagree
  refine ⟨v', ?_, hagree⟩
  dsimp only
  rw [View.hearAll_append, hv₁]
  exact hv'

theorem agree_obeys (ho : Phase.Obeys o p words p') (h : Agree v (o :: orders) p) :
    ∃ v', v.hearAll words = some v' ∧ Agree v' orders p' := by
  cases h with
  | openOrdered hp =>
    rcases hp with rfl | rfl
    · cases ho; exact ⟨_, rfl, .opening⟩
    · cases ho; exact ⟨_, rfl, .opening⟩
  | closing hp =>
    cases ho with
    | closeOpening => exact absurd rfl hp
    | close => exact ⟨_, rfl, .closed⟩
  | bothOrdered hp =>
    rcases hp with rfl | rfl
    · cases ho; exact ⟨_, rfl, .openingThenClosing⟩
    · cases ho; exact ⟨_, rfl, .openingThenClosing⟩
  | openingThenClosing =>
    cases ho with
    | closeOpening => exact ⟨_, rfl, .closed⟩
    | close hp => exact absurd rfl hp

/-- An order arrives at the handler. -/
theorem Consistent.obeys (h : Consistent ⟨v, words, o :: orders, p⟩)
    (ho : Phase.Obeys o p words' p') : Consistent ⟨v, words ++ words', orders, p'⟩ := by
  obtain ⟨v₁, hv₁, hagree⟩ := h
  have hv₁ : v.hearAll words = some v₁ := hv₁
  obtain ⟨v', hv', hagree⟩ := agree_obeys ho hagree
  refine ⟨v', ?_, hagree⟩
  dsimp only
  rw [View.hearAll_append, hv₁]
  exact hv'

end Dialogue

def NotifsHandlerOut.word : NotifsHandlerOut → Word
  | .openResultOk .. => .ok
  | .openResultErr _ => .err
  | .closeResult _ => .closeResult
  | .openDesiredByRemote _ => .desired
  | .closeDesired _ => .closeDesired
  | .notification .. => .notification

def NotifsHandlerIn.order : NotifsHandlerIn → Order
  | .open _ => .open
  | .close _ => .close

namespace HandlerState

def phase : HandlerState → Phase
  | .closed _ => .closed
  | .openDesiredByRemote .. => .desired
  | .opening _ => .opening
  | .opened .. => .opened

def Unanswered : HandlerState → Prop
  | .openDesiredByRemote substream _ => substream.handshake = .notSent
  | _ => True

variable {io : ℕ → Io} {i : ℕ} {state state' : HandlerState} {input : HandlerInput}
  {event : Option ConnectionHandlerEvent} {events : List NotifsHandlerOut}

theorem pollProcess_of_notSent {substream : InSubstream} (h : substream.handshake = .notSent)
    (results : List SocketResult) : substream.pollProcess results = (false, substream) := by
  cases results with
  | nil => rfl
  | cons result results => simp [InSubstream.pollProcess, h]

theorem Same.phase (h : Same state state') (hu : state.Unanswered) :
    state'.phase = state.phase ∧ state'.Unanswered := by
  cases h with
  | openDesiredByRemote substream pendingOpening results =>
    exact ⟨rfl, by rwa [Unanswered, pollProcess_of_notSent hu]⟩
  | _ => exact ⟨rfl, trivial⟩

theorem own?_custom (event : NotifsHandlerOut) (h : event.index = i) :
    (some (ConnectionHandlerEvent.custom event)).bind (·.own? i) = some event :=
  if_pos h

theorem Polled.said (h : Polled io i state event state') (hu : state.Unanswered) :
    state.phase.Says ((event.bind (·.own? i)).toList.map (·.word)) state'.phase ∧
      state'.Unanswered := by
  cases h with
  | same hsame hnot =>
    obtain ⟨hphase, hu'⟩ := hsame.phase hu
    rw [own?_of_notAbout hnot, hphase]
    exact ⟨.nothing _, hu'⟩
  | notification message =>
    rw [own?_custom (i := i) (.notification i message) rfl]
    exact ⟨.notification, trivial⟩
  | flushFailed | noInbound =>
    rw [own?_custom (i := i) (.closeDesired i) rfl]
    exact ⟨.closeDesired, trivial⟩
  | refused pendingOpening hfails =>
    rw [pollProcess_of_notSent hu] at hfails
    cases hfails

theorem Reacts.said (h : Reacts i input state events state') (hinput : ∀ handshake command,
    input = .command handshake command → command.index ≠ i) (hu : state.Unanswered) :
    state.phase.Says (events.map (·.word)) state'.phase ∧ state'.Unanswered := by
  cases h with
  | ignored => exact ⟨.nothing _, hu⟩
  | openOpening | openOpened | openClosed | openDesired | closeOpened | closeOpening
  | closeDesired | closeClosed => exact absurd rfl (hinput _ _ rfl)
  | inboundClosed => exact ⟨.desired, rfl⟩
  | inboundOpening | inboundOpened | settledClosed => exact ⟨.nothing _, trivial⟩
  | settledDesired => exact ⟨.nothing _, hu⟩
  | outboundOpening => exact ⟨.ok, trivial⟩
  | errorOpening => exact ⟨.err, trivial⟩
  | sinkMessage => exact ⟨.nothing _, trivial⟩

theorem Reacts.obeys {handshake : Bytes} {command : NotifsHandlerIn}
    (h : Reacts i (.command handshake command) state events state') (hi : command.index = i) :
    state.phase.Obeys command.order (events.map (·.word)) state'.phase ∧ state'.Unanswered := by
  subst hi
  cases command with
  | «open» j =>
    cases h with
    | ignored _ hopen => exact absurd rfl (hopen handshake)
    | openOpening => exact ⟨.openOpening, trivial⟩
    | openOpened => exact ⟨.openOpened, trivial⟩
    | openClosed => exact ⟨.openClosed, trivial⟩
    | openDesired => exact ⟨.openDesired, trivial⟩
    | settledClosed _ hinput | settledDesired _ _ hinput => exact absurd rfl (hinput _ _)
  | close j =>
    cases h with
    | ignored _ _ hclose => exact absurd rfl (hclose handshake)
    | closeOpened => exact ⟨.close (by simp [phase]), trivial⟩
    | closeOpening => exact ⟨.closeOpening, trivial⟩
    | closeDesired | closeClosed => exact ⟨.close (by simp [phase]), trivial⟩
    | settledClosed _ hinput | settledDesired _ _ hinput => exact absurd rfl (hinput _ _)

end HandlerState

end SwarmHost.Substrate
