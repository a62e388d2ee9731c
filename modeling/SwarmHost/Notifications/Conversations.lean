import SwarmHost.Notifications.Treatment

/-! # All dialogues at once

For every connection and every protocol, what is on the way between the behaviour
and the handler makes a consistent dialogue. A step of the swarm is a step of some
of the dialogues: a handler speaks or obeys, or the behaviour hears a handler and
gives orders.
-/

namespace SwarmHost.Substrate

def NotificationsInput.heard (x : PeerId × SetId) (c : ConnectionId) (v : View) :
    NotificationsInput → Option View
  | .handlerEvent peer c' event _ =>
    if x = (peer, event.index) ∧ c' = c then v.hear event.word else some v
  | .connectionClosed _ peer c' => if x.1 = peer ∧ c' = c then none else some v
  | _ => some v

theorem ordersTo_filter {x : PeerId × SetId} {c : ConnectionId}
    (events : List NetworkBehaviourAction) :
    ordersTo x c (events.filter (·.pair? = some x)) = ordersTo x c events := by
  rw [ordersTo, List.filterMap_filter]
  apply List.filterMap_congr
  intro e _
  cases e with
  | notifyHandler peer c' command =>
    by_cases h : (peer, command.index) = x
    · simp [NetworkBehaviourAction.pair?, h]
    · simp [NetworkBehaviourAction.pair?, NetworkBehaviourAction.orderTo?, h]
  | generateEvent | dial => simp [NetworkBehaviourAction.orderTo?]

theorem Pair.Sane.ids {p : Pair} (hp : p.Sane) : (PeerState.listed p.entry).ids = p.live := by
  obtain ⟨entry, alive, events, live⟩ := p
  rcases entry with _ | state
  · exact ((Pair.sane_unconnected rfl).mp hp).1.symm
  · cases state with
    | poisoned => exact hp.elim
    | disabled | disabledPendingEnable | enabled | incoming =>
      exact ((Pair.sane_listed rfl).mp hp).1
    | _ => exact ((Pair.sane_unconnected rfl).mp hp).1.symm

namespace Driven

open PeerState

variable {d d' : Driven} {x : PeerId × SetId} {input : NotificationsInput} {env : Surroundings}

def view (d : Driven) (x : PeerId × SetId) (c : ConnectionId) : Option View :=
  PeerState.view (d.notifications.peers.get? x) c

def pending (d : Driven) (x : PeerId × SetId) (c : ConnectionId) : List Order :=
  ordersTo x c d.notifications.events

theorem heard_answer {index : IncomingIndex} {i : PairInput} (hi : i = .accept ∨ i = .reject)
    (c : ConnectionId) (v : View) :
    (d.answerLabel x index i).input?.elim (some v) (·.heard c v) = some v := by
  unfold answerLabel
  split
  · split
    · rcases hi with rfl | rfl <;> rfl
    · rfl
  · rfl

theorem heard_label (c : ConnectionId) (v : View) :
    (d.label x input).input?.elim (some v) (·.heard c v) = input.heard x c v := by
  cases input with
  | handlerEvent peer c' event ban =>
    simp only [label, NotificationsInput.heard]
    by_cases hx : x = (peer, event.index) <;> simp [hx, PairLabel.input?, PairInput.heard]
  | connectionClosed now peer c' =>
    simp only [label, NotificationsInput.heard]
    by_cases hx : x.1 = peer <;> simp [hx, PairLabel.input?, PairInput.heard]
  | peersetMessage now message =>
    cases message with
    | accept index => exact heard_answer (.inl rfl) c v
    | reject index => exact heard_answer (.inr rfl) c v
    | _ =>
      simp only [label]
      split <;> rfl
  | _ =>
    simp only [label]
    split <;> rfl

structure Turned (x : PeerId × SetId) (d : Driven) (input : NotificationsInput) (d' : Driven) :
    Prop where
  turns : ∀ c v v₁, d.view x c = some v → input.heard x c v = some v₁ →
    ∃ v' orders, d'.view x c = some v' ∧ d'.pending x c = d.pending x c ++ orders ∧
      v₁.Turn orders v'
  absent : ∀ c, d.view x c = none → input ≠ .connectionEstablished x.1 c →
    d'.pending x c = d.pending x c
  orderly : Orderly (d'.notifications.peers.get? x)

theorem pending_pair (d : Driven) (x : PeerId × SetId) (c : ConnectionId) :
    ordersTo x c (d.pair x).events = d.pending x c :=
  ordersTo_filter _

theorem pending_react {p : Pair} {i : PairInput} (h : d'.pair x = p.react x env i)
    (c : ConnectionId) : d'.pending x c =
      ordersTo x c p.events ++ ordersTo x c (i.reaction x env p.entry).events := by
  rw [← pending_pair, h]
  simp only [Pair.react, ordersTo_append, ordersTo_filter]

theorem label_established {c : ConnectionId}
    (h : (d.label x input).input? = some (.connectionEstablished c)) :
    input = .connectionEstablished x.1 c := by
  cases input with
  | connectionEstablished peer c' =>
    simp only [label] at h
    split at h
    · next hx =>
      subst hx
      cases h
      rfl
    · cases h
  | peersetMessage now message =>
    cases message with
    | connect | drop =>
      simp only [label] at h
      split at h <;> cases h
    | accept | reject => cases answerLabel_input? h
  | _ =>
    simp only [label] at h
    split at h <;> cases h

theorem turned_reaction (env : Surroundings) {i : PairInput} {r : Reaction}
    (hnd : (d.live x.1).Nodup) (hsane : (d.pair x).Sane)
    (ho : Orderly (d.notifications.peers.get? x)) (hadm : d.Admissible input)
    (hlabel : (d.label x input).input? = some i)
    (hr : i.reaction x env (d.notifications.peers.get? x) = r)
    (hentry : d'.notifications.peers.get? x = r.entry)
    (hpending : ∀ c, d'.pending x c = d.pending x c ++ ordersTo x c r.events)
    (hrestored : d'.notifications.peers.get? x ≠ some .poisoned) : Turned x d input d' := by
  have hids : (listed (d.notifications.peers.get? x)).ids = d.live x.1 := hsane.ids
  subst hr
  have htreats : Reaction.Treats x i (d.notifications.peers.get? x)
      (i.reaction x env (d.notifications.peers.get? x)) := by
    apply PairInput.treats_reaction (by rwa [hids]) ho
    · rintro c rfl
      obtain rfl := label_established hlabel
      rw [PeerState.view, Connections.lookup_eq_none_of_notMem (by rw [hids]; exact hadm)]
      rfl
    · rwa [Reaction.Restores, ← hentry]
  refine ⟨?_, ?_, ?_⟩
  · intro c v v₁ hv hheard
    rw [← heard_label (d := d), hlabel] at hheard
    obtain ⟨v', hv', hturn⟩ := htreats.turns c v v₁ hv hheard
    exact ⟨v', _, (congrArg (PeerState.view · c) hentry).trans hv', hpending c, hturn⟩
  · intro c hv hne
    have hne : i ≠ .connectionEstablished c := by
      rintro rfl
      exact hne (label_established hlabel)
    rw [hpending, (htreats.absent c hv hne).2, List.append_nil]
  · rw [hentry]
    exact htreats.orderly

theorem turned_next (hx : x.2 < d.notifications.numProtocols) (hadm : d.Admissible input)
    (hd : d.Steady) (hd' : (d.next input).Steady) (hnd : (d.live x.1).Nodup)
    (ho : Orderly (d.notifications.peers.get? x)) (hpop : input ≠ .popEvent) :
    Turned x d input (d.next input) := by
  obtain ⟨env, -, hpair⟩ := projects_next hx input fun now c h set hset => by
    subst h
    exact hd.mem_peers hadm hset
  have hentry : (d.next input).notifications.peers.get? x = _ := congrArg Pair.entry hpair
  have hsane := (hd x).1 hx
  have hrestored := hd'.restored x
  cases hlabel : d.label x input with
  | idle =>
    rw [hlabel] at hentry hpair
    have hpending : ∀ c, (d.next input).pending x c = d.pending x c := by
      intro c
      rw [← pending_pair, hpair]
      exact pending_pair d x c
    refine ⟨?_, fun c _ _ => hpending c, ?_⟩
    · intro c v v₁ hv hheard
      rw [← heard_label (d := d), hlabel] at hheard
      obtain rfl := Option.some.inj hheard
      refine ⟨v, [], ?_, by rw [hpending, List.append_nil], .keep v⟩
      rw [view, hentry]
      exact hv
    · rw [hentry]
      exact ho
  | popEvent => exact absurd hlabel (label_ne_popEvent hpop)
  | react i =>
    rw [hlabel] at hentry hpair
    refine turned_reaction env hnd hsane ho hadm (by rw [hlabel]; rfl) rfl hentry ?_
      hrestored
    intro c
    rw [pending_react hpair, pending_pair]
    rfl
  | answer index i =>
    rw [hlabel] at hentry hpair
    refine turned_reaction env hnd hsane ho hadm (by rw [hlabel]; rfl) rfl hentry ?_
      hrestored
    intro c
    rw [pending_react hpair]
    exact congrArg (· ++ _) (pending_pair d x c)

theorem greets_next {c : ConnectionId} (hx : x.2 < d.notifications.numProtocols) (hd : d.Steady)
    (ho : Orderly (d.notifications.peers.get? x)) (hc : c ∉ d.live x.1) :
    (d.next (.connectionEstablished x.1 c)).view x c = some .closed ∧
        (d.next (.connectionEstablished x.1 c)).pending x c = d.pending x c ∨
      (d.next (.connectionEstablished x.1 c)).view x c = some .opening ∧
        (d.next (.connectionEstablished x.1 c)).pending x c = d.pending x c ++ [.open] := by
  obtain ⟨env, -, hpair⟩ := projects_next hx (.connectionEstablished x.1 c) (by simp)
  have hlabel : d.label x (.connectionEstablished x.1 c) = .react (.connectionEstablished c) :=
    if_pos rfl
  rw [hlabel] at hpair
  have hreaction : (PairInput.connectionEstablished c).reaction x env
      (d.notifications.peers.get? x) =
      PeerState.connectionEstablished x.1 x.2 c (d.notifications.peers.get? x) := by
    cases d.notifications.peers.get? x <;> rfl
  have hview : PeerState.view (d.notifications.peers.get? x) c = none := by
    have hids : (listed (d.notifications.peers.get? x)).ids = d.live x.1 := ((hd x).1 hx).ids
    rw [PeerState.view, Connections.lookup_eq_none_of_notMem (by rwa [hids])]
    rfl
  have hentry : (d.next (.connectionEstablished x.1 c)).notifications.peers.get? x = _ :=
    congrArg Pair.entry hpair
  have hpending := pending_react hpair c
  rw [pending_pair] at hpending
  simp only [Pair.next, Pair.react, pair, hreaction] at hentry hpending
  rw [view, hentry, hpending]
  rcases (treats_connectionEstablished ho hview).2 with ⟨hv, horders⟩ | ⟨hv, horders⟩
  · exact .inl ⟨hv, by rw [horders, List.append_nil]⟩
  · exact .inr ⟨hv, by rw [horders]⟩

end Driven

namespace Link

open HandlerState

variable {l : Link} {i : ℕ} {state : HandlerState} {input : HandlerInput}

/-- What the handler said about a protocol and the behaviour did not hear yet. -/
def words (l : Link) (i : ℕ) : List Word :=
  (l.events.filter (·.index = i) ++ l.handler.waiting i).map (·.word)

def orders (l : Link) (i : ℕ) : List Order := (l.commands.filter (·.index = i)).map (·.order)

theorem words_head {e : NotifsHandlerOut} (he : l.events.head? = some e) (i : ℕ) :
    l.words i = (if e.index = i then [e.word] else []) ++
      { l with events := l.events.tail }.words i := by
  rw [words, words, List.eq_cons_of_mem_head? he]
  by_cases h : e.index = i <;> simp [h]

theorem filter_custom? (event : Option ConnectionHandlerEvent) :
    (event.bind (·.custom?)).toList.filter (·.index = i) = (event.bind (·.own? i)).toList := by
  rcases event with _ | e
  · rfl
  · cases e with
    | custom event =>
      by_cases h : event.index = i <;>
        simp [ConnectionHandlerEvent.custom?, ConnectionHandlerEvent.own?, h]
    | _ => rfl

/-- Something happened to the protocol, and the handler may have said so. -/
def Said (l l' : Link) (i : ℕ) (R : List Word → Phase → Prop) : Prop :=
  ∃ state' words, l'.handler.protocols[i]? = some state' ∧ state'.Unanswered ∧
    l'.words i = l.words i ++ words ∧ R words state'.phase

theorem said_poll (io : ℕ → Io) (hi : l.handler.protocols[i]? = some state)
    (hu : state.Unanswered) : Said l (l.handle (.poll io)) i state.phase.Says := by
  rcases hq : l.handler.eventsQueue with _ | ⟨e, queue⟩
  · obtain ⟨state', hi', hpolled⟩ := NotifsHandler.poll_at io hq hi
    obtain ⟨hsaid, hu'⟩ := hpolled.said hu
    refine ⟨state', _, hi', hu', ?_, hsaid⟩
    have hwaiting : l.handler.waiting i = [] := by rw [NotifsHandler.waiting, hq]; rfl
    have hwaiting' : (l.handler.poll io).2.waiting i = [] := by
      rw [NotifsHandler.waiting, NotifsHandler.poll_eventsQueue io hq]
      rfl
    simp only [words, handle, NotifsHandler.handle, List.filter_append, filter_custom?, hwaiting,
      hwaiting', List.append_nil, List.map_append]
  · have hpoll : l.handler.poll io = (some e, { l.handler with eventsQueue := queue }) := by
      rw [NotifsHandler.poll, hq]
    refine ⟨state, [], ?_, hu, ?_, .nothing _⟩
    · simp only [handle, NotifsHandler.handle, hpoll]
      exact hi
    · simp only [words, handle, NotifsHandler.handle, hpoll, List.filter_append, filter_custom?,
        NotifsHandler.waiting, hq, List.append_nil, List.append_assoc]
      congr 2
      cases h : e.own? i <;> simp [h]

theorem said_handle (input : HandlerInput)
    (hinput : ∀ handshake command, input = .command handshake command →
    command.index ≠ i) (hi : l.handler.protocols[i]? = some state) (hu : state.Unanswered) :
    Said l (l.handle input) i state.phase.Says := by
  by_cases hpoll : ∃ io, input = .poll io
  · obtain ⟨io, rfl⟩ := hpoll
    exact said_poll io hi hu
  · have hpoll : ∀ io, input ≠ .poll io := fun io h => hpoll ⟨io, h⟩
    obtain ⟨state', events, hi', hwaiting, hreacts⟩ := NotifsHandler.handle_at _ hpoll hi
    obtain ⟨hsaid, hu'⟩ := hreacts.said hinput hu
    refine ⟨state', _, hi', hu', ?_, hsaid⟩
    have hnone : (l.handler.handle input).1 = none := by
      cases input with
      | poll io => exact absurd rfl (hpoll io)
      | _ => rfl
    simp only [words, handle, hnone, hwaiting]
    simp

theorem said_command (handshake : Bytes) {command : NotifsHandlerIn} (hindex : command.index = i)
    (hi : l.handler.protocols[i]? = some state) :
    Said l (l.handle (.command handshake command)) i
      (Phase.Obeys command.order state.phase) := by
  obtain ⟨state', events, hi', hwaiting, hreacts⟩ :=
    NotifsHandler.handle_at (.command handshake command) (by simp) hi
  obtain ⟨hobeys, hu'⟩ := hreacts.obeys hindex
  refine ⟨state', _, hi', hu', ?_, hobeys⟩
  simp only [words, handle, NotifsHandler.handle] at hwaiting ⊢
  rw [hwaiting]
  simp

end Link

end SwarmHost.Substrate
