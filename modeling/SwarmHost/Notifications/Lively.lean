import SwarmHost.Notifications.Conversations

/-! # Runs of the swarm

As long as no handler asks to close in vain, every dialogue of a connection that
is there stays consistent: whatever a handler says is something that the
behaviour expects when it hears it.
-/

namespace SwarmHost.Substrate

namespace Swarm

open PeerState

variable {s s' : Swarm} {x : PeerId × SetId} {c : ConnectionId} {input : SwarmInput}
  {i : NotificationsInput}

/-- The dialogue of a connection about one protocol is consistent. -/
def Converses (s : Swarm) (x : PeerId × SetId) (c : ConnectionId) : Prop :=
  ∃ v state, s.driven.view x c = some v ∧
    (s.links (x.1, c)).handler.protocols[x.2]? = some state ∧ state.Unanswered ∧
    Dialogue.Consistent ⟨v, (s.links (x.1, c)).words x.2,
      (s.links (x.1, c)).orders x.2 ++ s.driven.pending x c, state.phase⟩

/-- Nothing about the dialogue changes. -/
theorem Converses.of_eq (h : s.Converses x c) (hdriven : s'.driven = s.driven)
    (hlink : s'.links (x.1, c) = s.links (x.1, c)) : s'.Converses x c := by
  rwa [Converses, hdriven, hlink]

theorem Converses.handle (h : s.Converses x c) (hdriven : s'.driven = s.driven)
    {hi : HandlerInput} (hcommand : hi.isCommand = false)
    (hlink : s'.links (x.1, c) = (s.links (x.1, c)).handle hi) : s'.Converses x c := by
  obtain ⟨v, state, hv, hstate, hu, hcons⟩ := h
  have hnot : ∀ handshake command, hi = .command handshake command → command.index ≠ x.2 := by
    rintro handshake command rfl
    cases hcommand
  obtain ⟨state', words, hstate', hu', hwords, hsaid⟩ := Link.said_handle _ hnot hstate hu
  refine ⟨v, state', by rwa [hdriven], by rwa [hlink], hu', ?_⟩
  rw [hlink, hdriven, hwords]
  exact hcons.said hsaid

/-- A command arrives at the handler. -/
theorem Converses.receive (h : s.Converses x c) (hdriven : s'.driven = s.driven)
    (handshake : Bytes) (hlink : s'.links (x.1, c) = (s.links (x.1, c)).receive handshake) :
    s'.Converses x c := by
  obtain ⟨v, state, hv, hstate, hu, hcons⟩ := h
  rcases hcommands : (s.links (x.1, c)).commands with _ | ⟨command, commands⟩
  · have hsame : (s.links (x.1, c)).receive handshake = s.links (x.1, c) := by
      rw [Link.receive, hcommands]
    rw [hsame] at hlink
    exact ⟨v, state, by rwa [hdriven], by rwa [hlink], hu, by rwa [hlink, hdriven]⟩
  · have hreceive : (s.links (x.1, c)).receive handshake =
        { s.links (x.1, c) with commands := commands }.handle (.command handshake command) := by
      rw [Link.receive, hcommands]
    have horders : (s'.links (x.1, c)).orders x.2 =
        (commands.filter (·.index = x.2)).map (·.order) := by
      rw [hlink, hreceive]
      rfl
    by_cases hindex : command.index = x.2
    · obtain ⟨state', words, hstate', hu', hwords, hobeys⟩ :=
        Link.said_command (l := { s.links (x.1, c) with commands := commands }) handshake hindex
          hstate
      refine ⟨v, state', by rwa [hdriven], by rwa [hlink, hreceive], hu', ?_⟩
      have hold : (s.links (x.1, c)).orders x.2 =
          command.order :: (commands.filter (·.index = x.2)).map (·.order) := by
        rw [Link.orders, hcommands]
        simp [hindex]
      rw [hold] at hcons
      rw [horders, hlink, hreceive, hwords, hdriven]
      exact hcons.obeys hobeys
    · obtain ⟨state', words, hstate', hu', hwords, hsaid⟩ :=
        Link.said_handle (l := { s.links (x.1, c) with commands := commands })
          (.command handshake command) (by rintro _ _ ⟨⟩; exact hindex) hstate hu
      refine ⟨v, state', by rwa [hdriven], by rwa [hlink, hreceive], hu', ?_⟩
      have hold : (s.links (x.1, c)).orders x.2 =
          (commands.filter (·.index = x.2)).map (·.order) := by
        rw [Link.orders, hcommands]
        simp [hindex]
      rw [hold] at hcons
      rw [horders, hlink, hreceive, hwords, hdriven]
      exact hcons.said hsaid

/-- The behaviour hears the handler or something else, and may give an order. -/
theorem Converses.turn (h : s.Converses x c) (hturned : Driven.Turned x s.driven i s'.driven)
    (hhandler : (s'.links (x.1, c)).handler = (s.links (x.1, c)).handler)
    (hcommands : (s'.links (x.1, c)).commands = (s.links (x.1, c)).commands)
    (hwords : (∀ v, i.heard x c v = some v) ∧
        (s'.links (x.1, c)).words x.2 = (s.links (x.1, c)).words x.2 ∨
      ∃ w, (∀ v, i.heard x c v = v.hear w) ∧
        (s.links (x.1, c)).words x.2 = w :: (s'.links (x.1, c)).words x.2) :
    s'.Converses x c := by
  obtain ⟨v, state, hv, hstate, hu, hcons⟩ := h
  have horders : (s'.links (x.1, c)).orders x.2 = (s.links (x.1, c)).orders x.2 := by
    rw [Link.orders, hcommands]
    rfl
  obtain ⟨v₁, hheard, hcons⟩ : ∃ v₁, i.heard x c v = some v₁ ∧ Dialogue.Consistent
      ⟨v₁, (s'.links (x.1, c)).words x.2,
        (s.links (x.1, c)).orders x.2 ++ s.driven.pending x c, state.phase⟩ := by
    rcases hwords with ⟨hheard, hwords⟩ | ⟨w, hheard, hwords⟩
    · exact ⟨v, hheard v, by rwa [hwords]⟩
    · rw [hwords] at hcons
      obtain ⟨v₁, hv₁, hcons⟩ := hcons.hear
      exact ⟨v₁, (hheard v).trans hv₁, hcons⟩
  obtain ⟨v', orders, hv', hpending, hturn⟩ := hturned.turns c v v₁ hv hheard
  refine ⟨v', state, hv', by rwa [hhandler], hu, ?_⟩
  rw [horders, hpending, ← List.append_assoc]
  exact hcons.turn hturn

/-- What is kept as long as no handler asks to close in vain. -/
structure Lively (s : Swarm) : Prop where
  steady : s.driven.Steady
  nodup : ∀ peer, (s.driven.live peer).Nodup
  known : ∀ peer, ∀ c ∈ s.driven.live peer, (peer, c) ∈ s.known
  orderly : ∀ x : PeerId × SetId, x.2 < s.numProtocols → Orderly (s.entry x)
  /-- There are no orders to connections that were never there. -/
  unknown : ∀ (x : PeerId × SetId) c, x.2 < s.numProtocols → (x.1, c) ∉ s.known →
    s.driven.pending x c = []
  converses : ∀ (x : PeerId × SetId) c, x.2 < s.numProtocols → c ∈ s.driven.live x.1 →
    s.Converses x c

theorem lively_start (numProtocols : ℕ) : (start numProtocols).Lively where
  steady := Driven.steady_start numProtocols
  nodup := fun _ => List.nodup_nil
  known := fun _ _ h => by cases h
  orderly := fun _ _ _ _ h => by cases h
  unknown := fun _ _ _ _ => rfl
  converses := fun _ _ _ h => by cases h

/-- Something happens to a handler, and the behaviour stays as it is. -/
theorem Lively.link (hs : s.Lively) (hdriven : s'.driven = s.driven) (hknown : s'.known = s.known)
    (hconverses : ∀ x c, s.Converses x c → s'.Converses x c) : s'.Lively where
  steady := by rw [hdriven]; exact hs.steady
  nodup := by rw [hdriven]; exact hs.nodup
  known := by rw [hdriven, hknown]; exact hs.known
  orderly := by simp only [numProtocols, entry, hdriven]; exact hs.orderly
  unknown := by rw [numProtocols, hdriven, hknown]; exact hs.unknown
  converses := by
    rw [numProtocols, hdriven]
    exact fun x c hx hc => hconverses x c (hs.converses x c hx hc)

theorem lively_handle {peer : PeerId} {hi : HandlerInput} (hs : s.Lively)
    (hcommand : hi.isCommand = false) : (s.next (.handle peer c hi)).Lively := by
  refine hs.link rfl rfl ?_
  intro x c' h
  by_cases hlink : (x.1, c') = (peer, c)
  · refine h.handle rfl hcommand ?_
    rw [hlink]
    exact Function.update_self ..
  · exact h.of_eq rfl (Function.update_of_ne hlink ..)

theorem lively_command {peer : PeerId} {handshake : Bytes} (hs : s.Lively) :
    (s.next (.command peer c handshake)).Lively := by
  refine hs.link rfl rfl ?_
  intro x c' h
  by_cases hlink : (x.1, c') = (peer, c)
  · refine h.receive rfl handshake ?_
    rw [hlink]
    exact Function.update_self ..
  · exact h.of_eq rfl (Function.update_of_ne hlink ..)

theorem Lively.view_eq_none (hs : s.Lively) (hx : x.2 < s.numProtocols)
    (hc : c ∉ s.driven.live x.1) : s.driven.view x c = none := by
  have hids : (listed (s.entry x)).ids = s.driven.live x.1 := ((hs.steady x).1 hx).ids
  have hlookup : (listed (s.entry x)).lookup c = none :=
    Connections.lookup_eq_none_of_notMem (by rwa [hids])
  exact congrArg (Option.map ConnectionState.view) hlookup

theorem mem_live_next {d : Driven} {peer : PeerId} (hnd : (d.live peer).Nodup)
    (hc : c ∈ (d.next i).live peer) :
    c ∈ d.live peer ∧ (∀ now, i ≠ .connectionClosed now peer c) ∨
      i = .connectionEstablished peer c := by
  cases i with
  | connectionEstablished peer' c' =>
    simp only [Driven.next] at hc
    rcases eq_or_ne peer peer' with rfl | hne
    · rw [Function.update_self, List.mem_append, List.mem_singleton] at hc
      rcases hc with hc | rfl
      · exact .inl ⟨hc, by simp⟩
      · exact .inr rfl
    · rw [Function.update_of_ne hne] at hc
      exact .inl ⟨hc, by simp⟩
  | connectionClosed now peer' c' =>
    simp only [Driven.next] at hc
    rcases eq_or_ne peer peer' with rfl | hne
    · rw [Function.update_self, hnd.mem_erase_iff] at hc
      refine .inl ⟨hc.2, ?_⟩
      rintro now' ⟨⟩
      exact hc.1 rfl
    · rw [Function.update_of_ne hne] at hc
      refine .inl ⟨hc, ?_⟩
      rintro now' ⟨⟩
      exact hne rfl
  | _ => exact .inl ⟨hc, by simp⟩

theorem nodup_live_next {d : Driven} (hnd : ∀ peer, (d.live peer).Nodup) (hadm : d.Admissible i)
    (peer : PeerId) : ((d.next i).live peer).Nodup := by
  cases i with
  | connectionEstablished peer' c' =>
    simp only [Driven.next]
    rcases eq_or_ne peer peer' with rfl | hne
    · rw [Function.update_self]
      have hc' : c' ∉ d.live peer := hadm
      exact (hnd peer).append (List.nodup_singleton c') (by simpa using hc')
    · rw [Function.update_of_ne hne]
      exact hnd peer
  | connectionClosed now peer' c' =>
    simp only [Driven.next]
    rcases eq_or_ne peer peer' with rfl | hne
    · rw [Function.update_self]
      exact (hnd peer).erase c'
    · rw [Function.update_of_ne hne]
      exact hnd peer
  | _ => exact hnd peer

/-- The behaviour is called. -/
theorem Lively.turned (hs : s.Lively) (hadm : s.driven.Admissible i)
    (hdriven : s'.driven = s.driven.next i) (hsteady : s'.driven.Steady)
    (hknown : ∀ x, x ∈ s'.known ↔ x ∈ s.known ∨ i = .connectionEstablished x.1 x.2)
    (hpop : i ≠ .popEvent)
    (hnew : ∀ (x : PeerId × SetId) c, x.2 < s.numProtocols → i = .connectionEstablished x.1 c →
      s'.Converses x c)
    (hconverses : ∀ (x : PeerId × SetId) c, c ∈ s.driven.live x.1 →
      (∀ now, i ≠ .connectionClosed now x.1 c) → s.Converses x c →
      Driven.Turned x s.driven i s'.driven → s'.Converses x c) : s'.Lively := by
  have hnum : s'.numProtocols = s.numProtocols := by
    rw [numProtocols, hdriven]
    exact Driven.numProtocols_next s.driven i
  have hturned : ∀ x : PeerId × SetId, x.2 < s.numProtocols →
      Driven.Turned x s.driven i s'.driven := by
    intro x hx
    rw [hdriven]
    exact Driven.turned_next hx hadm hs.steady (hdriven ▸ hsteady) (hs.nodup x.1)
      (hs.orderly x hx) hpop
  refine ⟨hsteady, ?_, ?_, ?_, ?_, ?_⟩
  · rw [hdriven]
    exact nodup_live_next hs.nodup hadm
  · intro peer c hc
    rw [hdriven] at hc
    rw [hknown]
    rcases mem_live_next (hs.nodup peer) hc with ⟨hc, -⟩ | hi
    · exact .inl (hs.known peer c hc)
    · exact .inr hi
  · rw [hnum]
    exact fun x hx => (hturned x hx).orderly
  · rw [hnum]
    intro x c hx hc
    rw [hknown, not_or] at hc
    have hlive : c ∉ s.driven.live x.1 := fun h => hc.1 (hs.known x.1 c h)
    rw [(hturned x hx).absent c (hs.view_eq_none hx hlive) hc.2]
    exact hs.unknown x c hx hc.1
  · rw [hnum]
    intro x c hx hc
    rw [hdriven] at hc
    rcases mem_live_next (hs.nodup x.1) hc with ⟨hc, hclosed⟩ | hi
    · exact hconverses x c hc hclosed (hs.converses x c hx hc) (hturned x hx)
    · exact hnew x c hx hi

theorem lively_event {peer : PeerId} {ban : Instant} (hs : s.Lively)
    (hadm : s.Admissible (.event peer c ban))
    (hsteady : (s.next (.event peer c ban)).driven.Steady) :
    (s.next (.event peer c ban)).Lively := by
  obtain ⟨hc, e, he, hindex⟩ := hadm
  have he : (s.links (peer, c)).events.head? = some e := he
  have hdriven : (s.next (.event peer c ban)).driven =
      s.driven.next (.handlerEvent peer c e ban) := by
    simp [driven, next, call?, he, Logged.next]
  have hadm : s.driven.Admissible (.handlerEvent peer c e ban) := ⟨hc, hindex⟩
  apply hs.turned hadm hdriven hsteady
  · intro x
    simp [next]
  · simp
  · simp
  · intro x c' _ _ hconv hturned
    by_cases hlink : (x.1, c') = (peer, c)
    · have hlinks : (s.next (.event peer c ban)).links (x.1, c') =
          { s.links (x.1, c') with events := (s.links (x.1, c')).events.tail } := by
        rw [hlink]
        exact Function.update_self ..
      obtain ⟨rfl, rfl⟩ : x.1 = peer ∧ c' = c := by simpa using hlink
      apply hconv.turn hturned
      · rw [hlinks]
      · rw [hlinks]
      · rw [hlinks]
        by_cases hset : e.index = x.2
        · refine .inr ⟨e.word, fun v => ?_, ?_⟩
          · simp [NotificationsInput.heard, hset]
          · rw [Link.words_head he, if_pos hset]
            rfl
        · refine .inl ⟨fun v => ?_, ?_⟩
          · have hne : ¬ (x = (x.1, e.index)) := fun h => hset (congrArg Prod.snd h).symm
            simp [NotificationsInput.heard, hne]
          · rw [Link.words_head he, if_neg hset]
            rfl
    · have hlinks : (s.next (.event peer c ban)).links (x.1, c') = s.links (x.1, c') :=
        Function.update_of_ne hlink ..
      apply hconv.turn hturned
      · rw [hlinks]
      · rw [hlinks]
      · rw [hlinks]
        refine .inl ⟨fun v => ?_, rfl⟩
        have hne : ¬ (x = (peer, e.index) ∧ c = c') := by
          rintro ⟨rfl, rfl⟩
          exact hlink rfl
        simp only [NotificationsInput.heard, if_neg hne]

theorem converses_new (hs : s.Lively) {peer : PeerId} (hx : x.2 < s.numProtocols)
    (hpeer : x.1 = peer) (hc : c ∉ s.driven.live peer) (hknown : (peer, c) ∉ s.known) :
    (s.next (.call (.connectionEstablished peer c))).Converses x c := by
  subst hpeer
  have hlink : (s.next (.call (.connectionEstablished x.1 c))).links (x.1, c) =
      .new x.1 s.numProtocols := Function.update_self ..
  have hstate : (Link.new x.1 s.numProtocols).handler.protocols[x.2]? = some (.closed false) := by
    simp [Link.new, NotifsHandler.new, hx]
  have hpending := hs.unknown x c hx hknown
  rcases Driven.greets_next hx hs.steady (hs.orderly x hx) hc with ⟨hv, hp⟩ | ⟨hv, hp⟩
  · refine ⟨.closed, .closed false, hv, by rw [hlink]; exact hstate, trivial, ?_⟩
    have hp : (s.next (.call (.connectionEstablished x.1 c))).driven.pending x c = [] :=
      hp.trans hpending
    rw [hlink, hp]
    exact Dialogue.consistent_new
  · refine ⟨.opening, .closed false, hv, by rw [hlink]; exact hstate, trivial, ?_⟩
    have hp : (s.next (.call (.connectionEstablished x.1 c))).driven.pending x c = [.open] := by
      rw [hpending] at hp
      exact hp
    rw [hlink, hp]
    exact Dialogue.consistent_ordered

theorem lively_call (hs : s.Lively) (hadm : s.Admissible (.call i)) (hpop : i ≠ .popEvent)
    (hsteady : (s.next (.call i)).driven.Steady) : (s.next (.call i)).Lively := by
  obtain ⟨hadm, hhandler, hknown⟩ := hadm
  apply hs.turned hadm rfl hsteady _ hpop
  · rintro x c hx rfl
    exact converses_new hs hx rfl hadm hknown
  · intro x c hc hclosed hconv hturned
    have hheard : ∀ v, i.heard x c v = some v := by
      intro v
      cases i with
      | handlerEvent => cases hhandler
      | connectionClosed now peer c' =>
        have hne : ¬ (x.1 = peer ∧ c' = c) := by
          rintro ⟨rfl, rfl⟩
          exact hclosed now rfl
        simp only [NotificationsInput.heard, if_neg hne]
      | _ => rfl
    have hlinks : (s.next (.call i)).links (x.1, c) = s.links (x.1, c) := by
      cases i with
      | popEvent => exact absurd rfl hpop
      | connectionEstablished peer c' =>
        have hne : (x.1, c) ≠ (peer, c') := fun h => hknown (h ▸ hs.known x.1 c hc)
        exact Function.update_of_ne hne ..
      | _ => rfl
    apply hconv.turn hturned
    · rw [hlinks]
    · rw [hlinks]
    · exact .inl ⟨hheard, by rw [hlinks]⟩
  · intro x
    cases i with
    | connectionEstablished peer c =>
      simp only [next, List.mem_cons, NotificationsInput.connectionEstablished.injEq, Prod.ext_iff]
      tauto
    | _ => simp [next]

theorem linksAfter_popEvent (s : Swarm) :
    (∃ peer c command, s.driven.notifications.events.head? =
        some (.notifyHandler peer c command) ∧
      s.linksAfter .popEvent = Function.update s.links (peer, c)
        { s.links (peer, c) with commands := (s.links (peer, c)).commands ++ [command] }) ∨
    (∀ peer c command, s.driven.notifications.events.head? ≠
        some (.notifyHandler peer c command)) ∧ s.linksAfter .popEvent = s.links := by
  simp only [linksAfter]
  split
  · next peer c command he => exact .inl ⟨peer, c, command, he, rfl⟩
  · next he => exact .inr ⟨he, rfl⟩

theorem handler_popEvent (y : PeerId × ConnectionId) :
    (s.linksAfter .popEvent y).handler = (s.links y).handler ∧
      (s.linksAfter .popEvent y).events = (s.links y).events := by
  rcases linksAfter_popEvent s with ⟨peer, c, command, -, hlinks⟩ | ⟨-, hlinks⟩
  · rcases eq_or_ne y (peer, c) with rfl | hne
    · rw [hlinks, Function.update_self]
      exact ⟨rfl, rfl⟩
    · rw [hlinks, Function.update_of_ne hne]
      exact ⟨rfl, rfl⟩
  · rw [hlinks]
    exact ⟨rfl, rfl⟩

/-- An order that is taken from the behaviour is on its way to the handler. -/
theorem orders_popEvent : (s.linksAfter .popEvent (x.1, c)).orders x.2 =
    (s.links (x.1, c)).orders x.2 ++
      (s.driven.notifications.events.head?.bind (·.orderTo? x c)).toList := by
  rcases linksAfter_popEvent s with ⟨peer, c', command, he, hlinks⟩ | ⟨hnone, hlinks⟩
  · rw [he, Option.bind_some, NetworkBehaviourAction.orderTo?, hlinks]
    rcases eq_or_ne (x.1, c) (peer, c') with hlink | hne
    · rw [hlink, Function.update_self, Link.orders, Link.orders, List.filter_append]
      obtain ⟨rfl, rfl⟩ : x.1 = peer ∧ c = c' := by simpa using hlink
      by_cases hindex : command.index = x.2
      · simp [hindex]
      · have hne : (x.1, command.index) ≠ x := fun h => hindex (congrArg Prod.snd h)
        simp [hindex, hne]
    · rw [Function.update_of_ne hne]
      have hne : ¬ ((peer, command.index) = x ∧ c' = c) := by
        rintro ⟨rfl, rfl⟩
        exact hne rfl
      simp [hne]
  · rw [hlinks]
    rcases hhead : s.driven.notifications.events.head? with _ | e
    · simp
    · cases e with
      | notifyHandler peer c' command => exact absurd hhead (hnone peer c' command)
      | _ => simp [NetworkBehaviourAction.orderTo?]

theorem converses_popEvent (h : s.Converses x c) : (s.next (.call .popEvent)).Converses x c := by
  obtain ⟨v, state, hv, hstate, hu, hcons⟩ := h
  have hlinks : (s.next (.call .popEvent)).links (x.1, c) = s.linksAfter .popEvent (x.1, c) := rfl
  have hlink := handler_popEvent (s := s) (x.1, c)
  have hpending : (s.driven.notifications.events.head?.bind (·.orderTo? x c)).toList ++
      (s.next (.call .popEvent)).driven.pending x c = s.driven.pending x c := by
    have hevents : (s.next (.call .popEvent)).driven.notifications.events =
      s.driven.notifications.events.tail := rfl
    rw [Driven.pending, Driven.pending, hevents]
    rcases s.driven.notifications.events with _ | ⟨e, events⟩
    · rfl
    · cases he : e.orderTo? x c <;> simp [ordersTo, he]
  refine ⟨v, state, hv, by rw [hlinks, hlink.1]; exact hstate, hu, ?_⟩
  have hwords : (s.linksAfter .popEvent (x.1, c)).words x.2 = (s.links (x.1, c)).words x.2 := by
    rw [Link.words, Link.words, hlink.1, hlink.2]
  rw [hlinks, hwords, orders_popEvent, List.append_assoc, hpending]
  exact hcons

theorem lively_popEvent (hs : s.Lively) (hsteady : (s.next (.call .popEvent)).driven.Steady) :
    (s.next (.call .popEvent)).Lively where
  steady := hsteady
  nodup := hs.nodup
  known := hs.known
  orderly := hs.orderly
  unknown := by
    intro x c hx hc
    have hpending : s.driven.pending x c = [] := hs.unknown x c hx hc
    rw [Driven.pending, ordersTo, List.filterMap_eq_nil_iff] at hpending ⊢
    exact fun e he => hpending e (List.mem_of_mem_tail he)
  converses := fun x c hx hc => converses_popEvent (hs.converses x c hx hc)

theorem lively_step (hs : s.Lively) (hstep : s.Step input s') (hheeds : s.Heeds input) :
    s'.Lively := by
  have hsteady := steady_step hs.steady hstep hheeds
  obtain ⟨hadm, rfl⟩ := hstep
  cases input with
  | call i =>
    by_cases hpop : i = .popEvent
    · subst hpop
      exact lively_popEvent hs hsteady
    · exact lively_call hs hadm hpop hsteady
  | handle peer c hi => exact lively_handle hs hadm.2
  | command peer c handshake => exact lively_command hs
  | event peer c ban => exact lively_event hs hadm hsteady

end Swarm

end SwarmHost.Substrate
