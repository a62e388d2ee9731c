import Mathlib.Logic.Function.Basic
import SwarmHost.Notifications.Pairs

/-! # The behaviour as seen from one pair

The pairs do not interfere: what an input does to a pair is determined by what
the behaviour holds for that pair alone. The only exception is a closed
connection, which is not noticed in the sets after one without an entry.
-/

namespace SwarmHost.Substrate

structure Pair where
  entry : Option PeerState
  /-- The requests of the remote that are alive. -/
  alive : List IncomingIndex
  /-- The events about the pair that wait. -/
  events : List NetworkBehaviourAction
  live : List ConnectionId

inductive PairLabel where
  | idle
  | popEvent
  | react (input : PairInput)
  /-- The peerset answered the request with the index. -/
  | answer (index : IncomingIndex) (input : PairInput)

/-- The input comes from the swarm, which tells every set of the peer. -/
def NotificationsInput.isSwarm : NotificationsInput → Bool
  | .connectionEstablished .. | .connectionClosed .. | .dialFailure .. => true
  | _ => false

def PairInput.live (live : List ConnectionId) : PairInput → List ConnectionId
  | .connectionEstablished c => live ++ [c]
  | .connectionClosed _ c => live.erase c
  | _ => live

namespace Pair

def react (x : PeerId × SetId) (env : Surroundings) (p : Pair) (input : PairInput) : Pair where
  entry := (input.reaction x env p.entry).entry
  alive := (input.reaction x env p.entry).incoming.apply env.nextIncomingIndex p.alive
  events := p.events ++ (input.reaction x env p.entry).events.filter (·.pair? = some x)
  live := input.live p.live

def next (x : PeerId × SetId) (env : Surroundings) (p : Pair) : PairLabel → Pair
  | .idle => p
  | .popEvent => { p with events := p.events.tail }
  | .react input => p.react x env input
  | .answer index input => { p with alive := p.alive.erase index }.react x env input

end Pair

namespace Driven

def pair (d : Driven) (x : PeerId × SetId) : Pair :=
  ⟨d.notifications.peers.get? x, d.notifications.aliveOf x, d.notifications.eventsOf x, d.live x.1⟩

variable (d : Driven) (x : PeerId × SetId)

def answerLabel (index : IncomingIndex) (input : PairInput) : PairLabel :=
  match d.notifications.incoming.find? (·.incomingId = index) with
  | some request =>
    if Notifications.Alive x.1 x.2 request then .answer index input else .idle
  | none => .idle

def label : NotificationsInput → PairLabel
  | .connectionEstablished peer c => if x.1 = peer then .react (.connectionEstablished c) else .idle
  | .connectionClosed now peer c => if x.1 = peer then .react (.connectionClosed now c) else .idle
  | .dialFailure now peer => if x.1 = peer then .react (.dialFailure now) else .idle
  | .handlerEvent peer c event ban =>
    if x = (peer, event.index) then .react (.handlerEvent c event ban) else .idle
  | .peersetMessage now (.connect set peer) =>
    if x = (peer, set) then .react (.connect now) else .idle
  | .peersetMessage _ (.drop set peer) => if x = (peer, set) then .react .drop else .idle
  | .peersetMessage _ (.accept index) => d.answerLabel x index .accept
  | .peersetMessage _ (.reject index) => d.answerLabel x index .reject
  | .delayElapsed now delayId peer set =>
    if x = (peer, set) then .react (.delayElapsed now delayId) else .idle
  | .disconnectPeer now peer set =>
    if x = (peer, set) then .react (.disconnect now none) else .idle
  | .popEvent =>
    if (d.notifications.events.head?.bind (·.pair?)) = some x then .popEvent else .idle

/-- The step of the whole behaviour is a step of the pair. -/
structure Projects (d d' : Driven) (x : PeerId × SetId) (label : PairLabel)
    (env : Surroundings) : Prop where
  alive : ∀ input, label = .react input → (env.alive ↔ (d.pair x).alive ≠ [])
  pair : d'.pair x = (d.pair x).next x env label

variable {d : Driven} {x : PeerId × SetId} {d' : Driven} {input : NotificationsInput}

theorem projects_idle (h : Notifications.Leaves x d.notifications d'.notifications)
    (hlive : d'.live x.1 = d.live x.1) : ∃ env, Projects d d' x .idle env := by
  refine ⟨d.notifications.surroundings x.1 x.2, by simp, ?_⟩
  simp only [pair, Pair.next, h.entry, h.alive, h.events, hlive]

theorem projects_react {input : PairInput}
    (h : Notifications.Takes x input d.notifications d'.notifications)
    (hlive : d'.live x.1 = input.live (d.live x.1)) :
    ∃ env, Projects d d' x (.react input) env := by
  obtain ⟨env, halive, hentry, hevents, halive'⟩ := h
  refine ⟨env, fun _ _ => halive, ?_⟩
  simp only [pair, Pair.next, Pair.react, hentry, hevents, halive', hlive]

theorem projects_touch {n : Notifications} {peer : PeerId} {set : SetId} {input : PairInput}
    (hn : Notifications.Leaves x d.notifications n)
    (hinput : input.live (d.live x.1) = d.live x.1) :
    ∃ env, Projects d { d with notifications := n.touch peer set input } x
      (if x = (peer, set) then .react input else .idle) env := by
  split
  · next hx =>
    subst hx
    exact projects_react (hn.takes Notifications.takes_touch) hinput.symm
  · next hx => exact projects_idle (hn.trans (Notifications.leaves_touch hx)) rfl

theorem projects_foldl {live : PeerId → List ConnectionId} {peer : PeerId} {input : PairInput}
    (hx : x.2 < d.notifications.numProtocols)
    (hlive : live = Function.update d.live peer (input.live (d.live peer))) :
    ∃ env, Projects d
      ⟨(List.range d.notifications.numProtocols).foldl
        (fun n set => n.touch peer set input) d.notifications, live⟩ x
      (if x.1 = peer then .react input else .idle) env := by
  subst hlive
  split
  · next hpeer =>
    subst hpeer
    have htakes : Notifications.Takes x input d.notifications _ :=
      Notifications.takes_foldl List.nodup_range (List.mem_range.mpr hx)
    exact projects_react htakes (Function.update_self ..)
  · next hpeer =>
    apply projects_idle
    · exact Notifications.leaves_foldl fun set _ h => hpeer (congrArg Prod.fst h)
    · exact Function.update_of_ne hpeer ..

theorem aliveOf_takeIncoming {n : Notifications} {index : IncomingIndex} {request : IncomingPeer}
    (hfind : n.incoming.find? (·.incomingId = index) = some request) :
    (n.takeIncoming index).aliveOf x =
      if Notifications.Alive x.1 x.2 request then (n.aliveOf x).erase index else n.aliveOf x := by
  obtain ⟨hid, rs, rs', hrs, hfirst⟩ := List.find?_eq_some_iff_append.mp hfind
  have hfirst : ∀ r ∈ rs, r.incomingId ≠ index := by simpa using hfirst
  have hid : request.incomingId = index := by simpa using hid
  have herase : n.incoming.eraseP (·.incomingId = index) = rs ++ rs' := by
    rw [hrs, List.eraseP_append_right _ (by simpa using hfirst)]
    simp [hid]
  have hnot : index ∉ (rs.filter (Notifications.Alive x.1 x.2 ·)).map (·.incomingId) := by
    intro hmem
    obtain ⟨r, hr, hrid⟩ := List.mem_map.mp hmem
    exact hfirst r (List.mem_of_mem_filter hr) hrid
  rw [Notifications.aliveOf, Notifications.aliveOf, Notifications.takeIncoming]
  dsimp only
  rw [herase, hrs, List.filter_append, List.filter_append, List.map_append, List.map_append]
  split
  · next halive => simp [halive, hid, List.erase_append_right _ hnot]
  · next hdead => simp [hdead]

theorem leaves_takeIncoming {n : Notifications} {index : IncomingIndex} {request : IncomingPeer}
    (hfind : n.incoming.find? (·.incomingId = index) = some request)
    (hdead : ¬ Notifications.Alive x.1 x.2 request) :
    Notifications.Leaves x n (n.takeIncoming index) :=
  ⟨rfl, rfl, by rw [aliveOf_takeIncoming hfind, if_neg hdead]⟩

theorem projects_answer {index : IncomingIndex} {input : PairInput} {request : IncomingPeer}
    (hfind : d.notifications.incoming.find? (·.incomingId = index) = some request)
    (halive : request.alive) (hinput : ∀ live, input.live live = live) :
    ∃ env, Projects d
      ⟨(d.notifications.takeIncoming index).touch request.peerId request.setId input, d.live⟩ x
      (if Notifications.Alive x.1 x.2 request then .answer index input else .idle) env := by
  split
  · next hx =>
    have hpair : x = (request.peerId, request.setId) := Prod.ext hx.1.symm hx.2.1.symm
    obtain ⟨env, -, hentry, hevents, halive'⟩ : Notifications.Takes x input
        (d.notifications.takeIncoming index)
        ((d.notifications.takeIncoming index).touch request.peerId request.setId input) := by
      rw [hpair]
      exact Notifications.takes_touch
    rw [aliveOf_takeIncoming hfind, if_pos hx] at halive'
    refine ⟨env, by simp, ?_⟩
    simp only [pair, Pair.next, Pair.react, hentry, hevents, halive', hinput]
    rfl
  · next hx =>
    have hne : x ≠ (request.peerId, request.setId) := by
      rintro rfl
      exact hx ⟨rfl, rfl, halive⟩
    exact projects_idle ((leaves_takeIncoming hfind hx).trans (Notifications.leaves_touch hne)) rfl

theorem projects_answersRequest {index : IncomingIndex} {input : PairInput} {n' : Notifications}
    (h : d.notifications.AnswersRequest index input n') (hinput : ∀ live, input.live live = live) :
    ∃ env, Projects d ⟨n', d.live⟩ x (d.answerLabel x index input) env := by
  unfold answerLabel
  cases h with
  | unknown hfind =>
    rw [hfind]
    exact projects_idle (.refl x _) rfl
  | alive hfind halive =>
    rw [hfind]
    exact projects_answer hfind halive hinput
  | @retired request hfind hdead calls hcalls =>
    have hx : ¬ Notifications.Alive x.1 x.2 request := fun h => hdead h.2.2
    rw [hfind]
    dsimp only
    rw [if_neg hx]
    exact projects_idle ((leaves_takeIncoming hfind hx).trans ⟨rfl, rfl, rfl⟩) rfl

theorem projects_popEvent :
    ∃ env, Projects d ⟨d.notifications.popEvent, d.live⟩ x (d.label x .popEvent) env := by
  refine ⟨d.notifications.surroundings x.1 x.2, ?_, ?_⟩
  · intro input hlabel
    unfold label at hlabel
    dsimp only at hlabel
    split at hlabel <;> cases hlabel
  · rcases hevents : d.notifications.events with _ | ⟨e, es⟩
    · simp [label, pair, Pair.next, Notifications.popEvent, Notifications.eventsOf, hevents,
        Notifications.aliveOf]
    · by_cases he : e.pair? = some x
      · simp [label, pair, Pair.next, Notifications.popEvent, Notifications.eventsOf, hevents,
          Notifications.aliveOf, he]
      · simp [label, pair, Pair.next, Notifications.popEvent, Notifications.eventsOf, hevents,
          Notifications.aliveOf, he]

theorem projects_single (input : NotificationsInput) (h : input.isSwarm = false) :
    ∃ env, Projects d (d.next input) x (d.label x input) env := by
  cases input with
  | connectionEstablished | connectionClosed | dialFailure => cases h
  | handlerEvent peer c event ban => exact projects_touch (.refl x _) rfl
  | peersetMessage now message =>
    cases message with
    | connect | drop => exact projects_touch (.refl x _) rfl
    | accept index =>
      exact projects_answersRequest (d.notifications.answersRequest_accept index) fun _ => rfl
    | reject index =>
      exact projects_answersRequest (d.notifications.answersRequest_reject index) fun _ => rfl
  | delayElapsed now delayId peer set => exact projects_touch ⟨rfl, rfl, rfl⟩ rfl
  | disconnectPeer now peer set => exact projects_touch (.refl x _) rfl
  | popEvent => exact projects_popEvent

/-- Every input is one of the pair, if a closed connection reaches all sets. -/
theorem projects_next (hx : x.2 < d.notifications.numProtocols) (input : NotificationsInput)
    (hclosed : ∀ now c, input = .connectionClosed now x.1 c →
      ∀ set < d.notifications.numProtocols, (x.1, set) ∈ d.notifications.peers) :
    ∃ env, Projects d (d.next input) x (d.label x input) env := by
  cases input with
  | connectionEstablished peer c => exact projects_foldl hx rfl
  | connectionClosed now peer c =>
    by_cases hpeer : x.1 = peer
    · subst hpeer
      have heq : d.notifications.onConnectionClosed now x.1 c = _ :=
        Notifications.closeIn_eq_foldl List.nodup_range
          fun set hset => hclosed now c rfl set (List.mem_range.mp hset)
      rw [next, heq]
      exact projects_foldl hx rfl
    · rw [label, if_neg hpeer]
      apply projects_idle
      · exact Notifications.leaves_closeIn fun set _ h => hpeer (congrArg Prod.fst h)
      · exact Function.update_of_ne hpeer ..
  | dialFailure now peer => exact projects_foldl hx (Function.update_eq_self ..).symm
  | _ => exact projects_single _ rfl

theorem leaves_swarm (hinput : input.isSwarm) (hx : d.notifications.numProtocols ≤ x.2) :
    Notifications.Leaves x d.notifications (d.next input).notifications := by
  have hne : ∀ peer, ∀ set ∈ List.range d.notifications.numProtocols, x ≠ (peer, set) := by
    rintro peer set hset rfl
    exact absurd (List.mem_range.mp hset) (Nat.not_lt.mpr hx)
  cases input with
  | connectionEstablished peer c => exact Notifications.leaves_foldl (hne peer)
  | connectionClosed now peer c => exact Notifications.leaves_closeIn (hne peer)
  | dialFailure now peer => exact Notifications.leaves_foldl (hne peer)
  | _ => cases hinput

theorem numProtocols_foldl (n : Notifications) (peer : PeerId) (input : PairInput)
    (sets : List SetId) :
    (sets.foldl (fun n set => n.touch peer set input) n).numProtocols = n.numProtocols := by
  induction sets generalizing n with
  | nil => rfl
  | cons set sets ih => exact ih _

theorem numProtocols_closeIn (n : Notifications) (now : Instant) (peer : PeerId)
    (c : ConnectionId) (sets : List SetId) :
    (Notifications.closeIn now peer n c sets).numProtocols = n.numProtocols := by
  induction sets generalizing n with
  | nil => rfl
  | cons set sets ih =>
    rw [Notifications.closeIn]
    split
    · rfl
    · exact ih _

theorem numProtocols_answersRequest {n n' : Notifications} {index : IncomingIndex}
    {input : PairInput} (h : n.AnswersRequest index input n') :
    n'.numProtocols = n.numProtocols := by
  cases h <;> rfl

theorem numProtocols_next (d : Driven) (input : NotificationsInput) :
    (d.next input).notifications.numProtocols = d.notifications.numProtocols := by
  cases input with
  | connectionEstablished peer c => exact numProtocols_foldl ..
  | connectionClosed now peer c => exact numProtocols_closeIn ..
  | dialFailure now peer => exact numProtocols_foldl ..
  | peersetMessage now message =>
    cases message with
    | accept => exact numProtocols_answersRequest (d.notifications.answersRequest_accept _)
    | reject => exact numProtocols_answersRequest (d.notifications.answersRequest_reject _)
    | _ => rfl
  | _ => rfl

end Driven

end SwarmHost.Substrate
