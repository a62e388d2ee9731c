import SwarmHost.Notifications.Projection
import SwarmHost.Notifications.Voices
import SwarmHost.Runs.Basic

/-! # What the user was told

The behaviour with the events that its user was given so far. What the user was
told of a pair, together with what waits to be told, grows when the pair reacts
and at no other time.
-/

namespace SwarmHost.Substrate

/-- The behaviour with the events that the user was given, the oldest first. -/
structure Logged where
  driven : Driven
  reported : List NotificationsOut

namespace Logged

def start (numProtocols : ℕ) : Logged := ⟨.start numProtocols, []⟩

variable (l : Logged)

def next (input : NotificationsInput) : Logged where
  driven := l.driven.next input
  reported := match input with
    | .popEvent => l.reported ++ (l.driven.notifications.events.head?.bind (·.event?)).toList
    | _ => l.reported

def Step (input : NotificationsInput) (l' : Logged) : Prop :=
  l.driven.Admissible input ∧ l.next input = l'

/-- What the user was told about the pair, or will be told of what happened. -/
def told (x : PeerId × SetId) : List NotificationsOut :=
  l.reported.filter (·.pair = x) ++ (l.driven.notifications.eventsOf x).filterMap (·.event?)

end Logged

def Pair.told (x : PeerId × SetId) (env : Surroundings) (p : Pair) :
    PairLabel → List NotificationsOut
  | .idle | .popEvent => []
  | .react input | .answer _ input => (input.reaction x env p.entry).told

section Told

open NetworkBehaviourAction

variable {x : PeerId × SetId} {l : Logged} {input : NotificationsInput} {env : Surroundings}
  {label : PairLabel}

theorem Reaction.filterMap_filter {r : Reaction} (h : r.Own x.1 x.2) :
    (r.events.filter (·.pair? = some x)).filterMap event? = r.told := by
  rw [told, List.filterMap_filter]
  apply List.filterMap_congr
  intro e he
  rcases h e he with hp | hp
  · simp [hp]
  · cases e <;> simp_all [pair?, event?]

theorem Pair.filterMap_next (p : Pair) (hlabel : label ≠ .popEvent) :
    (p.next x env label).events.filterMap event? =
      p.events.filterMap event? ++ p.told x env label := by
  cases label with
  | idle => exact (List.append_nil _).symm
  | popEvent => exact absurd rfl hlabel
  | react i | answer index i =>
    simp only [Pair.next, Pair.react, Pair.told, List.filterMap_append]
    rw [Reaction.filterMap_filter (i.own_reaction x env p.entry)]

theorem Driven.label_ne_popEvent {d : Driven} (h : input ≠ .popEvent) :
    d.label x input ≠ .popEvent := by
  have hanswer : ∀ index i, d.answerLabel x index i ≠ .popEvent := by
    intro index i
    unfold answerLabel
    split
    · split <;> simp
    · simp
  cases input with
  | popEvent => exact absurd rfl h
  | peersetMessage now message =>
    cases message with
    | accept index | reject index => exact hanswer index _
    | _ =>
      simp only [label]
      split <;> simp
  | _ =>
    simp only [label]
    split <;> simp

/-- Taking an event tells the user nothing new. -/
theorem Logged.told_popEvent : (l.next .popEvent).told x = l.told x := by
  obtain ⟨d, reported⟩ := l
  simp only [told, next, Driven.next, Notifications.popEvent, Notifications.eventsOf]
  rcases d.notifications.events with _ | ⟨e, events⟩
  · simp
  · cases e with
    | generateEvent event =>
      by_cases hx : event.pair = x
      · simp [event?, pair?, hx]
      · simp [event?, pair?, hx]
    | notifyHandler peer c command =>
      by_cases hx : (peer, command.index) = x
      · simp [event?, pair?, hx]
      · simp [event?, pair?, hx]
    | dial peer => simp [event?, pair?]

theorem Logged.told_next (h : Driven.Projects l.driven (l.driven.next input) x
    (l.driven.label x input) env) :
    (l.next input).told x = l.told x ++ (l.driven.pair x).told x env (l.driven.label x input) := by
  by_cases hinput : input = .popEvent
  · subst hinput
    rw [told_popEvent]
    simp only [Driven.label]
    split <;> simp [Pair.told]
  · have hevents : (l.driven.next input).notifications.eventsOf x = _ :=
      congrArg Pair.events h.pair
    have hreported : (l.next input).reported = l.reported := by
      cases input with
      | popEvent => exact absurd rfl hinput
      | _ => rfl
    have hdriven : (l.next input).driven = l.driven.next input := rfl
    rw [told, hreported, hdriven, hevents,
      Pair.filterMap_next _ (Driven.label_ne_popEvent hinput), ← List.append_assoc]
    rfl

end Told

def PairLabel.input? : PairLabel → Option PairInput
  | .idle | .popEvent => none
  | .react input | .answer _ input => some input

/-- The pair and what the user is told of it stay as they are, or the pair reacts to the input. -/
inductive Logged.Hears (x : PeerId × SetId) (l : Logged) (input : NotificationsInput)
    (l' : Logged) : Prop where
  | nothing : l'.driven.notifications.peers.get? x = l.driven.notifications.peers.get? x →
      l'.told x = l.told x → Hears x l input l'
  | reaction (env : Surroundings) {i : PairInput} :
      (l.driven.label x input).input? = some i →
      (input.isSwarm → x.2 < l.driven.notifications.numProtocols) →
      l'.driven.notifications.peers.get? x =
        (i.reaction x env (l.driven.notifications.peers.get? x)).entry →
      l'.told x = l.told x ++ (i.reaction x env (l.driven.notifications.peers.get? x)).told →
      Hears x l input l'

namespace Logged

variable {x : PeerId × SetId} {l l' : Logged} {input : NotificationsInput} {env : Surroundings}

theorem hears_of_projects (h : Driven.Projects l.driven (l.driven.next input) x
    (l.driven.label x input) env)
    (hx : input.isSwarm → x.2 < l.driven.notifications.numProtocols) :
    Hears x l input (l.next input) := by
  have hentry : (l.driven.next input).notifications.peers.get? x = _ := congrArg Pair.entry h.pair
  have htold := told_next h
  cases hlabel : l.driven.label x input with
  | idle | popEvent =>
    rw [hlabel] at hentry htold
    exact .nothing hentry (htold.trans (List.append_nil _))
  | react | answer =>
    rw [hlabel] at hentry htold
    exact .reaction env (by rw [hlabel]; rfl) hx hentry htold

theorem hears_of_leaves (hinput : input.isSwarm)
    (h : Notifications.Leaves x l.driven.notifications (l.driven.next input).notifications) :
    Hears x l input (l.next input) := by
  refine .nothing h.entry ?_
  rw [told, told, ← h.events]
  cases input with
  | popEvent => cases hinput
  | _ => rfl

theorem hears_closed {now : Instant} {peer : PeerId} {c : ConnectionId}
    (hx : x.2 < l.driven.notifications.numProtocols) (hpeer : x.1 = peer) :
    Hears x l (.connectionClosed now peer c) (l.next (.connectionClosed now peer c)) := by
  have hcases : _ ∨ Notifications.Takes x (.connectionClosed now c) l.driven.notifications
      (l.driven.notifications.onConnectionClosed now peer c) :=
    Notifications.closeIn_cases List.nodup_range
  rcases hcases with h | ⟨env, -, hentry, hevents, -⟩
  · exact hears_of_leaves rfl h
  · have hlabel : l.driven.label x (.connectionClosed now peer c) =
        .react (.connectionClosed now c) := if_pos hpeer
    refine .reaction env (by rw [hlabel]; rfl) (fun _ => hx) hentry ?_
    have hown := PairInput.own_reaction x env (.connectionClosed now c)
      (l.driven.notifications.peers.get? x)
    rw [told, told, List.append_assoc, ← Reaction.filterMap_filter hown,
      ← List.filterMap_append, ← hevents]
    rfl

theorem hears_next (x : PeerId × SetId) (l : Logged) (input : NotificationsInput) :
    Hears x l input (l.next input) := by
  by_cases hswarm : input.isSwarm
  · by_cases hx : x.2 < l.driven.notifications.numProtocols
    · by_cases hclosed : ∃ now c, input = .connectionClosed now x.1 c
      · obtain ⟨now, c, rfl⟩ := hclosed
        exact hears_closed hx rfl
      · obtain ⟨env, h⟩ := Driven.projects_next hx input fun now c h => absurd ⟨now, c, h⟩ hclosed
        exact hears_of_projects h fun _ => hx
    · exact hears_of_leaves hswarm (Driven.leaves_swarm hswarm (Nat.not_lt.mp hx))
  · obtain ⟨env, h⟩ := Driven.projects_single (d := l.driven) (x := x) _ (by simpa using hswarm)
    exact hears_of_projects h fun h => absurd h hswarm

end Logged

end SwarmHost.Substrate
