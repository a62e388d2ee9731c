import SwarmHost.Collections.Dict
import SwarmHost.Notifications.Peers

/-! # Open connections

The open connections of a list with their sinks, and how the operations on lists
change them. When an open connection is lost, the position of the first of the
others decides what the user is told.
-/

namespace SwarmHost.Substrate

theorem ConnectionState.isOpened_iff {s : ConnectionState} :
    s.isOpened ↔ ∃ sink, s = .opened sink := by
  cases s <;> simp [isOpened]

namespace Connections

def opens (cs : Connections) : List (ConnectionId × NotificationsSink) :=
  cs.filterMap fun (c, s) => match s with
    | .opened sink => some (c, sink)
    | _ => none

variable {cs : Connections} {c : ConnectionId} {sink : NotificationsSink}

@[simp] theorem opens_nil : opens [] = [] := rfl

@[simp] theorem opens_cons_opened : opens ((c, .opened sink) :: cs) = (c, sink) :: cs.opens := rfl

theorem opens_cons_of_not {s : ConnectionState} (h : s.isOpened = false) :
    opens ((c, s) :: cs) = cs.opens := by
  cases s <;> simp_all [opens, ConnectionState.isOpened]

theorem opens_append (cs cs' : Connections) : opens (cs ++ cs') = cs.opens ++ cs'.opens := by
  simp [opens]

theorem anyIn_isOpened : cs.anyIn (·.isOpened) = !cs.opens.isEmpty := by
  induction cs with
  | nil => rfl
  | cons cs₀ cs ih =>
    obtain ⟨c, s⟩ := cs₀
    cases s with
    | opened sink => rfl
    | _ => exact ih

theorem opens_eq_nil_iff : cs.opens = [] ↔ cs.anyIn (·.isOpened) = false := by
  rw [anyIn_isOpened]
  simp

theorem opens_switch {p : ConnectionState → Bool} {s' : ConnectionState}
    (hp : ∀ s, p s → s.isOpened = false) (hs' : s'.isOpened = false) :
    (cs.switch p s').opens = cs.opens := by
  induction cs with
  | nil => rfl
  | cons cs₀ cs ih =>
    obtain ⟨c, s⟩ := cs₀
    have hcons : switch ((c, s) :: cs) p s' = (c, if p s then s' else s) :: switch cs p s' := rfl
    rw [hcons]
    by_cases h : p s
    · rw [if_pos h, opens_cons_of_not hs', opens_cons_of_not (hp s h), ih]
    · rw [if_neg h]
      cases s with
      | opened sink => simp [ih]
      | _ => rw [opens_cons_of_not rfl, opens_cons_of_not rfl, ih]

theorem opens_switch_eq {s s' : ConnectionState} (hs : s.isOpened = false)
    (hs' : s'.isOpened = false) : (cs.switch (· = s) s').opens = cs.opens := by
  refine opens_switch (fun t ht => ?_) hs'
  rw [of_decide_eq_true ht]
  exact hs

theorem opens_switch_isOpened {s' : ConnectionState} (hs' : s'.isOpened = false) :
    (cs.switch (·.isOpened) s').opens = [] := by
  induction cs with
  | nil => rfl
  | cons cs₀ cs ih =>
    obtain ⟨c, s⟩ := cs₀
    have hcons : switch ((c, s) :: cs) (·.isOpened) s' =
        (c, if s.isOpened then s' else s) :: switch cs (·.isOpened) s' := rfl
    rw [hcons]
    by_cases h : s.isOpened
    · rw [if_pos h, opens_cons_of_not hs', ih]
    · rw [if_neg h, opens_cons_of_not (by simpa using h), ih]

theorem opens_replaceFirst {p : ConnectionId → ConnectionState → Bool} {s' : ConnectionState}
    {r : ConnectionId × Connections} (hp : ∀ c s, p c s → s.isOpened = false)
    (hs' : s'.isOpened = false) (h : replaceFirst p s' cs = some r) : r.2.opens = cs.opens := by
  induction cs generalizing r with
  | nil => cases h
  | cons cs₀ cs ih =>
    obtain ⟨c, s⟩ := cs₀
    rw [replaceFirst] at h
    split at h
    · next hps =>
      obtain rfl := Option.some.inj h
      rw [opens_cons_of_not hs', opens_cons_of_not (hp c s hps)]
    · obtain ⟨r', hr', rfl⟩ := Option.map_eq_some_iff.mp h
      cases s with
      | opened sink => simp [ih hr']
      | _ => rw [opens_cons_of_not rfl, opens_cons_of_not rfl, ih hr']

theorem opens_update {p : ConnectionId → ConnectionState → Bool} {s' : ConnectionState}
    (hp : ∀ c s, p c s → s.isOpened = false) (hs' : s'.isOpened = false) :
    (cs.update p s').opens = cs.opens := by
  rw [update]
  cases h : replaceFirst p s' cs with
  | none => rfl
  | some r => exact opens_replaceFirst hp hs' h

theorem opens_replaceFirst_opened {p : ConnectionId → ConnectionState → Bool}
    {r : ConnectionId × Connections} (hp : ∀ c s, p c s → s.isOpened = false)
    (h : replaceFirst p (.opened sink) cs = some r) :
    ∃ l l', cs.opens = l ++ l' ∧ r.2.opens = l ++ (r.1, sink) :: l' := by
  induction cs generalizing r with
  | nil => cases h
  | cons cs₀ cs ih =>
    obtain ⟨c, s⟩ := cs₀
    rw [replaceFirst] at h
    split at h
    · next hps =>
      obtain rfl := Option.some.inj h
      exact ⟨[], opens cs, by rw [opens_cons_of_not (hp c s hps)]; rfl, rfl⟩
    · obtain ⟨r', hr', rfl⟩ := Option.map_eq_some_iff.mp h
      obtain ⟨l, l', h₁, h₂⟩ := ih hr'
      cases s with
      | opened sink' => exact ⟨(c, sink') :: l, l', by simp [h₁], by simp [h₂]⟩
      | _ => exact ⟨l, l', by rw [opens_cons_of_not rfl, h₁], by rw [opens_cons_of_not rfl, h₂]⟩

theorem lookup_cons_self (s : ConnectionState) : List.lookup c ((c, s) :: cs) = some s := by
  simp

theorem lookup_cons_ne {c' : ConnectionId} (hne : c' ≠ c) (s : ConnectionState) :
    List.lookup c ((c', s) :: cs) = List.lookup c cs := by
  rw [Dict.lookup_cons_eq, if_neg (Ne.symm hne)]

theorem remove_cons_self (s : ConnectionState) : remove ((c, s) :: cs) c = cs := by
  simp [remove]

theorem remove_cons_ne {c' : ConnectionId} (hne : c' ≠ c) (s : ConnectionState) :
    remove ((c', s) :: cs) c = (c', s) :: remove cs c := by
  simp [remove, hne]

theorem update_cons_self (s s' : ConnectionState) :
    update ((c, s) :: cs) (fun c' _ => c' = c) s' = (c, s') :: cs := by
  simp [update, replaceFirst]

theorem update_cons_ne {c' : ConnectionId} (hne : c' ≠ c) (s s' : ConnectionState) :
    update ((c', s) :: cs) (fun c' _ => c' = c) s' =
      (c', s) :: update cs (fun c' _ => c' = c) s' := by
  simp only [update, replaceFirst, hne, decide_false, Bool.false_eq_true, if_false]
  cases replaceFirst (fun c' _ => decide (c' = c)) s' cs <;> rfl

theorem position_cons_self (s : ConnectionState) : position ((c, s) :: cs) c = 0 := by
  simp [position, List.findIdx_cons]

theorem position_cons_ne {c' : ConnectionId} (hne : c' ≠ c) (s : ConnectionState) :
    position ((c', s) :: cs) c = position cs c + 1 := by
  simp [position, List.findIdx_cons, hne]

theorem opens_remove_of_not (h : ∀ sink, cs.lookup c ≠ some (.opened sink)) :
    (cs.remove c).opens = cs.opens := by
  induction cs with
  | nil => rfl
  | cons cs₀ cs ih =>
    obtain ⟨c', s⟩ := cs₀
    by_cases hc : c' = c
    · subst hc
      rw [remove_cons_self]
      cases s with
      | opened sink => exact absurd (lookup_cons_self _) (h sink)
      | _ => rw [opens_cons_of_not rfl]
    · rw [remove_cons_ne hc]
      have ih := ih fun sink => by rw [← lookup_cons_ne hc s]; exact h sink
      cases s with
      | opened sink => rw [opens_cons_opened, opens_cons_opened, ih]
      | _ => rw [opens_cons_of_not rfl, opens_cons_of_not rfl, ih]

theorem opens_update_of_not {s' : ConnectionState} (hs' : s'.isOpened = false)
    (h : ∀ sink, cs.lookup c ≠ some (.opened sink)) :
    (cs.update (fun c' _ => c' = c) s').opens = cs.opens := by
  induction cs with
  | nil => rfl
  | cons cs₀ cs ih =>
    obtain ⟨c', s⟩ := cs₀
    by_cases hc : c' = c
    · subst hc
      rw [update_cons_self, opens_cons_of_not hs']
      cases s with
      | opened sink => exact absurd (lookup_cons_self _) (h sink)
      | _ => rw [opens_cons_of_not rfl]
    · rw [update_cons_ne hc]
      have ih := ih fun sink => by rw [← lookup_cons_ne hc s]; exact h sink
      cases s with
      | opened sink => rw [opens_cons_opened, opens_cons_opened, ih]
      | _ => rw [opens_cons_of_not rfl, opens_cons_of_not rfl, ih]

end Connections

namespace PeerState

variable (peer : PeerId) (set : SetId)

/-- What the user is told when an open connection is lost that stands between others. -/
def lossEvents : List (ConnectionId × NotificationsSink) →
    List (ConnectionId × NotificationsSink) → List NotificationsOut
  | [], [] => [.customProtocolClosed peer set]
  | [], (_, sink) :: _ => [.customProtocolReplaced peer set sink]
  | _ :: _, _ => []

variable {peer : PeerId} {set : SetId} {cs : Connections} {c : ConnectionId}
  {sink : NotificationsSink}

theorem firstOpen_eq_none (h : cs.firstOpen = none) : cs.opens = [] := by
  induction cs with
  | nil => rfl
  | cons cs₀ cs ih =>
    obtain ⟨c, s⟩ := cs₀
    cases s with
    | opened sink => cases h
    | _ => exact ih (Option.map_eq_none_iff.mp h)

theorem firstOpen_eq_some {i : ℕ} (h : cs.firstOpen = some (i, sink)) :
    ∃ c l, cs.opens = (c, sink) :: l := by
  induction cs generalizing i with
  | nil => cases h
  | cons cs₀ cs ih =>
    obtain ⟨c, s⟩ := cs₀
    cases s with
    | opened sink' =>
      obtain ⟨rfl, rfl⟩ : 0 = i ∧ sink' = sink := by simpa [Connections.firstOpen] using h
      exact ⟨c, Connections.opens cs, rfl⟩
    | _ =>
      obtain ⟨⟨j, sink'⟩, hj, heq⟩ := Option.map_eq_some_iff.mp h
      obtain ⟨-, rfl⟩ : j + 1 = i ∧ sink' = sink := by simpa using heq
      exact ih hj

theorem lostEvents_zero :
    lostEvents peer set 0 cs = (lossEvents peer set [] cs.opens).map .generateEvent := by
  unfold lostEvents
  split
  · next i sink h =>
    obtain ⟨c, l, hopens⟩ := firstOpen_eq_some h
    rw [hopens, if_pos (Nat.zero_le i)]
    rfl
  · next h => rw [firstOpen_eq_none h]; rfl

theorem lostEvents_succ_opened (i : ℕ) :
    lostEvents peer set (i + 1) ((c, .opened sink) :: cs) = [] := by
  simp [lostEvents, Connections.firstOpen]

theorem lostEvents_succ {s : ConnectionState} (h : s.isOpened = false) (i : ℕ) :
    lostEvents peer set (i + 1) ((c, s) :: cs) = lostEvents peer set i cs := by
  have hfirst : Connections.firstOpen ((c, s) :: cs) =
      cs.firstOpen.map fun r => (r.1 + 1, r.2) := by
    cases s with
    | opened sink => cases h
    | _ => rfl
  rw [lostEvents, lostEvents, hfirst]
  cases cs.firstOpen with
  | none => rfl
  | some r => simp

/-- Whether or not a sink is replaced depends on the position. -/
theorem lostEvents_cases (i : ℕ) : lostEvents peer set i cs = [] ∨
    lostEvents peer set i cs = (lossEvents peer set [] cs.opens).map .generateEvent := by
  rw [← lostEvents_zero]
  unfold lostEvents
  split
  · next j sink h =>
    rw [if_pos (Nat.zero_le j)]
    split
    · exact .inr rfl
    · exact .inl rfl
  · exact .inr rfl

/-- The connection at the position is no longer among the open ones: the sinks that are left, and
what the user is told. -/
def Loss (peer : PeerId) (set : SetId) (c : ConnectionId) (sink : NotificationsSink)
    (cs : Connections) (position : ℕ) (rest : Connections) : Prop :=
  ∃ l, cs.opens = Connections.opens (cs.take position) ++ (c, sink) :: l ∧
    rest.opens = Connections.opens (cs.take position) ++ l ∧
    lostEvents peer set position rest =
      (lossEvents peer set (Connections.opens (cs.take position)) l).map .generateEvent

theorem loss_cons {rest : Connections} {i : ℕ} (e : ConnectionId × ConnectionState)
    (h : Loss peer set c sink cs i rest) : Loss peer set c sink (e :: cs) (i + 1) (e :: rest) := by
  obtain ⟨c', s⟩ := e
  obtain ⟨l, h₁, h₂, h₃⟩ := h
  refine ⟨l, ?_⟩
  rw [List.take_succ_cons]
  by_cases hs : s.isOpened
  · obtain ⟨sink', rfl⟩ := ConnectionState.isOpened_iff.mp hs
    refine ⟨by simp [h₁], by simp [h₂], ?_⟩
    rw [lostEvents_succ_opened]
    rfl
  · have hs : s.isOpened = false := by simpa using hs
    rw [Connections.opens_cons_of_not hs, Connections.opens_cons_of_not hs,
      Connections.opens_cons_of_not hs, lostEvents_succ hs]
    exact ⟨h₁, h₂, h₃⟩

theorem loss_remove (h : cs.lookup c = some (.opened sink)) :
    Loss peer set c sink cs (cs.position c) (cs.remove c) := by
  induction cs with
  | nil => cases h
  | cons cs₀ cs ih =>
    obtain ⟨c', s⟩ := cs₀
    by_cases hc : c' = c
    · subst hc
      rw [Connections.lookup_cons_self] at h
      obtain rfl := Option.some.inj h
      rw [Connections.position_cons_self, Connections.remove_cons_self]
      exact ⟨Connections.opens cs, rfl, rfl, lostEvents_zero⟩
    · rw [Connections.lookup_cons_ne hc] at h
      rw [Connections.position_cons_ne hc, Connections.remove_cons_ne hc]
      exact loss_cons _ (ih h)

theorem loss_update {s' : ConnectionState} (hs' : s'.isOpened = false)
    (h : cs.lookup c = some (.opened sink)) :
    Loss peer set c sink cs (cs.position c) (cs.update (fun c' _ => c' = c) s') := by
  induction cs with
  | nil => cases h
  | cons cs₀ cs ih =>
    obtain ⟨c', s⟩ := cs₀
    by_cases hc : c' = c
    · subst hc
      rw [Connections.lookup_cons_self] at h
      obtain rfl := Option.some.inj h
      rw [Connections.position_cons_self, Connections.update_cons_self]
      refine ⟨Connections.opens cs, rfl, Connections.opens_cons_of_not hs', ?_⟩
      rw [lostEvents_zero, Connections.opens_cons_of_not hs']
      rfl
    · rw [Connections.lookup_cons_ne hc] at h
      rw [Connections.position_cons_ne hc, Connections.update_cons_ne hc]
      exact loss_cons _ (ih h)

end PeerState

end SwarmHost.Substrate
