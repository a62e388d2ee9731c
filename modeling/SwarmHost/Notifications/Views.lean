import Mathlib.Data.List.Nodup
import SwarmHost.Notifications.Dialogue
import SwarmHost.Notifications.Poison
import SwarmHost.Notifications.Sinks

/-! # Views of connections

An entry gives a view of each connection that it lists, and the state of the entry
decides which views a connection can have. The lemmas on lists say what becomes of
one connection, and which orders it gets.
-/

namespace SwarmHost.Substrate

def ConnectionState.view : ConnectionState → View
  | .closed => .closed
  | .closing => .closing
  | .opening => .opening
  | .openingThenClosing => .openingThenClosing
  | .openDesiredByRemote => .desired
  | .opened _ => .opened

def View.isSettled : View → Bool
  | .closed | .closing | .openingThenClosing => true
  | _ => false

namespace Connections

variable {cs : Connections} {c c' : ConnectionId} {s' : ConnectionState}

theorem lookup_switch (p : ConnectionState → Bool) :
    (cs.switch p s').lookup c = (cs.lookup c).map fun s => if p s then s' else s := by
  induction cs with
  | nil => rfl
  | cons cs₀ cs ih =>
    obtain ⟨c₁, s⟩ := cs₀
    have hcons : switch ((c₁, s) :: cs) p s' = (c₁, if p s then s' else s) :: switch cs p s' := rfl
    rw [hcons]
    by_cases h : c₁ = c
    · subst h
      rw [lookup_cons_self, lookup_cons_self]
      rfl
    · rw [lookup_cons_ne h, lookup_cons_ne h, ih]

theorem lookup_eq_none_of_notMem (h : c ∉ cs.ids) : cs.lookup c = none := by
  rw [List.lookup_eq_none_iff]
  intro e he
  have hne : c ≠ e.1 := by
    rintro rfl
    exact h (List.mem_map_of_mem he)
  simpa using hne

theorem mem_ids_of_lookup {s : ConnectionState} (h : cs.lookup c = some s) : c ∈ cs.ids := by
  by_contra hmem
  rw [lookup_eq_none_of_notMem hmem] at h
  cases h

theorem mem_of_lookup {s : ConnectionState} (h : cs.lookup c = some s) : (c, s) ∈ cs := by
  induction cs with
  | nil => cases h
  | cons cs₀ cs ih =>
    obtain ⟨c₁, s₁⟩ := cs₀
    by_cases hc : c₁ = c
    · subst hc
      rw [lookup_cons_self] at h
      obtain rfl := Option.some.inj h
      exact List.mem_cons_self
    · rw [lookup_cons_ne hc] at h
      exact List.mem_cons_of_mem _ (ih h)

theorem lookup_replaceFirst {p : ConnectionId → ConnectionState → Bool}
    {r : ConnectionId × Connections} (hnd : cs.ids.Nodup) (h : replaceFirst p s' cs = some r) :
    (∃ s, cs.lookup r.1 = some s ∧ p r.1 s) ∧
      ∀ c, r.2.lookup c = if c = r.1 then some s' else cs.lookup c := by
  induction cs generalizing r with
  | nil => cases h
  | cons cs₀ cs ih =>
    obtain ⟨c₁, s⟩ := cs₀
    obtain ⟨hnot, hnd⟩ : c₁ ∉ ids cs ∧ (ids cs).Nodup := List.nodup_cons.mp hnd
    rw [replaceFirst] at h
    split at h
    · next hp =>
      obtain rfl := Option.some.inj h
      refine ⟨⟨s, lookup_cons_self s, hp⟩, fun c => ?_⟩
      rw [Dict.lookup_cons_eq, Dict.lookup_cons_eq]
      by_cases hc : c = c₁ <;> simp [hc]
    · obtain ⟨r', hr', rfl⟩ := Option.map_eq_some_iff.mp h
      obtain ⟨⟨s₁, hs₁, hp⟩, hlookup⟩ := ih hnd hr'
      have hne : c₁ ≠ r'.1 := by
        rintro rfl
        exact hnot (mem_ids_of_lookup hs₁)
      refine ⟨⟨s₁, by rw [lookup_cons_ne hne, hs₁], hp⟩, fun c => ?_⟩
      rw [Dict.lookup_cons_eq, Dict.lookup_cons_eq, hlookup]
      by_cases hc : c = c₁
      · simp [hc, hne]
      · simp [hc]

theorem replaceFirst_eq_none {p : ConnectionId → ConnectionState → Bool} {s : ConnectionState}
    (h : replaceFirst p s' cs = none) (hs : cs.lookup c = some s) : p c s = false := by
  induction cs with
  | nil => cases hs
  | cons cs₀ cs ih =>
    obtain ⟨c₁, s₁⟩ := cs₀
    rw [replaceFirst] at h
    split at h
    · cases h
    · next hp =>
      by_cases hc : c₁ = c
      · subst hc
        rw [lookup_cons_self] at hs
        obtain rfl := Option.some.inj hs
        simpa using hp
      · rw [lookup_cons_ne hc] at hs
        exact ih (Option.map_eq_none_iff.mp h) hs

theorem lookup_update {p : ConnectionId → ConnectionState → Bool} {q : ConnectionState → Bool}
    (hp : ∀ c' s, p c' s = (decide (c' = c) && q s)) (hnd : cs.ids.Nodup) :
    (cs.update p s').lookup c' =
      (cs.lookup c').map fun s => if c' = c ∧ q s then s' else s := by
  rw [update]
  cases hr : replaceFirst p s' cs with
  | none =>
    rw [Option.elim_none]
    cases hs : cs.lookup c' with
    | none => rfl
    | some s =>
      have hfalse := replaceFirst_eq_none hr hs
      rw [hp, Bool.and_eq_false_iff, decide_eq_false_iff_not] at hfalse
      have hneg : ¬ (c' = c ∧ q s = true) := by
        rintro ⟨hc, hq⟩
        rcases hfalse with h | h
        · exact h hc
        · rw [hq] at h
          cases h
      rw [Option.map_some, if_neg hneg]
  | some r =>
    obtain ⟨⟨s, hs, hps⟩, hlookup⟩ := lookup_replaceFirst hnd hr
    rw [hp, Bool.and_eq_true, decide_eq_true_iff] at hps
    rw [Option.elim_some, hlookup]
    by_cases hc : c' = r.1
    · rw [if_pos hc, hc, hs, Option.map_some, if_pos hps]
    · rw [if_neg hc]
      have hne : c' ≠ c := fun h => hc (h.trans hps.1.symm)
      simp [hne]

theorem lookup_remove (hnd : cs.ids.Nodup) :
    (cs.remove c).lookup c' = if c' = c then none else cs.lookup c' := by
  induction cs with
  | nil => simp [remove]
  | cons cs₀ cs ih =>
    obtain ⟨c₁, s⟩ := cs₀
    obtain ⟨hnot, hnd⟩ : c₁ ∉ ids cs ∧ (ids cs).Nodup := List.nodup_cons.mp hnd
    by_cases h : c₁ = c
    · subst h
      rw [remove_cons_self]
      by_cases hc : c' = c₁
      · subst hc
        rw [if_pos rfl, lookup_eq_none_of_notMem hnot]
      · rw [if_neg hc, lookup_cons_ne (Ne.symm hc)]
    · rw [remove_cons_ne h, Dict.lookup_cons_eq, Dict.lookup_cons_eq, ih hnd]
      by_cases hc : c' = c₁
      · simp [hc, h]
      · simp [hc]

end Connections

def NetworkBehaviourAction.orderTo? (x : PeerId × SetId) (c : ConnectionId) :
    NetworkBehaviourAction → Option Order
  | .notifyHandler peer c' command =>
    if (peer, command.index) = x ∧ c' = c then some command.order else none
  | _ => none

def ordersTo (x : PeerId × SetId) (c : ConnectionId) (events : List NetworkBehaviourAction) :
    List Order :=
  events.filterMap (·.orderTo? x c)

namespace PeerState

def listed (entry : Option PeerState) : Connections := (entry.bind connections?).getD []

def view (entry : Option PeerState) (c : ConnectionId) : Option View :=
  ((listed entry).lookup c).map (·.view)

def allows (entry : Option PeerState) (v : View) : Bool :=
  match entry with
  | some (.disabled ..) | some (.disabledPendingEnable ..) => v.isSettled
  | some (.incoming ..) => v.isSettled || v = .desired
  | some (.enabled _) => v ≠ .desired
  | _ => true

def Orderly (entry : Option PeerState) : Prop := ∀ c v, view entry c = some v → allows entry v

end PeerState

/-- The view of a connection when what happened is heard; none if it is not expected, and none of a
connection that is gone. -/
def PairInput.heard (input : PairInput) (c : ConnectionId) (v : View) : Option View :=
  match input with
  | .handlerEvent c' event _ => if c' = c then v.hear event.word else some v
  | .connectionClosed _ c' => if c' = c then none else some v
  | _ => some v

open PeerState in
/-- Every connection is turned, and no order goes to others. -/
structure Reaction.Treats (x : PeerId × SetId) (input : PairInput) (entry : Option PeerState)
    (r : Reaction) : Prop where
  turns : ∀ c v v₁, view entry c = some v → input.heard c v = some v₁ →
    ∃ v', view r.entry c = some v' ∧ v₁.Turn (ordersTo x c r.events) v'
  absent : ∀ c, view entry c = none → input ≠ .connectionEstablished c →
    view r.entry c = none ∧ ordersTo x c r.events = []
  orderly : Orderly r.entry

namespace PeerState

open Reaction NetworkBehaviourAction

variable {peer : PeerId} {set : SetId} {x : PeerId × SetId} {cs cs' : Connections}
  {input : PairInput} {state : PeerState} {entry : Option PeerState} {r : Reaction}
  {c : ConnectionId}

@[simp] theorem ordersTo_nil : ordersTo x c [] = [] := rfl

@[simp] theorem ordersTo_append (events events' : List NetworkBehaviourAction) :
    ordersTo x c (events ++ events') = ordersTo x c events ++ ordersTo x c events' :=
  List.filterMap_append

@[simp] theorem ordersTo_generateEvent (event : NotificationsOut)
    (events : List NetworkBehaviourAction) :
    ordersTo x c (.generateEvent event :: events) = ordersTo x c events := rfl

@[simp] theorem ordersTo_dial (peer' : PeerId) (events : List NetworkBehaviourAction) :
    ordersTo x c (.dial peer' :: events) = ordersTo x c events := rfl

theorem ordersTo_openCommand (c' : ConnectionId) :
    ordersTo (peer, set) c [openCommand peer set c'] = if c = c' then [.open] else [] := by
  by_cases h : c = c' <;>
    simp [ordersTo, orderTo?, openCommand, NotifsHandlerIn.index, NotifsHandlerIn.order, h, eq_comm]

theorem ordersTo_closeCommand (c' : ConnectionId) (events : List NetworkBehaviourAction) :
    ordersTo (peer, set) c (closeCommand peer set c' :: events) =
      (if c = c' then [.close] else []) ++ ordersTo (peer, set) c events := by
  by_cases h : c = c' <;>
    simp [ordersTo, orderTo?, closeCommand, NotifsHandlerIn.index, NotifsHandlerIn.order, h,
      eq_comm]

@[simp] theorem ordersTo_closedEvent : ordersTo x c (closedEvent peer set cs) = [] := by
  unfold closedEvent
  split <;> rfl

@[simp] theorem ordersTo_lostEvents (position : ℕ) :
    ordersTo x c (lostEvents peer set position cs) = [] := by
  unfold lostEvents
  split
  · split <;> rfl
  · rfl

theorem ordersTo_those {command : ConnectionId → NetworkBehaviourAction} {o : Order}
    (hcommand : ∀ c', (command c').orderTo? x c = if c = c' then some o else none)
    (p : ConnectionState → Bool) (hnd : cs.ids.Nodup) :
    ordersTo x c ((cs.those p).map command) =
      (cs.lookup c).elim [] fun s => if p s then [o] else [] := by
  induction cs with
  | nil => rfl
  | cons cs₀ cs ih =>
    obtain ⟨c₁, s⟩ := cs₀
    obtain ⟨hnot, hnd⟩ : c₁ ∉ Connections.ids cs ∧ (Connections.ids cs).Nodup :=
      List.nodup_cons.mp hnd
    have hthose : ordersTo x c ((Connections.those ((c₁, s) :: cs) p).map command) =
        (if p s ∧ c = c₁ then [o] else []) ++
          ordersTo x c ((Connections.those cs p).map command) := by
      by_cases hp : p s
      · rcases eq_or_ne c c₁ with rfl | hc
        · simp [Connections.those, ordersTo, hp, hcommand]
        · simp [Connections.those, ordersTo, hp, hcommand, hc]
      · simp [Connections.those, ordersTo, hp]
    rw [hthose, ih hnd, Dict.lookup_cons_eq]
    by_cases hc : c = c₁
    · subst hc
      rw [Connections.lookup_eq_none_of_notMem hnot]
      by_cases hp : p s <;> simp [hp]
    · simp [hc]

theorem ordersTo_openCommands (p : ConnectionState → Bool) (hnd : cs.ids.Nodup) :
    ordersTo (peer, set) c ((cs.those p).map (openCommand peer set)) =
      (cs.lookup c).elim [] fun s => if p s then [.open] else [] := by
  apply ordersTo_those _ p hnd
  intro c'
  simp [orderTo?, openCommand, NotifsHandlerIn.index, NotifsHandlerIn.order, eq_comm]

theorem ordersTo_closeCommands (p : ConnectionState → Bool) (hnd : cs.ids.Nodup) :
    ordersTo (peer, set) c ((cs.those p).map (closeCommand peer set)) =
      (cs.lookup c).elim [] fun s => if p s then [.close] else [] := by
  apply ordersTo_those _ p hnd
  intro c'
  simp [orderTo?, closeCommand, NotifsHandlerIn.index, NotifsHandlerIn.order, eq_comm]

theorem treats_pointwise (f : ConnectionId → ConnectionState → ConnectionState × List Order)
    (hlookup : ∀ c, (listed r.entry).lookup c = ((listed entry).lookup c).map fun s => (f c s).1)
    (horders : ∀ c, ordersTo x c r.events =
      ((listed entry).lookup c).elim [] fun s => (f c s).2)
    (hturn : ∀ c s v₁, (listed entry).lookup c = some s → input.heard c s.view = some v₁ →
      v₁.Turn (f c s).2 (f c s).1.view)
    (hallows : ∀ c s, (listed entry).lookup c = some s → allows r.entry (f c s).1.view) :
    Treats x input entry r where
  turns := by
    intro c v v₁ hv hheard
    obtain ⟨s, hs, rfl⟩ := Option.map_eq_some_iff.mp hv
    refine ⟨(f c s).1.view, ?_, ?_⟩
    · rw [view, hlookup, hs]
      rfl
    · rw [horders, hs]
      exact hturn c s v₁ hs hheard
  absent := by
    intro c hv _
    have hs : (listed entry).lookup c = none := Option.map_eq_none_iff.mp hv
    refine ⟨?_, by rw [horders, hs]; rfl⟩
    rw [view, hlookup, hs]
    rfl
  orderly := by
    intro c v hv
    obtain ⟨s', hs', rfl⟩ := Option.map_eq_some_iff.mp hv
    rw [hlookup] at hs'
    obtain ⟨s, hs, rfl⟩ := Option.map_eq_some_iff.mp hs'
    exact hallows c s hs

end PeerState

end SwarmHost.Substrate
