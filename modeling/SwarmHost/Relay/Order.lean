import SwarmHost.Relay.Basic

/-! # The order in which filters see notifications

The overseer hands a notification to the filters of the component in which it was
received, one after another, and each filter works through its own channel at its own
pace. What a filter has processed is still an initial part of what was received in
its component, so no two filters disagree on the order.
-/

namespace SwarmHost

variable {T : NetworkBackend}

def FilterCommand.isNotification : FilterCommand T → Bool
  | .injectNotification .. => true
  | _ => false

/-- A received notification, with the overseer at the moment it handles it. -/
structure Notice (T : NetworkBackend) where
  overseer : Overseer T
  interface : T.InterfaceId
  peer : T.PeerId
  protocol : T.Protocol
  message : T.Message

namespace Notice

def Reaches (n : Notice T) (i : T.InterfaceId) : Prop := n.overseer.SameComponent n.interface i

def command (n : Notice T) : FilterCommand T := .injectNotification n.protocol n.peer n.message

end Notice

namespace Relay

def notice? (s : Relay T) : Action T → Option (Notice T)
  | .oversee (.interfaceEvent (.messageReceived i peer protocol message)) _ =>
    some ⟨s.overseer, i, peer, protocol, message⟩
  | _ => none

/-- The notifications that the overseer handles along a run, in order. -/
def notices (room : ℕ) (E : Executor T) : Relay T → List (Action T) → List (Notice T)
  | _, [] => []
  | s, action :: actions =>
    (s.notice? action).toList ++
      match s.step room E action with
      | none => []
      | some s' => notices room E s' actions

def processed (s : Relay T) (i : T.InterfaceId) : List (FilterCommand T) :=
  ((s.delivered i).take (s.taken i)).filter (·.isNotification)

open Classical in
noncomputable def heard (i : T.InterfaceId) (notices : List (Notice T)) : List (Notice T) :=
  notices.filter (·.Reaches i)

/-- What a filter has processed are the notifications `seen`, the first of those received in the
component of its interface. -/
def HasSeen (s : Relay T) (notices : List (Notice T)) (i : T.InterfaceId)
    (seen : List (Notice T)) : Prop :=
  seen <+: heard i notices ∧ s.processed i = seen.map Notice.command

variable {room : ℕ} {E : Executor T} {s s' t : Relay T} {action : Action T} {i j : T.InterfaceId}

theorem notices_concat {actions : List (Action T)} (h : Run (Step room E) s actions t)
    (action : Action T) :
    notices room E s (actions ++ [action]) =
      notices room E s actions ++ (t.notice? action).toList := by
  refine Run.observed_concat (notices room E) (fun s action => (s.notice? action).toList)
    (fun s action => ?_) (fun _ => rfl) (fun s action t actions hstep => ?_) h action
  · cases hstep : s.step room E action <;> simp [notices, hstep]
  · have hstep : s.step room E action = some t := hstep
    simp only [notices, hstep]

section Queues

theorem no_notification {s : Overseer T} {order : List T.InterfaceId} {call : Call T}
    {c : FilterCommand T} (hcall : ∀ j peer protocol message,
      call ≠ .interfaceEvent (.messageReceived j peer protocol message))
    (hc : .command i c ∈ s.sends order call) : c.isNotification = false := by
  cases Overseer.sends_of_mem hc with
  | notification => exact absurd rfl (hcall _ _ _ _)
  | _ => rfl

/-- A received notification is sent once to each filter of the component. -/
theorem commandsTo_messageReceived {s : Overseer T} (hwf : s.WellFormed)
    (order : List T.InterfaceId) (n : Notice T) (hn : n.overseer = s) :
    (n.Reaches i → commandsTo i (s.sends order (.interfaceEvent
        (.messageReceived n.interface n.peer n.protocol n.message))) = [n.command]) ∧
      (¬ n.Reaches i → commandsTo i (s.sends order (.interfaceEvent
        (.messageReceived n.interface n.peer n.protocol n.message))) = []) := by
  subst hn
  simp only [Overseer.sends, Overseer.eventSends, commandsTo_map]
  cases hindex : n.overseer.index? n.interface with
  | none =>
    have hnot : ¬ n.Reaches i := by
      rintro ⟨m, _, hm, _⟩
      rw [hindex] at hm
      cases hm
    simp [hnot]
  | some m =>
    obtain ⟨ids, hids, hnd, hmem⟩ := hwf.linkedInterfaces_spec hindex
    rw [Option.bind_some, hids, Option.getD_some]
    constructor
    · intro h
      rw [List.count_eq_one_of_mem hnd ((hmem i).mpr h)]
      rfl
    · intro h
      rw [List.count_eq_zero_of_not_mem (mt (hmem i).mp h)]
      rfl

open Classical in
theorem Moves.notifications (h : Moves room E s action s') (hs : s.Wired) (i : T.InterfaceId) :
    (s'.overseer.queue i).filter (·.isNotification) =
      (s.overseer.queue i).filter (·.isNotification) ++
        (heard i (s.notice? action).toList).map Notice.command := by
  cases h with
  | @oversee call order result overseer hidle horder hcall =>
    rw [(Overseer.emits_handle horder hcall).queue, List.filter_append]
    congr 1
    cases hnotice : s.notice? (.oversee call order) with
    | none =>
      rw [Option.toList_none, heard, List.filter_nil, List.map_nil, List.filter_eq_nil_iff]
      intro c hc
      have hother : ∀ j peer protocol message,
          call ≠ .interfaceEvent (.messageReceived j peer protocol message) := by
        rintro j peer protocol message rfl
        cases hnotice
      simp [no_notification hother (mem_commandsTo.mp hc)]
    | some n =>
      have hcall : call =
          .interfaceEvent (.messageReceived n.interface n.peer n.protocol n.message) ∧
          n.overseer = s.overseer := by
        unfold notice? at hnotice
        split at hnotice
        · next heq =>
          obtain rfl := Option.some.inj hnotice
          obtain ⟨rfl, -⟩ := Action.oversee.inj heq
          exact ⟨rfl, rfl⟩
        · cases hnotice
      obtain ⟨rfl, hn⟩ := hcall
      obtain ⟨hin, hout⟩ := commandsTo_messageReceived hs.wellFormed order n hn (i := i)
      by_cases hreach : n.Reaches i
      · rw [hin hreach]
        simp [heard, hreach, Notice.command, FilterCommand.isNotification]
      · rw [hout hreach]
        simp [heard, hreach]
  | _ => simp [notice?, heard]

end Queues

theorem notifications_run {parameters : T.NetworkParameters} {actions : List (Action T)}
    (h : Run (Step room E) (start parameters) actions s) (i : T.InterfaceId) :
    (s.overseer.queue i).filter (·.isNotification) =
      (heard i (notices room E (start parameters) actions)).map Notice.command := by
  induction actions using List.reverseRecOn generalizing s with
  | nil =>
    rw [Run.nil_iff.mp h]
    rfl
  | append_singleton actions action ih =>
    obtain ⟨t, ht, hstep⟩ := Run.snoc_iff.mp h
    rw [hstep.moves.notifications (wired_run ht), ih ht, notices_concat ht, heard, heard, heard,
      List.filter_append, List.map_append]

theorem processed_initial (hs : s.Wired) (i : T.InterfaceId) :
    s.processed i <+: (s.overseer.queue i).filter (·.isNotification) := by
  rw [hs.queue, List.filter_append]
  exact ((List.take_prefix _ _).filter _).trans (List.prefix_append _ _)

theorem heard_initial {seen notices : List (Notice T)} (h : seen <+: notices)
    (i : T.InterfaceId) : heard i seen <+: heard i notices := by
  classical
  exact h.filter _

theorem heard_comm (notices : List (Notice T)) (i j : T.InterfaceId) :
    heard i (heard j notices) = heard j (heard i notices) := by
  classical
  rw [heard, heard, heard, heard, List.filter_filter, List.filter_filter]
  apply List.filter_congr
  intro n _
  rw [Bool.and_comm]

/-- The notifications that a filter has processed are an initial part of those received in its
component. -/
theorem exists_hasSeen {parameters : T.NetworkParameters} {actions : List (Action T)}
    (h : Run (Step room E) (start parameters) actions s) (i : T.InterfaceId) :
    ∃ seen, s.HasSeen (notices room E (start parameters) actions) i seen := by
  have hinitial := processed_initial (wired_run h) i
  rw [notifications_run h] at hinitial
  exact List.prefix_map_iff.mp hinitial

/-- In every state that a run reaches, the notifications that a filter has processed are an initial
part of those received in its component, and of the ones that two filters have in common, one
filter has processed an initial part of what the other has. -/
theorem processed_in_order (room : ℕ) (E : Executor T) (parameters : T.NetworkParameters)
    (actions : List (Action T)) (h : Run (Step room E) (start parameters) actions s) :
    (∀ i, s.processed i <+:
      (heard i (notices room E (start parameters) actions)).map Notice.command) ∧
    ∀ i j, ∃ seen seen', s.HasSeen (notices room E (start parameters) actions) i seen ∧
      s.HasSeen (notices room E (start parameters) actions) j seen' ∧
      (heard j seen <+: heard i seen' ∨ heard i seen' <+: heard j seen) := by
  constructor
  · intro i
    obtain ⟨seen, hseen, heq⟩ := exists_hasSeen h i
    rw [heq]
    exact hseen.map _
  · intro i j
    obtain ⟨seen, hseen⟩ := exists_hasSeen h i
    obtain ⟨seen', hseen'⟩ := exists_hasSeen h j
    have hi := heard_initial hseen.1 j
    have hj := heard_initial hseen'.1 i
    rw [heard_comm] at hj
    exact ⟨seen, seen', hseen, hseen', List.prefix_or_prefix_of_prefix hi hj⟩

/-- Two linked interfaces; a notification is received at the first, and the filter of the second is
the first to process it. -/
def linkedPair : List (Action loopback) :=
  [.oversee (.createInterface ⟨[127, 0, 0, 1], 0⟩ "" none) [],
    .oversee (.createInterface ⟨[127, 0, 0, 1], 0⟩ "" none) [0],
    .oversee (.linkInterfaces 0 1) [0, 1], .send,
    .oversee (.interfaceEvent (.messageReceived 0 [7] "/block-announces/1" ⟨[1]⟩)) [0, 1],
    .send, .send, .filterCommand 1 (.error (.executorError .filterDoesntExist))]

theorem processed_in_order_pair : ∃ s : Relay loopback,
    Run (Step 1 (.loading loopback)) (start ⟨[]⟩) linkedPair s ∧
    s.processed 1 = [.injectNotification "/block-announces/1" [7] ⟨[1]⟩] ∧ s.processed 0 = [] ∧
    s.processed 1 <+:
      (heard (T := loopback) 1 (notices 1 (.loading loopback) (start ⟨[]⟩) linkedPair)).map
        Notice.command := by
  obtain ⟨s, hrun, hone, hzero⟩ : ∃ s : Relay loopback,
      Run (Step 1 (.loading loopback)) (start ⟨[]⟩) linkedPair s ∧
      s.processed 1 = [.injectNotification "/block-announces/1" [7] ⟨[1]⟩] ∧
      s.processed 0 = [] :=
    ⟨_, Run.foldlM_iff.mpr rfl, rfl, rfl⟩
  exact ⟨s, hrun, hone, hzero, (processed_in_order _ _ _ _ hrun).1 1⟩

end Relay

end SwarmHost
