import SwarmHost.Overseer.Sends

/-! # How many commands a call sends

A call of the overseer sends commands to the filter of one interface, of the interfaces
of a component or, for a discovered peer, of all interfaces. Each of them gets at most
one, except for a connection upgrade, which sends one for each protocol.
-/

namespace SwarmHost

variable {T : NetworkBackend}

def Call.load : Call T → ℕ
  | .interfaceEvent (.connectionUpgraded _ _ (.protocolOpened protocols))
  | .interfaceEvent (.connectionUpgraded _ _ (.protocolClosed protocols)) => protocols.length
  | _ => 1

/-- The filters that a call may send commands to. -/
def Call.Addresses (s : Overseer T) (i : T.InterfaceId) : Call T → Prop
  | .createInterface .. | .linkInterfaces .. | .unlinkInterfaces .. | .connectToPeer .. => False
  | .installNotificationFilter j .. | .installRequestResponseFilter j ..
  | .interfaceEvent (.peerConnected j ..) | .interfaceEvent (.peerDisconnected j ..)
  | .interfaceEvent (.connectionUpgraded j ..) | .interfaceEvent (.requestReceived j ..)
  | .interfaceEvent (.responseReceived j ..) => j = i
  | .interfaceEvent (.messageReceived j ..) => s.SameComponent j i
  | .interfaceEvent (.peerDiscovered _) => True

namespace Overseer

variable {E : Executor T} {s s' : Overseer T} {i j : T.InterfaceId}

/-- A notification is sent at most once to a filter, and only in the component. -/
theorem count_linked (hs : s.WellFormed) (i j : T.InterfaceId) :
    (((s.index? j).bind s.linkedInterfaces).getD []).count i ≤ 1 ∧
      (¬ s.SameComponent j i →
        (((s.index? j).bind s.linkedInterfaces).getD []).count i = 0) := by
  cases hindex : s.index? j with
  | none => simp
  | some m =>
    obtain ⟨ids, hids, hnd, hmem⟩ := hs.linkedInterfaces_spec hindex
    rw [Option.bind_some, hids, Option.getD_some]
    exact ⟨List.nodup_iff_count_le_one.mp hnd i,
      fun hnot => List.count_eq_zero_of_not_mem (mt (hmem i).mp hnot)⟩

theorem length_commandsTo_sendsChecked (c : FilterCommand T) :
    (commandsTo i (s.sendsChecked j c)).length ≤ 1 := by
  unfold sendsChecked
  split
  · rw [commandsTo_command]
    split <;> simp
  · simp

theorem length_commandsTo_sendsUpgrades (command : T.Protocol → FilterCommand T)
    (event : T.Protocol → HeuristicsEvent T) (protocols : List T.Protocol) :
    (commandsTo i (sendsUpgrades j command event protocols)).length ≤ protocols.length := by
  induction protocols with
  | nil => simp [sendsUpgrades]
  | cons protocol protocols ih =>
    have hcons : sendsUpgrades j command event (protocol :: protocols) =
        .command j (command protocol) :: .report (event protocol) ::
          sendsUpgrades j command event protocols := rfl
    rw [hcons, commandsTo_command, commandsTo_report, List.length_append, List.length_cons]
    split <;> simp only [List.length_singleton, List.length_nil] <;> omega

theorem length_commandsTo_le {order : List T.InterfaceId} (hs : s.WellFormed)
    (horder : order.Nodup) (call : Call T) :
    (commandsTo i (s.sends order call)).length ≤ call.load := by
  have hpair : ∀ {j : T.InterfaceId} {c : FilterCommand T} {e : HeuristicsEvent T} {P : Prop}
      [Decidable P], (commandsTo i (if P then [.command j c, .report e] else [])).length ≤ 1 := by
    intro j c e P _
    split
    · rw [commandsTo_command, commandsTo_report]
      split <;> simp
    · simp
  cases call with
  | createInterface | connectToPeer => exact Nat.zero_le 1
  | linkInterfaces a b | unlinkInterfaces a b =>
    simp only [sends]
    split <;> exact Nat.zero_le 1
  | installNotificationFilter | installRequestResponseFilter =>
    exact length_commandsTo_sendsChecked _
  | interfaceEvent event =>
    cases event with
    | peerConnected | peerDisconnected => exact hpair
    | connectionUpgraded j peer upgrade =>
      cases upgrade with
      | protocolOpened protocols | protocolClosed protocols =>
        exact length_commandsTo_sendsUpgrades _ _ protocols
    | messageReceived j peer protocol message =>
      simp only [sends, eventSends, commandsTo_map, List.length_replicate]
      exact (count_linked hs i j).1
    | requestReceived | responseReceived => exact length_commandsTo_sendsChecked _
    | peerDiscovered peer =>
      simp only [sends, eventSends]
      split
      · exact Nat.zero_le 1
      · rw [commandsTo_map, List.length_replicate]
        exact List.nodup_iff_count_le_one.mp (horder.filter _) i

theorem commandsTo_eq_nil {order : List T.InterfaceId} (hs : s.WellFormed) {call : Call T}
    (h : ¬ call.Addresses s i) : commandsTo i (s.sends order call) = [] := by
  rw [List.eq_nil_iff_forall_not_mem]
  intro c hc
  have hsends := mem_commandsTo.mp hc
  cases sends_of_mem hsends with
  | notification =>
    simp only [sends, eventSends, commandsTo_map, (count_linked hs i _).2 h] at hc
    cases hc
  | discover => exact h trivial
  | _ => exact h rfl

/-- Only the filters that a call addresses get commands, and no more than its load. -/
theorem Step.length_queue {call : Call T} (hstep : Step E s call s') (hs : s.WellFormed)
    (i : T.InterfaceId) :
    (s'.queue i).length ≤ (s.queue i).length + call.load ∧
      (¬ call.Addresses s i → s'.queue i = s.queue i) := by
  obtain ⟨⟨r, t⟩, h, rfl⟩ := Option.map_eq_some_iff.mp hstep
  rw [(emits_handle (List.Perm.refl _) h).queue, List.length_append]
  constructor
  · exact Nat.add_le_add_left (length_commandsTo_le hs s.interfaces.nodup call) _
  · intro hnot
    rw [commandsTo_eq_nil hs hnot, List.append_nil]

end Overseer

end SwarmHost
