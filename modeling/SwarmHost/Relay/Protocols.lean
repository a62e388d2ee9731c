import SwarmHost.Filter.Protocols
import SwarmHost.Heuristics.Openings
import SwarmHost.Relay.Registration

/-! # Two records of the open protocols

The filter of an interface and the heuristics backend both keep which protocols a peer has
open, and the overseer tells both of every upgrade. The filter never forgets a protocol
while the peer is connected; the heuristics backend ignores what it is told before it has
counted a message on the protocol, and forgets nothing when the peer disconnects.
-/

namespace SwarmHost

variable {T : NetworkBackend}

section Sessions

variable (i : T.InterfaceId) (p : T.PeerId) (q : T.Protocol)

/-- The upgrades of the protocol since the peer connected, true for an opening, after one more
event; none while the peer is not connected. -/
def InterfaceEvent.session (upgrades : Option (List Bool)) :
    InterfaceEvent T → Option (List Bool)
  | .peerConnected j peer _ _ => if j = i ∧ peer = p then some (upgrades.getD []) else upgrades
  | .peerDisconnected j peer => if j = i ∧ peer = p then none else upgrades
  | .connectionUpgraded j peer (.protocolOpened protocols) =>
    if j = i ∧ peer = p then upgrades.map (· ++ List.replicate (protocols.count q) true)
    else upgrades
  | .connectionUpgraded j peer (.protocolClosed protocols) =>
    if j = i ∧ peer = p then upgrades.map (· ++ List.replicate (protocols.count q) false)
    else upgrades
  | _ => upgrades

/-- The steps in which the overseer passes an event on, with what the heuristics backend has to
learn in them; the filter is told first. -/
def InterfaceEvent.tidings : InterfaceEvent T → List (Option Tidings)
  | .peerConnected _ peer _ _ => [none, if peer = p then some .registered else none]
  | .connectionUpgraded j peer (.protocolOpened protocols) =>
    protocols.flatMap fun protocol =>
      [none, if j = i ∧ peer = p ∧ protocol = q then some .opened else none]
  | .connectionUpgraded j peer (.protocolClosed protocols) =>
    protocols.flatMap fun protocol =>
      [none, if j = i ∧ peer = p ∧ protocol = q then some .closed else none]
  | _ => []

def FilterCommand.session (upgrades : Option (List Bool)) :
    FilterCommand T → Option (List Bool)
  | .registerPeer peer _ => if peer = p then some (upgrades.getD []) else upgrades
  | .unregisterPeer peer => if peer = p then none else upgrades
  | .protocolOpened peer protocol =>
    if peer = p ∧ protocol = q then upgrades.map (· ++ [true]) else upgrades
  | .protocolClosed peer protocol =>
    if peer = p ∧ protocol = q then upgrades.map (· ++ [false]) else upgrades
  | _ => upgrades

/-- The upgrades since the peer was registered. -/
def sessionOf (commands : List (FilterCommand T)) : Option (List Bool) :=
  commands.foldl (FilterCommand.session p q) none

variable {i p q}

theorem sessionOf_append (commands new : List (FilterCommand T)) :
    sessionOf p q (commands ++ new) = new.foldl (FilterCommand.session p q)
      (sessionOf p q commands) := List.foldl_append

theorem isSome_sessionOf (commands : List (FilterCommand T)) :
    (sessionOf p q commands).isSome = (outcome p commands).isSome := by
  induction commands using List.reverseRecOn with
  | nil => rfl
  | append_singleton commands c ih =>
    rw [sessionOf_append, outcome_concat, List.foldl_cons, List.foldl_nil]
    cases c with
    | registerPeer peer sink | unregisterPeer peer =>
      by_cases hp : peer = p <;> simp [FilterCommand.session, FilterCommand.about,
        FilterCommand.given, hp, ih]
    | protocolOpened peer protocol | protocolClosed peer protocol =>
      simp only [FilterCommand.session, FilterCommand.about, reduceCtorEq, if_false]
      split
      · rw [Option.isSome_map, ih]
      · exact ih
    | _ => simpa [FilterCommand.session, FilterCommand.about] using ih

end Sessions

namespace Overseer

variable {s : Overseer T} {i : T.InterfaceId} {p : T.PeerId} {q : T.Protocol}

def Ignores (s : Overseer T) : InterfaceEvent T → Prop
  | .peerConnected i peer _ _ => peer ∈ s.interfacePeerIds ∨ i ∉ s.interfaces
  | .peerDisconnected _ peer => peer ∈ s.interfacePeerIds
  | _ => False

instance (s : Overseer T) : DecidablePred s.Ignores
  | .peerConnected .. => inferInstanceAs (Decidable (_ ∨ _))
  | .peerDisconnected .. => inferInstanceAs (Decidable (_ ∈ s.interfacePeerIds))
  | .connectionUpgraded .. | .messageReceived .. | .requestReceived .. | .responseReceived ..
  | .peerDiscovered .. => inferInstanceAs (Decidable False)

def event? (s : Overseer T) : Call T → Option (InterfaceEvent T)
  | .interfaceEvent event => if s.Ignores event then none else some event
  | _ => none

theorem event?_of_ignores {event : InterfaceEvent T} (h : s.Ignores event) :
    s.event? (.interfaceEvent event) = none := if_pos h

theorem event?_of_not_ignores {event : InterfaceEvent T} (h : ¬ s.Ignores event) :
    s.event? (.interfaceEvent event) = some event := if_neg h

theorem sends_peerConnected (s : Overseer T) (order : List T.InterfaceId) (j : T.InterfaceId)
    (peer : T.PeerId) (protocols : List T.Protocol) (sink : T.PacketSink) :
    s.sends order (.interfaceEvent (.peerConnected j peer protocols sink)) =
      if s.Ignores (.peerConnected j peer protocols sink) then []
      else [.command j (.registerPeer peer sink), .report (.registerPeer j peer)] := by
  by_cases hignored : s.Ignores (.peerConnected j peer protocols sink)
  · rw [if_pos hignored]
    exact if_neg fun hnew => hignored.elim hnew.1 (absurd hnew.2)
  · obtain ⟨hpeer, hj⟩ := not_or.mp hignored
    rw [if_neg hignored]
    exact if_pos ⟨hpeer, not_not.mp hj⟩

theorem sends_peerDisconnected (s : Overseer T) (order : List T.InterfaceId) (j : T.InterfaceId)
    (peer : T.PeerId) : s.sends order (.interfaceEvent (.peerDisconnected j peer)) =
      if peer ∉ s.interfacePeerIds ∧ s.Connected j peer then
        [.command j (.unregisterPeer peer), .report (.unregisterPeer j peer)]
      else [] := rfl

theorem foldl_session_of_forall {u : Option (List Bool)} {commands : List (FilterCommand T)}
    (h : ∀ c ∈ commands, ∀ u, c.session p q u = u) :
    commands.foldl (FilterCommand.session p q) u = u := by
  induction commands with
  | nil => rfl
  | cons c commands ih =>
    rw [List.foldl_cons, h c List.mem_cons_self]
    exact ih fun c' hc' => h c' (List.mem_cons_of_mem _ hc')

theorem session_sendsUpgrades {j : T.InterfaceId} {peer : T.PeerId} (opens : Bool)
    {command : T.Protocol → FilterCommand T} {event : T.Protocol → HeuristicsEvent T}
    (hcommand : ∀ protocol u, (command protocol).session p q u =
      if peer = p ∧ protocol = q then u.map (· ++ [opens]) else u)
    (protocols : List T.Protocol) (u : Option (List Bool)) :
    (commandsTo i (sendsUpgrades j command event protocols)).foldl (FilterCommand.session p q) u =
      if j = i ∧ peer = p then u.map (· ++ List.replicate (protocols.count q) opens) else u := by
  induction protocols generalizing u with
  | nil => simp [sendsUpgrades]
  | cons protocol protocols ih =>
    have hcons : sendsUpgrades j command event (protocol :: protocols) =
        .command j (command protocol) :: .report (event protocol) ::
          sendsUpgrades j command event protocols := rfl
    rw [hcons, commandsTo_command, commandsTo_report, List.foldl_append, ih]
    by_cases hj : j = i
    · by_cases hp : peer = p
      · by_cases hq : protocol = q
        · cases u <;> simp [hj, hp, hq, hcommand, List.replicate_succ]
        · simp [hj, hp, hq, hcommand]
      · simp [hj, hp, hcommand]
    · simp [hj]

theorem session_sends (order : List T.InterfaceId) (call : Call T) {u : Option (List Bool)}
    (hu : u.isSome ↔ s.Connected i p) :
    (commandsTo i (s.sends order call)).foldl (FilterCommand.session p q) u =
      (s.event? call).elim u (InterfaceEvent.session i p q u) := by
  cases call with
  | interfaceEvent event =>
    cases event with
    | peerConnected j peer protocols sink =>
      rw [sends_peerConnected]
      by_cases hignored : s.Ignores (.peerConnected j peer protocols sink)
      · rw [event?_of_ignores hignored, if_pos hignored]
        rfl
      · rw [event?_of_not_ignores hignored, if_neg hignored, commandsTo_command]
        by_cases hji : j = i <;>
          simp [hji, FilterCommand.session, InterfaceEvent.session]
    | peerDisconnected j peer =>
      rw [sends_peerDisconnected]
      by_cases hignored : s.Ignores (.peerDisconnected j peer)
      · rw [event?_of_ignores hignored, if_neg fun h => h.1 hignored]
        rfl
      · rw [event?_of_not_ignores hignored]
        by_cases hconnected : s.Connected j peer
        · rw [if_pos ⟨hignored, hconnected⟩, commandsTo_command]
          by_cases hji : j = i <;>
            simp [hji, FilterCommand.session, InterfaceEvent.session]
        · rw [if_neg fun h => hconnected h.2, commandsTo_nil, List.foldl_nil]
          simp only [InterfaceEvent.session, Option.elim_some]
          split
          · next heq =>
            obtain ⟨rfl, rfl⟩ := heq
            exact Option.not_isSome_iff_eq_none.mp (mt hu.mp hconnected)
          · rfl
    | connectionUpgraded j peer upgrade =>
      cases upgrade with
      | protocolOpened protocols =>
        exact session_sendsUpgrades true (fun _ _ => rfl) protocols u
      | protocolClosed protocols =>
        exact session_sendsUpgrades false (fun _ _ => rfl) protocols u
    | messageReceived | requestReceived | responseReceived | peerDiscovered =>
      refine foldl_session_of_forall fun c hc u => ?_
      cases sends_of_mem (mem_commandsTo.mp hc)
      rfl
  | createInterface | linkInterfaces | unlinkInterfaces | installNotificationFilter
  | installRequestResponseFilter | connectToPeer =>
    refine foldl_session_of_forall fun c hc u => ?_
    cases sends_of_mem (mem_commandsTo.mp hc)
    try rfl

section News

variable (i p q)

/-- What the heuristics backend learns from a message of the overseer. -/
def mark (send : Sending T) : Option Tidings := send.event?.bind (·.tidings i p q)

/-- The messages tell the heuristics backend what is due, step by step. -/
def Tells (due : List (Option Tidings)) (sends : List (Sending T)) : Prop :=
  ∀ k : ℕ, sends[k]?.bind (mark i p q) = due[k]?.join

variable {i p q}

theorem tells_of_map {due : List (Option Tidings)} {sends : List (Sending T)}
    (h : sends.map (mark i p q) = due) : Tells i p q due sends := by
  intro k
  subst h
  rw [List.getElem?_map]
  cases sends[k]? <;> rfl

theorem tells_nil {sends : List (Sending T)} (h : ∀ send ∈ sends, mark i p q send = none) :
    Tells i p q [] sends := by
  intro k
  cases hsend : sends[k]? with
  | none => rfl
  | some send => exact h send (List.mem_of_getElem? hsend)

theorem Tells.tail {due : List (Option Tidings)} {send : Sending T} {sends : List (Sending T)}
    (h : Tells i p q due (send :: sends)) :
    due.head?.join = mark i p q send ∧ Tells i p q due.tail sends := by
  constructor
  · rw [List.head?_eq_getElem?]
    exact (h 0).symm
  · intro k
    rw [List.getElem?_tail]
    exact h (k + 1)

theorem map_mark_sendsUpgrades {j : T.InterfaceId} {command : T.Protocol → FilterCommand T}
    {event : T.Protocol → HeuristicsEvent T} (protocols : List T.Protocol) :
    (sendsUpgrades j command event protocols).map (mark i p q) =
      protocols.flatMap fun protocol => [none, (event protocol).tidings i p q] := by
  rw [sendsUpgrades, List.map_flatMap]
  rfl

theorem mark_sendsChecked {j : T.InterfaceId} {c : FilterCommand T} :
    ∀ send ∈ s.sendsChecked j c, mark i p q send = none := by
  intro send hsend
  rw [sendsChecked] at hsend
  split at hsend
  · obtain rfl := List.mem_singleton.mp hsend
    rfl
  · cases hsend

theorem mark_commands {l : List T.InterfaceId} {c : FilterCommand T} :
    ∀ send ∈ l.map (Sending.command · c), mark i p q send = none := by
  intro send hsend
  obtain ⟨j, -, rfl⟩ := List.mem_map.mp hsend
  rfl

/-- A call tells the heuristics backend what its event says. -/
theorem tells_sends (s : Overseer T) (order : List T.InterfaceId) (call : Call T) :
    Tells i p q ((s.event? call).elim [] (InterfaceEvent.tidings i p q)) (s.sends order call) := by
  cases call with
  | createInterface | connectToPeer => exact tells_nil (by simp [sends])
  | linkInterfaces first second | unlinkInterfaces first second =>
    refine tells_nil fun send hsend => ?_
    rw [sends] at hsend
    split at hsend
    · obtain rfl := List.mem_singleton.mp hsend
      rfl
    · cases hsend
  | installNotificationFilter | installRequestResponseFilter =>
    exact tells_nil mark_sendsChecked
  | interfaceEvent event =>
    cases event with
    | peerConnected j peer protocols sink =>
      rw [sends_peerConnected]
      by_cases hignored : s.Ignores (.peerConnected j peer protocols sink)
      · rw [event?_of_ignores hignored, if_pos hignored]
        exact tells_nil (by simp)
      · rw [event?_of_not_ignores hignored, if_neg hignored]
        exact tells_of_map rfl
    | peerDisconnected j peer =>
      have hdue : (s.event? (.interfaceEvent (.peerDisconnected j peer))).elim []
          (InterfaceEvent.tidings i p q) = [] := by
        cases h : s.event? (.interfaceEvent (.peerDisconnected j peer)) with
        | none => rfl
        | some event =>
          obtain ⟨-, heq⟩ := Option.ite_none_left_eq_some.mp h
          obtain rfl := Option.some.inj heq
          rfl
      rw [hdue, sends_peerDisconnected]
      refine tells_nil fun send hsend => ?_
      split at hsend
      · rcases List.mem_pair.mp hsend with rfl | rfl <;> rfl
      · cases hsend
    | connectionUpgraded j peer upgrade =>
      cases upgrade with
      | protocolOpened protocols | protocolClosed protocols =>
        exact tells_of_map (map_mark_sendsUpgrades protocols)
    | messageReceived => exact tells_nil mark_commands
    | requestReceived | responseReceived => exact tells_nil mark_sendsChecked
    | peerDiscovered peer =>
      refine tells_nil fun send hsend => ?_
      simp only [sends, eventSends] at hsend
      split at hsend
      · cases hsend
      · exact mark_commands send hsend

end News

end Overseer

namespace Filter

variable {p : T.PeerId} {q : T.Protocol}

/-- The filter has the protocol among those of the peer once it was upgraded. -/
def Upgraded (q : T.Protocol) (upgrades : List Bool) (protocols : Finset T.Protocol) : Prop :=
  q ∈ protocols ↔ upgrades ≠ []

theorem upgraded_insert {u : Option (List Bool)} {protocols : Option (Finset T.Protocol)}
    {protocol : T.Protocol} {opens : Bool} (h : Option.Rel (Upgraded q) u protocols) :
    Option.Rel (Upgraded q) (if protocol = q then u.map (· ++ [opens]) else u)
      (protocols.map (insert protocol)) := by
  cases h with
  | none => split <;> exact .none
  | some hupgraded =>
    split
    · next heq => exact .some (by simp [Upgraded, heq])
    · next hne =>
      refine .some ?_
      rw [Upgraded, Finset.mem_insert]
      exact (or_iff_right (Ne.symm hne)).trans hupgraded

theorem upgraded_next {f : Filter T} {turn : Turn T} {u : Option (List Bool)}
    (h : Option.Rel (Upgraded q) u (f.protocols? p))
    (hok : ∀ sink, turn.input = .command (.registerPeer p sink) → turn.answer.isOk) :
    Option.Rel (Upgraded q) (turn.input.command?.toList.foldl (FilterCommand.session p q) u)
      ((f.next turn).protocols? p) := by
  rw [protocols?_next]
  obtain ⟨input, answer⟩ := turn
  cases input with
  | poll => exact h
  | command command =>
    cases command with
    | registerPeer peer sink =>
      simp only [FilterInput.command?, Option.toList_some, List.foldl_cons, List.foldl_nil,
        FilterCommand.session, protocolsAfter]
      by_cases hp : peer = p
      · subst hp
        have hanswer := hok sink rfl
        by_cases hmem : peer ∈ f.peers
        · rw [if_pos rfl, if_neg fun hnew => hnew.2.1 hmem]
          obtain ⟨protocols, hprotocols⟩ :=
            Option.isSome_iff_exists.mp (isSome_protocols?.mpr hmem)
          rw [hprotocols] at h ⊢
          cases h with
          | some hupgraded => exact .some hupgraded
        · rw [if_pos rfl, if_pos ⟨rfl, hmem, hanswer⟩]
          rw [protocols?_eq_none_iff.mpr hmem] at h
          cases h
          exact .some (by simp [Upgraded])
      · rw [if_neg hp, if_neg fun hnew => hp hnew.1]
        exact h
    | unregisterPeer peer =>
      simp only [FilterInput.command?, Option.toList_some, List.foldl_cons, List.foldl_nil,
        FilterCommand.session, protocolsAfter]
      split
      · exact .none
      · exact h
    | protocolOpened peer protocol | protocolClosed peer protocol =>
      simp only [FilterInput.command?, Option.toList_some, List.foldl_cons, List.foldl_nil,
        FilterCommand.session, protocolsAfter]
      by_cases hp : peer = p
      · simpa [hp] using upgraded_insert h
      · simpa [hp] using h
    | _ => exact h

end Filter

namespace Relay

def event? (s : Relay T) : Action T → Option (InterfaceEvent T)
  | .oversee call _ => s.overseer.event? call
  | _ => none

/-- The events that the overseer is handed along a run and does not ignore. -/
def events (room : ℕ) (E : Executor T) : Relay T → List (Action T) → List (InterfaceEvent T)
  | _, [] => []
  | s, action :: actions =>
    (s.event? action).toList ++
      match s.step room E action with
      | none => []
      | some s' => events room E s' actions

def upgrades (i : T.InterfaceId) (p : T.PeerId) (q : T.Protocol)
    (events : List (InterfaceEvent T)) : List Bool :=
  (events.foldl (InterfaceEvent.session i p q) none).getD []

section News

variable (i : T.InterfaceId) (p : T.PeerId) (q : T.Protocol)

def due (s : Relay T) (left : List (Option Tidings)) : Action T → List (Option Tidings)
  | .oversee call _ => (s.overseer.event? call).elim [] (InterfaceEvent.tidings i p q)
  | .send => left.tail
  | _ => left

def passed (s : Relay T) (left : List (Option Tidings)) : Action T → List (Tidings × ℕ)
  | .send => (left.head?.join.map (·, s.reports.length)).toList
  | _ => []

/-- What the events that the overseer is handed along a run have the heuristics backend learn, each
with the number of reports when the overseer comes to pass it on. -/
def tidings (room : ℕ) (E : Executor T) :
    List (Option Tidings) → Relay T → List (Action T) → List (Tidings × ℕ)
  | _, _, [] => []
  | left, s, action :: actions =>
    s.passed left action ++
      match s.step room E action with
      | none => []
      | some s' => tidings room E (s.due i p q left action) s' actions

end News

/-- Nothing is under way. -/
structure Drained (s : Relay T) : Prop where
  sends : s.sends = []
  taken : ∀ i, s.taken i = (s.delivered i).length
  outbox : ∀ i, s.outbox i = []
  handled : s.handled = s.reports.length

/-- The executor takes the peers that it is told to register. -/
def Admits (s : Relay T) (action : Action T) : Prop :=
  ∀ i turn p sink, s.turn? action = some (i, turn) →
    turn.input = .command (.registerPeer p sink) → turn.answer.isOk

/-- The last upgrade was an opening, the filter has the protocol open, and the heuristics backend
has it open at the interface: all of this or none. -/
def Agree (s : Relay T) (i : T.InterfaceId) (p : T.PeerId) (q : T.Protocol)
    (upgrades : List Bool) : Prop :=
  (upgrades.getLast? = some true ↔ ∃ protocols ∈ (s.filters i).protocols? p, q ∈ protocols) ∧
    (upgrades.getLast? = some true ↔ i ∈ (s.heuristics.counters p q).interfaces)

/-- If the protocol was upgraded, then to be opened last; and it was iff the last upgrade that the
overseer passed on is an opening after a message that was counted. -/
def Recorded (s : Relay T) (p : T.PeerId) (q : T.Protocol) (upgrades : List Bool)
    (tidings : List (Tidings × ℕ)) : Prop :=
  (upgrades ≠ [] → upgrades.getLast? = some true) ∧
    (upgrades ≠ [] ↔ OpenedAfterMessage p q tidings s.reports)

variable {room : ℕ} {E : Executor T} {s s' t : Relay T} {action : Action T} {i : T.InterfaceId}
  {p : T.PeerId} {q : T.Protocol}

theorem events_concat {actions : List (Action T)} (h : Run (Step room E) s actions t)
    (action : Action T) :
    events room E s (actions ++ [action]) =
      events room E s actions ++ (t.event? action).toList := by
  refine Run.observed_concat (events room E) (fun s action => (s.event? action).toList)
    (fun s action => ?_) (fun _ => rfl) (fun s action t actions hstep => ?_) h action
  · cases hstep : s.step room E action <;> simp [events, hstep]
  · have hstep : s.step room E action = some t := hstep
    simp only [events, hstep]

/-- The filters report messages only, and the overseer sends what is due. -/
structure Telling (i : T.InterfaceId) (p : T.PeerId) (q : T.Protocol)
    (left : List (Option Tidings)) (s : Relay T) : Prop where
  sends : Overseer.Tells i p q left s.sends
  outbox : ∀ j, ∀ effect ∈ s.outbox j, ∀ e ∈ effect.report, e.tidings i p q = none

theorem tidings_of_mem_effects {f : Filter T} {turn : Filter.Turn T} :
    ∀ effect ∈ f.effects turn, ∀ e ∈ effect.report, e.tidings i p q = none := by
  intro effect heffect e he
  obtain ⟨c, r, -, -, rfl⟩ | ⟨j, r, p', info, rfl, -⟩ :=
    Filter.report_of_mem_effects heffect he <;> rfl

theorem Moves.telling (h : Moves room E s action s') {left : List (Option Tidings)}
    (hs : s.Telling i p q left) :
    s'.Telling i p q (s.due i p q left action) ∧
      tidingsOf i p q s'.reports = tidingsOf i p q s.reports ++ s.passed left action := by
  cases h with
  | @oversee call order result overseer hidle horder hcall =>
    exact ⟨⟨Overseer.tells_sends s.overseer order call, hs.outbox⟩, (List.append_nil _).symm⟩
  | @command j c sends hsends hroom =>
    have htells := hs.sends
    rw [hsends] at htells
    obtain ⟨hhead, htail⟩ := htells.tail
    refine ⟨⟨htail, hs.outbox⟩, ?_⟩
    rw [passed, hhead]
    exact (List.append_nil _).symm
  | @report event sends hsends =>
    have htells := hs.sends
    rw [hsends] at htells
    obtain ⟨hhead, htail⟩ := htells.tail
    refine ⟨⟨htail, hs.outbox⟩, ?_⟩
    rw [passed, hhead, tidingsOf_concat]
    rfl
  | @take j c answer hj hout hc hpermits | @poll j answer hj hout =>
    refine ⟨⟨hs.sends, fun k => ?_⟩, (List.append_nil _).symm⟩
    by_cases hk : k = j
    · subst hk
      simp only [Function.update_self]
      exact tidings_of_mem_effects
    · simpa [hk] using hs.outbox k
  | @perform j effect effects hout =>
    have hsilent := hs.outbox j
    rw [hout] at hsilent
    refine ⟨⟨hs.sends, fun k => ?_⟩, ?_⟩
    · by_cases hk : k = j
      · subst hk
        simp only [Function.update_self]
        exact fun e he => hsilent e (List.mem_cons_of_mem _ he)
      · simpa [hk] using hs.outbox k
    · have hpassed : s.passed left (.perform j) = [] := rfl
      rw [hpassed, List.append_nil]
      cases hreport : effect.report with
      | none => rw [Option.toList_none, List.append_nil]
      | some e =>
        rw [Option.toList_some, tidingsOf_concat, hsilent effect List.mem_cons_self e hreport]
        exact List.append_nil _
  | handle hlt => exact ⟨⟨hs.sends, hs.outbox⟩, (List.append_nil _).symm⟩

/-- The reports tell the heuristics backend what the events say, at the time they are passed on. -/
theorem tidingsOf_run {actions : List (Action T)} (h : Run (Step room E) s actions t)
    {left : List (Option Tidings)} (hs : s.Telling i p q left) :
    tidingsOf i p q t.reports =
      tidingsOf i p q s.reports ++ tidings i p q room E left s actions := by
  induction h generalizing left with
  | nil => exact (List.append_nil _).symm
  | @cons s u t action actions hstep _ ih =>
    obtain ⟨hu, hreports⟩ := (Step.moves hstep).telling hs
    have hstep : s.step room E action = some u := hstep
    rw [ih hu, hreports, List.append_assoc]
    simp only [tidings, hstep]

/-- The filters have the protocols of the peers that they were told of. -/
structure Matched (s : Relay T) : Prop where
  wired : s.Wired
  filters : ∀ i p q, Option.Rel (Filter.Upgraded q) (sessionOf p q (s.done i))
    ((s.filters i).protocols? p)

theorem matched_start (parameters : T.NetworkParameters) :
    Matched (start parameters : Relay T) where
  wired := wired_start parameters
  filters _ _ _ := .none

theorem Moves.matched (h : Moves room E s action s') (ha : s.Admits action) (hs : s.Matched) :
    s'.Matched where
  wired := h.wired hs.wired
  filters i p q := by
    cases h.local hs.wired i with
    | rest hdone hfilter hout =>
      rw [hdone, hfilter]
      exact hs.filters i p q
    | @turn turn hturn hdone hfilter hout =>
      rw [hdone, hfilter, sessionOf_append]
      exact Filter.upgraded_next (hs.filters i p q) fun sink => ha i turn p sink hturn

theorem enrolled_run {parameters : T.NetworkParameters} {actions : List (Action T)}
    (h : Run (Step room E) (start parameters) actions s) : s.overseer.Enrolled :=
  h.invariant (I := fun s => s.overseer.Enrolled)
    (fun _ _ _ hstep hs => (Step.moves hstep).enrolled hs) (Overseer.enrolled_new parameters)

theorem session_run {parameters : T.NetworkParameters} {actions : List (Action T)}
    (h : Run (Step room E) (start parameters) actions s) :
    sessionOf p q (s.overseer.queue i) =
      (events room E (start parameters) actions).foldl (InterfaceEvent.session i p q) none := by
  induction actions using List.reverseRecOn generalizing s with
  | nil =>
    rw [Run.nil_iff.mp h]
    rfl
  | append_singleton actions action ih =>
    obtain ⟨t, ht, hstep⟩ := Run.snoc_iff.mp h
    have henrolled := enrolled_run ht
    rw [events_concat ht, List.foldl_append, ← ih ht]
    cases hstep.moves with
    | @oversee call order result overseer hidle horder hcall =>
      have hsome : (sessionOf p q (t.overseer.queue i)).isSome ↔ t.overseer.Connected i p := by
        rw [isSome_sessionOf]
        exact (henrolled i p).symm
      rw [(Overseer.emits_handle horder hcall).queue, sessionOf_append,
        Overseer.session_sends order call hsome, event?]
      cases t.overseer.event? call <;> rfl
    | _ => rfl

theorem Drained.done_eq (hs : s.Drained) (hw : s.Wired) (i : T.InterfaceId) :
    s.done i = s.overseer.queue i := by
  rw [hw.queue, hs.sends, commandsTo_nil, List.append_nil, done, hs.taken, List.take_length]

/-- The two records agree with the events on a protocol of a connected peer once nothing is under
way, iff the protocol was opened last if it was upgraded at all, and the last upgrade that the
overseer came to pass on is an opening after a counted message just if it was upgraded. -/
theorem agree_iff {parameters : T.NetworkParameters} {actions : List (Action T)}
    (h : Run (Step room E) (start parameters) actions s)
    (hadmits : Along (Step room E) (fun s action _ => s.Admits action) (start parameters) actions)
    (hs : s.Drained) (hp : s.overseer.Connected i p) (q : T.Protocol) :
    s.Agree i p q (upgrades i p q (events room E (start parameters) actions)) ↔
      s.Recorded p q (upgrades i p q (events room E (start parameters) actions))
        (tidings i p q room E [] (start parameters) actions) := by
  have halways : Always (Step room E) Matched (start parameters) actions :=
    always_of_along (fun _ _ _ hstep ha hs => hstep.moves.matched ha hs)
      (matched_start parameters) hadmits
  have hmatched := halways _ _ List.prefix_rfl h
  have hsession := session_run (q := q) (i := i) (p := p) h
  have hsome : (sessionOf p q (s.overseer.queue i)).isSome := by
    rw [isSome_sessionOf]
    exact (enrolled_run h i p).mp hp
  obtain ⟨u, hu⟩ := Option.isSome_iff_exists.mp hsome
  have hupgrades : upgrades i p q (events room E (start parameters) actions) = u := by
    rw [upgrades, ← hsession, hu]
    rfl
  have hfilter := hmatched.filters i p q
  rw [hs.done_eq hmatched.wired, hu] at hfilter
  have htidings : tidingsOf i p q s.reports =
      tidings i p q room E [] (start parameters) actions :=
    tidingsOf_run h ⟨Overseer.tells_nil (fun _ hsend => by cases hsend),
      fun _ _ heffect => by cases heffect⟩
  have hheuristics : i ∈ (s.heuristics.counters p q).interfaces ↔
      OpenedAfterMessage p q (tidings i p q room E [] (start parameters) actions) s.reports := by
    rw [heuristics, hs.handled, List.take_length, ← htidings]
    exact (HeuristicsBackend.mem_interfaces_foldl_iff s.reports).2.trans opened_iff
  have hlast : u.getLast? = some true → u ≠ [] := by
    rintro hlast rfl
    cases hlast
  rw [hupgrades, Agree, Recorded, hheuristics]
  cases hprotocols : (s.filters i).protocols? p with
  | none =>
    rw [hprotocols] at hfilter
    cases hfilter
  | some protocols =>
    rw [hprotocols] at hfilter
    cases hfilter with
    | some hupgraded =>
      have hupgraded : q ∈ protocols ↔ u ≠ [] := hupgraded
      simp only [Option.mem_some_iff, exists_eq_left', hupgraded]
      constructor
      · rintro ⟨hopen, hboth⟩
        exact ⟨hopen.mpr, hopen.symm.trans hboth⟩
      · rintro ⟨hopen, hboth⟩
        exact ⟨⟨hlast, hopen⟩, ⟨fun ha => hboth.mp (hlast ha), fun ho => hopen (hboth.mpr ho)⟩⟩

section Example

def connecting (events : List (ExecutorEvent loopback)) : List (Action loopback) :=
  [.oversee (.createInterface ⟨[127, 0, 0, 1], 0⟩ "" none) [],
    .oversee (.interfaceEvent (.peerConnected 0 [7] [] ⟨[7]⟩)) [0], .send, .send,
    .filterCommand 0 (.ok events), .heuristics]

/-- A protocol of the peer is opened or closed. -/
def upgrading (upgrade : ConnectionUpgrade loopback) : List (Action loopback) :=
  [.oversee (.interfaceEvent (.connectionUpgraded 0 [7] upgrade)) [0], .send, .send,
    .filterCommand 0 (.ok []), .heuristics]

/-- The filter sends a message to the new peer, and then the protocol of the message is opened. -/
def messageFirst : List (Action loopback) :=
  connecting [.forward [[7]] "/sync/2" ⟨[1]⟩] ++ [.perform 0, .perform 0, .heuristics] ++
    upgrading (.protocolOpened ["/sync/2"])

theorem agree_messageFirst : ∃ s : Relay loopback,
    Run (Step 1 (.loading loopback)) (start ⟨[]⟩) messageFirst s ∧
    upgrades (T := loopback) 0 [7] "/sync/2"
      (events 1 (.loading loopback) (start ⟨[]⟩) messageFirst) = [true] ∧
    s.Agree (T := loopback) 0 [7] "/sync/2" (upgrades (T := loopback) 0 [7] "/sync/2"
      (events 1 (.loading loopback) (start ⟨[]⟩) messageFirst)) := by
  have hadmits : Along (Step 1 (.loading loopback)) (fun s action _ => s.Admits action)
      (start ⟨[]⟩) messageFirst := by
    apply along_of_mem
    intro action haction s s' _ i turn p sink hturn _
    simp only [messageFirst, connecting, upgrading, List.cons_append, List.nil_append,
      List.mem_cons, List.not_mem_nil, or_false] at haction
    rcases haction with rfl | rfl | rfl | rfl | rfl | rfl | rfl | rfl | rfl | rfl | rfl | rfl |
      rfl | rfl
    all_goals first
      | cases hturn
      | obtain ⟨c, -, heq⟩ := Option.map_eq_some_iff.mp hturn
        obtain ⟨-, rfl⟩ := Prod.mk.inj heq
        rfl
  obtain ⟨s, hrun, hdrained, hp, hreports⟩ : ∃ s : Relay loopback,
      Run (Step 1 (.loading loopback)) (start ⟨[]⟩) messageFirst s ∧ s.Drained ∧
      s.overseer.Connected (T := loopback) 0 [7] ∧
      OpenedAfterMessage (T := loopback) [7] "/sync/2" (tidings (T := loopback) 0 [7] "/sync/2" 1
        (.loading loopback) [] (start ⟨[]⟩) messageFirst) s.reports := by
    refine ⟨_, Run.foldlM_iff.mpr rfl, ⟨rfl, ?_, ?_, rfl⟩, by decide, ?_⟩
    · intro i
      cases i <;> rfl
    · intro i
      cases i <;> rfl
    · exact ⟨2, rfl, 1, _, rfl, ⟨List.mem_singleton_self _, rfl⟩, by decide, 0, by decide,
        List.mem_cons_self⟩
  have hupgrades : upgrades (T := loopback) 0 [7] "/sync/2"
      (events 1 (.loading loopback) (start ⟨[]⟩) messageFirst) = [true] := rfl
  refine ⟨s, hrun, hupgrades, (agree_iff hrun hadmits hdrained hp "/sync/2").mpr ?_⟩
  rw [hupgrades]
  exact ⟨fun _ => rfl, iff_of_true (by simp) hreports⟩

/-- A protocol is opened before a message was counted; a protocol is closed again. -/
theorem not_agree_unseen_and_closed :
    (∃ s : Relay loopback,
      Run (Step 1 (.loading loopback)) (start ⟨[]⟩)
        (connecting [] ++ upgrading (.protocolOpened ["/sync/2"])) s ∧
      s.Drained ∧ s.overseer.Connected (T := loopback) 0 [7] ∧
      ¬ s.Agree (T := loopback) 0 [7] "/sync/2" (upgrades (T := loopback) 0 [7] "/sync/2"
        (events 1 (.loading loopback) (start ⟨[]⟩)
          (connecting [] ++ upgrading (.protocolOpened ["/sync/2"]))))) ∧
    ∃ s : Relay loopback,
      Run (Step 1 (.loading loopback)) (start ⟨[]⟩)
        (messageFirst ++ upgrading (.protocolClosed ["/sync/2"])) s ∧
      s.Drained ∧ s.overseer.Connected (T := loopback) 0 [7] ∧
      ¬ s.Agree (T := loopback) 0 [7] "/sync/2" (upgrades (T := loopback) 0 [7] "/sync/2"
        (events 1 (.loading loopback) (start ⟨[]⟩)
          (messageFirst ++ upgrading (.protocolClosed ["/sync/2"])))) := by
  constructor
  · refine ⟨_, Run.foldlM_iff.mpr rfl, ⟨rfl, ?_, ?_, rfl⟩, by decide, ?_⟩
    · intro i
      cases i <;> rfl
    · intro i
      cases i <;> rfl
    · rintro ⟨-, hheuristics⟩
      have h := hheuristics.mp rfl
      revert h
      decide
  · refine ⟨_, Run.foldlM_iff.mpr rfl, ⟨rfl, ?_, ?_, rfl⟩, by decide, ?_⟩
    · intro i
      cases i <;> rfl
    · intro i
      cases i <;> rfl
    · rintro ⟨hfilter, -⟩
      have h := hfilter.mpr ⟨_, rfl, by decide⟩
      revert h
      decide

end Example

end Relay

end SwarmHost
