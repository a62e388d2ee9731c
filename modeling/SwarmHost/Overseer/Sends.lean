import SwarmHost.Overseer.Broadcast
import SwarmHost.Overseer.Queues

/-! # What a call sends

A call of the overseer sends commands to filters and events to the heuristics
backend, one after another. The filters and the heuristics backend may take them
while the call is still sending, so the order matters.
-/

namespace SwarmHost

variable {T : NetworkBackend}

inductive Sending (T : NetworkBackend) where
  | command (interface : T.InterfaceId) (command : FilterCommand T)
  | report (event : HeuristicsEvent T)

namespace Sending

def commandFor (i : T.InterfaceId) : Sending T → Option (FilterCommand T)
  | .command j c => if j = i then some c else none
  | .report _ => none

def event? : Sending T → Option (HeuristicsEvent T)
  | .command .. => none
  | .report event => some event

end Sending

def commandsTo (i : T.InterfaceId) (sends : List (Sending T)) : List (FilterCommand T) :=
  sends.filterMap (·.commandFor i)

def eventsOf (sends : List (Sending T)) : List (HeuristicsEvent T) := sends.filterMap (·.event?)

@[simp] theorem commandsTo_nil (i : T.InterfaceId) : commandsTo i ([] : List (Sending T)) = [] :=
  rfl

@[simp] theorem eventsOf_nil : eventsOf ([] : List (Sending T)) = [] := rfl

@[simp] theorem commandsTo_report (i : T.InterfaceId) (e : HeuristicsEvent T)
    (sends : List (Sending T)) : commandsTo i (.report e :: sends) = commandsTo i sends := rfl

@[simp] theorem eventsOf_report (e : HeuristicsEvent T) (sends : List (Sending T)) :
    eventsOf (.report e :: sends) = e :: eventsOf sends := rfl

@[simp] theorem eventsOf_command (i : T.InterfaceId) (c : FilterCommand T)
    (sends : List (Sending T)) : eventsOf (.command i c :: sends) = eventsOf sends := rfl

theorem commandsTo_command (i j : T.InterfaceId) (c : FilterCommand T) (sends : List (Sending T)) :
    commandsTo i (.command j c :: sends) = (if j = i then [c] else []) ++ commandsTo i sends := by
  by_cases h : j = i <;> simp [commandsTo, Sending.commandFor, h]

theorem commandsTo_append (i : T.InterfaceId) (l l' : List (Sending T)) :
    commandsTo i (l ++ l') = commandsTo i l ++ commandsTo i l' := List.filterMap_append

theorem eventsOf_append (l l' : List (Sending T)) :
    eventsOf (l ++ l') = eventsOf l ++ eventsOf l' := List.filterMap_append

theorem mem_commandsTo {i : T.InterfaceId} {c : FilterCommand T} {sends : List (Sending T)} :
    c ∈ commandsTo i sends ↔ .command i c ∈ sends := by
  simp only [commandsTo, List.mem_filterMap]
  constructor
  · rintro ⟨send, hmem, h⟩
    cases send with
    | command j c' =>
      obtain ⟨rfl, heq⟩ := Option.ite_none_right_eq_some.mp h
      obtain rfl := Option.some.inj heq
      exact hmem
    | report => cases h
  · intro h
    exact ⟨_, h, by simp [Sending.commandFor]⟩

theorem mem_eventsOf {e : HeuristicsEvent T} {sends : List (Sending T)} :
    e ∈ eventsOf sends ↔ .report e ∈ sends := by
  simp only [eventsOf, List.mem_filterMap]
  constructor
  · rintro ⟨send, hmem, h⟩
    cases send with
    | command => cases h
    | report e' =>
      obtain rfl := Option.some.inj h
      exact hmem
  · intro h
    exact ⟨_, h, rfl⟩

theorem commandsTo_map (i : T.InterfaceId) (c : FilterCommand T) (l : List T.InterfaceId) :
    commandsTo i (l.map (.command · c)) = List.replicate (l.count i) c := by
  induction l with
  | nil => rfl
  | cons j l ih =>
    rw [List.map_cons, commandsTo_command, ih, List.count_cons]
    by_cases h : j = i <;> simp [h, List.replicate_succ]

theorem eventsOf_map (c : FilterCommand T) (l : List T.InterfaceId) :
    eventsOf (l.map (.command · c)) = [] := by
  simp [eventsOf, Sending.event?]

namespace Overseer

section Order

variable (s : Overseer T)

def sendsChecked (i : T.InterfaceId) (command : FilterCommand T) : List (Sending T) :=
  if i ∈ s.interfaces then [.command i command] else []

def sendsUpgrades (i : T.InterfaceId) (command : T.Protocol → FilterCommand T)
    (event : T.Protocol → HeuristicsEvent T) (protocols : List T.Protocol) : List (Sending T) :=
  protocols.flatMap fun protocol => [.command i (command protocol), .report (event protocol)]

/-- The interface has not told its filter about the discovered peer. -/
def Undiscovered (peer : T.PeerId) (i : T.InterfaceId) : Prop :=
  ∃ info ∈ s.interfaces.get? i, peer ∉ info.discovered

instance (peer : T.PeerId) : DecidablePred (s.Undiscovered peer) :=
  fun i => inferInstanceAs (Decidable (∃ info ∈ s.interfaces.get? i, peer ∉ info.discovered))

/-- What an interface event makes the overseer send. A discovered peer is sent to the interfaces in
the iteration order of their map. -/
def eventSends (order : List T.InterfaceId) : InterfaceEvent T → List (Sending T)
  | .peerConnected i peer _ sink =>
    if peer ∉ s.interfacePeerIds ∧ i ∈ s.interfaces then
      -- the filter is told before the heuristics backend
      [.command i (.registerPeer peer sink), .report (.registerPeer i peer)]
    else []
  | .peerDisconnected i peer =>
    if peer ∉ s.interfacePeerIds ∧ ∃ info ∈ s.interfaces.get? i, peer ∈ info.peers then
      [.command i (.unregisterPeer peer), .report (.unregisterPeer i peer)]
    else []
  | .messageReceived i peer protocol message =>
    (((s.index? i).bind s.linkedInterfaces).getD []).map
      (.command · (.injectNotification protocol peer message))
  | .requestReceived i peer protocol request =>
    s.sendsChecked i (.injectRequest protocol peer request)
  | .responseReceived i peer protocol _ response =>
    s.sendsChecked i (.injectResponse protocol peer response)
  | .connectionUpgraded i peer (.protocolOpened protocols) =>
    sendsUpgrades i (.protocolOpened peer) (.openProtocol i peer) protocols
  | .connectionUpgraded i peer (.protocolClosed protocols) =>
    sendsUpgrades i (.protocolClosed peer) (.closeProtocol i peer) protocols
  | .peerDiscovered peer =>
    if peer ∈ s.interfacePeerIds then []
    else (order.filter (s.Undiscovered peer)).map (.command · (.discoverPeer peer))

def sends (order : List T.InterfaceId) : Call T → List (Sending T)
  | .createInterface .. | .connectToPeer .. => []
  | .linkInterfaces first second =>
    if first ∈ s.interfaces ∧ second ∈ s.interfaces then
      [.report (.linkInterfaces first second)]
    else []
  | .unlinkInterfaces first second =>
    if (first, second) ∈ s.edges then [.report (.linkInterfaces first second)] else []
  | .installNotificationFilter i protocol filterCode context =>
    s.sendsChecked i (.installNotificationFilter protocol filterCode (some context))
  | .installRequestResponseFilter i protocol filterCode context =>
    s.sendsChecked i (.installRequestResponseFilter protocol filterCode (some context))
  | .interfaceEvent event => s.eventSends order event

end Order

variable {E : Executor T} {s s' t : Overseer T} {i j : T.InterfaceId}

/-- The queues of the filters and the events of the heuristics backend grow by what is sent. -/
structure Emits (s : Overseer T) (sends : List (Sending T)) (s' : Overseer T) : Prop where
  queue : ∀ i, s'.queue i = s.queue i ++ commandsTo i sends
  heuristics : s'.heuristics = s.heuristics ++ eventsOf sends

theorem Emits.of_same (hi : ∀ i, s'.queue i = s.queue i) (hh : s'.heuristics = s.heuristics) :
    Emits s [] s' :=
  ⟨fun i => by simp [hi], by simp [hh]⟩

theorem Emits.refl (s : Overseer T) : Emits s [] s := .of_same (fun _ => rfl) rfl

theorem Emits.trans {l l' : List (Sending T)} (h : Emits s l s') (h' : Emits s' l' t) :
    Emits s (l ++ l') t where
  queue i := by rw [h'.queue, h.queue, commandsTo_append, List.append_assoc]
  heuristics := by rw [h'.heuristics, h.heuristics, eventsOf_append, List.append_assoc]

theorem queue_insert_send {info info' : InterfaceInfo T} {c : FilterCommand T}
    (hi : s.interfaces.get? i = some info) (hc : info'.filter = info.filter ++ [c])
    (hs : s'.interfaces = s.interfaces.insert i info') (j : T.InterfaceId) :
    s'.queue j = s.queue j ++ if i = j then [c] else [] := by
  rw [queue, queue, hs, Dict.get?_insert]
  by_cases h : i = j
  · subst h
    simp [hi, hc]
  · simp [h, Ne.symm h]

theorem queue_send (hi : i ∈ s.interfaces) (c : FilterCommand T) (j : T.InterfaceId) :
    (s.send i c).queue j = s.queue j ++ if i = j then [c] else [] := by
  obtain ⟨info, hinfo⟩ := Dict.mem_iff.mp hi
  exact queue_insert_send hinfo rfl (Dict.modify_of_get? hinfo) j

theorem emits_send (hi : i ∈ s.interfaces) (c : FilterCommand T) :
    Emits s [.command i c] (s.send i c) where
  queue j := by simpa [commandsTo_command] using queue_send hi c j
  heuristics := by simp [send]

theorem emits_sendChecked (s : Overseer T) (i : T.InterfaceId) (c : FilterCommand T) :
    Emits s (s.sendsChecked i c) (s.sendChecked i c).2 := by
  unfold sendChecked sendsChecked
  split
  · next hi => exact emits_send hi c
  · exact .refl s

theorem emits_insert {info info' : InterfaceInfo T} {c : FilterCommand T} {e : HeuristicsEvent T}
    (hi : s.interfaces.get? i = some info) (hc : info'.filter = info.filter ++ [c])
    (hs : s'.interfaces = s.interfaces.insert i info')
    (hh : s'.heuristics = s.heuristics ++ [e]) :
    Emits s [.command i c, .report e] s' where
  queue j := by simpa [commandsTo_command] using queue_insert_send hi hc hs j
  heuristics := by simpa using hh

theorem emits_registerPeer (s : Overseer T) (order : List T.InterfaceId) (peer : T.PeerId)
    (protocols : List T.Protocol) (sink : T.PacketSink) :
    Emits s (s.eventSends order (.peerConnected i peer protocols sink))
      (s.registerPeer i peer protocols sink).2 := by
  unfold registerPeer eventSends
  by_cases hp : peer ∈ s.interfacePeerIds
  · simpa [hp] using .refl s
  · cases hi : s.interfaces.get? i with
    | none =>
      have hmem : i ∉ s.interfaces := Dict.notMem_iff.mpr hi
      simpa [hp, hmem] using .refl s
    | some info =>
      have hmem : i ∈ s.interfaces := Dict.mem_of_get? hi
      simpa [hp, hmem] using emits_insert hi rfl rfl rfl

theorem emits_unregisterPeer (s : Overseer T) (order : List T.InterfaceId) (peer : T.PeerId) :
    Emits s (s.eventSends order (.peerDisconnected i peer)) (s.unregisterPeer i peer).2 := by
  unfold unregisterPeer eventSends
  by_cases hp : peer ∈ s.interfacePeerIds
  · simpa [hp] using .refl s
  · cases hi : s.interfaces.get? i with
    | none => simpa [hp, hi] using .refl s
    | some info =>
      by_cases hpeer : peer ∈ info.peers
      · simpa [hp, hi, hpeer] using emits_insert hi rfl rfl rfl
      · simpa [hp, hi, hpeer] using .refl s

theorem emits_sendAll {c : FilterCommand T} {l : List T.InterfaceId}
    (h : s.sendAll c l = some s') : Emits s (l.map (.command · c)) s' := by
  induction l generalizing s with
  | nil =>
    obtain rfl := Option.some.inj h
    exact .refl s
  | cons i l ih =>
    rw [sendAll] at h
    obtain ⟨hi, h⟩ := Option.ite_none_right_eq_some.mp h
    exact (emits_send hi c).trans (ih h)

theorem emits_injectNotification {r : Except Error Unit} (order : List T.InterfaceId)
    {peer : T.PeerId} {protocol : T.Protocol} {notification : T.Message}
    (h : s.injectNotification i peer protocol notification = some (r, s')) :
    Emits s (s.eventSends order (.messageReceived i peer protocol notification)) s' := by
  unfold injectNotification at h
  cases hi : s.interfaces.get? i with
  | none =>
    rw [hi] at h
    obtain rfl := snd_eq_of_some h
    simpa [eventSends, index?, hi] using .refl s
  | some info =>
    rw [hi] at h
    simp only [bind, Option.bind_eq_some_iff, pure, Option.some.injEq, Prod.mk.injEq] at h
    obtain ⟨l, hl, t, ht, -, rfl⟩ := h
    simpa [eventSends, index?, hi, hl] using emits_sendAll ht

theorem emits_upgradeProtocols (hi : i ∈ s.interfaces) (command : T.Protocol → FilterCommand T)
    (event : T.Protocol → HeuristicsEvent T) (protocols : List T.Protocol) :
    Emits s (sendsUpgrades i command event protocols)
      (s.upgradeProtocols i command event protocols) := by
  induction protocols generalizing s with
  | nil => exact .refl s
  | cons protocol protocols ih =>
    obtain ⟨info, hinfo⟩ := Dict.mem_iff.mp hi
    have hmodify := Dict.modify_of_get? (f := (·.send (command protocol))) hinfo
    have hone : Emits s [.command i (command protocol), .report (event protocol)]
        { s.send i (command protocol) with heuristics := s.heuristics ++ [event protocol] } :=
      emits_insert hinfo rfl hmodify rfl
    have hmem : i ∈ (s.send i (command protocol)).interfaces := Dict.mem_modify.mpr hi
    exact hone.trans (ih hmem)

theorem emits_applyConnectionUpgrade {r : Except Error Unit} (order : List T.InterfaceId)
    {peer : T.PeerId} {upgrade : ConnectionUpgrade T}
    (h : s.applyConnectionUpgrade i peer upgrade = some (r, s')) :
    Emits s (s.eventSends order (.connectionUpgraded i peer upgrade)) s' := by
  obtain ⟨hi, h⟩ := Option.ite_none_right_eq_some.mp h
  cases upgrade with
  | protocolOpened protocols | protocolClosed protocols =>
    obtain rfl := snd_eq_of_some h
    exact emits_upgradeProtocols hi _ _ protocols

theorem emits_discoverPeer {order : List T.InterfaceId} (horder : order.Perm s.interfaces.keys)
    (peer : T.PeerId) :
    Emits s (s.eventSends order (.peerDiscovered peer)) (s.discoverPeer peer).2 := by
  unfold discoverPeer
  simp only [eventSends]
  split
  · exact .refl s
  · refine ⟨fun i => ?_, by simp [eventsOf_map]⟩
    have hnd : order.Nodup := horder.nodup_iff.mpr s.interfaces.nodup
    have hmem : i ∈ order ↔ i ∈ s.interfaces := horder.mem_iff
    rw [commandsTo_map, (hnd.filter _).count]
    cases hi : s.interfaces.get? i with
    | none =>
      have hnot : i ∉ order.filter (s.Undiscovered peer) := by
        simp [List.mem_filter, Undiscovered, hi]
      simp [queue, Dict.get?_map, hi, hnot]
    | some info =>
      have hin : i ∈ order.filter (s.Undiscovered peer) ↔ peer ∉ info.discovered := by
        simp [List.mem_filter, Undiscovered, hi, hmem, Dict.mem_of_get? hi]
      by_cases hp : peer ∈ info.discovered
      · simp [queue, Dict.get?_map, hi, hin, hp]
      · simp [queue, Dict.get?_map, hi, hin, hp, InterfaceInfo.send]

theorem emits_connectToPeer (s : Overseer T) (peer : T.PeerId) :
    Emits s [] (s.connectToPeer i peer).2 := by
  unfold connectToPeer
  cases hi : s.interfaces.get? i with
  | none => exact .refl s
  | some info =>
    refine .of_same (fun j => ?_) rfl
    simp only [queue, Dict.get?_insert]
    split
    · next hj => simp [hj, hi]
    · rfl

theorem emits_createInterface (E : Executor T) (s : Overseer T) (address : T.Address)
    (filter : String) (preinit : Option String) :
    Emits s [] (s.createInterface E address filter preinit).2 := by
  unfold createInterface
  split
  · exact .refl s
  · split
    · exact .of_same (fun _ => rfl) rfl
    · dsimp only
      split
      · exact .of_same (fun _ => rfl) rfl
      · next hnew =>
        split
        · exact .of_same (fun _ => rfl) rfl
        · refine .of_same (fun j => ?_) rfl
          simp only [queue, Dict.get?_insert]
          split
          · next hj =>
            rw [hj, Dict.notMem_iff.mp hnew]
            rfl
          · rfl

theorem emits_linkInterfaces {a b : T.InterfaceId} {r : Except Error Unit}
    (order : List T.InterfaceId) (h : s.linkInterfaces a b = some (r, s')) :
    Emits s (s.sends order (.linkInterfaces a b)) s' := by
  unfold linkInterfaces at h
  simp only [sends]
  cases ha : s.interfaces.get? a with
  | none =>
    rw [ha] at h
    obtain rfl := snd_eq_of_some h
    simpa [Dict.notMem_iff.mpr ha] using .refl s
  | some infoa =>
    cases hb : s.interfaces.get? b with
    | none =>
      rw [ha, hb] at h
      obtain rfl := snd_eq_of_some h
      simpa [Dict.notMem_iff.mpr hb] using .refl s
    | some infob =>
      rw [ha, hb] at h
      obtain ⟨⟨links, edge⟩, -, heq⟩ := Option.map_eq_some_iff.mp h
      obtain ⟨-, rfl⟩ := Prod.mk.inj heq
      rw [if_pos ⟨Dict.mem_of_get? ha, Dict.mem_of_get? hb⟩]
      exact ⟨fun i => by simp [queue], by simp⟩

theorem emits_unlinkInterfaces (s : Overseer T) (order : List T.InterfaceId)
    (a b : T.InterfaceId) :
    Emits s (s.sends order (.unlinkInterfaces a b)) (s.unlinkInterfaces a b).2 := by
  unfold unlinkInterfaces
  simp only [sends]
  cases hab : s.edges.get? (a, b) with
  | none => simpa [Dict.notMem_iff.mpr hab] using .refl s
  | some e =>
    rw [if_pos (Dict.mem_of_get? hab)]
    dsimp only
    split
    · exact ⟨fun i => by simp [queue], by simp⟩
    · exact ⟨fun i => by simp [queue], by simp⟩

/-- A call appends to the queues and to the events of the heuristics backend what it sends. -/
theorem emits_handle {order : List T.InterfaceId} {call : Call T} {r : Except Error Unit}
    (horder : order.Perm s.interfaces.keys) (h : s.handle E call = some (r, s')) :
    Emits s (s.sends order call) s' := by
  cases call with
  | createInterface address filter preinit =>
    obtain rfl := snd_eq_of_some h
    exact emits_createInterface E s address filter preinit
  | linkInterfaces a b => exact emits_linkInterfaces order h
  | unlinkInterfaces a b =>
    obtain rfl := snd_eq_of_some h
    exact emits_unlinkInterfaces s order a b
  | installNotificationFilter i protocol code context
  | installRequestResponseFilter i protocol code context =>
    obtain rfl := snd_eq_of_some h
    exact emits_sendChecked s i _
  | connectToPeer i peer =>
    obtain rfl := snd_eq_of_some h
    exact emits_connectToPeer s peer
  | interfaceEvent event =>
    cases event with
    | peerConnected i peer protocols sink =>
      obtain rfl := snd_eq_of_some h
      exact emits_registerPeer s order peer protocols sink
    | peerDisconnected i peer =>
      obtain rfl := snd_eq_of_some h
      exact emits_unregisterPeer s order peer
    | connectionUpgraded i peer upgrade => exact emits_applyConnectionUpgrade order h
    | messageReceived i peer protocol message => exact emits_injectNotification order h
    | requestReceived i peer protocol request | responseReceived i peer protocol id response =>
      obtain rfl := snd_eq_of_some h
      exact emits_sendChecked s i _
    | peerDiscovered peer =>
      obtain rfl := snd_eq_of_some h
      exact emits_discoverPeer horder peer

section Inversion

variable {order : List T.InterfaceId} {call : Call T} {send : Sending T}

inductive Sends : Call T → Sending T → Prop where
  | link {a b : T.InterfaceId} : Sends (.linkInterfaces a b) (.report (.linkInterfaces a b))
  | unlink {a b : T.InterfaceId} : Sends (.unlinkInterfaces a b) (.report (.linkInterfaces a b))
  | installNotificationFilter {i : T.InterfaceId} {protocol : T.Protocol} {code context : String} :
    Sends (.installNotificationFilter i protocol code context)
      (.command i (.installNotificationFilter protocol code (some context)))
  | installRequestResponseFilter {i : T.InterfaceId} {protocol : T.Protocol}
      {code context : String} : Sends (.installRequestResponseFilter i protocol code context)
      (.command i (.installRequestResponseFilter protocol code (some context)))
  | register {i : T.InterfaceId} {peer : T.PeerId} {protocols : List T.Protocol}
      {sink : T.PacketSink} : Sends (.interfaceEvent (.peerConnected i peer protocols sink))
      (.command i (.registerPeer peer sink))
  | registered {i : T.InterfaceId} {peer : T.PeerId} {protocols : List T.Protocol}
      {sink : T.PacketSink} : Sends (.interfaceEvent (.peerConnected i peer protocols sink))
      (.report (.registerPeer i peer))
  | unregister {i : T.InterfaceId} {peer : T.PeerId} :
    Sends (.interfaceEvent (.peerDisconnected i peer)) (.command i (.unregisterPeer peer))
  | unregistered {i : T.InterfaceId} {peer : T.PeerId} :
    Sends (.interfaceEvent (.peerDisconnected i peer)) (.report (.unregisterPeer i peer))
  | notification {i j : T.InterfaceId} {peer : T.PeerId} {protocol : T.Protocol}
      {message : T.Message} : Sends (.interfaceEvent (.messageReceived i peer protocol message))
      (.command j (.injectNotification protocol peer message))
  | request {i : T.InterfaceId} {peer : T.PeerId} {protocol : T.Protocol} {request : T.Request} :
    Sends (.interfaceEvent (.requestReceived i peer protocol request))
      (.command i (.injectRequest protocol peer request))
  | response {i : T.InterfaceId} {peer : T.PeerId} {protocol : T.Protocol} {id : T.RequestId}
      {response : T.Response} :
    Sends (.interfaceEvent (.responseReceived i peer protocol id response))
      (.command i (.injectResponse protocol peer response))
  | openProtocol {i : T.InterfaceId} {peer : T.PeerId} {protocols : List T.Protocol}
      {protocol : T.Protocol} : protocol ∈ protocols →
    Sends (.interfaceEvent (.connectionUpgraded i peer (.protocolOpened protocols)))
      (.command i (.protocolOpened peer protocol))
  | opened {i : T.InterfaceId} {peer : T.PeerId} {protocols : List T.Protocol}
      {protocol : T.Protocol} : protocol ∈ protocols →
    Sends (.interfaceEvent (.connectionUpgraded i peer (.protocolOpened protocols)))
      (.report (.openProtocol i peer protocol))
  | closeProtocol {i : T.InterfaceId} {peer : T.PeerId} {protocols : List T.Protocol}
      {protocol : T.Protocol} : protocol ∈ protocols →
    Sends (.interfaceEvent (.connectionUpgraded i peer (.protocolClosed protocols)))
      (.command i (.protocolClosed peer protocol))
  | closed {i : T.InterfaceId} {peer : T.PeerId} {protocols : List T.Protocol}
      {protocol : T.Protocol} : protocol ∈ protocols →
    Sends (.interfaceEvent (.connectionUpgraded i peer (.protocolClosed protocols)))
      (.report (.closeProtocol i peer protocol))
  | discover {i : T.InterfaceId} {peer : T.PeerId} :
    Sends (.interfaceEvent (.peerDiscovered peer)) (.command i (.discoverPeer peer))

theorem mem_sendsChecked {c : FilterCommand T} (h : send ∈ s.sendsChecked i c) :
    send = .command i c := by
  unfold sendsChecked at h
  split at h
  · exact List.mem_singleton.mp h
  · cases h

theorem mem_sendsUpgrades {command : T.Protocol → FilterCommand T}
    {event : T.Protocol → HeuristicsEvent T} {protocols : List T.Protocol}
    (h : send ∈ sendsUpgrades i command event protocols) :
    ∃ protocol ∈ protocols, send = .command i (command protocol) ∨
      send = .report (event protocol) := by
  obtain ⟨protocol, hp, hmem⟩ := List.mem_flatMap.mp h
  exact ⟨protocol, hp, by simpa using hmem⟩

theorem sends_of_mem (h : send ∈ s.sends order call) : Sends call send := by
  cases call with
  | createInterface | connectToPeer => cases h
  | linkInterfaces a b =>
    obtain ⟨-, h⟩ := List.mem_ite_nil_right.mp h
    obtain rfl := List.mem_singleton.mp h
    exact .link
  | unlinkInterfaces a b =>
    obtain ⟨-, h⟩ := List.mem_ite_nil_right.mp h
    obtain rfl := List.mem_singleton.mp h
    exact .unlink
  | installNotificationFilter j protocol code context =>
    obtain rfl := mem_sendsChecked h
    exact .installNotificationFilter
  | installRequestResponseFilter j protocol code context =>
    obtain rfl := mem_sendsChecked h
    exact .installRequestResponseFilter
  | interfaceEvent event =>
    cases event with
    | peerConnected j peer protocols sink =>
      obtain ⟨-, h⟩ := List.mem_ite_nil_right.mp h
      rcases List.mem_pair.mp h with rfl | rfl
      · exact .register
      · exact .registered
    | peerDisconnected j peer =>
      obtain ⟨-, h⟩ := List.mem_ite_nil_right.mp h
      rcases List.mem_pair.mp h with rfl | rfl
      · exact .unregister
      · exact .unregistered
    | connectionUpgraded j peer upgrade =>
      cases upgrade with
      | protocolOpened protocols =>
        obtain ⟨protocol, hp, rfl | rfl⟩ := mem_sendsUpgrades h
        · exact .openProtocol hp
        · exact .opened hp
      | protocolClosed protocols =>
        obtain ⟨protocol, hp, rfl | rfl⟩ := mem_sendsUpgrades h
        · exact .closeProtocol hp
        · exact .closed hp
    | messageReceived j peer protocol message =>
      obtain ⟨k, -, rfl⟩ := List.mem_map.mp h
      exact .notification
    | requestReceived j peer protocol request =>
      obtain rfl := mem_sendsChecked h
      exact .request
    | responseReceived j peer protocol id response =>
      obtain rfl := mem_sendsChecked h
      exact .response
    | peerDiscovered peer =>
      obtain ⟨-, h⟩ := List.mem_ite_nil_left.mp h
      obtain ⟨k, -, rfl⟩ := List.mem_map.mp h
      exact .discover

end Inversion

end Overseer

end SwarmHost
