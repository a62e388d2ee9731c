import SwarmHost.Overseer.Basic

/-! # The commands a filter is sent

Whatever call the overseer handles, it only appends to the command queue of an
interface, and it appends a request exactly when the interface reports one.
Peers are registered and unregistered only when the interface says so.
-/

namespace SwarmHost

variable {T : NetworkBackend}

def requests (commands : List (FilterCommand T)) : List (T.PeerId × T.Request) :=
  commands.filterMap fun
    | .injectRequest _ peer request => some (peer, request)
    | _ => none

theorem requests_append (l l' : List (FilterCommand T)) :
    requests (l ++ l') = requests l ++ requests l' := List.filterMap_append

@[simp] theorem requests_nil : requests ([] : List (FilterCommand T)) = [] := rfl

def FilterCommand.about : FilterCommand T → Option T.PeerId
  | .registerPeer peer _ | .unregisterPeer peer => some peer
  | _ => none

namespace Overseer

variable {E : Executor T} {s s' t : Overseer T} {i j : T.InterfaceId}

def queue (s : Overseer T) (i : T.InterfaceId) : List (FilterCommand T) :=
  ((s.interfaces.get? i).map (·.filter)).getD []

theorem queue_of_get? {info : InterfaceInfo T} (h : s.interfaces.get? i = some info) :
    s.queue i = info.filter := by
  simp [queue, h]

theorem queue_of_notMem (h : i ∉ s.interfaces) : s.queue i = [] := by
  simp [queue, Dict.notMem_iff.mp h]

def reported (i : T.InterfaceId) : Call T → List (T.PeerId × T.Request)
  | .interfaceEvent (.requestReceived j peer _ request) => if j = i then [(peer, request)] else []
  | _ => []

/-- An existing interface stays, and its queue grows by commands with the given requests. -/
def Appends (i : T.InterfaceId) (reqs : List (T.PeerId × T.Request)) (s s' : Overseer T) : Prop :=
  ∀ info, s.interfaces.get? i = some info → ∃ info' new, s'.interfaces.get? i = some info' ∧
    info'.filter = info.filter ++ new ∧ requests new = reqs

/-- An interface keeps its peers while its queue grows by commands with the given requests that
register and unregister nobody. -/
def Extends (i : T.InterfaceId) (reqs : List (T.PeerId × T.Request)) (s s' : Overseer T) : Prop :=
  ∀ info, s.interfaces.get? i = some info → ∃ info' new, s'.interfaces.get? i = some info' ∧
    info'.filter = info.filter ++ new ∧ requests new = reqs ∧ (∀ c ∈ new, c.about = none) ∧
    info'.peers = info.peers

theorem Extends.appends {reqs : List (T.PeerId × T.Request)} (h : Extends i reqs s s') :
    Appends i reqs s s' := by
  intro info hi
  obtain ⟨info', new, hi', hnew, hreq, -, -⟩ := h info hi
  exact ⟨info', new, hi', hnew, hreq⟩

theorem Extends.of_same (h : s'.interfaces.get? i = s.interfaces.get? i) : Extends i [] s s' :=
  fun info hi => ⟨info, [], h.trans hi, (List.append_nil _).symm, rfl, by simp, rfl⟩

theorem Extends.refl (s : Overseer T) : Extends i [] s s := .of_same rfl

theorem Extends.trans (h : Extends i [] s s') (h' : Extends i [] s' t) : Extends i [] s t := by
  intro info hi
  obtain ⟨info', new, hi', hnew, hreq, habout, hpeers⟩ := h info hi
  obtain ⟨info'', new', hi'', hnew', hreq', habout', hpeers'⟩ := h' info' hi'
  refine ⟨info'', new ++ new', hi'', ?_, ?_, ?_, hpeers'.trans hpeers⟩
  · rw [hnew', hnew, List.append_assoc]
  · rw [requests_append, hreq, hreq', List.append_nil]
  · intro c hc
    exact (List.mem_append.mp hc).elim (habout c) (habout' c)

theorem extends_send (s : Overseer T) (i j : T.InterfaceId) {command : FilterCommand T}
    (h : command.about = none) :
    Extends i (if j = i then requests [command] else []) s (s.send j command) := by
  intro info hi
  simp only [send, Dict.get?_modify]
  by_cases hji : j = i
  · subst hji
    refine ⟨info.send command, [command], by simp [hi], rfl, by simp, by simpa using h, rfl⟩
  · refine ⟨info, [], ?_, (List.append_nil _).symm, by simp [hji], by simp, rfl⟩
    simpa [Ne.symm hji] using hi

theorem extends_send_of_nil (s : Overseer T) {command : FilterCommand T}
    (h : command.about = none) (hreq : requests [command] = []) :
    Extends i [] s (s.send j command) := by
  have := extends_send s i j h
  rwa [hreq, ite_self] at this

theorem extends_sendChecked (s : Overseer T) {command : FilterCommand T}
    (h : command.about = none) (hreq : requests [command] = []) :
    Extends i [] s (s.sendChecked j command).2 := by
  unfold sendChecked
  split
  · exact extends_send_of_nil s h hreq
  · exact .refl s

theorem appends_registerPeer (s : Overseer T) (peer : T.PeerId) (protocols : List T.Protocol)
    (sink : T.PacketSink) : Appends i [] s (s.registerPeer i peer protocols sink).2 := by
  unfold registerPeer
  split
  · exact (Extends.refl s).appends
  · intro info hi
    rw [hi]
    exact ⟨_, [.registerPeer peer sink], Dict.get?_insert_self _ _ _, rfl, rfl⟩

theorem appends_unregisterPeer (s : Overseer T) (peer : T.PeerId) :
    Appends i [] s (s.unregisterPeer i peer).2 := by
  unfold unregisterPeer
  split
  · exact (Extends.refl s).appends
  · intro info hi
    rw [hi]
    dsimp only
    split
    · exact ⟨_, [.unregisterPeer peer], Dict.get?_insert_self _ _ _, rfl, rfl⟩
    · exact (Extends.refl s).appends info hi

theorem extends_registerPeer (s : Overseer T) (hj : j ≠ i) (peer : T.PeerId)
    (protocols : List T.Protocol) (sink : T.PacketSink) :
    Extends i [] s (s.registerPeer j peer protocols sink).2 := by
  unfold registerPeer
  split
  · exact .refl s
  · split
    · exact .refl s
    · exact .of_same (Dict.get?_insert_ne _ hj.symm)

theorem extends_unregisterPeer (s : Overseer T) (hj : j ≠ i) (peer : T.PeerId) :
    Extends i [] s (s.unregisterPeer j peer).2 := by
  unfold unregisterPeer
  split
  · exact .refl s
  · split
    · exact .refl s
    · split
      · exact .of_same (Dict.get?_insert_ne _ hj.symm)
      · exact .refl s

theorem extends_discoverPeer (s : Overseer T) (peer : T.PeerId) :
    Extends i [] s (s.discoverPeer peer).2 := by
  unfold discoverPeer
  split
  · exact .refl s
  · intro info hi
    simp only [Dict.get?_map, hi, Option.map_some]
    split
    · exact ⟨info, [], rfl, (List.append_nil _).symm, rfl, by simp, rfl⟩
    · exact ⟨_, [.discoverPeer peer], rfl, rfl, rfl, by simp [FilterCommand.about], rfl⟩

theorem extends_connectToPeer (s : Overseer T) (peer : T.PeerId) :
    Extends i [] s (s.connectToPeer j peer).2 := by
  unfold connectToPeer
  cases hj : s.interfaces.get? j with
  | none => exact .refl s
  | some infoj =>
    intro info hi
    dsimp only
    rw [Dict.get?_insert]
    split
    · subst i
      obtain rfl : infoj = info := Option.some.inj (hj.symm.trans hi)
      exact ⟨_, [], rfl, (List.append_nil _).symm, rfl, by simp, rfl⟩
    · exact ⟨info, [], hi, (List.append_nil _).symm, rfl, by simp, rfl⟩

theorem extends_createInterface (E : Executor T) (s : Overseer T) (address : T.Address)
    (filter : String) (preinit : Option String) :
    Extends i [] s (s.createInterface E address filter preinit).2 := by
  unfold createInterface
  split
  · exact .refl s
  · split
    · exact .of_same rfl
    · dsimp only
      split
      · exact .of_same rfl
      · rename_i hnew
        split
        · exact .of_same rfl
        · intro info hi
          refine ⟨info, [], ?_, (List.append_nil _).symm, rfl, by simp, rfl⟩
          rw [Dict.get?_insert_ne, hi]
          rintro rfl
          exact hnew (Dict.mem_of_get? hi)

theorem extends_linkInterfaces {a b : T.InterfaceId} {r : Except Error Unit}
    (h : s.linkInterfaces a b = some (r, s')) : Extends i [] s s' := by
  unfold linkInterfaces at h
  split at h
  · obtain ⟨_, _, h⟩ := Option.map_eq_some_iff.mp h
    cases h
    exact .of_same rfl
  · cases h
    exact .refl _

theorem extends_unlinkInterfaces (s : Overseer T) (a b : T.InterfaceId) :
    Extends i [] s (s.unlinkInterfaces a b).2 := by
  unfold unlinkInterfaces
  split
  · exact .refl s
  · dsimp only
    split <;> exact .of_same rfl

theorem extends_upgradeProtocols (s : Overseer T) {command : T.Protocol → FilterCommand T}
    (h : ∀ protocol, (command protocol).about = none)
    (hreq : ∀ protocol, requests [command protocol] = []) (event : T.Protocol → HeuristicsEvent T)
    (protocols : List T.Protocol) :
    Extends i [] s (s.upgradeProtocols j command event protocols) := by
  unfold upgradeProtocols
  induction protocols generalizing s with
  | nil => exact .refl s
  | cons protocol protocols ih =>
    have hsend : Extends i [] s (s.send j (command protocol)) :=
      extends_send_of_nil s (h protocol) (hreq protocol)
    rw [List.foldl_cons]
    refine Extends.trans ?_ (ih _)
    exact hsend

theorem extends_sendAll {command : FilterCommand T} (hc : command.about = none)
    (hreq : requests [command] = []) {l : List T.InterfaceId}
    (h : s.sendAll command l = some s') : Extends i [] s s' := by
  induction l generalizing s with
  | nil => cases h; exact .refl _
  | cons j l ih =>
    rw [sendAll] at h
    split at h
    · exact (extends_send_of_nil s hc hreq).trans (ih h)
    · cases h

theorem extends_injectNotification {peer : T.PeerId} {protocol : T.Protocol}
    {notification : T.Message} {r : Except Error Unit}
    (h : s.injectNotification j peer protocol notification = some (r, s')) :
    Extends i [] s s' := by
  unfold injectNotification at h
  split at h
  · cases h; exact .refl _
  · simp only [bind, Option.bind_eq_some_iff, pure, Option.some.injEq, Prod.mk.injEq] at h
    obtain ⟨l, -, t, ht, -, rfl⟩ := h
    exact extends_sendAll rfl rfl ht

def relates (i : T.InterfaceId) : Call T → Bool
  | .interfaceEvent (.peerConnected j ..) | .interfaceEvent (.peerDisconnected j _) => j = i
  | _ => false

theorem extends_onInterfaceEvent {event : InterfaceEvent T} {r : Except Error Unit}
    (hevent : relates i (.interfaceEvent event) = false)
    (h : s.onInterfaceEvent event = some (r, s')) :
    Extends i (reported i (.interfaceEvent event)) s s' := by
  cases event with
  | peerConnected j peer protocols sink =>
    obtain rfl := snd_eq_of_some h
    exact extends_registerPeer s (of_decide_eq_false hevent) peer protocols sink
  | peerDisconnected j peer =>
    obtain rfl := snd_eq_of_some h
    exact extends_unregisterPeer s (of_decide_eq_false hevent) peer
  | connectionUpgraded j peer upgrade =>
    change s.applyConnectionUpgrade j peer upgrade = _ at h
    unfold applyConnectionUpgrade at h
    split at h
    · cases upgrade with
      | protocolOpened protocols | protocolClosed protocols =>
        cases h
        exact extends_upgradeProtocols s (fun _ => rfl) (fun _ => rfl) _ protocols
    · cases h
  | messageReceived j peer protocol message => exact extends_injectNotification h
  | requestReceived j peer protocol request =>
    obtain rfl := snd_eq_of_some h
    unfold injectRequest sendChecked
    split
    · exact extends_send s i j rfl
    · rename_i hj
      intro info hi
      have hne : j ≠ i := by
        rintro rfl
        exact hj (Dict.mem_of_get? hi)
      exact ⟨info, [], hi, (List.append_nil _).symm, by simp [reported, hne], by simp, rfl⟩
  | responseReceived j peer protocol id response =>
    obtain rfl := snd_eq_of_some h
    exact extends_sendChecked s rfl rfl
  | peerDiscovered peer =>
    obtain rfl := snd_eq_of_some h
    exact extends_discoverPeer s peer

theorem Step.extends {call : Call T} (hs : Step E s call s') (hcall : relates i call = false) :
    Extends i (reported i call) s s' := by
  obtain ⟨⟨r, t⟩, h, rfl⟩ := Option.map_eq_some_iff.mp hs
  cases call with
  | createInterface address filter preinit =>
    obtain rfl := snd_eq_of_some h
    exact extends_createInterface E s address filter preinit
  | linkInterfaces a b => exact extends_linkInterfaces h
  | unlinkInterfaces a b =>
    obtain rfl := snd_eq_of_some h
    exact extends_unlinkInterfaces s a b
  | installNotificationFilter | installRequestResponseFilter =>
    obtain rfl := snd_eq_of_some h
    exact extends_sendChecked s rfl rfl
  | interfaceEvent event => exact extends_onInterfaceEvent hcall h
  | connectToPeer j peer =>
    obtain rfl := snd_eq_of_some h
    exact extends_connectToPeer s peer

theorem Step.appends {call : Call T} (hs : Step E s call s') (i : T.InterfaceId) :
    Appends i (reported i call) s s' := by
  cases hcall : relates i call with
  | false => exact (hs.extends hcall).appends
  | true =>
    obtain ⟨⟨r, t⟩, h, rfl⟩ := Option.map_eq_some_iff.mp hs
    unfold relates at hcall
    split at hcall
    · obtain rfl := of_decide_eq_true hcall
      obtain rfl := snd_eq_of_some h
      exact appends_registerPeer s _ _ _
    · obtain rfl := of_decide_eq_true hcall
      obtain rfl := snd_eq_of_some h
      exact appends_unregisterPeer s _
    · cases hcall

end Overseer

end SwarmHost
