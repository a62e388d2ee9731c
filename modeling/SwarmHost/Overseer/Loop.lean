import SwarmHost.Overseer.Broadcast
import SwarmHost.Overseer.Queues

/-! # The event loop of the overseer

The loop takes a request, an event of an interface whose stream it polls, or an
event of a filter, and handles it. A request comes with a channel for its result;
the loop expects the requester to listen on it. The executor panics when the preinit
code returns something that is not interface parameters, and a backend may panic when
it is told to connect. Nothing else makes the loop panic while the filters run.
-/

namespace SwarmHost

variable {T : NetworkBackend}

/-- The requests of RPC clients. -/
inductive OverseerEvent (T : NetworkBackend) where
  | createInterface (address : T.Address) (filter : String) (preinit : Option String)
  | linkInterface (first second : T.InterfaceId)
  | unlinkInterface (first second : T.InterfaceId)
  | installNotificationFilter (interface : T.InterfaceId) (protocol : T.Protocol)
      (filterCode context : String)
  | installRequestResponseFilter (interface : T.InterfaceId) (protocol : T.Protocol)
      (filterCode context : String)

/-- The method that handles a request. -/
def OverseerEvent.call : OverseerEvent T → Call T
  | .createInterface address filter preinit => .createInterface address filter preinit
  | .linkInterface first second => .linkInterfaces first second
  | .unlinkInterface first second => .unlinkInterfaces first second
  | .installNotificationFilter interface protocol filterCode context =>
    .installNotificationFilter interface protocol filterCode context
  | .installRequestResponseFilter interface protocol filterCode context =>
    .installRequestResponseFilter interface protocol filterCode context

inductive LoopInput (T : NetworkBackend) where
  /-- A request, and whether its result is still awaited when it is sent. -/
  | request (event : OverseerEvent T) (listening : Bool)
  | interfaceEvent (event : InterfaceEvent T)
  /-- A filter asks for a connection. -/
  | connect (interface : T.InterfaceId) (peer : T.PeerId)

/-- Where the code that the loop calls panics instead of returning: the executor while it
converts what the preinit code returned, the backend while it starts to connect. -/
structure Panics (T : NetworkBackend) where
  initializeInterface : String → T.NetworkParameters → Bool
  connect : T.InterfaceHandle → T.PeerId → Bool

def InterfaceEvent.interface? : InterfaceEvent T → Option T.InterfaceId
  | .peerConnected i .. | .peerDisconnected i _ | .connectionUpgraded i .. | .messageReceived i ..
  | .requestReceived i .. | .responseReceived i .. => some i
  | .peerDiscovered _ => none

namespace LoopInput

def call : LoopInput T → Call T
  | .request event _ => event.call
  | .interfaceEvent event => .interfaceEvent event
  | .connect interface peer => .connectToPeer interface peer

def Listens : LoopInput T → Prop
  | .request _ listening => listening
  | .interfaceEvent _ | .connect .. => True

instance : DecidablePred (Listens (T := T))
  | .request _ listening => inferInstanceAs (Decidable (listening = true))
  | .interfaceEvent _ | .connect .. => .isTrue trivial

end LoopInput

namespace Overseer

variable {E : Executor T} {P : Panics T} {s s' : Overseer T} {i : T.InterfaceId}

def Returns (P : Panics T) (s : Overseer T) : LoopInput T → Prop
  | .request (.createInterface _ _ (some code)) _ => P.initializeInterface code s.parameters = false
  | .connect interface peer =>
    ∀ info ∈ s.interfaces.get? interface, P.connect info.handle peer = false
  | .request .. | .interfaceEvent _ => True

instance (P : Panics T) (s : Overseer T) : DecidablePred (s.Returns P)
  | .request (.createInterface _ _ (some _)) _ => inferInstanceAs (Decidable (_ = false))
  | .connect interface peer => inferInstanceAs
      (Decidable (∀ info ∈ s.interfaces.get? interface, P.connect info.handle peer = false))
  | .request (.createInterface _ _ none) _ | .request (.linkInterface ..) _
  | .request (.unlinkInterface ..) _ | .request (.installNotificationFilter ..) _
  | .request (.installRequestResponseFilter ..) _ | .interfaceEvent _ => .isTrue trivial

/-- One iteration of the loop; `none` if it panics. -/
def iterate (E : Executor T) (P : Panics T) (s : Overseer T) (input : LoopInput T) :
    Option (Overseer T) :=
  if s.Returns P input then
    (s.handle E input.call).bind fun (_, s') => if input.Listens then some s' else none
  else none

def Polls (s : Overseer T) : LoopInput T → Prop
  | .interfaceEvent event => ∀ i ∈ event.interface?, i ∈ s.eventStreams
  | .request .. | .connect .. => True

/-- An iteration that ends. -/
def Iterates (E : Executor T) (P : Panics T) (s : Overseer T) (input : LoopInput T)
    (s' : Overseer T) : Prop :=
  s.Polls input ∧ s.iterate E P input = some s'

/-- Whatever input the loop gets to, in the state it has then, meets a condition. -/
def Meets (E : Executor T) (P : Panics T) (C : Overseer T → LoopInput T → Prop) (s : Overseer T)
    (inputs : List (LoopInput T)) : Prop :=
  ∀ pre input t, pre ++ [input] <+: inputs → Run (Iterates E P) s pre t → t.Polls input →
    C t input

section Streams

/-- The backend and the streams that are polled are the same. -/
structure Untouched (s s' : Overseer T) : Prop where
  backend : s'.backend = s.backend
  eventStreams : s'.eventStreams = s.eventStreams

theorem Untouched.refl (s : Overseer T) : Untouched s s := ⟨rfl, rfl⟩

theorem untouched_sendChecked (s : Overseer T) (command : FilterCommand T) :
    Untouched s (s.sendChecked i command).2 := by
  unfold sendChecked
  split <;> exact ⟨rfl, rfl⟩

theorem untouched_sendAll {command : FilterCommand T} {l : List T.InterfaceId}
    (h : s.sendAll command l = some s') : Untouched s s' := by
  induction l generalizing s with
  | nil =>
    cases h
    exact .refl _
  | cons j l ih =>
    rw [sendAll] at h
    split at h
    · obtain ⟨hbackend, hstreams⟩ := ih (s := s.send j command) h
      exact ⟨hbackend, hstreams⟩
    · cases h

theorem untouched_upgradeProtocols (s : Overseer T) (command : T.Protocol → FilterCommand T)
    (event : T.Protocol → HeuristicsEvent T) (protocols : List T.Protocol) :
    Untouched s (s.upgradeProtocols i command event protocols) := by
  unfold upgradeProtocols
  exact List.foldlRecOn (motive := fun t : Overseer T => Untouched s t) protocols _ (.refl s)
    fun _ ht _ _ => ⟨ht.backend, ht.eventStreams⟩

theorem untouched_onInterfaceEvent {event : InterfaceEvent T} {r : Except Error Unit}
    (h : s.onInterfaceEvent event = some (r, s')) : Untouched s s' := by
  cases event with
  | peerConnected j peer protocols sink =>
    obtain rfl := snd_eq_of_some h
    unfold registerPeer
    split
    · exact .refl s
    · split <;> exact ⟨rfl, rfl⟩
  | peerDisconnected j peer =>
    obtain rfl := snd_eq_of_some h
    unfold unregisterPeer
    split
    · exact .refl s
    · split
      · exact .refl s
      · split <;> exact ⟨rfl, rfl⟩
  | connectionUpgraded j peer upgrade =>
    change s.applyConnectionUpgrade j peer upgrade = _ at h
    unfold applyConnectionUpgrade at h
    split at h
    · cases upgrade <;> cases h <;> exact untouched_upgradeProtocols s _ _ _
    · cases h
  | messageReceived j peer protocol message =>
    change s.injectNotification j peer protocol message = _ at h
    unfold injectNotification at h
    split at h
    · cases h
      exact .refl s
    · simp only [bind, Option.bind_eq_some_iff, pure, Option.some.injEq, Prod.mk.injEq] at h
      obtain ⟨l, -, t, ht, -, rfl⟩ := h
      obtain ⟨hbackend, hstreams⟩ := untouched_sendAll ht
      exact ⟨hbackend, hstreams⟩
  | requestReceived | responseReceived =>
    obtain rfl := snd_eq_of_some h
    exact untouched_sendChecked s _
  | peerDiscovered peer =>
    obtain rfl := snd_eq_of_some h
    unfold discoverPeer
    split <;> exact ⟨rfl, rfl⟩

theorem untouched_or_creates {call : Call T} (hs : Step E s call s') :
    Untouched s s' ∨ ∃ address filter preinit, call = .createInterface address filter preinit ∧
      s' = (s.createInterface E address filter preinit).2 := by
  obtain ⟨⟨r, t⟩, h, rfl⟩ := Option.map_eq_some_iff.mp hs
  cases call with
  | createInterface address filter preinit =>
    obtain rfl := snd_eq_of_some h
    exact .inr ⟨address, filter, preinit, rfl, rfl⟩
  | linkInterfaces a b =>
    left
    change s.linkInterfaces a b = _ at h
    unfold linkInterfaces at h
    split at h
    · obtain ⟨_, _, h⟩ := Option.map_eq_some_iff.mp h
      cases h
      exact ⟨rfl, rfl⟩
    · cases h
      exact .refl s
  | unlinkInterfaces a b =>
    left
    obtain rfl := snd_eq_of_some h
    unfold unlinkInterfaces
    split
    · exact .refl s
    · dsimp only
      split <;> exact ⟨rfl, rfl⟩
  | installNotificationFilter | installRequestResponseFilter =>
    obtain rfl := snd_eq_of_some h
    exact .inl (untouched_sendChecked s _)
  | interfaceEvent event => exact .inl (untouched_onInterfaceEvent h)
  | connectToPeer j peer =>
    left
    obtain rfl := snd_eq_of_some h
    unfold connectToPeer
    split <;> exact ⟨rfl, rfl⟩

def Streams (s : Overseer T) : Prop := ∀ i ∈ s.eventStreams, i ∈ s.interfaces

theorem eventStreams_createInterface (E : Executor T) (s : Overseer T) (address : T.Address)
    (filter : String) (preinit : Option String) :
    (s.createInterface E address filter preinit).2.eventStreams = s.eventStreams ∨
      ∃ i, (s.createInterface E address filter preinit).2.eventStreams = s.eventStreams ++ [i] ∧
        i ∈ (s.createInterface E address filter preinit).2.interfaces := by
  unfold createInterface
  split
  · exact .inl rfl
  · split
    · exact .inl rfl
    · dsimp only
      split
      · exact .inl rfl
      · split
        · exact .inl rfl
        · exact .inr ⟨_, rfl, Dict.mem_insert.mpr (Or.inl rfl)⟩

theorem mem_interfaces_step {call : Call T} (h : Step E s call s') (hi : i ∈ s.interfaces) :
    i ∈ s'.interfaces := by
  obtain ⟨info, hinfo⟩ := Dict.mem_iff.mp hi
  obtain ⟨info', _, hinfo', -, -⟩ := h.appends i info hinfo
  exact Dict.mem_of_get? hinfo'

theorem streams_step {call : Call T} (h : Step E s call s') (hs : s.Streams) : s'.Streams := by
  intro i hi
  rcases untouched_or_creates h with hsame | ⟨address, filter, preinit, rfl, rfl⟩
  · rw [hsame.eventStreams] at hi
    exact mem_interfaces_step h (hs i hi)
  · rcases eventStreams_createInterface E s address filter preinit with heq | ⟨j, heq, hj⟩
    · rw [heq] at hi
      exact mem_interfaces_step h (hs i hi)
    · rw [heq] at hi
      rcases List.mem_append.mp hi with hi | hi
      · exact mem_interfaces_step h (hs i hi)
      · rwa [List.mem_singleton.mp hi]

end Streams

section Progress

/-- In a well-formed state a method panics only for an upgrade of an unknown interface. -/
theorem isSome_handle (hs : s.WellFormed) {call : Call T}
    (hcall : ∀ i peer upgrade, call = .interfaceEvent (.connectionUpgraded i peer upgrade) →
      i ∈ s.interfaces) : (s.handle E call).isSome := by
  cases call with
  | linkInterfaces a b =>
    simp only [handle, linkInterfaces]
    split
    · next infoa infob ha hb =>
      have hlt : infoa.index < s.links.nodes.length ∧ infob.index < s.links.nodes.length :=
        ⟨hs.index_lt (index?_eq_some_iff.mpr ⟨infoa, ha, rfl⟩),
          hs.index_lt (index?_eq_some_iff.mpr ⟨infob, hb, rfl⟩)⟩
      simp [Multigraph.addEdge, hlt]
    · rfl
  | interfaceEvent event =>
    cases event with
    | connectionUpgraded i peer upgrade =>
      simp only [handle, onInterfaceEvent, applyConnectionUpgrade]
      rw [if_pos (hcall i peer upgrade rfl)]
      cases upgrade <;> rfl
    | messageReceived i peer protocol message =>
      simp only [handle, onInterfaceEvent, injectNotification]
      cases hi : s.interfaces.get? i with
      | none => rfl
      | some info =>
        have hn : s.index? i = some info.index := index?_eq_some_iff.mpr ⟨info, hi, rfl⟩
        obtain ⟨ids, hids, hnd, hmem⟩ := hs.linkedInterfaces_spec hn
        have hex : ∀ j ∈ ids, j ∈ s.interfaces := by
          intro j hj
          obtain ⟨_, m, _, hjm, _⟩ := (hmem j).mp hj
          exact index?_isSome_iff.mp (by simp [hjm])
        obtain ⟨s', hs', -, -⟩ :=
          sendAll_spec (.injectNotification protocol peer message) hnd hex
        simp [hids, hs']
    | _ => rfl
  | _ => rfl

theorem isSome_iterate_iff (hs : s.WellFormed) (hstreams : s.Streams) {input : LoopInput T}
    (hpolls : s.Polls input) :
    (s.iterate E P input).isSome ↔ s.Returns P input ∧ input.Listens := by
  have hsome : (s.handle E input.call).isSome := by
    apply isSome_handle hs
    intro i peer upgrade hcall
    cases input with
    | request event listening => cases event <;> cases hcall
    | interfaceEvent event =>
      obtain rfl : event = .connectionUpgraded i peer upgrade := Call.interfaceEvent.inj hcall
      exact hstreams i (hpolls i rfl)
    | connect j p => cases hcall
  obtain ⟨⟨r, s'⟩, hs'⟩ := Option.isSome_iff_exists.mp hsome
  by_cases hreturns : s.Returns P input <;> by_cases h : input.Listens <;>
    simp [iterate, hs', hreturns, h]

theorem step_of_iterates {input : LoopInput T} (h : Iterates E P s input s') :
    Step E s input.call s' := by
  obtain ⟨-, hbind⟩ := Option.ite_none_right_eq_some.mp h.2
  obtain ⟨⟨r, t⟩, ht, hif⟩ := Option.bind_eq_some_iff.mp hbind
  obtain ⟨-, heq⟩ := Option.ite_none_right_eq_some.mp hif
  obtain rfl := Option.some.inj heq
  exact Option.map_eq_some_iff.mpr ⟨(r, t), ht, rfl⟩

/-- The loop handles every input it gets to exactly when the code called for it returns and every
requester still listens. -/
theorem survives_iff (E : Executor T) (P : Panics T) (parameters : T.NetworkParameters)
    (inputs : List (LoopInput T)) :
    Meets E P (fun t input => (t.iterate E P input).isSome) (new parameters) inputs ↔
      Meets E P (fun t input => t.Returns P input ∧ input.Listens) (new parameters) inputs := by
  have hreach : ∀ pre t, Run (Iterates E P) (new parameters) pre t →
      t.WellFormed ∧ t.Streams := by
    intro pre t hrun
    refine hrun.invariant (I := fun t => t.WellFormed ∧ t.Streams) ?_
      ⟨wellFormed_new parameters, fun _ h => by cases h⟩
    rintro s input s' hstep ⟨hs, hstreams⟩
    have h := step_of_iterates hstep
    exact ⟨wellFormed_step s _ s' h hs, streams_step h hstreams⟩
  constructor
  · intro h pre input t hpre hrun hpolls
    obtain ⟨hs, hstreams⟩ := hreach pre t hrun
    exact (isSome_iterate_iff hs hstreams hpolls).mp (h pre input t hpre hrun hpolls)
  · intro h pre input t hpre hrun hpolls
    obtain ⟨hs, hstreams⟩ := hreach pre t hrun
    exact (isSome_iterate_iff hs hstreams hpolls).mpr (h pre input t hpre hrun hpolls)

/-- A client asks for an interface and is gone when it is created, although no code that the
loop calls ever panics. -/
theorem not_survives_goneClient :
    ¬ Meets (.loading loopback) ⟨fun _ _ => false, fun _ _ => false⟩
      (fun t input =>
        (t.iterate (.loading loopback) ⟨fun _ _ => false, fun _ _ => false⟩ input).isSome)
      (new ⟨[]⟩) [.request (.createInterface ⟨[127, 0, 0, 1], 0⟩ "" none) false] := by
  intro h
  have hsome := h [] _ _ (List.prefix_refl _) (.nil _) trivial
  revert hsome
  decide

end Progress

end Overseer

end SwarmHost
