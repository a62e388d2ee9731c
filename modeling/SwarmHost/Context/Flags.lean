import SwarmHost.Context.Providers

/-! # Busy flags and the events of a call

A call appends to the pending events. The flag of a peer is set by the call that
appends a request to it, and cleared by its response. A call that raises an
exception leaves nothing but responses behind.
-/

namespace SwarmHost.Substrate

/-- The request that an event asks for: its protocol and the peer it goes to. -/
def PendingEvent.request? : PendingEvent → Option (ProtocolName × PeerId)
  | .sendRequest protocol peer _ => some (protocol, peer)
  | _ => none

def PendingEvent.addressee? : PendingEvent → Option PeerId
  | .sendResponse peer _ => some peer
  | _ => none

def PendingEvent.IsResponse (e : PendingEvent) : Prop := e.addressee?.isSome

theorem PendingEvent.IsResponse.request? {e : PendingEvent} (h : e.IsResponse) :
    e.request? = none := by
  cases e with
  | sendRequest => cases h
  | _ => rfl

namespace Context

variable {codec : Codec} {ctx : Context} {peer q : PeerId}

/-- A call without a request. The flags after it are given. -/
structure Quiet (ctx : Context) (out : Outcome) (busy : PeerId → Prop) : Prop where
  events : ∃ new, out.2.pendingEvents = ctx.pendingEvents ++ new ∧ (∀ e ∈ new, e.request? = none) ∧
    ∀ error, out.1 = .error error → ∀ e ∈ new, e.IsResponse
  busy : ∀ q, Busy out.2.peers q ↔ busy q

structure Requests (ctx : Context) (protocol : ProtocolName) (provider : PeerId) (out : Outcome) :
    Prop where
  ok : out.1 = .ok ()
  events : ∃ bytes,
    out.2.pendingEvents = ctx.pendingEvents ++ [.sendRequest protocol provider bytes]
  registered : provider ∈ ctx.peers
  idle : ¬ Busy ctx.peers provider
  busy : ∀ q, Busy out.2.peers q ↔ q = provider ∨ Busy ctx.peers q

theorem Quiet.of_same {out : Outcome} (he : out.2.pendingEvents = ctx.pendingEvents)
    (hp : out.2.peers = ctx.peers) : Quiet ctx out (Busy ctx.peers) where
  events := ⟨[], by rw [he, List.append_nil], by simp, by simp⟩
  busy _ := by rw [hp]

theorem Quiet.of_ok {ctx' : Context} {busy : PeerId → Prop} {new : List PendingEvent}
    (he : ctx'.pendingEvents = ctx.pendingEvents ++ new) (hnew : ∀ e ∈ new, e.request? = none)
    (hbusy : ∀ q, Busy ctx'.peers q ↔ busy q) : Quiet ctx (.ok (), ctx') busy where
  events := ⟨new, he, hnew, fun _ h => by cases h⟩
  busy := hbusy

theorem quiet_registerPeer (ctx : Context) (peer : PeerId) :
    Quiet ctx (.ok (), ctx.registerPeer peer) fun q => q ≠ peer ∧ Busy ctx.peers q :=
  .of_ok (List.append_nil _).symm (by simp) fun _ => busy_insert_idle_iff rfl

theorem quiet_unregisterPeer (ctx : Context) (peer : PeerId) :
    Quiet ctx (.ok (), ctx.unregisterPeer peer) fun q => q ≠ peer ∧ Busy ctx.peers q := by
  have hpeers : (ctx.unregisterPeer peer).peers = ctx.peers.erase peer :=
    congrArg Tables.peers (tables_unregisterPeer ctx peer)
  have hevents : (ctx.unregisterPeer peer).pendingEvents = ctx.pendingEvents := by
    unfold unregisterPeer
    split <;> rfl
  refine .of_ok (hevents.trans (List.append_nil _).symm) (by simp) fun q => ?_
  rw [hpeers, busy_erase_iff]

theorem pendingEvents_discoverPeer (ctx : Context) (peer : PeerId) (now : Time)
    (order : List PeerId) : ∃ peers : List PeerId,
      (ctx.discoverPeer peer now order).pendingEvents =
        ctx.pendingEvents ++ peers.map .connect := by
  have hloop : ∀ (peers : List PeerId) (ctx : Context),
      (peers.foldl (connect now) ctx).pendingEvents = ctx.pendingEvents ++ peers.map .connect := by
    intro peers
    induction peers with
    | nil => simp
    | cons p peers ih => simp [ih, connect]
  unfold discoverPeer
  split
  · exact ⟨[], (List.append_nil _).symm⟩
  · dsimp only
    split
    · exact ⟨[], (List.append_nil _).symm⟩
    · exact ⟨_, hloop _ _⟩

theorem quiet_discoverPeer (ctx : Context) (peer : PeerId) (now : Time) (order : List PeerId) :
    Quiet ctx (.ok (), ctx.discoverPeer peer now order) (Busy ctx.peers) := by
  obtain ⟨peers, hevents⟩ := pendingEvents_discoverPeer ctx peer now order
  have hpeers : (ctx.discoverPeer peer now order).peers = ctx.peers :=
    congrArg Tables.peers (tables_discoverPeer ctx peer now order)
  refine .of_ok hevents ?_ fun q => by rw [hpeers]
  simp [PendingEvent.request?]

theorem pendingEvents_injectNotification (codec : Codec) (ctx : Context) (peer : PeerId)
    (protocol : ProtocolName) (notification : Bytes) (now : Time) :
    ∃ new, (ctx.injectNotification codec peer protocol notification now).pendingEvents =
        ctx.pendingEvents ++ new ∧ ∀ e ∈ new, e.request? = none := by
  unfold injectNotification
  split
  · exact ⟨_, rfl, by simp [PendingEvent.request?]⟩
  · dsimp only
    split
    · split
      · exact ⟨[], (List.append_nil _).symm, by simp⟩
      · exact ⟨_, rfl, by simp [PendingEvent.request?]⟩
    · exact ⟨[], (List.append_nil _).symm, by simp⟩

theorem peers_injectNotification (codec : Codec) (ctx : Context) (peer : PeerId)
    (protocol : ProtocolName) (notification : Bytes) (now : Time) :
    (ctx.injectNotification codec peer protocol notification now).peers = ctx.peers ∨
      ∃ sender known, ctx.peers.get? peer = some sender ∧
        (ctx.injectNotification codec peer protocol notification now).peers =
          ctx.peers.insert peer { sender with knownBlocks := known } := by
  rcases tables_injectNotification codec ctx peer protocol notification now with
    ⟨hsame, -⟩ | ⟨number, hash, sender, hlearns, htables⟩
  · exact .inl (congrArg Tables.peers hsame)
  · exact .inr ⟨sender, _, hlearns.registered, congrArg Tables.peers htables⟩

theorem quiet_injectNotification (codec : Codec) (ctx : Context) (peer : PeerId)
    (protocol : ProtocolName) (notification : Bytes) (now : Time) :
    Quiet ctx (.ok (), ctx.injectNotification codec peer protocol notification now)
      (Busy ctx.peers) := by
  obtain ⟨new, hevents, hnew⟩ :=
    pendingEvents_injectNotification codec ctx peer protocol notification now
  refine .of_ok hevents hnew fun q => ?_
  rcases peers_injectNotification codec ctx peer protocol notification now with
    hsame | ⟨sender, known, hsender, hpeers⟩
  · rw [hsame]
  · rw [hpeers, busy_learn_iff hsender]

theorem quiet_createAndSendResponse (ctx : Context) (peer : PeerId) (hash : BlockHash)
    (direction : Direction) (maxBlocks : ℤ) :
    Quiet ctx (ctx.createAndSendResponse peer hash direction maxBlocks) (Busy ctx.peers) := by
  unfold createAndSendResponse
  split
  · exact .of_same rfl rfl
  · dsimp only
    split
    · exact .of_same rfl rfl
    · exact .of_ok rfl (by simp [PendingEvent.request?]) fun _ => Iff.rfl

theorem quiet_or_requests_askForBlock (ctx : Context) (protocol : ProtocolName) (peer : PeerId)
    (request : BlockRequest) (hash : BlockHash) :
    Quiet ctx (.ok (), ctx.askForBlock protocol peer request hash) (Busy ctx.peers) ∨
      ∃ provider, Requests ctx protocol provider
        (.ok (), ctx.askForBlock protocol peer request hash) := by
  unfold askForBlock
  split
  · exact .inl (.of_same rfl rfl)
  · split
    · exact .inl (.of_same rfl rfl)
    · split
      · split
        · exact .inl (.of_same rfl rfl)
        · exact .inl (.of_same rfl rfl)
      · next provider hprovider =>
        obtain ⟨p, hpeer, -, hidle⟩ := getProvider_eq_some hprovider
        refine .inr ⟨provider, rfl, ⟨_, rfl⟩, Dict.mem_of_get? hpeer, ?_, fun q => ?_⟩
        · rintro ⟨p', hpeer', hbusy⟩
          obtain rfl : p = p' := Option.some.inj (hpeer.symm.trans hpeer')
          exact absurd (hidle.symm.trans hbusy) (by simp)
        · simp only [sendRequest, Dict.modify_of_get? hpeer]
          exact busy_send_iff

theorem quiet_or_requests_injectRequest (codec : Codec) (ctx : Context) (protocol : ProtocolName)
    (peer : PeerId) (payload : Bytes) :
    Quiet ctx (ctx.injectRequest codec protocol peer payload) (Busy ctx.peers) ∨
      ∃ provider, Requests ctx protocol provider
        (ctx.injectRequest codec protocol peer payload) := by
  unfold injectRequest
  split
  · exact .inl (.of_same rfl rfl)
  · dsimp only
    split
    · exact .inl (.of_same rfl rfl)
    · split
      · exact .inl (quiet_createAndSendResponse ..)
      · exact quiet_or_requests_askForBlock ..

/-- A response that is decoded clears the flag of the peer it came from, also if the removal of
completed requests raises. -/
theorem quiet_injectResponse {payload : Bytes} (hparse : (codec.parseResponse payload).isSome)
    (hpeer : peer ∈ ctx.peers) :
    Quiet ctx (ctx.injectResponse codec peer payload) fun q => q ≠ peer ∧ Busy ctx.peers q := by
  obtain ⟨blocks, hparse⟩ := Option.isSome_iff_exists.mp hparse
  obtain ⟨p, hp⟩ := Dict.mem_iff.mp hpeer
  rw [injectResponse_eq hparse hp]
  refine ⟨⟨(ctx.deliveries blocks).map delivery, rfl, ?_, fun _ _ => ?_⟩, fun q => ?_⟩
  · exact List.forall_mem_map.mpr fun _ _ => rfl
  · exact List.forall_mem_map.mpr fun _ _ => rfl
  · exact busy_insert_idle_iff rfl

section Peers

/-- A call of a script other than registering and unregistering keeps the set of peers. -/
theorem mem_peers_injectNotification (protocol : ProtocolName) (notification : Bytes) (now : Time) :
    q ∈ (ctx.injectNotification codec peer protocol notification now).peers ↔ q ∈ ctx.peers := by
  rcases peers_injectNotification codec ctx peer protocol notification now with
    hsame | ⟨sender, known, hsender, hpeers⟩
  · rw [hsame]
  · rw [hpeers, Dict.mem_insert]
    exact or_iff_right_of_imp fun heq => heq ▸ Dict.mem_of_get? hsender

theorem mem_peers_injectRequest (protocol : ProtocolName) (payload : Bytes) :
    q ∈ (ctx.injectRequest codec protocol peer payload).2.peers ↔ q ∈ ctx.peers := by
  rcases tables_injectRequest codec ctx protocol peer payload with hsame | ⟨request, hash, -, heq⟩
  · have hpeers : (ctx.injectRequest codec protocol peer payload).2.peers = ctx.peers :=
      congrArg Tables.peers hsame
    rw [hpeers]
  · rw [heq]
    have hasks := asks_askForBlock ctx protocol peer request hash
    change q ∈ (ctx.askForBlock protocol peer request hash).tables.peers ↔ _
    generalize (ctx.askForBlock protocol peer request hash).tables = tables at hasks
    cases hasks with
    | send _ _ _ hpeer =>
      rw [Dict.mem_insert]
      exact or_iff_right_of_imp fun heq => heq ▸ Dict.mem_of_get? hpeer
    | _ => rfl

theorem mem_peers_injectResponse (payload : Bytes) :
    q ∈ (ctx.injectResponse codec peer payload).2.peers ↔ q ∈ ctx.peers := by
  by_cases hrefused : codec.parseResponse payload = none ∨ peer ∉ ctx.peers
  · rw [injectResponse_of_refused hrefused]
  · push Not at hrefused
    obtain ⟨blocks, hparse⟩ := Option.ne_none_iff_exists'.mp hrefused.1
    obtain ⟨p, hp⟩ := Dict.mem_iff.mp hrefused.2
    rw [injectResponse_eq hparse hp]
    change q ∈ ctx.peers.insert peer _ ↔ _
    rw [Dict.mem_insert]
    exact or_iff_right_of_imp fun heq => heq ▸ hrefused.2

end Peers

end Context

end SwarmHost.Substrate
