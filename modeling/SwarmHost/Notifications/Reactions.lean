import SwarmHost.Notifications.Handler

/-! # What an input does to one protocol

Inputs of other protocols leave a protocol alone. For its own inputs and for
polls, the relations below say how its state may change and which events about
it appear.
-/

namespace SwarmHost.Substrate

def ConnectionHandlerEvent.index? : ConnectionHandlerEvent → Option ℕ
  | .custom event => some event.index
  | .outboundSubstreamRequest i _ => some i
  | .close => none

/-- The poll returns nothing about the protocol. -/
def NotAbout (i : ℕ) (event : Option ConnectionHandlerEvent) : Prop :=
  ∀ e, event = some e → e.index? ≠ some i

/-- A poll moves data and may find that the remote closed its substream. -/
inductive HandlerState.Same : HandlerState → HandlerState → Prop where
  | closed (pendingOpening : Bool) : Same (.closed pendingOpening) (.closed pendingOpening)
  | openDesiredByRemote (substream : InSubstream) (pendingOpening : Bool)
      (results : List SocketResult) :
      Same (.openDesiredByRemote substream pendingOpening)
        (.openDesiredByRemote (substream.pollProcess results).2 pendingOpening)
  | opening {inSubstream inSubstream' : Option InSubstream} :
      (inSubstream'.isSome → inSubstream.isSome) →
      Same (.opening inSubstream) (.opening inSubstream')
  | opened {rx rx' : List NotificationsSinkMessage} {out out' : Option OutSubstream}
      {inSubstream inSubstream' : Option InSubstream} : out'.isSome = out.isSome →
      (inSubstream'.isSome → inSubstream.isSome) →
      Same (.opened rx out inSubstream) (.opened rx' out' inSubstream')

inductive HandlerState.Polled (io : ℕ → Io) (i : ℕ) :
    HandlerState → Option ConnectionHandlerEvent → HandlerState → Prop where
  | same {state state' : HandlerState} {event : Option ConnectionHandlerEvent} :
      Same state state' → NotAbout i event → Polled io i state event state'
  | notification {rx rx' : List NotificationsSinkMessage} {out out' : Option OutSubstream}
      {substream substream' : InSubstream} (message : Bytes) : out'.isSome = out.isSome →
      Polled io i (.opened rx out (some substream)) (some (.custom (.notification i message)))
        (.opened rx' out' (some substream'))
  /-- Our substream broke. -/
  | flushFailed {rx rx' : List NotificationsSinkMessage} {out : OutSubstream}
      {inSubstream : Option InSubstream} : (io i).flushFails = true →
      Polled io i (.opened rx (some out) inSubstream) (some (.custom (.closeDesired i)))
        (.opened rx' none inSubstream)
  | noInbound {rx rx' : List NotificationsSinkMessage} {out out' : Option OutSubstream} :
      out'.isSome = out.isSome →
      Polled io i (.opened rx out none) (some (.custom (.closeDesired i))) (.opened rx' out' none)
  | refused {substream : InSubstream} (pendingOpening : Bool) :
      (substream.pollProcess (io i).inbound).1 = true →
      Polled io i (.openDesiredByRemote substream pendingOpening) (some (.custom (.closeDesired i)))
        (.closed pendingOpening)

namespace HandlerState

variable {io : ℕ → Io} {i : ℕ} {state state' : HandlerState}
  {event : Option ConnectionHandlerEvent}

theorem Same.refl (state : HandlerState) : Same state state := by
  cases state with
  | closed pendingOpening => exact .closed pendingOpening
  | openDesiredByRemote substream pendingOpening =>
    exact .openDesiredByRemote substream pendingOpening []
  | opening inSubstream => exact .opening id
  | opened rx out inSubstream => exact .opened rfl id

/-- The messages of the sink are handed on, nothing else. -/
inductive Moved : HandlerState → HandlerState → Prop where
  | refl (state : HandlerState) : Moved state state
  | opened {rx rx' : List NotificationsSinkMessage} {out out' : OutSubstream}
      {inSubstream : Option InSubstream} :
      Moved (.opened rx (some out) inSubstream) (.opened rx' (some out') inSubstream)

theorem sendMessages_moved (io : ℕ → Io) (i : ℕ) (state : HandlerState) :
    Moved state (sendMessages io i state).1 := by
  unfold sendMessages
  split
  · exact .opened
  · exact .refl _

theorem sendMessages_event (io : ℕ → Io) (i : ℕ) (a : HandlerState) (e : ConnectionHandlerEvent)
    (h : (sendMessages io i a).2 = some e) : e = .close := by
  unfold sendMessages at h
  split at h
  · dsimp only at h
    split at h <;> cases h
    rfl
  · cases h

theorem flush_none (h : (flush io i state).2 = none) : (flush io i state).1 = state := by
  unfold flush at h ⊢
  split at h
  · split at h
    · cases h
    · next hfails => simp [hfails]
  · rfl

theorem flush_polled (io : ℕ → Io) (i : ℕ) (state : HandlerState) :
    Polled io i state (flush io i state).2 (flush io i state).1 := by
  unfold flush
  split
  · split
    · next hfails => exact .flushFailed hfails
    · exact .same (.refl _) (by simp [NotAbout])
  · exact .same (.refl _) (by simp [NotAbout])

theorem pollInbound_polled (io : ℕ → Io) (i : ℕ) (state : HandlerState) :
    Polled io i state (pollInbound io i state).2 (pollInbound io i state).1 := by
  unfold pollInbound
  split
  · exact .same (.refl _) (by simp [NotAbout])
  · exact .same (.refl _) (by simp [NotAbout])
  · exact .noInbound rfl
  · split
    · exact .same (.opened rfl fun _ => rfl) (by simp [NotAbout])
    · exact .notification _ rfl
    · exact .same (.opened rfl fun _ => rfl) (by simp [NotAbout])
    · exact .same (.opened rfl fun _ => rfl) (by simp [NotAbout])
  · next substream pendingOpening =>
    rcases hp : substream.pollProcess (io i).inbound with ⟨_ | _, substream'⟩
    · have hsame := Same.openDesiredByRemote substream pendingOpening (io i).inbound
      rw [hp] at hsame
      exact .same hsame (by simp [NotAbout])
    · exact .refused pendingOpening (by rw [hp])
  · split
    · exact .same (.opening fun _ => rfl) (by simp [NotAbout])
    · exact .same (.opening fun _ => rfl) (by simp [NotAbout])

theorem flush_index (io : ℕ → Io) (i : ℕ) (a : HandlerState) (e : ConnectionHandlerEvent)
    (h : (flush io i a).2 = some e) : e.index? = some i := by
  unfold flush at h
  split at h
  · split at h <;> cases h
    rfl
  · cases h

theorem pollInbound_index (io : ℕ → Io) (i : ℕ) (a : HandlerState) (e : ConnectionHandlerEvent)
    (h : (pollInbound io i a).2 = some e) : e.index? = some i := by
  unfold pollInbound at h
  split at h
  · cases h
  · cases h
  · cases h; rfl
  · split at h <;> cases h
    rfl
  · split at h <;> cases h
    rfl
  · split at h <;> cases h

theorem Moved.same (h : Moved state state') : Same state state' := by
  cases h with
  | refl => exact .refl state
  | opened => exact .opened rfl id

theorem Moved.opened_eq {rx : List NotificationsSinkMessage} {out : Option OutSubstream}
    {inSubstream : Option InSubstream} {state' : HandlerState}
    (h : Moved (.opened rx out inSubstream) state') :
    ∃ rx' out', state' = .opened rx' out' inSubstream ∧ out'.isSome = out.isSome := by
  cases h with
  | refl | opened => exact ⟨_, _, rfl, rfl⟩

theorem Moved.polled {state₁ : HandlerState} (hm : Moved state state₁)
    (h : Polled io i state₁ event state') : Polled io i state event state' := by
  cases hm with
  | refl => exact h
  | opened =>
    cases h with
    | same h hn =>
      cases h with
      | opened ho hi => exact .same (.opened (by simpa using ho) hi) hn
    | notification message ho => exact .notification message (by simpa using ho)
    | flushFailed hfails => exact .flushFailed hfails
    | noInbound ho => exact .noInbound (by simpa using ho)

end HandlerState

namespace NotifsHandler

open HandlerState

variable {h : NotifsHandler} {io : ℕ → Io} {i : ℕ} {state : HandlerState}

theorem visit_polled {f : ℕ → HandlerState → HandlerState × Option ConnectionHandlerEvent}
    {as : List HandlerState} (hindex : ∀ j a e, (f j a).2 = some e → e.index? = some j)
    (hpolled : Polled io i state (f i state).2 (f i state).1) (hi : as[i]? = some state) :
    ∃ state', (visit f 0 as).1[i]? = some state' ∧ Polled io i state (visit f 0 as).2 state' := by
  obtain ⟨a', ha', hcase⟩ := visit_at hindex 0 hi
  rw [Nat.zero_add] at hcase
  refine ⟨a', ha', ?_⟩
  rcases hcase with ⟨rfl, hr, -⟩ | ⟨hother, hsame⟩
  · rwa [hr]
  · have hnot : NotAbout i (visit f 0 as).2 := by
      intro e he
      obtain ⟨j, hj, hej⟩ := hother e he
      rw [hej]
      simpa using hj
    rcases hsame with rfl | ⟨rfl, hnone⟩
    · exact .same (.refl _) hnot
    · rw [hnone] at hpolled
      cases hpolled with
      | same hsame _ => exact .same hsame hnot

/-- The sink's messages are handed on first, for every protocol. -/
theorem visit_sendMessages (io : ℕ → Io) {as : List HandlerState} (hi : as[i]? = some state) :
    ∃ state', (visit (sendMessages io) 0 as).1[i]? = some state' ∧ Moved state state' ∧
      NotAbout i (visit (sendMessages io) 0 as).2 := by
  obtain ⟨a', ha', hcase⟩ := visit_at (sendMessages_event io) 0 hi
  rw [Nat.zero_add] at hcase
  refine ⟨a', ha', ?_, ?_⟩
  · rcases hcase with ⟨rfl, -, -⟩ | ⟨-, rfl | ⟨rfl, -⟩⟩
    · exact sendMessages_moved io i state
    · exact .refl _
    · exact sendMessages_moved io i state
  · intro e he
    obtain ⟨j, -, rfl⟩ := visit_result (sendMessages_event io) he
    simp [ConnectionHandlerEvent.index?]

theorem visit_flush_none (io : ℕ → Io) {as : List HandlerState} (hi : as[i]? = some state)
    (hnone : (visit (flush io) 0 as).2 = none) :
    (visit (flush io) 0 as).1[i]? = some state := by
  obtain ⟨a', ha', hcase⟩ := visit_at (flush_index io) 0 hi
  rw [Nat.zero_add] at hcase
  rcases hcase with ⟨-, hr, hsome⟩ | ⟨-, rfl | ⟨rfl, hf⟩⟩
  · rw [← hr, hnone] at hsome
    cases hsome
  · exact ha'
  · rwa [flush_none hf] at ha'

theorem poll_at (io : ℕ → Io) (hq : h.eventsQueue = []) (hi : h.protocols[i]? = some state) :
    ∃ state', (h.poll io).2.protocols[i]? = some state' ∧
      Polled io i state (h.poll io).1 state' := by
  obtain ⟨state₁, hi₁, hmoved, hnot⟩ := visit_sendMessages io hi
  rw [poll, hq]
  dsimp only
  rcases hv₁ : visit (sendMessages io) 0 h.protocols with ⟨protocols₁, _ | e⟩
  · rw [hv₁] at hi₁
    obtain ⟨state₂, hi₂, hpolled⟩ :=
      visit_polled (flush_index io) (flush_polled io i state₁) hi₁
    rcases hv₂ : visit (flush io) 0 protocols₁ with ⟨protocols₂, _ | e⟩
    · have hi₂ := visit_flush_none io hi₁ (by rw [hv₂])
      obtain ⟨state₃, hi₃, hpolled⟩ :=
        visit_polled (pollInbound_index io) (pollInbound_polled io i state₁) hi₂
      rw [hv₂] at hi₃ hpolled
      simp only [hv₂]
      exact ⟨state₃, hi₃, hmoved.polled hpolled⟩
    · rw [hv₂] at hi₂ hpolled
      simp only [hv₂]
      exact ⟨state₂, hi₂, hmoved.polled hpolled⟩
  · rw [hv₁] at hi₁ hnot
    exact ⟨state₁, hi₁, .same hmoved.same hnot⟩

/-- The poll comes to the outbound substream of a protocol: no sink asks to close the connection,
and no substream before it fails. -/
def Flushes (h : NotifsHandler) (io : ℕ → Io) (i : ℕ) : Prop :=
  h.eventsQueue = [] ∧
    (∀ j < h.protocols.length, ∀ s ∈ h.protocols[j]?, (sendMessages io j s).2 = none) ∧
    ∀ j < i, ∀ s ∈ h.protocols[j]?, (flush io j s).2 = none

/-- The poll comes to the inbound substream of a protocol. -/
def Reads (h : NotifsHandler) (io : ℕ → Io) (i : ℕ) : Prop :=
  h.Flushes io h.protocols.length ∧ ∀ j < i, ∀ s ∈ h.protocols[j]?, (pollInbound io j s).2 = none

instance (h : NotifsHandler) (io : ℕ → Io) (i : ℕ) : Decidable (h.Flushes io i) :=
  inferInstanceAs (Decidable (_ ∧ _ ∧ _))

instance (h : NotifsHandler) (io : ℕ → Io) (i : ℕ) : Decidable (h.Reads io i) :=
  inferInstanceAs (Decidable (_ ∧ _))

theorem flush_of_moved {state state' : HandlerState} (h : Moved state state') (io : ℕ → Io)
    (i : ℕ) : (flush io i state').2 = (flush io i state).2 := by
  cases h with
  | refl => rfl
  | opened =>
    simp only [flush]
    split <;> rfl

theorem pollInbound_of_moved {state state' : HandlerState} (h : Moved state state')
    (io : ℕ → Io) (i : ℕ) : (pollInbound io i state').2 = (pollInbound io i state).2 := by
  cases h with
  | refl => rfl
  | @opened rx rx' out out' inSubstream =>
    cases inSubstream with
    | none => rfl
    | some substream =>
      simp only [pollInbound]
      rcases substream.pollNext (io i).inbound with ⟨_ | _ | _ | _, _⟩ <;> rfl

/-- What a poll does to an open protocol: its outbound substream fails, it has no inbound one, or
the poll does not ask to close it. -/
inductive PollsOpened (h : NotifsHandler) (io : ℕ → Io) (i : ℕ) (out : Option OutSubstream)
    (inSubstream : Option InSubstream) : Prop where
  | broken (rx : List NotificationsSinkMessage) : h.Flushes io i → out.isSome →
    (io i).flushFails = true → (h.poll io).1 = some (.custom (.closeDesired i)) →
    (h.poll io).2.protocols[i]? = some (.opened rx none inSubstream) →
    PollsOpened h io i out inSubstream
  | absent (rx : List NotificationsSinkMessage) (out' : Option OutSubstream) : h.Reads io i →
    ¬ (out.isSome ∧ (io i).flushFails = true) → inSubstream = none → out'.isSome = out.isSome →
    (h.poll io).1 = some (.custom (.closeDesired i)) →
    (h.poll io).2.protocols[i]? = some (.opened rx out' none) → PollsOpened h io i out inSubstream
  | other : ¬ (h.Flushes io i ∧ out.isSome ∧ (io i).flushFails = true) →
    ¬ (h.Reads io i ∧ inSubstream = none) → (h.poll io).1 ≠ some (.custom (.closeDesired i)) →
    PollsOpened h io i out inSubstream

theorem flush_opened_eq_none_iff {rx : List NotificationsSinkMessage} {out : Option OutSubstream}
    {inSubstream : Option InSubstream} : (flush io i (.opened rx out inSubstream)).2 = none ↔
      ¬ (out.isSome ∧ (io i).flushFails = true) := by
  cases out with
  | none => simp [flush]
  | some out =>
    simp only [flush, Option.isSome_some, true_and]
    split <;> simp_all

theorem visit_sent {as : List HandlerState}
    (hsent : ∀ j, ∀ s ∈ as[j]?, (sendMessages io j s).2 = none) :
    ∃ as', visit (sendMessages io) 0 as = (as', none) ∧
      ∀ j : ℕ, Option.Rel Moved as[j]? as'[j]? := by
  have hall : ∀ j, ∀ s ∈ as[j]?, (sendMessages io (0 + j) s).2 = none := by
    simpa only [Nat.zero_add] using hsent
  obtain ⟨hnone, hget⟩ := visit_of_silent hall
  refine ⟨_, Prod.ext rfl hnone, fun j => ?_⟩
  rw [hget, Nat.zero_add]
  cases as[j]? with
  | none => exact .none
  | some s => exact .some (sendMessages_moved io j s)

theorem visit_flushed {as : List HandlerState}
    (hflush : ∀ j, ∀ s ∈ as[j]?, (flush io j s).2 = none) :
    visit (flush io) 0 as = (as, none) := by
  have hall : ∀ j, ∀ s ∈ as[j]?, (flush io (0 + j) s).2 = none := by
    simpa only [Nat.zero_add] using hflush
  obtain ⟨hnone, hget⟩ := visit_of_silent hall
  refine Prod.ext (List.ext_getElem? fun j => ?_) hnone
  rw [hget, Nat.zero_add]
  cases hj : as[j]? with
  | none => rfl
  | some s => exact congrArg some (flush_none (hflush j s hj))

section PollsOpened

variable {as : List HandlerState} {rx : List NotificationsSinkMessage}
  {out : Option OutSubstream} {inSubstream : Option InSubstream}

/-- What a later phase yields for the protocols is what it yields for those before the first. -/
theorem event_of_rel {f : HandlerState → HandlerState × Option ConnectionHandlerEvent}
    (hf : ∀ {s s' : HandlerState}, Moved s s' → (f s').2 = (f s).2) {a a' : Option HandlerState}
    (hrel : Option.Rel Moved a a') {e : Option ConnectionHandlerEvent} :
    (∀ s ∈ a', (f s).2 = e) ↔ ∀ s ∈ a, (f s).2 = e := by
  cases hrel with
  | none => simp
  | some hmoved => simp [hf hmoved]

theorem ne_closeDesired {k : ℕ} {e : ConnectionHandlerEvent} (hk : k ≠ i)
    (he : e.index? = some k) : some e ≠ some (.custom (.closeDesired i)) := by
  intro heq
  obtain rfl := Option.some.inj heq
  exact hk (Option.some.inj he).symm

theorem exists_of_rel {s : HandlerState} {a' : Option HandlerState}
    (hrel : Option.Rel Moved (some s) a') : ∃ s', a' = some s' ∧ Moved s s' := by
  cases hrel with
  | some hmoved => exact ⟨_, rfl, hmoved⟩

theorem flushes_length_iff : h.Flushes io h.protocols.length ↔ h.eventsQueue = [] ∧
    (∀ j, ∀ s ∈ h.protocols[j]?, (sendMessages io j s).2 = none) ∧
      ∀ j, ∀ s ∈ h.protocols[j]?, (flush io j s).2 = none := by
  have hall : ∀ {f : ℕ → HandlerState → HandlerState × Option ConnectionHandlerEvent},
      (∀ j < h.protocols.length, ∀ s ∈ h.protocols[j]?, (f j s).2 = none) ↔
        ∀ j, ∀ s ∈ h.protocols[j]?, (f j s).2 = none :=
    fun {f} => ⟨fun hf j s hs => hf j (List.getElem?_eq_some_iff.mp hs).1 s hs,
      fun hf j _ => hf j⟩
  rw [Flushes, hall, hall]

theorem pollsOpened_of_close {k : ℕ} {s : HandlerState} {e : ConnectionHandlerEvent}
    (hq : h.eventsQueue = []) (hk : h.protocols[k]? = some s)
    (he : (sendMessages io k s).2 = some e)
    (hbefore : ∀ j < k, ∀ x ∈ h.protocols[j]?, (sendMessages io j x).2 = none) :
    PollsOpened h io i out inSubstream := by
  have hnot : ∀ n, ¬ h.Flushes io n := by
    intro n hflushes
    have hnone := hflushes.2.1 k (List.getElem?_eq_some_iff.mp hk).1 s hk
    rw [he] at hnone
    cases hnone
  obtain ⟨hevent, -⟩ := visit_of_first (f := sendMessages io) (i := 0) hk
    (by rwa [Nat.zero_add]) (by simpa only [Nat.zero_add] using hbefore)
  refine .other (fun hc => hnot _ hc.1) (fun hc => hnot _ hc.1.1) ?_
  have hpoll : (h.poll io).1 = some e := by
    rw [poll, hq]
    rcases hv : visit (sendMessages io) 0 h.protocols with ⟨as, e'⟩
    rw [hv] at hevent
    obtain rfl : e' = some e := hevent
    rfl
  rw [hpoll, sendMessages_event io k s e he]
  simp

/-- The messages of the sinks are handed on and no sink asks to close the connection; `as` are the
protocols after that. -/
structure Sent (h : NotifsHandler) (io : ℕ → Io) (as : List HandlerState) : Prop where
  queue : h.eventsQueue = []
  silent : ∀ j, ∀ s ∈ h.protocols[j]?, (sendMessages io j s).2 = none
  visited : visit (sendMessages io) 0 h.protocols = (as, none)
  rel : ∀ j : ℕ, Option.Rel Moved h.protocols[j]? as[j]?

theorem Sent.flush_iff (hs : Sent h io as) {j : ℕ} {e : Option ConnectionHandlerEvent} :
    (∀ s ∈ as[j]?, (flush io j s).2 = e) ↔ ∀ s ∈ h.protocols[j]?, (flush io j s).2 = e :=
  event_of_rel (fun hm => flush_of_moved hm io j) (hs.rel j)

theorem Sent.pollInbound_iff (hs : Sent h io as) {j : ℕ} {e : Option ConnectionHandlerEvent} :
    (∀ s ∈ as[j]?, (pollInbound io j s).2 = e) ↔
      ∀ s ∈ h.protocols[j]?, (pollInbound io j s).2 = e :=
  event_of_rel (fun hm => pollInbound_of_moved hm io j) (hs.rel j)

theorem Sent.pollsOpened_of_flush (hs : Sent h io as) {k : ℕ} {s : HandlerState}
    {e : ConnectionHandlerEvent} (hi : as[i]? = some (.opened rx out inSubstream))
    (hk : as[k]? = some s) (he : (flush io k s).2 = some e)
    (hbefore : ∀ j < k, ∀ x ∈ as[j]?, (flush io j x).2 = none) :
    PollsOpened h io i out inSubstream := by
  obtain ⟨hevent, hstate⟩ := visit_of_first (f := flush io) (i := 0) hk (by rwa [Nat.zero_add])
    (by simpa only [Nat.zero_add] using hbefore)
  rw [Nat.zero_add] at hstate
  have hpoll : h.poll io = (some e, { h with protocols := (visit (flush io) 0 as).1 }) := by
    rw [poll, hs.queue]
    rcases hv : visit (flush io) 0 as with ⟨as', e'⟩
    rw [hv] at hevent
    obtain rfl : e' = some e := hevent
    simp only [hs.visited, hv]
  have hnotReads : ∀ n, ¬ h.Reads io n := by
    intro n hreads
    have hnone := hs.flush_iff.mpr ((flushes_length_iff.mp hreads.1).2.2 k) s hk
    rw [he] at hnone
    cases hnone
  by_cases hki : k = i
  · subst hki
    obtain rfl := Option.some.inj (hi.symm.trans hk)
    obtain ⟨hsome, hfail⟩ : out.isSome ∧ (io k).flushFails = true := by
      by_contra hnot
      rw [flush_opened_eq_none_iff.mpr hnot] at he
      cases he
    obtain ⟨out', rfl⟩ := Option.isSome_iff_exists.mp hsome
    have hflushes : h.Flushes io k :=
      ⟨hs.queue, fun j _ => hs.silent j, fun j hj => hs.flush_iff.mp (hbefore j hj)⟩
    simp only [flush, hfail, if_true] at he hstate
    refine .broken rx hflushes hsome hfail ?_ ?_
    · rw [hpoll, he]
    · rw [hpoll]
      exact hstate
  · refine .other ?_ (fun hc => hnotReads i hc.1) ?_
    · rintro ⟨hflushes, hfails⟩
      rcases Nat.lt_or_gt_of_ne hki with hlt | hgt
      · have hnone := hs.flush_iff.mpr (hflushes.2.2 k hlt) s hk
        rw [he] at hnone
        cases hnone
      · exact flush_opened_eq_none_iff.mp (hbefore i hgt _ hi) hfails
    · rw [hpoll]
      exact ne_closeDesired hki (flush_index io k s e he)

theorem Sent.pollsOpened_of_flushed (hs : Sent h io as)
    (hi : as[i]? = some (.opened rx out inSubstream))
    (hflushed : ∀ j, ∀ s ∈ as[j]?, (flush io j s).2 = none) :
    PollsOpened h io i out inSubstream := by
  have hflushes : h.Flushes io h.protocols.length :=
    flushes_length_iff.mpr ⟨hs.queue, hs.silent, fun j => hs.flush_iff.mp (hflushed j)⟩
  have hpoll : h.poll io = ((visit (pollInbound io) 0 as).2,
      { h with protocols := (visit (pollInbound io) 0 as).1 }) := by
    rw [poll, hs.queue]
    simp only [hs.visited, visit_flushed hflushed]
  have hfails : ¬ (out.isSome ∧ (io i).flushFails = true) :=
    flush_opened_eq_none_iff.mp (hflushed i _ hi)
  rcases visit_cases (pollInbound io) 0 as with hnone | ⟨k, s, e, hk, he, hbefore⟩
  · refine .other (fun hc => hfails hc.2) ?_ ?_
    · rintro ⟨-, rfl⟩
      cases hnone i _ hi
    · rw [hpoll, (visit_of_silent hnone).1]
      simp
  · obtain ⟨hevent, hstate⟩ := visit_of_first hk he hbefore
    simp only [Nat.zero_add] at he hbefore hstate
    have hpolled : (h.poll io).1 = some e := by rw [hpoll, hevent]
    by_cases hki : k = i
    · subst hki
      obtain rfl := Option.some.inj (hi.symm.trans hk)
      cases inSubstream with
      | none =>
        have hreads : h.Reads io k := ⟨hflushes, fun j hj => hs.pollInbound_iff.mp (hbefore j hj)⟩
        refine .absent rx out hreads hfails rfl rfl ?_ ?_
        · rw [hpolled, ← he]
          rfl
        · rw [hpoll]
          exact hstate
      | some substream =>
        refine .other (fun hc => hfails hc.2) (fun hc => by cases hc.2) ?_
        rw [hpolled]
        simp only [pollInbound] at he
        split at he <;> cases he
        simp
    · refine .other (fun hc => hfails hc.2) ?_
        (hpolled ▸ ne_closeDesired hki (pollInbound_index io k s e he))
      rintro ⟨hreads, rfl⟩
      rcases Nat.lt_or_gt_of_ne hki with hlt | hgt
      · have hnone := hs.pollInbound_iff.mpr (hreads.2 k hlt) s hk
        rw [he] at hnone
        cases hnone
      · cases hbefore i hgt _ hi

theorem PollsOpened.of_isSome {out' : Option OutSubstream} (hout : out'.isSome = out.isSome)
    (hp : PollsOpened h io i out' inSubstream) : PollsOpened h io i out inSubstream := by
  cases hp with
  | broken rx hflushes hsome hfail hevent hstate =>
    exact .broken rx hflushes (hout ▸ hsome) hfail hevent hstate
  | absent rx out'' hreads hfails hin hout' hevent hstate =>
    exact .absent rx out'' hreads (hout ▸ hfails) hin (hout'.trans hout) hevent hstate
  | other hflushes hreads hevent => exact .other (hout ▸ hflushes) hreads hevent

theorem pollsOpened (io : ℕ → Io) (hq : h.eventsQueue = [])
    (hi : h.protocols[i]? = some (.opened rx out inSubstream)) :
    PollsOpened h io i out inSubstream := by
  rcases visit_cases (sendMessages io) 0 h.protocols with hsent | ⟨k, s, e, hk, he, hbefore⟩
  · simp only [Nat.zero_add] at hsent
    obtain ⟨as, hvisit, hrel⟩ := visit_sent hsent
    have hs : Sent h io as := ⟨hq, hsent, hvisit, hrel⟩
    obtain ⟨state, hi', hmoved⟩ := exists_of_rel (hi ▸ hrel i)
    obtain ⟨rx', out', rfl, hout⟩ := hmoved.opened_eq
    refine .of_isSome hout ?_
    rcases visit_cases (flush io) 0 as with hflushed | ⟨k, s, e, hk, he, hbefore⟩
    · simp only [Nat.zero_add] at hflushed
      exact hs.pollsOpened_of_flushed hi' hflushed
    · simp only [Nat.zero_add] at he hbefore
      exact hs.pollsOpened_of_flush hi' hk he hbefore
  · simp only [Nat.zero_add] at he hbefore
    exact pollsOpened_of_close hq hk he hbefore

end PollsOpened

theorem poll_eventsQueue (io : ℕ → Io) (hq : h.eventsQueue = []) :
    (h.poll io).2.eventsQueue = [] := by
  rw [poll, hq]
  dsimp only
  split
  · rfl
  · split <;> rfl

end NotifsHandler

def ConnectionHandlerEvent.own? (i : ℕ) : ConnectionHandlerEvent → Option NotifsHandlerOut
  | .custom event => if event.index = i then some event else none
  | .outboundSubstreamRequest .. | .close => none

theorem own?_of_index?_ne {i : ℕ} {event : ConnectionHandlerEvent} (h : event.index? ≠ some i) :
    event.own? i = none := by
  cases event with
  | custom event =>
    have hne : event.index ≠ i := fun heq => h (congrArg some heq)
    exact if_neg hne
  | _ => rfl

theorem own?_of_notAbout {i : ℕ} {event : Option ConnectionHandlerEvent} (h : NotAbout i event) :
    event.bind (·.own? i) = none := by
  cases event with
  | none => rfl
  | some e => exact own?_of_index?_ne (h e rfl)

/-- What an input other than a poll does to one protocol, and the events that it queues. -/
inductive HandlerState.Reacts (i : ℕ) :
    HandlerInput → HandlerState → List NotifsHandlerOut → HandlerState → Prop where
  /-- The input is about another protocol, or finds nothing to do. -/
  | ignored {input : HandlerInput} (state : HandlerState) :
      (∀ handshake, input ≠ .command handshake (.open i)) →
      (∀ handshake, input ≠ .command handshake (.close i)) → Reacts i input state [] state
  | openOpening (handshake : Bytes) (inSubstream : Option InSubstream) :
      Reacts i (.command handshake (.open i)) (.opening inSubstream) [] (.opening inSubstream)
  | openOpened (handshake : Bytes) (rx : List NotificationsSinkMessage)
      (out : Option OutSubstream) (inSubstream : Option InSubstream) :
      Reacts i (.command handshake (.open i)) (.opened rx out inSubstream) []
        (.opened rx out inSubstream)
  | openClosed (handshake : Bytes) (pendingOpening : Bool) :
      Reacts i (.command handshake (.open i)) (.closed pendingOpening) [] (.opening none)
  | openDesired (handshake : Bytes) (substream : InSubstream) (pendingOpening : Bool) :
      Reacts i (.command handshake (.open i)) (.openDesiredByRemote substream pendingOpening) []
        (.opening (some (substream.sendHandshake substream.receivedHandshake)))
  | closeOpened (handshake : Bytes) (rx : List NotificationsSinkMessage)
      (out : Option OutSubstream) (inSubstream : Option InSubstream) :
      Reacts i (.command handshake (.close i)) (.opened rx out inSubstream) [.closeResult i]
        (.closed false)
  | closeOpening (handshake : Bytes) (inSubstream : Option InSubstream) :
      Reacts i (.command handshake (.close i)) (.opening inSubstream)
        [.openResultErr i, .closeResult i] (.closed true)
  | closeDesired (handshake : Bytes) (substream : InSubstream) (pendingOpening : Bool) :
      Reacts i (.command handshake (.close i)) (.openDesiredByRemote substream pendingOpening)
        [.closeResult i] (.closed pendingOpening)
  | closeClosed (handshake : Bytes) (pendingOpening : Bool) :
      Reacts i (.command handshake (.close i)) (.closed pendingOpening) [.closeResult i]
        (.closed pendingOpening)
  | inboundClosed (received handshake : Bytes) (pendingOpening : Bool) :
      Reacts i (.inbound i received handshake) (.closed pendingOpening) [.openDesiredByRemote i]
        (.openDesiredByRemote (.new received) pendingOpening)
  | inboundOpening (received handshake : Bytes) (substream : InSubstream) :
      Reacts i (.inbound i received handshake) (.opening none) [] (.opening (some substream))
  | inboundOpened (received handshake : Bytes) (rx : List NotificationsSinkMessage)
      (out : Option OutSubstream) (substream : InSubstream) :
      Reacts i (.inbound i received handshake) (.opened rx out none) []
        (.opened rx out (some substream))
  /-- A substream that is no longer wanted arrives or fails. -/
  | settledClosed {input : HandlerInput} (pendingOpening : Bool) :
      (∀ handshake command, input ≠ .command handshake command) →
      Reacts i input (.closed pendingOpening) [] (.closed false)
  | settledDesired {input : HandlerInput} (substream : InSubstream) (pendingOpening : Bool) :
      (∀ handshake command, input ≠ .command handshake command) →
      Reacts i input (.openDesiredByRemote substream pendingOpening) []
        (.openDesiredByRemote substream false)
  | outboundOpening (fallback : Option ProtocolName) (handshake : Bytes)
      (inSubstream : Option InSubstream) (sink : NotificationsSink) :
      Reacts i (.outbound i fallback handshake) (.opening inSubstream)
        [.openResultOk i fallback handshake sink] (.opened [] (some ⟨[]⟩) inSubstream)
  | errorOpening (inSubstream : Option InSubstream) :
      Reacts i (.dialUpgradeError i) (.opening inSubstream) [.openResultErr i] (.closed false)
  | sinkMessage (message : NotificationsSinkMessage) (rx : List NotificationsSinkMessage)
      (out : Option OutSubstream) (inSubstream : Option InSubstream) :
      Reacts i (.sinkMessage i message) (.opened rx out inSubstream) []
        (.opened (rx ++ [message]) out inSubstream)

namespace NotifsHandler

open HandlerState

variable {h : NotifsHandler} {i : ℕ} {state : HandlerState}

def waiting (h : NotifsHandler) (i : ℕ) : List NotifsHandlerOut :=
  h.eventsQueue.filterMap (ConnectionHandlerEvent.own? i)

theorem waiting_push (event : ConnectionHandlerEvent) :
    (h.push event).waiting i = h.waiting i ++ (event.own? i).toList := by
  cases hown : event.own? i <;> simp [waiting, push, hown]

theorem waiting_setState (j : ℕ) (state : HandlerState) :
    (h.setState j state).waiting i = h.waiting i := rfl

theorem waiting_requestSubstream (j : ℕ) (pendingOpening : Bool) (message : Bytes) :
    (h.requestSubstream j pendingOpening message).waiting i = h.waiting i := by
  unfold requestSubstream
  split
  · rfl
  · rw [waiting_push]
    exact List.append_nil _

theorem protocols_requestSubstream (j : ℕ) (pendingOpening : Bool) (message : Bytes) :
    (h.requestSubstream j pendingOpening message).protocols = h.protocols := by
  unfold requestSubstream
  split <;> rfl

theorem lt_of_state (hi : h.protocols[i]? = some state) : i < h.protocols.length :=
  (List.getElem?_eq_some_iff.mp hi).1

theorem state_setState (state' : HandlerState) (hi : h.protocols[i]? = some state) :
    (h.setState i state').protocols[i]? = some state' := by
  rw [setState, List.getElem?_set_self (lt_of_state hi)]

theorem state_setState_ne {j : ℕ} (hj : j ≠ i) (state' : HandlerState) :
    (h.setState j state').protocols[i]? = h.protocols[i]? := by
  rw [setState, List.getElem?_set_ne hj]

/-- The protocol reacts to the input, and the events about it are queued. -/
def Responds (i : ℕ) (input : HandlerInput) (state : HandlerState) (h h' : NotifsHandler) : Prop :=
  ∃ state' events, h'.protocols[i]? = some state' ∧ h'.waiting i = h.waiting i ++ events ∧
    Reacts i input state events state'

theorem responds_of_silent {input : HandlerInput} {state' : HandlerState} {h' : NotifsHandler}
    (hi : h'.protocols[i]? = some state') (hwaiting : h'.waiting i = h.waiting i)
    (hr : Reacts i input state [] state') : Responds i input state h h' :=
  ⟨state', [], hi, hwaiting.trans (List.append_nil _).symm, hr⟩

theorem onBehaviourEvent_open_at (handshake : Bytes) (hi : h.protocols[i]? = some state) :
    Responds i (.command handshake (.open i)) state h
      (h.onBehaviourEvent handshake (.open i)) := by
  simp only [onBehaviourEvent, hi]
  cases state with
  | closed pendingOpening =>
    have hi' : (h.requestSubstream i pendingOpening handshake).protocols[i]? = _ :=
      (congrArg (·[i]?) (protocols_requestSubstream ..)).trans hi
    refine responds_of_silent (state_setState _ hi') ?_ (.openClosed handshake pendingOpening)
    rw [waiting_setState, waiting_requestSubstream]
  | openDesiredByRemote substream pendingOpening =>
    have hi' : (h.requestSubstream i pendingOpening substream.receivedHandshake).protocols[i]? =
        _ := (congrArg (·[i]?) (protocols_requestSubstream ..)).trans hi
    refine responds_of_silent (state_setState _ hi') ?_
      (.openDesired handshake substream pendingOpening)
    rw [waiting_setState, waiting_requestSubstream]
  | opening inSubstream => exact responds_of_silent hi rfl (.openOpening handshake inSubstream)
  | opened rx out inSubstream =>
    exact responds_of_silent hi rfl (.openOpened handshake rx out inSubstream)

theorem onBehaviourEvent_close_at (handshake : Bytes) (hi : h.protocols[i]? = some state) :
    Responds i (.command handshake (.close i)) state h
      (h.onBehaviourEvent handshake (.close i)) := by
  have hown : (ConnectionHandlerEvent.custom (.closeResult i)).own? i = some (.closeResult i) := by
    simp [ConnectionHandlerEvent.own?, NotifsHandlerOut.index]
  simp only [onBehaviourEvent, hi]
  cases state with
  | closed pendingOpening =>
    refine ⟨_, _, hi, ?_, .closeClosed handshake pendingOpening⟩
    rw [waiting_push, hown]
    rfl
  | openDesiredByRemote substream pendingOpening =>
    refine ⟨_, _, state_setState _ hi, ?_, .closeDesired handshake substream pendingOpening⟩
    rw [waiting_push, hown]
    rfl
  | opening inSubstream =>
    refine ⟨_, _, state_setState _ hi, ?_, .closeOpening handshake inSubstream⟩
    rw [waiting_push, waiting_push, hown, waiting_setState]
    simp [ConnectionHandlerEvent.own?, NotifsHandlerOut.index]
  | opened rx out inSubstream =>
    refine ⟨_, _, state_setState _ hi, ?_, .closeOpened handshake rx out inSubstream⟩
    rw [waiting_push, hown]
    rfl

theorem onFullyNegotiatedInbound_at (received handshake : Bytes)
    (hi : h.protocols[i]? = some state) : Responds i (.inbound i received handshake) state h
      (h.onFullyNegotiatedInbound i received handshake) := by
  simp only [onFullyNegotiatedInbound, hi]
  split
  · next heq =>
    obtain rfl := Option.some.inj heq
    refine ⟨_, _, state_setState _ hi, ?_, .inboundClosed received handshake _⟩
    rw [waiting_setState, waiting_push]
    simp [ConnectionHandlerEvent.own?, NotifsHandlerOut.index]
  · next heq =>
    obtain rfl := Option.some.inj heq
    exact responds_of_silent (state_setState _ hi) rfl (.inboundOpening received handshake _)
  · next heq =>
    obtain rfl := Option.some.inj heq
    exact responds_of_silent (state_setState _ hi) rfl (.inboundOpened received handshake _ _ _)
  all_goals exact responds_of_silent hi rfl (.ignored state (by simp) (by simp))

theorem onFullyNegotiatedOutbound_at (fallback : Option ProtocolName) (handshake : Bytes)
    (hi : h.protocols[i]? = some state) : Responds i (.outbound i fallback handshake) state h
      (h.onFullyNegotiatedOutbound i fallback handshake) := by
  simp only [onFullyNegotiatedOutbound, hi]
  cases state with
  | closed pendingOpening =>
    exact responds_of_silent (state_setState _ hi) rfl (.settledClosed pendingOpening (by simp))
  | openDesiredByRemote substream pendingOpening =>
    exact responds_of_silent (state_setState _ hi) rfl
      (.settledDesired substream pendingOpening (by simp))
  | opening inSubstream =>
    refine ⟨_, _, state_setState _ hi, ?_,
      .outboundOpening fallback handshake inSubstream ⟨h.peerId, h.nextChannel⟩⟩
    rw [waiting_push]
    simp [ConnectionHandlerEvent.own?, NotifsHandlerOut.index]
    rfl
  | opened rx out inSubstream =>
    exact responds_of_silent hi rfl (.ignored _ (by simp) (by simp))

theorem onDialUpgradeError_at (hi : h.protocols[i]? = some state) :
    Responds i (.dialUpgradeError i) state h (h.onDialUpgradeError i) := by
  simp only [onDialUpgradeError, hi]
  cases state with
  | closed pendingOpening =>
    exact responds_of_silent (state_setState _ hi) rfl (.settledClosed pendingOpening (by simp))
  | openDesiredByRemote substream pendingOpening =>
    exact responds_of_silent (state_setState _ hi) rfl
      (.settledDesired substream pendingOpening (by simp))
  | opening inSubstream =>
    refine ⟨_, _, state_setState _ hi, ?_, .errorOpening inSubstream⟩
    rw [waiting_push]
    simp [ConnectionHandlerEvent.own?, NotifsHandlerOut.index, waiting_setState]
  | opened rx out inSubstream =>
    exact responds_of_silent hi rfl (.ignored _ (by simp) (by simp))

theorem onSinkMessage_at (message : NotificationsSinkMessage) (hi : h.protocols[i]? = some state) :
    Responds i (.sinkMessage i message) state h (h.onSinkMessage i message) := by
  simp only [onSinkMessage, hi]
  cases state with
  | opened rx out inSubstream =>
    exact responds_of_silent (state_setState _ hi) rfl (.sinkMessage message rx out inSubstream)
  | _ => exact responds_of_silent hi rfl (.ignored _ (by simp) (by simp))

/-- Nothing about the protocol changes. -/
def Leaves (i : ℕ) (h h' : NotifsHandler) : Prop :=
  h'.protocols[i]? = h.protocols[i]? ∧ h'.waiting i = h.waiting i

/-- Nothing about the protocol changes, and what is queued is about others. -/
def Ignores (i : ℕ) (h h' : NotifsHandler) : Prop :=
  h'.protocols[i]? = h.protocols[i]? ∧
    ∃ new, h'.eventsQueue = h.eventsQueue ++ new ∧ ∀ e ∈ new, e.index? ≠ some i

section Ignores

variable {j : ℕ} {h' h'' : NotifsHandler}

theorem Ignores.refl (h : NotifsHandler) : Ignores i h h :=
  ⟨rfl, [], (List.append_nil _).symm, by simp⟩

theorem Ignores.trans (h₁ : Ignores i h h') (h₂ : Ignores i h' h'') : Ignores i h h'' := by
  obtain ⟨hstate₁, new₁, hqueue₁, hnew₁⟩ := h₁
  obtain ⟨hstate₂, new₂, hqueue₂, hnew₂⟩ := h₂
  refine ⟨hstate₂.trans hstate₁, new₁ ++ new₂, ?_, ?_⟩
  · rw [hqueue₂, hqueue₁, List.append_assoc]
  · intro e he
    exact (List.mem_append.mp he).elim (hnew₁ e) (hnew₂ e)

theorem Ignores.leaves (hl : Ignores i h h') : Leaves i h h' := by
  obtain ⟨hstate, new, hqueue, hnew⟩ := hl
  refine ⟨hstate, ?_⟩
  have hnone : new.filterMap (ConnectionHandlerEvent.own? i) = [] :=
    List.filterMap_eq_nil_iff.mpr fun e he =>
      own?_of_index?_ne (hnew e he)
  rw [waiting, hqueue, List.filterMap_append, hnone]
  exact List.append_nil _

theorem ignores_push {event : ConnectionHandlerEvent} (he : event.index? ≠ some i) :
    Ignores i h (h.push event) :=
  ⟨rfl, [event], rfl, by simpa using he⟩

theorem ignores_setState (hj : j ≠ i) (state : HandlerState) : Ignores i h (h.setState j state) :=
  ⟨state_setState_ne hj state, [], (List.append_nil _).symm, by simp⟩

theorem ignores_requestSubstream (hj : j ≠ i) (pendingOpening : Bool) (message : Bytes) :
    Ignores i h (h.requestSubstream j pendingOpening message) := by
  unfold requestSubstream
  split
  · exact .refl h
  · exact ignores_push (by simpa [ConnectionHandlerEvent.index?] using hj)

theorem index?_ne {event : NotifsHandlerOut} (hj : event.index ≠ i) :
    (ConnectionHandlerEvent.custom event).index? ≠ some i := by
  simpa [ConnectionHandlerEvent.index?] using hj

theorem ignores_open (hj : j ≠ i) (handshake : Bytes) :
    Ignores i h (h.onBehaviourEvent handshake (.open j)) := by
  unfold onBehaviourEvent
  dsimp only
  split
  · exact (ignores_requestSubstream hj ..).trans (ignores_setState hj _)
  · exact (ignores_requestSubstream hj ..).trans (ignores_setState hj _)
  all_goals exact .refl h

theorem ignores_close (hj : j ≠ i) (handshake : Bytes) :
    Ignores i h (h.onBehaviourEvent handshake (.close j)) := by
  have hindex : (ConnectionHandlerEvent.custom (.closeResult j)).index? ≠ some i := index?_ne hj
  unfold onBehaviourEvent
  dsimp only
  refine Ignores.trans ?_ (ignores_push hindex)
  split
  · exact ignores_setState hj _
  · exact (ignores_setState hj _).trans (ignores_push (index?_ne hj))
  · exact ignores_setState hj _
  all_goals exact .refl h

theorem ignores_onFullyNegotiatedInbound (hj : j ≠ i) (received handshake : Bytes) :
    Ignores i h (h.onFullyNegotiatedInbound j received handshake) := by
  have hindex : (ConnectionHandlerEvent.custom (.openDesiredByRemote j)).index? ≠ some i :=
    index?_ne hj
  unfold onFullyNegotiatedInbound
  split
  · exact (ignores_push hindex).trans (ignores_setState hj _)
  · exact ignores_setState hj _
  · exact ignores_setState hj _
  all_goals exact .refl h

theorem ignores_onFullyNegotiatedOutbound (hj : j ≠ i) (fallback : Option ProtocolName)
    (handshake : Bytes) : Ignores i h (h.onFullyNegotiatedOutbound j fallback handshake) := by
  unfold onFullyNegotiatedOutbound
  split
  · exact ignores_setState hj _
  · exact ignores_setState hj _
  · exact Ignores.trans (ignores_setState hj _) (ignores_push (index?_ne hj))
  all_goals exact .refl h

theorem ignores_onDialUpgradeError (hj : j ≠ i) : Ignores i h (h.onDialUpgradeError j) := by
  unfold onDialUpgradeError
  split
  · exact ignores_setState hj _
  · exact ignores_setState hj _
  · exact (ignores_setState hj _).trans (ignores_push (index?_ne hj))
  all_goals exact .refl h

theorem ignores_onSinkMessage (hj : j ≠ i) (message : NotificationsSinkMessage) :
    Ignores i h (h.onSinkMessage j message) := by
  unfold onSinkMessage
  split
  · exact ignores_setState hj _
  · exact .refl h

end Ignores

theorem Leaves.reacts {h' : NotifsHandler} {input : HandlerInput} (hl : Leaves i h h')
    (hi : h.protocols[i]? = some state)
    (hopen : ∀ handshake, input ≠ .command handshake (.open i))
    (hclose : ∀ handshake, input ≠ .command handshake (.close i)) : Responds i input state h h' :=
  responds_of_silent (hl.1.trans hi) hl.2 (.ignored state hopen hclose)

theorem handle_at (input : HandlerInput) (hpoll : ∀ io, input ≠ .poll io)
    (hi : h.protocols[i]? = some state) : Responds i input state h (h.handle input).2 := by
  cases input with
  | command handshake command =>
    cases command with
    | «open» j =>
      rcases eq_or_ne j i with rfl | hj
      · exact onBehaviourEvent_open_at handshake hi
      · exact (ignores_open hj handshake).leaves.reacts hi (by simp [hj]) (by simp)
    | close j =>
      rcases eq_or_ne j i with rfl | hj
      · exact onBehaviourEvent_close_at handshake hi
      · exact (ignores_close hj handshake).leaves.reacts hi (by simp) (by simp [hj])
  | inbound j received handshake =>
    rcases eq_or_ne j i with rfl | hj
    · exact onFullyNegotiatedInbound_at received handshake hi
    · exact (ignores_onFullyNegotiatedInbound hj received handshake).leaves.reacts hi
        (by simp) (by simp)
  | outbound j fallback handshake =>
    rcases eq_or_ne j i with rfl | hj
    · exact onFullyNegotiatedOutbound_at fallback handshake hi
    · exact (ignores_onFullyNegotiatedOutbound hj fallback handshake).leaves.reacts hi
        (by simp) (by simp)
  | dialUpgradeError j =>
    rcases eq_or_ne j i with rfl | hj
    · exact onDialUpgradeError_at hi
    · exact (ignores_onDialUpgradeError hj).leaves.reacts hi (by simp) (by simp)
  | sinkMessage j message =>
    rcases eq_or_ne j i with rfl | hj
    · exact onSinkMessage_at message hi
    · exact (ignores_onSinkMessage hj message).leaves.reacts hi (by simp) (by simp)
  | poll io => exact absurd rfl (hpoll io)

end NotifsHandler

end SwarmHost.Substrate
