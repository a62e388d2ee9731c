import SwarmHost.Peerset.Accounting

/-! # Reputations and banned peers

A reputation moves towards zero with every second, by reports and whenever a
connection is dropped. A report that bans a peer disconnects it from all sets; a
dropped connection that bans it does not.
-/

namespace SwarmHost.Substrate

namespace PeersState

variable {d d' : PeersState} {p q : PeerId} {set : SetId} {op : Operation}
  {P : Operation → Prop}

theorem reputation_of_nodes (h : d'.nodes = d.nodes) (p : PeerId) :
    d'.reputation p = d.reputation p := by
  rw [reputation, reputation, h]

theorem reputation_of_notMem (h : p ∉ d.nodes) : d.reputation p = 0 := by
  rw [reputation, Dict.notMem_iff.mp h]
  rfl

theorem reputation_setState (m : MembershipState) (q : PeerId) :
    (d.setState set p m).reputation q = d.reputation q := by
  simp only [reputation, setState, Dict.get?_modify]
  split
  · next h =>
    subst h
    cases d.nodes.get? q <;> rfl
  · rfl

theorem reputation_cleanUp (d : PeersState) (p q : PeerId) :
    (d.cleanUp p).reputation q = d.reputation q := by
  unfold cleanUp
  split
  · rfl
  · next node hp =>
    split
    · next hidle =>
      simp only [reputation, Dict.get?_erase]
      split
      · next h =>
        subst h
        rw [hp]
        exact hidle.1.symm
      · rfl
    · rfl

theorem nodeOrNew_reputation (d : PeersState) (p : PeerId) :
    (d.nodeOrNew p).reputation = d.reputation p := by
  rw [nodeOrNew, reputation]
  cases d.nodes.get? p <;> rfl

theorem reputation_peerReputation (d : PeersState) (p : PeerId) (f : ℤ → ℤ) (q : PeerId) :
    (d.peerReputation p f).reputation q = if q = p then f (d.reputation p) else d.reputation q := by
  rw [peerReputation, reputation_cleanUp]
  simp only [reputation, Dict.get?_insert]
  split
  · exact congrArg f (nodeOrNew_reputation d p)
  · rfl

theorem reputation_addReputation (hp : p ∈ d.nodes) (modifier : ℤ) (q : PeerId) :
    (d.addReputation p modifier).reputation q =
      if q = p then saturatingAdd (d.reputation p) modifier else d.reputation q := by
  obtain ⟨node, hnode⟩ := Dict.mem_iff.mp hp
  simp only [reputation, addReputation, Dict.get?_modify]
  split
  · next h =>
    rw [hnode]
    rfl
  · rfl

theorem reputation_disconnect (now : Instant) (q : PeerId) :
    (d.disconnect set p now).reputation q = d.reputation q := by
  simp only [disconnect]
  rw [reputation_setState]
  split
  · rfl
  · exact reputation_of_nodes (nodes_adjustSlots _ set _ _) q

theorem reputation_forgetPeer (q : PeerId) :
    (d.forgetPeer set p).reputation q = d.reputation q := by
  rw [forgetPeer, reputation_cleanUp, reputation_setState]

theorem reputation_exec (h : ¬ op.rates) (q : PeerId) :
    (d.exec op).reputation q = d.reputation q := by
  cases op with
  | addNoSlotNode set p => exact reputation_of_nodes (nodes_addNoSlotNode d set p) q
  | removeNoSlotNode set p => exact reputation_of_nodes (nodes_removeNoSlotNode d set p) q
  | disconnect set p now => exact reputation_disconnect now q
  | addReputation set p modifier => exact absurd rfl h
  | bumpLastConnectedOrDiscovered set p now =>
    simp only [exec, bumpLastConnectedOrDiscovered]
    split
    · exact reputation_setState _ q
    · rfl
  | tryOutgoing set p =>
    simp only [exec, tryOutgoing]
    split
    · rfl
    · split
      · rw [reputation_of_nodes (nodes_adjustSlots _ set _ _), reputation_setState]
      · exact reputation_setState _ q
  | tryAcceptIncoming set p =>
    simp only [exec, tryAcceptIncoming]
    split
    · rfl
    · split
      · rw [reputation_of_nodes (nodes_adjustSlots _ set _ _), reputation_setState]
      · exact reputation_setState _ q
  | forgetPeer set p => exact reputation_forgetPeer q
  | discover set p now =>
    simp only [exec, discover, reputation, Dict.get?_insert]
    split
    · next hq =>
      subst hq
      exact nodeOrNew_reputation d q
    · rfl
  | peerReputation p f => exact absurd rfl h

theorem Issues.reputation (h : Issues P d d') (hP : ∀ op, P op → ¬ op.rates) (q : PeerId) :
    d'.reputation q = d.reputation q := by
  refine h.invariant (I := fun e => e.reputation q = d.reputation q) ?_ rfl
  intro e op hop _ he
  rw [reputation_exec (hP op hop), he]

end PeersState

namespace Peerset

open PeersState

section Fading

/-- Bounds on a sum do not matter where they are not reached. -/
theorem le_saturatingAdd {a b : ℤ} : bannedThreshold ≤ saturatingAdd a b ↔
    bannedThreshold ≤ a + b := by
  have hlow : i32Min < bannedThreshold := by decide
  have hhigh : bannedThreshold ≤ i32Max := by decide
  simp only [saturatingAdd]
  omega

theorem reputTick_zero : reputTick 0 = 0 := by decide

theorem le_reputTick {r : ℤ} (h : bannedThreshold ≤ r) : bannedThreshold ≤ reputTick r := by
  have hneg : bannedThreshold ≤ 0 := by decide
  simp only [reputTick]
  split
  · rw [le_saturatingAdd]
    omega
  · split
    · rw [le_saturatingAdd]
      omega
    · rw [le_saturatingAdd]
      rcases le_or_gt 0 r with hr | hr
      · have hdiv : r.tdiv 50 ≤ r := Int.tdiv_le_self 50 hr
        omega
      · have hdiv : 0 ≤ (-r).tdiv 50 := Int.tdiv_nonneg (by omega) (by decide)
        rw [Int.neg_tdiv] at hdiv
        omega

theorem le_reputTick_iterate {r : ℤ} (h : bannedThreshold ≤ r) (n : ℕ) :
    bannedThreshold ≤ reputTick^[n] r := by
  induction n with
  | zero => exact h
  | succ n ih =>
    rw [Function.iterate_succ_apply']
    exact le_reputTick ih

theorem reputation_forgetOld (now : Instant) (d : PeersState) (p q : PeerId) :
    (forgetOld now d p).reputation q = d.reputation q := by
  unfold forgetOld
  induction List.range d.numSets generalizing d with
  | nil => rfl
  | cons set sets ih =>
    rw [List.foldl_cons, ih]
    split
    · split
      · exact reputation_forgetPeer q
      · rfl
    · rfl

theorem reputation_fade (now : Instant) (d : PeersState) (p q : PeerId) :
    (fade now d p).reputation q =
      if q = p then reputTick (d.reputation p) else d.reputation q := by
  unfold fade
  dsimp only
  split
  · exact reputation_peerReputation d p _ q
  · rw [reputation_forgetOld, reputation_peerReputation]

theorem reputation_fades (now : Instant) {l : List PeerId} (hnd : l.Nodup) (d : PeersState)
    (q : PeerId) : (l.foldl (fade now) d).reputation q =
      if q ∈ l then reputTick (d.reputation q) else d.reputation q := by
  induction l generalizing d with
  | nil => rfl
  | cons p l ih =>
    obtain ⟨hp, hnd⟩ := List.nodup_cons.mp hnd
    rw [List.foldl_cons, ih hnd, reputation_fade]
    by_cases hq : q = p
    · subst hq
      simp [hp]
    · simp [hq]

/-- Every second all reputations fade; who is not known has none. -/
theorem reputation_updateTime (s : Peerset) (now : Instant) (q : PeerId) :
    (s.updateTime now).data.reputation q = reputTick^[s.secsDiff now] (s.data.reputation q) := by
  simp only [updateTime]
  induction s.secsDiff now with
  | zero => rfl
  | succ n ih =>
    have hnd : ∀ d : PeersState, d.nodes.keys.Nodup := fun d => d.nodes.nodup
    rw [Function.iterate_succ_apply', Function.iterate_succ_apply', ← ih,
      reputation_fades now (hnd _)]
    split
    · rfl
    · next hq => rw [reputation_of_notMem hq, reputTick_zero]

end Fading

section Admitted

variable {s : Peerset} {set : SetId} {p : PeerId} {now : Instant} {index : IncomingIndex}

theorem sets_fade (now : Instant) (d : PeersState) (p : PeerId) :
    (fade now d p).sets = d.sets := by
  have hfold : ∀ {f : PeersState → SetId → PeersState}, (∀ d set, (f d set).sets = d.sets) →
      ∀ (l : List SetId) (d : PeersState), (l.foldl f d).sets = d.sets := by
    intro f hf l
    induction l with
    | nil => exact fun _ => rfl
    | cons set l ih =>
      intro d
      rw [List.foldl_cons, ih, hf]
  unfold fade
  dsimp only
  split
  · exact sets_cleanUp _ p
  · refine (hfold ?_ _ _).trans (sets_cleanUp _ p)
    intro d set
    split
    · split
      · exact sets_cleanUp _ p
      · rfl
    · rfl

theorem sets_updateTime (s : Peerset) (now : Instant) :
    (s.updateTime now).data.sets = s.data.sets := by
  have hfades : ∀ (l : List PeerId) (d : PeersState), (l.foldl (fade now) d).sets = d.sets := by
    intro l
    induction l with
    | nil => exact fun _ => rfl
    | cons p l ih => exact fun d => (ih _).trans (sets_fade now d p)
  simp only [updateTime]
  induction s.secsDiff now with
  | zero => rfl
  | succ n ih =>
    rw [Function.iterate_succ_apply', hfades]
    exact ih

theorem sets_enter (d : PeersState) : (enter now set p d).sets = d.sets := by
  unfold enter bumpLastConnectedOrDiscovered
  split
  · rfl
  · split <;> rfl

theorem reputation_enter (d : PeersState) (q : PeerId) :
    (enter now set p d).reputation q = d.reputation q := by
  unfold enter
  split
  · exact (reputation_exec (by simp [Operation.rates]) q :
      (d.exec (.discover set p now)).reputation q = _)
  · exact (reputation_exec (by simp [Operation.rates]) q :
      (d.exec (.bumpLastConnectedOrDiscovered set p now)).reputation q = _)

theorem reputation_answer (s : Peerset) (index : IncomingIndex) (q : PeerId) :
    (s.answer set p index).data.reputation q = s.data.reputation q := by
  have htry : (s.data.tryAcceptIncoming set p).2.reputation q = s.data.reputation q :=
    (reputation_exec (by simp [Operation.rates]) q :
      (s.data.exec (.tryAcceptIncoming set p)).reputation q = _)
  unfold answer
  split
  · rfl
  · rcases h : s.data.tryAcceptIncoming set p with ⟨_ | _, data⟩ <;> rw [h] at htry <;> exact htry

theorem reputation_incoming (s : Peerset) (index : IncomingIndex) (q : PeerId) :
    (s.incoming now set p index).data.reputation q =
      reputTick^[s.secsDiff now] (s.data.reputation q) := by
  rw [← reputation_updateTime]
  unfold incoming
  dsimp only
  split
  · rfl
  · split
    · rfl
    · rw [reputation_answer, reputation_enter]

/-- What is asked of a peer that is accepted, besides that it is not connected. -/
structure Admitted (s : Peerset) (now : Instant) (set : SetId) (p : PeerId) : Prop where
  reputation : bannedThreshold ≤ reputTick^[s.secsDiff now] (s.data.reputation p)
  reserved : s.reservedOnly set → p ∈ s.reserved set
  slot : p ∈ s.reserved set ∨ (s.data.setInfo set).numIn < (s.data.setInfo set).maxIn

theorem slot_of_tryAcceptIncoming {d : PeersState}
    (h : (d.tryAcceptIncoming set p).1 = true) :
    d.noSlot set p = true ∨ (d.setInfo set).numIn < (d.setInfo set).maxIn := by
  unfold tryAcceptIncoming at h
  split at h
  · simp at h
  · next hfree =>
    rw [not_and_or, not_le, not_not] at hfree
    exact hfree.symm

theorem append_singleton_ne {α : Type*} (l : List α) (a : α) : l ≠ l ++ [a] := by
  intro h
  simpa using congrArg List.length h

theorem admitted_of_accept (hs : s.Sound) (hset : set < s.data.numSets)
    (h : (s.incoming now set p index).messageQueue = s.messageQueue ++ [.accept index]) :
    s.Admitted now set p := by
  unfold incoming at h
  dsimp only at h
  split at h
  · simp [push, updateTime] at h
  · next hreserved =>
    split at h
    · exact absurd h (append_singleton_ne _ _)
    · unfold answer at h
      split at h
      · simp [push, updateTime] at h
      · next hrep =>
        have hinfo : ∀ set', (enter now set p (s.updateTime now).data).setInfo set' =
            s.data.setInfo set' :=
          setInfo_of_sets ((sets_enter _).trans (sets_updateTime s now))
        refine ⟨?_, ?_, ?_⟩
        · rw [not_lt, reputation_enter, reputation_updateTime] at hrep
          exact hrep
        · intro honly
          by_contra hp
          exact hreserved ⟨honly, hp⟩
        · split at h
          · next data htry =>
            have hslot := slot_of_tryAcceptIncoming (congrArg Prod.fst htry)
            rw [noSlot, hinfo, hs.sync set hset, decide_eq_true_eq] at hslot
            exact hslot
          · simp [push, updateTime] at h

end Admitted

section Tolerance

variable {s s' : Peerset} {set : SetId} {p : PeerId} {order : HashOrder} {now : Instant}
  {event : Event}

/-- Nobody is connected who is banned. -/
def Tolerated (s : Peerset) : Prop :=
  ∀ x, s.data.Connected x → bannedThreshold ≤ s.data.reputation x.2

def Spares (s : Peerset) : Event → Prop
  | .dropped now set p _ => s.data.Connected (set, p) →
    bannedThreshold ≤
        reputTick^[s.secsDiff now] (s.data.reputation p) + disconnectReputationChange ∨
      ∀ set' ≠ set, ¬ s.data.Connected (set', p)
  | .send _ | .incoming .. | .poll .. => True

theorem Tolerated.mono (h : s.Tolerated) (hc : ∀ x, s'.data.Connected x → s.data.Connected x)
    (hr : ∀ q, bannedThreshold ≤ s.data.reputation q → bannedThreshold ≤ s'.data.reputation q) :
    s'.Tolerated :=
  fun x hx => hr x.2 (h x (hc x hx))

theorem Tolerated.does (h : s.Tolerated) {s? : Option Peerset} (hd : Does Operation.Quiet s s? s')
    (hc : ∀ x, s'.data.Connected x → s.data.Connected x) : s'.Tolerated :=
  h.mono hc fun q hq => by rwa [hd.issues.reputation fun _ h => h.2]

theorem Tolerated.updateTime (h : s.Tolerated) (hs : s.Sound) (now : Instant) :
    (s.updateTime now).Tolerated := by
  apply h.mono fun x => ((sameConnected_updateTime hs.accounted.sized now).connected x).mp
  intro q hq
  rw [reputation_updateTime]
  exact le_reputTick_iterate hq _

theorem not_connected_disconnectAll (hs : s.data.Sized) {l : List SetId} (hset : set ∈ l) :
    ¬ (l.foldl (fun s set =>
      if s.data.peer set p = .connected then (s.disconnectAndDrop now set p).allocSlots set
      else s) s).data.Connected (set, p) := by
  induction l generalizing s with
  | nil => cases hset
  | cons set' l ih =>
    rw [List.foldl_cons]
    rcases List.mem_cons.mp hset with rfl | hset
    · intro hc
      have hstep : ∃ xs, Drops s xs (if s.data.peer set p = .connected then
          (s.disconnectAndDrop now set p).allocSlots set else s) ∧
          (s.data.Connected (set, p) → (set, p) ∈ xs) := by
        split
        · next hp =>
          exact ⟨_, drops_disconnectAndDrop hs (peer_eq_connected.mp hp) now, by simp⟩
        · next hp => exact ⟨_, .refl hs, fun h => absurd (peer_eq_connected.mpr h) hp⟩
      obtain ⟨xs, hxs, hmem⟩ := hstep
      obtain ⟨ys, hys⟩ := drops_disconnectAll hxs.sized now p l
      have hc' := ((hxs.connected _).mp ((hys.connected _).mp hc).1)
      exact hc'.2 (hmem hc'.1)
    · apply ih _ hset
      split
      · next hp => exact (drops_disconnectAndDrop hs (peer_eq_connected.mp hp) now).sized
      · exact hs

theorem tolerated_onReportPeer (h : s.Tolerated) (hs : s.Sound) (p : PeerId) (change : ℤ) :
    (s.onReportPeer now p change).Tolerated := by
  have htime : Does Fades s (s.updateTime? now) (s.updateTime now) := does_updateTime hs
  have htol := h.updateTime hs now
  have hsame := sameMembers_peerReputation htime.sound.accounted.sized p fun _ =>
    saturatingAdd ((s.updateTime now).data.reputation p) change
  unfold onReportPeer
  dsimp only
  split
  · next hle =>
    intro x hx
    dsimp only at hx ⊢
    rw [reputation_peerReputation]
    split
    · exact hle
    · exact htol x ((hsame.sameConnected.connected x).mp hx)
  · -- the peer is banned, and connected nowhere
    have hissues := issues_peerReputation (s.updateTime now).data p fun _ =>
      saturatingAdd ((s.updateTime now).data.reputation p) change
    have hsound : Sound { s.updateTime now with
        data := (s.updateTime now).data.peerReputation p fun _ =>
          saturatingAdd ((s.updateTime now).data.reputation p) change } :=
      htime.sound.with_data hissues (fun _ h => h.2) rfl rfl
    have hloop := does_disconnectAll now hsound p fun set => List.mem_range.mp
    obtain ⟨xs, hxs⟩ := drops_disconnectAll hsound.accounted.sized now p
      (List.range ((s.updateTime now).data.peerReputation p fun _ =>
        saturatingAdd ((s.updateTime now).data.reputation p) change).numSets)
    rintro ⟨set, q⟩ hx
    have hold := ((hxs.connected _).mp hx).1
    have hq : q ≠ p := by
      rintro rfl
      have hlt := lt_numSets_of_member hsame.sized hold.member
      exact not_connected_disconnectAll hsound.accounted.sized (List.mem_range.mpr hlt) hx
    rw [hloop.issues.reputation fun _ h => h.1.2]
    dsimp only
    rw [reputation_peerReputation, if_neg hq]
    exact htol (set, q) ((hsame.sameConnected.connected _).mp hold)

theorem tolerated_onAction (h : s.Tolerated) (hs : s.Sound) {action : Action}
    (hset : ∀ set ∈ action.set?, set < s.data.numSets) :
    (s.onAction order now action).Tolerated := by
  have hdrops : (∀ p, action ≠ .connectToPeer p) →
      ∀ x, (s.onAction order now action).data.Connected x → s.data.Connected x := by
    intro hne x hx
    obtain ⟨xs, hxs⟩ := drops_onAction hs.accounted.sized order now hset hne
    exact ((hxs.connected x).mp hx).1
  have hstill : ∀ op : Operation, op.Still → op.Quiet := fun _ h => h.1
  cases action with
  | addReservedPeer set p =>
    apply h.does ((does_onAddReservedPeer hs (hset set rfl) p).mono _) (hdrops (by simp))
    rintro op rfl
    exact ⟨by simp [Operation.connects], by simp [Operation.rates]⟩
  | removeReservedPeer set p =>
    exact h.does (does_onRemoveReservedPeer hs (hset set rfl) p) (hdrops (by simp))
  | setReservedPeers set peers =>
    exact h.does (does_onSetReservedPeers hs (hset set rfl) peers) (hdrops (by simp))
  | setReservedOnly set only =>
    exact h.does ((does_onSetReservedOnly hs (hset set rfl) only).mono hstill) (hdrops (by simp))
  | reportPeer p change => exact tolerated_onReportPeer h hs p change
  | addToPeersSet set p =>
    exact h.does ((does_addToPeersSet hs (hset set rfl) p).mono hstill) (hdrops (by simp))
  | removeFromPeersSet set p =>
    exact h.does ((does_onRemoveFromPeersSet hs (hset set rfl) p).mono hstill) (hdrops (by simp))
  | peerReputation p channel =>
    apply h.mono (hdrops (by simp))
    intro q hq
    simp only [onAction, onPeerReputation, reputation_peerReputation, id_eq]
    split
    · next heq => rwa [← heq]
    · exact hq
  | connectToPeer p => exact h

theorem tolerated_pollLoop (h : s.Tolerated) (hs : s.Sound) {actions : List Action}
    (ha : s.Pending actions) : (s.pollLoop order now actions).2.Tolerated :=
  pollLoop_invariant (C := fun _ _ => True)
    (fun _ _ ht hset _ htol => tolerated_onAction htol ht hset) (fun _ _ _ htol => htol) hs ha
    (handles_of_forall (fun _ _ => trivial) s actions) h

theorem tolerated_incoming (h : s.Tolerated) (hs : s.Sound) (hset : set < s.data.numSets)
    (p : PeerId) (index : IncomingIndex) : (s.incoming now set p index).Tolerated := by
  intro x hx
  rw [reputation_incoming]
  rcases (answers_incoming hs.accounted.sized hset now p index).answer with
    ⟨hq, -, hc⟩ | ⟨-, hc⟩ | ⟨-, -, hc⟩
  · rcases (hc x).mp hx with rfl | hx
    · exact (admitted_of_accept hs hset hq).reputation
    · exact le_reputTick_iterate (h x hx) _
  · exact le_reputTick_iterate (h x ((hc x).mp hx)) _
  · exact le_reputTick_iterate (h x ((hc x).mp hx)) _

theorem reputation_dropped (hs : s.Sound) (hset : set < s.data.numSets) (p : PeerId)
    (reason : DropReason) (q : PeerId) :
    (s.dropped now set p reason).data.reputation q =
      if q = p ∧ s.data.Connected (set, p) then
        saturatingAdd (reputTick^[s.secsDiff now] (s.data.reputation p)) disconnectReputationChange
      else reputTick^[s.secsDiff now] (s.data.reputation q) := by
  have htime : Does Fades s (s.updateTime? now) (s.updateTime now) := does_updateTime hs
  have hpen : Does Fades (s.updateTime now) _ ((s.updateTime now).penalize now set p) :=
    does_penalize htime.sound (htime.numSets hs ▸ hset) p
  have hset' : set < ((s.updateTime now).penalize now set p).data.numSets := by
    rw [hpen.numSets htime.sound, htime.numSets hs]
    exact hset
  have hremove : (s.dropped now set p reason).data.reputation q =
      ((s.updateTime now).penalize now set p).data.reputation q := by
    unfold dropped allocSlots
    dsimp only
    split
    · have hd : Does Operation.Still _ _
          (((s.updateTime now).penalize now set p).onRemoveFromPeersSet now set p) :=
        does_onRemoveFromPeersSet hpen.sound hset' p
      exact hd.issues.reputation (fun _ h => h.1.2) q
    · rfl
  have hconn : (s.updateTime now).data.peer set p = .connected ↔ s.data.Connected (set, p) :=
    peer_eq_connected.trans
      ((sameConnected_updateTime hs.accounted.sized now).connected (set, p))
  rw [hremove]
  unfold penalize
  by_cases hc : s.data.Connected (set, p)
  · have hmem : p ∈ (s.updateTime now).data.nodes :=
      mem_nodes_of_peer (by rw [hconn.mpr hc]; simp)
    rw [if_pos (hconn.mpr hc)]
    dsimp only
    rw [reputation_disconnect, reputation_addReputation hmem, reputation_updateTime,
      reputation_updateTime]
    simp [hc]
  · rw [if_neg (mt hconn.mp hc), reputation_updateTime]
    simp [hc]

/-- Whether a dropped connection leaves a banned peer connected is decided before. -/
theorem tolerated_dropped_iff (h : s.Tolerated) (hs : s.Sound) (hset : set < s.data.numSets)
    (p : PeerId) (reason : DropReason) :
    (s.dropped now set p reason).Tolerated ↔ s.Spares (.dropped now set p reason) := by
  have hforgets := forgets_dropped hs.accounted.sized now set p reason
  constructor
  · intro h' hc
    by_contra hnot
    simp only [not_or, not_forall, not_not] at hnot
    obtain ⟨hlow, set', hne, hc'⟩ := hnot
    have hstill : (s.dropped now set p reason).data.Connected (set', p) := by
      rw [hforgets.connected]
      exact ⟨hc', by simp [hne]⟩
    have hrep := h' _ hstill
    rw [reputation_dropped hs hset, if_pos ⟨rfl, hc⟩, le_saturatingAdd] at hrep
    exact hlow hrep
  · rintro hspares ⟨set', q⟩ hx
    obtain ⟨hold, hne⟩ := (hforgets.connected _).mp hx
    rw [reputation_dropped hs hset]
    split
    · next hq =>
      obtain ⟨rfl, hc⟩ := hq
      rw [le_saturatingAdd]
      refine (hspares hc).resolve_right fun hnone => hnone set' ?_ hold
      rintro rfl
      exact hne rfl
    · exact le_reputTick_iterate (h _ hold) _

/-- Nobody is connected who is banned, in every state of a run, if and only if no dropped
connection bans a peer that is connected in another set. -/
theorem tolerated_iff_spares (order : HashOrder) (now : Instant) (sets : List SetConfig)
    (events : List Event) :
    Always Step Tolerated (fromConfig order now sets) events ↔
      Along Step (fun s event _ => s.Spares event) (fromConfig order now sets) events := by
  apply always_iff_along_of (I := fun s => (s.Sound ∧ s.Pending s.rx) ∧ s.Tolerated)
  · rintro s event s' hstep ⟨hs, htol⟩ hspares
    refine ⟨(sound_step hstep hs).1, ?_⟩
    obtain ⟨hrange, rfl⟩ := hstep
    cases event with
    | send action => exact htol
    | incoming now set p index => exact tolerated_incoming htol hs.1 hrange p index
    | dropped now set p reason =>
      exact (tolerated_dropped_iff htol hs.1 hrange p reason).mpr hspares
    | poll order now => exact tolerated_pollLoop htol hs.1 hs.2
  · rintro s event s' ⟨hrange, rfl⟩ ⟨hs, htol⟩ htol'
    cases event with
    | dropped now set p reason => exact (tolerated_dropped_iff htol hs.1 hrange p reason).mp htol'
    | _ => trivial
  · exact fun s h => h.2
  · refine ⟨⟨sound_fromConfig order now sets, by simp [Pending, fromConfig]⟩, ?_⟩
    intro x hx
    exact absurd hx ((fromConfig_spec order now sets).2 x)

/-- A peer that is connected in two sets is reported down to the threshold, and then
closes one of its connections. -/
def closedAtThreshold (order : HashOrder) : List Event :=
  [.incoming 0 0 [7] 0, .incoming 0 1 [7] 1, .send (.reportPeer [7] bannedThreshold),
    .poll order 0, .poll order 0, .poll order 0, .dropped 0 0 [7] .unknown]

def twoSets : Peerset :=
  ⟨⟨∅, [⟨0, 0, 1, 1, ∅⟩, ⟨0, 0, 1, 1, ∅⟩]⟩, [(∅, false), (∅, false)], [], [], 0, 0, []⟩

theorem fromConfig_twoSets (order : HashOrder) :
    fromConfig order 0 [⟨1, 1, [], ∅, false⟩, ⟨1, 1, [], ∅, false⟩] = twoSets := by
  simp [fromConfig, initSets, order.enumerate_empty, PeersState.new, twoSets]

theorem not_tolerated_closedAtThreshold : ∃ order,
    ¬ Always Step Tolerated (fromConfig order 0 [⟨1, 1, [], ∅, false⟩, ⟨1, 1, [], ∅, false⟩])
      (closedAtThreshold order) := by
  let order : HashOrder := ⟨Finset.toList, Finset.nodup_toList, fun _ _ => Finset.mem_toList⟩
  refine ⟨order, ?_⟩
  rw [fromConfig_twoSets]
  intro h
  have hrange : Checks next InRange twoSets (closedAtThreshold order) := by decide +kernel
  -- the other connection of the banned peer is still open
  have hbanned := h _ _ (List.prefix_refl _) (hrange.run fun _ _ h => ⟨h, rfl⟩) (1, [7])
    (by decide +kernel)
  revert hbanned
  decide +kernel

end Tolerance

end Peerset

end SwarmHost.Substrate
