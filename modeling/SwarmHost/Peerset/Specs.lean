import SwarmHost.Peerset.Checks

/-! # What the peerset does to its table

Every function of the peerset is a sequence of operations on the table, each of
them allowed where it is made, and passes its checks. The nodes that occupy no
slots stay those that are reserved.
-/

namespace SwarmHost.Substrate

/-- A loop whose steps pass the checks passes them, as long as a condition holds that the steps
keep. -/
theorem foldlM_eq_some {σ α : Type*} {f? : σ → α → Option σ} {f : σ → α → σ} {I : σ → Prop}
    {l : List α} (hf : ∀ s, I s → ∀ a ∈ l, f? s a = some (f s a) ∧ I (f s a)) {s : σ} (hs : I s) :
    l.foldlM f? s = some (l.foldl f s) ∧ I (l.foldl f s) := by
  induction l generalizing s with
  | nil => exact ⟨rfl, hs⟩
  | cons a l ih =>
    obtain ⟨heq, hI⟩ := hf s hs a List.mem_cons_self
    rw [List.foldlM_cons, heq]
    exact ih (fun s hs b hb => hf s hs b (List.mem_cons_of_mem _ hb)) hI

namespace Peerset

/-- The table is right, and the nodes that occupy no slots are those that are reserved. -/
structure Sound (s : Peerset) : Prop where
  accounted : s.data.Accounted
  length : s.reservedNodes.length = s.data.numSets
  sync : ∀ set < s.data.numSets, (s.data.setInfo set).noSlotNodes = s.reserved set

/-- The function passes the checks, does operations of a kind and keeps the state sound. -/
structure Does (P : PeersState.Operation → Prop) (s : Peerset) (s? : Option Peerset)
    (s' : Peerset) : Prop where
  checked : s? = some s'
  issues : s.data.Issues P s'.data
  sound : s'.Sound

section Specs

open PeersState

variable {order : HashOrder} {now : Instant} {s s' s'' : Peerset} {set : SetId} {p : PeerId}
  {P Q : Operation → Prop}

theorem Sound.keep (h : s.Sound) (hissues : s.data.Issues P s'.data)
    (hP : ∀ op, P op → ¬ op.regroups) (hlength : s'.reservedNodes.length = s.reservedNodes.length)
    (hreserved : ∀ set, s'.reserved set = s.reserved set) : s'.Sound := by
  have hnum := hissues.numSets h.accounted.sized
  refine ⟨hissues.accounted h.accounted, ?_, ?_⟩
  · rw [hlength, h.length, hnum]
  · intro set hset
    rw [hissues.noSlotNodes hP, hreserved]
    exact h.sync set (hnum ▸ hset)

theorem Does.refl (h : s.Sound) : Does P s (some s) s := ⟨rfl, .refl _, h⟩

theorem Does.mono {s? : Option Peerset} (h : Does P s s? s') (hPQ : ∀ op, P op → Q op) :
    Does Q s s? s' :=
  ⟨h.checked, h.issues.mono hPQ, h.sound⟩

theorem Does.bind {s? : Option Peerset} {f? : Peerset → Option Peerset} (h : Does P s s? s')
    (h' : Does P s' (f? s') s'') : Does P s (s?.bind f?) s'' := by
  refine ⟨?_, h.issues.trans h'.issues, h'.sound⟩
  rw [h.checked]
  exact h'.checked

theorem Does.numSets {s? : Option Peerset} (h : Does P s s? s') (hs : s.Sound) :
    s'.data.numSets = s.data.numSets :=
  h.issues.numSets hs.accounted.sized

/-- A loop does what its steps do. -/
theorem does_foldl {α : Type*} {f? : Peerset → α → Option Peerset} {f : Peerset → α → Peerset}
    {l : List α} (hs : s.Sound)
    (hf : ∀ t : Peerset, t.Sound → t.data.numSets = s.data.numSets → ∀ a ∈ l,
      Does P t (f? t a) (f t a)) : Does P s (l.foldlM f? s) (l.foldl f s) := by
  obtain ⟨hchecked, hsound, -, hissues⟩ := foldlM_eq_some
    (I := fun t : Peerset =>
      t.Sound ∧ t.data.numSets = s.data.numSets ∧ s.data.Issues P t.data)
    (fun t ⟨ht, hnum, hissues⟩ a ha => by
      have h := hf t ht hnum a ha
      exact ⟨h.checked, h.sound, (h.numSets ht).trans hnum, hissues.trans h.issues⟩)
    ⟨hs, rfl, .refl _⟩
  exact ⟨hchecked, hissues, hsound⟩

theorem does_disconnectAndDrop (now : Instant) (hs : s.Sound) (hset : set < s.data.numSets)
    (hc : s.data.Connected (set, p)) :
    Does (· = .disconnect set p now) s (s.disconnectAndDrop? now set p)
      (s.disconnectAndDrop now set p) := by
  have hallowed : s.data.Allowed (.disconnect set p now) := ⟨hset, peer_eq_connected.mpr hc⟩
  have hissues : s.data.Issues (· = .disconnect set p now) (s.data.disconnect set p now) :=
    .single hallowed rfl
  have hsound : (s.disconnectAndDrop now set p).Sound := by
    refine hs.keep hissues ?_ rfl fun _ => rfl
    rintro op rfl
    simp [Operation.regroups]
  refine ⟨?_, hissues, hsound⟩
  rw [disconnectAndDrop?, disconnect?_eq hs.accounted hset hc]
  rfl

theorem reserved_modify {f : Finset PeerId × Bool → Finset PeerId × Bool}
    (hset : set < s.reservedNodes.length) (set' : SetId) :
    (s.reservedNodes.modify set f).getD set' (∅, false) =
      if set' = set then f (s.reservedNodes.getD set (∅, false))
      else s.reservedNodes.getD set' (∅, false) := by
  simp only [List.getD_eq_getElem?_getD, List.getElem?_modify]
  by_cases h : set' = set
  · subst h
    obtain ⟨r, hr⟩ : ∃ r, s.reservedNodes[set']? = some r := ⟨_, List.getElem?_eq_getElem hset⟩
    simp [hr]
  · simp [h, Ne.symm h]

theorem does_onAddReservedPeer (hs : s.Sound) (hset : set < s.data.numSets) (p : PeerId) :
    Does (· = .addNoSlotNode set p) s (s.onAddReservedPeer? set p) (s.onAddReservedPeer set p) := by
  unfold onAddReservedPeer? onAddReservedPeer
  split
  · exact .refl hs
  · next hp =>
    have hallowed : s.data.Allowed (.addNoSlotNode set p) := hset
    have hissues : s.data.Issues (· = .addNoSlotNode set p) (s.data.addNoSlotNode set p) :=
      .single hallowed rfl
    have hnum := hissues.numSets hs.accounted.sized
    refine ⟨?_, hissues, hissues.accounted hs.accounted, ?_, ?_⟩
    · rw [addNoSlotNode?_eq hs.accounted hset]
      rfl
    · simp only [allocSlots, List.length_modify]
      rw [hs.length, hnum]
    · intro set' hset'
      have hlt : set' < s.data.numSets := hnum ▸ hset'
      have hsync := hs.sync set' hlt
      have hno : p ∉ (s.data.setInfo set).noSlotNodes := by rwa [hs.sync set hset]
      simp only [allocSlots, reserved, reserved_modify (hs.length ▸ hset)]
      rw [addNoSlotNode, if_neg (by simpa [noSlot] using hno)]
      rw [field_adjustSlots SetInfo.noSlotNodes (fun _ _ => rfl) (fun _ _ => rfl),
        setInfo_modifySet hset]
      by_cases h : set' = set
      · subst h
        simp only [if_true]
        rw [hsync]
        rfl
      · rw [if_neg h, if_neg h]
        exact hsync

theorem still_disconnect {op : Operation} (h : op = .disconnect set p now) : op.Still := by
  subst h
  exact ⟨⟨by simp [Operation.connects], by simp [Operation.rates]⟩, by simp [Operation.regroups]⟩

theorem does_onRemoveReservedPeer (hs : s.Sound) (hset : set < s.data.numSets) (p : PeerId) :
    Does Operation.Quiet s (s.onRemoveReservedPeer? now set p)
      (s.onRemoveReservedPeer now set p) := by
  unfold onRemoveReservedPeer? onRemoveReservedPeer
  split
  · next hp =>
    dsimp only
    have hallowed : s.data.Allowed (.removeNoSlotNode set p) := hset
    have hissues : s.data.Issues Operation.Quiet (s.data.removeNoSlotNode set p) :=
      .single hallowed ⟨by simp [Operation.connects], by simp [Operation.rates]⟩
    have hnum := hissues.numSets hs.accounted.sized
    have hsound : Sound { s with
        reservedNodes := s.reservedNodes.modify set fun r => (r.1.erase p, r.2)
        data := s.data.removeNoSlotNode set p } := by
      refine ⟨hissues.accounted hs.accounted, ?_, ?_⟩
      · dsimp only
        rw [List.length_modify, hs.length, hnum]
      · intro set' hset'
        have hlt : set' < s.data.numSets := hnum ▸ hset'
        have hsync := hs.sync set' hlt
        have hno : p ∈ (s.data.setInfo set).noSlotNodes := by rwa [hs.sync set hset]
        simp only [reserved, reserved_modify (hs.length ▸ hset)]
        rw [removeNoSlotNode, if_pos (by simpa [noSlot] using hno)]
        rw [field_adjustSlots SetInfo.noSlotNodes (fun _ _ => rfl) (fun _ _ => rfl),
          setInfo_modifySet hset]
        by_cases h : set' = set
        · subst h
          simp only [if_true]
          rw [hsync]
          rfl
        · rw [if_neg h, if_neg h]
          exact hsync
    split
    · next hc =>
      have hdrop := does_disconnectAndDrop now hsound (hnum ▸ hset)
        (peer_eq_connected.mp hc.2)
      exact ⟨hdrop.checked, hissues.trans (hdrop.issues.mono fun _ h => (still_disconnect h).1),
        hdrop.sound⟩
    · exact ⟨rfl, hissues, hsound⟩
  · exact .refl hs

theorem does_onSetReservedPeers (hs : s.Sound) (hset : set < s.data.numSets)
    (peers : Finset PeerId) :
    Does Operation.Quiet s (s.onSetReservedPeers? order now set peers)
      (s.onSetReservedPeers order now set peers) := by
  have hadd := does_foldl (P := Operation.Quiet) (l := order.enumerate (peers \ s.reserved set)) hs
    fun t ht hnum a _ => (does_onAddReservedPeer ht (hnum ▸ hset) a).mono (Q := Operation.Quiet) (by
      rintro op rfl
      exact ⟨by simp [Operation.connects], by simp [Operation.rates]⟩)
  refine hadd.bind (does_foldl hadd.sound fun t ht hnum a _ => ?_)
  apply does_onRemoveReservedPeer ht
  rw [hnum, hadd.numSets hs]
  exact hset

theorem reserved_flag (hlen : set < s.reservedNodes.length) (reservedOnly : Bool) (set' : SetId) :
    reserved { s with reservedNodes := s.reservedNodes.modify set fun r => (r.1, reservedOnly) }
      set' = s.reserved set' := by
  simp only [reserved, reserved_modify hlen]
  split
  · next h => rw [h]
  · rfl

theorem Sound.flag (hs : s.Sound) (hset : set < s.data.numSets) (reservedOnly : Bool) :
    Sound { s with
      reservedNodes := s.reservedNodes.modify set fun r => (r.1, reservedOnly) } := by
  refine ⟨hs.accounted, ?_, ?_⟩
  · dsimp only
    rw [List.length_modify, hs.length]
  · intro set' hset'
    rw [reserved_flag (hs.length ▸ hset)]
    exact hs.sync set' hset'

theorem does_unreserved (now : Instant) (hs : s.Sound) (hset : set < s.data.numSets)
    {l : List PeerId}
    (hnd : l.Nodup) (hl : ∀ p ∈ l, s.data.Connected (set, p)) :
    Does Operation.Still s
      (l.foldlM (fun (s : Peerset) p => if p ∈ s.reserved set then some s
        else if s.data.peer set p = .connected then s.disconnectAndDrop? now set p else none) s)
      (l.foldl (fun s p =>
        if p ∈ s.reserved set then s else s.disconnectAndDrop now set p) s) := by
  induction l generalizing s with
  | nil => exact .refl hs
  | cons p l ih =>
    obtain ⟨hp, hnd⟩ := List.nodup_cons.mp hnd
    rw [List.foldlM_cons, List.foldl_cons]
    by_cases hr : p ∈ s.reserved set
    · rw [if_pos hr, if_pos hr]
      exact ih hs hset hnd fun q hq => hl q (List.mem_cons_of_mem _ hq)
    · have hc := hl p List.mem_cons_self
      rw [if_neg hr, if_neg hr, if_pos (peer_eq_connected.mpr hc)]
      have h := does_disconnectAndDrop now hs hset hc
      have hdrops := drops_disconnectAndDrop hs.accounted.sized hc now
      refine (h.mono fun _ => still_disconnect).bind (ih h.sound (h.numSets hs ▸ hset) hnd ?_)
      intro q hq
      rw [hdrops.connected]
      refine ⟨hl q (List.mem_cons_of_mem _ hq), ?_⟩
      simp only [List.mem_singleton, Prod.mk.injEq, true_and]
      rintro rfl
      exact hp hq

theorem does_onSetReservedOnly (hs : s.Sound) (hset : set < s.data.numSets)
    (reservedOnly : Bool) :
    Does Operation.Still s (s.onSetReservedOnly? order now set reservedOnly)
      (s.onSetReservedOnly order now set reservedOnly) := by
  have hsound := hs.flag hset reservedOnly
  unfold onSetReservedOnly? onSetReservedOnly
  dsimp only
  split
  · have hall := connected_of_enumerate s.data order set
    have h := does_unreserved now hsound hset (order.nodup _) hall
    exact ⟨h.checked, h.issues, h.sound⟩
  · exact ⟨rfl, .refl _, hsound⟩

/-- An operation that regroups nothing, after which the peerset is otherwise the same. -/
theorem Sound.with_data (hs : s.Sound) {data : PeersState} (h : s.data.Issues P data)
    (hP : ∀ op, P op → ¬ op.regroups) (hd : s'.data = data)
    (hr : s'.reservedNodes = s.reservedNodes) : s'.Sound := by
  subst hd
  exact hs.keep h hP (congrArg List.length hr) fun set => by rw [reserved, reserved, hr]

theorem Operation.still_forgetPeer (set : SetId) (p : PeerId) :
    (Operation.forgetPeer set p).Still :=
  ⟨⟨by simp [Operation.connects], by simp [Operation.rates]⟩, by simp [Operation.regroups]⟩

theorem does_addToPeersSet (hs : s.Sound) (hset : set < s.data.numSets) (p : PeerId) :
    Does Operation.Still s (some (s.addToPeersSet now set p)) (s.addToPeersSet now set p) := by
  unfold addToPeersSet allocSlots
  split
  · next hp =>
    have hallowed : s.data.Allowed (.discover set p now) := ⟨hset, hp⟩
    have hissues : s.data.Issues Operation.Still (s.data.discover set p now) :=
      .single hallowed ⟨⟨by simp [Operation.connects], by simp [Operation.rates]⟩,
        by simp [Operation.regroups]⟩
    exact ⟨rfl, hissues,
      hs.with_data hissues (fun _ h => h.2) rfl rfl⟩
  · exact .refl hs

theorem does_onRemoveFromPeersSet (hs : s.Sound) (hset : set < s.data.numSets) (p : PeerId) :
    Does Operation.Still s (s.onRemoveFromPeersSet? now set p)
      (s.onRemoveFromPeersSet now set p) := by
  unfold onRemoveFromPeersSet? onRemoveFromPeersSet
  split
  · exact .refl hs
  · cases hp : s.data.peer set p with
    | connected =>
      have hc := peer_eq_connected.mp hp
      have hallowed : s.data.Allowed (.disconnect set p now) := ⟨hset, hp⟩
      have hacc := accounted_exec hs.accounted hallowed
      have hmove := moves_disconnect hs.accounted.sized hset hc.member now
      have hallowed' : (s.data.disconnect set p now).Allowed (.forgetPeer set p) := by
        refine ⟨hmove.numSets ▸ hset, ?_⟩
        simp [PeersState.peer, hmove.membership]
      have hissues : s.data.Issues Operation.Still
          ((s.data.disconnect set p now).forgetPeer set p) :=
        (Issues.single hallowed (still_disconnect rfl)).trans
          (.single hallowed' (Operation.still_forgetPeer set p))
      refine ⟨?_, hissues, hs.with_data hissues (fun _ h => h.2) rfl rfl⟩
      have hforget : (s.data.disconnect set p now).forgetPeer? set p = some _ :=
        exec?_eq hacc hallowed'
      dsimp only
      rw [disconnect?_eq hs.accounted hset hc, Option.bind_some, hforget]
      rfl
    | notConnected =>
      have hallowed : s.data.Allowed (.forgetPeer set p) := ⟨hset, hp⟩
      have hissues : s.data.Issues Operation.Still
          (s.data.forgetPeer set p) := .single hallowed (Operation.still_forgetPeer set p)
      refine ⟨?_, hissues, hs.with_data hissues (fun _ h => h.2) rfl rfl⟩
      have hforget : s.data.forgetPeer? set p = some _ := exec?_eq hs.accounted hallowed
      dsimp only
      rw [hforget]
      rfl
    | unknown => exact .refl hs

/-- A loop on the table does what its steps do. -/
theorem issues_foldl {α : Type*} {f? : PeersState → α → Option PeersState}
    {f : PeersState → α → PeersState} {d : PeersState} {l : List α} (hd : d.Accounted)
    (hf : ∀ e : PeersState, e.Accounted → e.numSets = d.numSets → ∀ a ∈ l,
      f? e a = some (f e a) ∧ e.Issues P (f e a)) :
    l.foldlM f? d = some (l.foldl f d) ∧ d.Issues P (l.foldl f d) := by
  obtain ⟨hchecked, hissues⟩ := foldlM_eq_some (I := fun e => d.Issues P e)
    (fun e he a ha => by
      obtain ⟨h, h'⟩ := hf e (he.accounted hd) (he.numSets hd.sized) a ha
      exact ⟨h, he.trans h'⟩)
    (.refl d)
  exact ⟨hchecked, hissues⟩

/-- Reputations fade, and peers without one are forgotten. -/
def Fades (op : Operation) : Prop := ¬ op.connects ∧ ¬ op.regroups

theorem Fades.of_still {op : Operation} (h : op.Still) : Fades op := ⟨h.1.1, h.2⟩

theorem issues_forgetOld (now : Instant) {d : PeersState} (hd : d.Accounted) (p : PeerId) :
    forgetOld? now d p = some (forgetOld now d p) ∧ d.Issues Fades (forgetOld now d p) := by
  apply issues_foldl hd
  intro e he hnum set hset
  rw [← hnum, List.mem_range] at hset
  cases hm : e.membership set p with
  | notConnected last =>
    dsimp only
    split
    · have hallowed : e.Allowed (.forgetPeer set p) := ⟨hset, by simp [PeersState.peer, hm]⟩
      have hforget : e.forgetPeer? set p = some _ := exec?_eq he hallowed
      have hquiet := Operation.still_forgetPeer set p
      exact ⟨hforget, .single hallowed ⟨hquiet.1.1, hquiet.2⟩⟩
    · exact ⟨rfl, .refl e⟩
  | _ => exact ⟨rfl, .refl e⟩

theorem issues_peerReputation (d : PeersState) (p : PeerId) (f : ℤ → ℤ) :
    d.Issues Fades (d.peerReputation p f) := by
  have hallowed : d.Allowed (.peerReputation p f) := trivial
  exact .single hallowed ⟨by simp [Operation.connects], by simp [Operation.regroups]⟩

theorem issues_fade (now : Instant) {d : PeersState} (hd : d.Accounted) (p : PeerId) :
    fade? now d p = some (fade now d p) ∧ d.Issues Fades (fade now d p) := by
  have hrep := issues_peerReputation d p fun _ => reputTick (d.reputation p)
  unfold fade? fade
  dsimp only
  split
  · exact ⟨rfl, hrep⟩
  · obtain ⟨hchecked, hissues⟩ := issues_forgetOld now (hrep.accounted hd) p
    exact ⟨hchecked, hrep.trans hissues⟩

theorem foldl_range_iterate {α : Type*} (f : α → α) (n : ℕ) (a : α) :
    (List.range n).foldl (fun a _ => f a) a = f^[n] a := by
  induction n with
  | zero => rfl
  | succ n ih =>
    rw [List.range_succ, List.foldl_append, ih, Function.iterate_succ_apply']
    rfl

theorem does_updateTime (hs : s.Sound) : Does Fades s (s.updateTime? now) (s.updateTime now) := by
  obtain ⟨hchecked, hissues⟩ : (List.range (s.secsDiff now)).foldlM (fun (data : PeersState) _ =>
      data.nodes.keys.foldlM (fade? now) data) s.data = some ((List.range (s.secsDiff now)).foldl
        (fun data _ => data.nodes.keys.foldl (fade now) data) s.data) ∧ s.data.Issues Fades _ :=
    issues_foldl hs.accounted fun e he _ _ _ =>
      issues_foldl he fun e he _ p _ => issues_fade now he p
  rw [foldl_range_iterate] at hchecked hissues
  refine ⟨?_, hissues, hs.with_data hissues (fun _ h => h.2) rfl rfl⟩
  rw [updateTime?, hchecked]
  rfl

theorem Does.after {s? : Option Peerset} (h : s.data.Issues P s'.data) (h' : Does P s' s? s'') :
    Does P s s? s'' :=
  ⟨h'.checked, h.trans h'.issues, h'.sound⟩

theorem does_disconnectAll (now : Instant) (hs : s.Sound) (p : PeerId) {l : List SetId}
    (hl : ∀ set ∈ l, set < s.data.numSets) :
    Does Operation.Still s
      (l.foldlM (fun (s : Peerset) set =>
        if s.data.peer set p = .connected then s.disconnectAndDrop? now set p else some s) s)
      (l.foldl (fun s set =>
        if s.data.peer set p = .connected then (s.disconnectAndDrop now set p).allocSlots set
        else s) s) := by
  apply does_foldl hs
  intro t ht hnum set hset
  unfold allocSlots
  split
  · next hp =>
    have h := does_disconnectAndDrop now ht (hnum ▸ hl set hset) (peer_eq_connected.mp hp)
    exact h.mono fun _ => still_disconnect
  · exact .refl ht

theorem Sound.peerReputation (hs : s.Sound) (p : PeerId) (f : ℤ → ℤ) :
    Sound { s with data := s.data.peerReputation p f } :=
  hs.with_data (issues_peerReputation s.data p f) (fun _ h => h.2) rfl rfl

theorem does_onReportPeer (hs : s.Sound) (p : PeerId) (change : ℤ) :
    Does Fades s (s.onReportPeer? now p change) (s.onReportPeer now p change) := by
  have htime : Does Fades s (s.updateTime? now) (s.updateTime now) := does_updateTime hs
  refine htime.bind ?_
  have hrep := issues_peerReputation (s.updateTime now).data p fun _ =>
    saturatingAdd ((s.updateTime now).data.reputation p) change
  have hsound := htime.sound.peerReputation p fun _ =>
    saturatingAdd ((s.updateTime now).data.reputation p) change
  unfold onReportPeer
  dsimp only
  split
  · exact ⟨rfl, hrep, hsound⟩
  · have hloop := does_disconnectAll now hsound p fun set => List.mem_range.mp
    exact .after hrep (hloop.mono fun _ => Fades.of_still)

theorem does_onAction (hs : s.Sound) {action : Action}
    (hset : ∀ set ∈ action.set?, set < s.data.numSets) :
    Does (¬ ·.connects) s (s.onAction? order now action) (s.onAction order now action) := by
  have hquiet : ∀ op : Operation, op.Quiet → ¬ op.connects := fun _ h => h.1
  have hstill : ∀ op : Operation, op.Still → ¬ op.connects := fun _ h => h.1.1
  cases action with
  | addReservedPeer set p =>
    apply (does_onAddReservedPeer hs (hset set rfl) p).mono
    rintro op rfl
    simp [Operation.connects]
  | removeReservedPeer set p => exact (does_onRemoveReservedPeer hs (hset set rfl) p).mono hquiet
  | setReservedPeers set peers =>
    exact (does_onSetReservedPeers hs (hset set rfl) peers).mono hquiet
  | setReservedOnly set only => exact (does_onSetReservedOnly hs (hset set rfl) only).mono hstill
  | reportPeer p change => exact (does_onReportPeer hs p change).mono fun _ h => h.1
  | addToPeersSet set p => exact (does_addToPeersSet hs (hset set rfl) p).mono hstill
  | removeFromPeersSet set p => exact (does_onRemoveFromPeersSet hs (hset set rfl) p).mono hstill
  | peerReputation p channel =>
    have hissues := issues_peerReputation s.data p id
    exact ⟨rfl, hissues.mono fun _ h => h.1, hs.with_data hissues (fun _ h => h.2) rfl rfl⟩
  | connectToPeer p => exact ⟨rfl, .refl _, hs.accounted, hs.length, hs.sync⟩

/-- Only the answer to an incoming connection connects, and never outwards. -/
def Answering (op : Operation) : Prop := ¬ op.regroups ∧ ∀ set p, op ≠ .tryOutgoing set p

theorem Answering.of_fades {op : Operation} (h : Fades op) : Answering op := by
  refine ⟨h.2, ?_⟩
  rintro set p rfl
  exact h.1 rfl

theorem issues_enter {d : PeersState} (hset : set < d.numSets) (hc : ¬ d.Connected (set, p)) :
    d.Issues Answering (enter now set p d) := by
  unfold enter
  split
  · next hp =>
    have hallowed : d.Allowed (.discover set p now) := ⟨hset, hp⟩
    exact .single hallowed ⟨by simp [Operation.regroups], by simp⟩
  · next hp =>
    have hpeer : d.peer set p = .notConnected := by
      cases h : d.peer set p with
      | connected => exact absurd (peer_eq_connected.mp h) hc
      | notConnected => rfl
      | unknown => exact absurd h hp
    have hallowed : d.Allowed (.bumpLastConnectedOrDiscovered set p now) := ⟨hset, hpeer⟩
    exact .single hallowed ⟨by simp [Operation.regroups], by simp⟩

theorem does_answer (hs : s.Sound) (hset : set < s.data.numSets)
    (hp : s.data.peer set p = .notConnected) (index : IncomingIndex) :
    Does Answering s (s.answer? set p index) (s.answer set p index) := by
  have hpush : ∀ m, (s.push m).Sound := fun _ => ⟨hs.accounted, hs.length, hs.sync⟩
  unfold answer? answer
  split
  · exact ⟨rfl, .refl _, hpush _⟩
  · have hallowed : s.data.Allowed (.tryAcceptIncoming set p) := ⟨hset, hp⟩
    have hissues : s.data.Issues Answering (s.data.tryAcceptIncoming set p).2 :=
      .single hallowed ⟨by simp [Operation.regroups], by simp⟩
    have hchecked : s.data.tryAcceptIncoming? set p = some (s.data.tryAcceptIncoming set p) := by
      have hmem : p ∈ s.data.nodes := mem_nodes_of_peer (by rw [hp]; simp)
      simp [tryAcceptIncoming?, hmem]
    rw [hchecked]
    rcases htry : s.data.tryAcceptIncoming set p with ⟨_ | _, data⟩ <;> rw [htry] at hissues
    · exact ⟨rfl, hissues, hs.with_data hissues (fun _ h => h.1) rfl rfl⟩
    · exact ⟨rfl, hissues, hs.with_data hissues (fun _ h => h.1) rfl rfl⟩

theorem does_incoming (hs : s.Sound) (hset : set < s.data.numSets) (p : PeerId)
    (index : IncomingIndex) :
    Does Answering s (s.incoming? now set p index) (s.incoming now set p index) := by
  have htime : Does Fades s (s.updateTime? now) (s.updateTime now) := does_updateTime hs
  have hnum := htime.numSets hs
  refine (htime.mono fun _ => Answering.of_fades).bind ?_
  have hs' := htime.sound
  unfold incoming
  dsimp only
  split
  · exact ⟨rfl, .refl _, hs'.accounted, hs'.length, hs'.sync⟩
  · split
    · exact .refl hs'
    · next hp =>
      have hc : ¬ (s.updateTime now).data.Connected (set, p) := mt peer_eq_connected.mpr hp
      have hissues : (s.updateTime now).data.Issues Answering
          (enter now set p (s.updateTime now).data) := issues_enter (hnum ▸ hset) hc
      have hmoves := moves_enter hs'.accounted.sized (hnum ▸ hset) hc now
      have hsound : Sound { s.updateTime now with
          data := enter now set p (s.updateTime now).data } :=
        hs'.with_data hissues (fun _ h => h.1) rfl rfl
      refine .after hissues (does_answer hsound ?_ ?_ index)
      · exact hmoves.numSets.symm ▸ hnum ▸ hset
      · simp [PeersState.peer, hmoves.membership]

theorem does_penalize (hs : s.Sound) (hset : set < s.data.numSets) (p : PeerId) :
    Does Fades s (s.penalize? now set p) (s.penalize now set p) := by
  unfold penalize? penalize
  split
  · next hp =>
    have hallowed : s.data.Allowed (.addReputation set p disconnectReputationChange) := ⟨hset, hp⟩
    have hacc := accounted_exec hs.accounted hallowed
    have hsame := sameMembers_addReputation hs.accounted.sized p disconnectReputationChange
    have hallowed' : (s.data.addReputation p disconnectReputationChange).Allowed
        (.disconnect set p now) := by
      refine ⟨hsame.numSets ▸ hset, ?_⟩
      rw [← hp, PeersState.peer, hsame.membership, PeersState.peer]
    have hissues : s.data.Issues Fades
        ((s.data.addReputation p disconnectReputationChange).disconnect set p now) :=
      (Issues.single hallowed ⟨by simp [Operation.connects], by simp [Operation.regroups]⟩).trans
        (.single hallowed' ⟨by simp [Operation.connects], by simp [Operation.regroups]⟩)
    refine ⟨?_, hissues, hs.with_data hissues (fun _ h => h.2) rfl rfl⟩
    have hrep : s.data.addReputation? p disconnectReputationChange = some _ :=
      exec?_eq hs.accounted hallowed
    have hdisconnect : (s.data.addReputation p disconnectReputationChange).disconnect? set p now =
        some _ := exec?_eq hacc hallowed'
    rw [hrep, Option.bind_some]
    exact congrArg (Option.map _) hdisconnect
  · exact .refl hs

theorem does_dropped (hs : s.Sound) (hset : set < s.data.numSets) (p : PeerId)
    (reason : DropReason) :
    Does Fades s (s.dropped? now set p reason) (s.dropped now set p reason) := by
  have htime : Does Fades s (s.updateTime? now) (s.updateTime now) := does_updateTime hs
  have hnum := htime.numSets hs
  have hpen : Does Fades s ((s.updateTime? now).bind (·.penalize? now set p))
      ((s.updateTime now).penalize now set p) :=
    htime.bind (does_penalize htime.sound (hnum ▸ hset) p)
  refine hpen.bind ?_
  unfold dropped allocSlots
  dsimp only
  split
  · have hlt := hpen.numSets hs ▸ hset
    exact (does_onRemoveFromPeersSet hpen.sound hlt p).mono fun _ => Fades.of_still
  · exact .refl hpen.sound

/-- The actions that wait name sets that exist. -/
def Pending (s : Peerset) (actions : List Action) : Prop :=
  ∀ a ∈ actions, ∀ set ∈ a.set?, set < s.data.numSets

theorem does_pollLoop (order : HashOrder) (now : Instant) (hs : s.Sound) {actions : List Action}
    (ha : s.Pending actions) :
    s.pollLoop? order now actions = some (s.pollLoop order now actions) ∧
      s.data.Issues (¬ ·.connects) (s.pollLoop order now actions).2.data ∧
      (s.pollLoop order now actions).2.Sound ∧
      (s.pollLoop order now actions).2.Pending (s.pollLoop order now actions).2.rx := by
  induction actions generalizing s with
  | nil =>
    unfold pollLoop? pollLoop
    cases s.messageQueue with
    | nil | cons => exact ⟨rfl, .refl _, ⟨hs.accounted, hs.length, hs.sync⟩, by simp [Pending]⟩
  | cons action actions ih =>
    unfold pollLoop? pollLoop
    cases s.messageQueue with
    | nil =>
      have h : Does (¬ ·.connects) s (s.onAction? order now action) (s.onAction order now action) :=
        does_onAction hs (ha action List.mem_cons_self)
      have ha' : (s.onAction order now action).Pending actions := by
        intro a hmem
        rw [h.numSets hs]
        exact ha a (List.mem_cons_of_mem _ hmem)
      obtain ⟨hchecked, hissues, hsound, hpending⟩ := ih h.sound ha'
      refine ⟨?_, h.issues.trans hissues, hsound, hpending⟩
      dsimp only
      rw [h.checked]
      exact hchecked
    | cons message queue => exact ⟨rfl, .refl _, ⟨hs.accounted, hs.length, hs.sync⟩, ha⟩

/-- A condition on the actions that are handled before there is a message to emit, each in the state
in which it is handled. -/
def Handles (order : HashOrder) (now : Instant) (C : Peerset → Action → Prop) :
    Peerset → List Action → Prop
  | _, [] => True
  | s, action :: actions =>
    s.messageQueue = [] → C s action ∧ Handles order now C (s.onAction order now action) actions

instance Handles.decidable {C : Peerset → Action → Prop} [∀ s action, Decidable (C s action)]
    (s : Peerset) (actions : List Action) : Decidable (Handles order now C s actions) := by
  induction actions generalizing s with
  | nil => exact .isTrue trivial
  | cons action actions ih =>
    have := ih (s.onAction order now action)
    unfold Handles
    infer_instance

theorem handles_of_forall {C : Peerset → Action → Prop} (hC : ∀ s action, C s action) (s : Peerset)
    (actions : List Action) : Handles order now C s actions := by
  induction actions generalizing s with
  | nil => trivial
  | cons action actions ih => exact fun _ => ⟨hC s action, ih _⟩

theorem pollLoop_invariant {I : Peerset → Prop} {C : Peerset → Action → Prop}
    (haction : ∀ (t : Peerset) action, t.Sound → (∀ set ∈ action.set?, set < t.data.numSets) →
      C t action → I t → I (t.onAction order now action))
    (hframe : ∀ (t : Peerset) rx queue, I t → I { t with rx := rx, messageQueue := queue })
    (hs : s.Sound) {actions : List Action} (ha : s.Pending actions)
    (hC : Handles order now C s actions) (h : I s) : I (s.pollLoop order now actions).2 := by
  induction actions generalizing s with
  | nil =>
    unfold pollLoop
    split <;> exact hframe s [] _ h
  | cons action actions ih =>
    unfold pollLoop
    split
    · next hq =>
      have hset := ha action List.mem_cons_self
      have hd :
          Does (¬ ·.connects) s (s.onAction? order now action) (s.onAction order now action) :=
        does_onAction hs hset
      obtain ⟨hc, hrest⟩ := hC hq
      refine ih hd.sound ?_ hrest (haction s action hs hset hc h)
      intro a hmem
      rw [hd.numSets hs]
      exact ha a (List.mem_cons_of_mem _ hmem)
    · exact hframe s _ _ h

/-- The initial state, with the reserved nodes and the bootnodes entered. -/
theorem does_initSets {sets : List SetConfig} {d : PeersState} (hd : d.Accounted) {set : ℕ}
    (hlen : set + sets.length = d.numSets) :
    initSets? order now d set sets = some (initSets order now d set sets) ∧
      d.Issues (¬ ·.connects) (initSets order now d set sets) := by
  induction sets generalizing d set with
  | nil => exact ⟨rfl, .refl d⟩
  | cons config sets ih =>
    rw [List.length_cons] at hlen
    have hset : set < d.numSets := by omega
    obtain ⟨hchecked, hslots⟩ : (order.enumerate config.reservedNodes).foldlM
        (fun (data : PeersState) p => data.addNoSlotNode? set p) d =
        some ((order.enumerate config.reservedNodes).foldl (·.addNoSlotNode set) d) ∧
        d.Issues (¬ ·.connects) _ := by
      apply issues_foldl hd
      intro e he hnum p _
      have hallowed : e.Allowed (.addNoSlotNode set p) := by
        rw [← hnum] at hset
        exact hset
      exact ⟨exec?_eq he hallowed, .single hallowed (by simp [Operation.connects])⟩
    have hboot : Issues (¬ ·.connects)
        ((order.enumerate config.reservedNodes).foldl (·.addNoSlotNode set) d)
        (config.bootnodes.foldl (fun data p =>
          if data.peer set p = .unknown then data.discover set p now else data)
          ((order.enumerate config.reservedNodes).foldl (·.addNoSlotNode set) d)) := by
      refine (issues_foldl (hslots.accounted hd) fun e he hnum p _ => ⟨rfl, ?_⟩).2
      split
      · next hp =>
        have hallowed : e.Allowed (.discover set p now) := by
          refine ⟨?_, hp⟩
          rw [hnum, hslots.numSets hd.sized]
          exact hset
        exact .single hallowed (by simp [Operation.connects])
      · exact .refl e
    have hall := hslots.trans hboot
    have hnum := hall.numSets hd.sized
    obtain ⟨hrest, hissues⟩ : initSets? order now _ (set + 1) sets = some _ ∧ _ :=
      ih (hall.accounted hd) (by rw [hnum]; omega)
    refine ⟨?_, hall.trans hissues⟩
    rw [initSets?, hchecked]
    exact hrest

theorem noSlotNodes_addNoSlotNode {d : PeersState} (hset : set < d.numSets) (p : PeerId)
    (set' : SetId) : ((d.addNoSlotNode set p).setInfo set').noSlotNodes =
      if set' = set then insert p (d.setInfo set).noSlotNodes
      else (d.setInfo set').noSlotNodes := by
  unfold addNoSlotNode
  split
  · next hno =>
    have hmem : p ∈ (d.setInfo set).noSlotNodes := by simpa [noSlot] using hno
    split
    · next h => rw [h, Finset.insert_eq_of_mem hmem]
    · rfl
  · rw [field_adjustSlots SetInfo.noSlotNodes (fun _ _ => rfl) (fun _ _ => rfl),
      setInfo_modifySet hset]
    split <;> rfl

theorem noSlotNodes_addNoSlotNodes {d : PeersState} (hd : d.Sized) (hset : set < d.numSets)
    (l : List PeerId) (set' : SetId) :
    ((l.foldl (·.addNoSlotNode set) d).setInfo set').noSlotNodes =
      if set' = set then (d.setInfo set).noSlotNodes ∪ l.toFinset
      else (d.setInfo set').noSlotNodes := by
  induction l generalizing d with
  | nil =>
    by_cases h : set' = set <;> simp [h]
  | cons p l ih =>
    have hsame := sameMembers_addNoSlotNode hd set p
    rw [List.foldl_cons, ih hsame.sized (hsame.numSets ▸ hset),
      noSlotNodes_addNoSlotNode hset, noSlotNodes_addNoSlotNode hset]
    split
    · next h =>
      ext q
      simp only [if_true, Finset.mem_union, Finset.mem_insert, List.mem_toFinset, List.mem_cons]
      tauto
    · rfl

theorem noSlotNodes_bootnodes {d : PeersState} (now : Instant) (bootnodes : List PeerId)
    (set' : SetId) : ((bootnodes.foldl (fun data p =>
      if data.peer set p = .unknown then data.discover set p now else data) d).setInfo
        set').noSlotNodes = (d.setInfo set').noSlotNodes := by
  induction bootnodes generalizing d with
  | nil => rfl
  | cons p bootnodes ih =>
    rw [List.foldl_cons, ih]
    split <;> rfl

theorem noSlotNodes_initSets (order : HashOrder) (now : Instant) {sets : List SetConfig}
    {d : PeersState} (hd : d.Sized) {set : ℕ} (hlen : set + sets.length = d.numSets) :
    (∀ set' < set, ((initSets order now d set sets).setInfo set').noSlotNodes =
      (d.setInfo set').noSlotNodes) ∧
    ∀ i config, sets[i]? = some config →
      ((initSets order now d set sets).setInfo (set + i)).noSlotNodes =
        (d.setInfo (set + i)).noSlotNodes ∪ config.reservedNodes := by
  induction sets generalizing d set with
  | nil => exact ⟨fun _ _ => rfl, by simp⟩
  | cons config sets ih =>
    rw [List.length_cons] at hlen
    have hset : set < d.numSets := by omega
    have hslots : SameConnected d
        ((order.enumerate config.reservedNodes).foldl (·.addNoSlotNode set) d) :=
      sameConnected_foldl (fun d p hd _ => (sameMembers_addNoSlotNode hd set p).sameConnected) _ hd
    have hboot := hslots.trans
      (sameConnected_bootnodes now hslots.sized (hslots.numSets ▸ hset) config.bootnodes)
    have hnum := hboot.numSets
    have hlen' : (set + 1) + sets.length = d.numSets := by omega
    obtain ⟨hbefore, hafter⟩ := ih hboot.sized (hlen'.trans hnum.symm)
    rw [initSets]
    constructor
    · intro set' hset'
      have hne : set' ≠ set := by omega
      rw [hbefore set' (by omega), noSlotNodes_bootnodes,
        noSlotNodes_addNoSlotNodes hd hset, if_neg hne]
    · intro i config' hi
      cases i with
      | zero =>
        obtain rfl : config = config' := by simpa using hi
        rw [hbefore (set + 0) (by omega), noSlotNodes_bootnodes,
          noSlotNodes_addNoSlotNodes hd hset, if_pos (Nat.add_zero set)]
        ext q
        simp [order.mem_enumerate]
      | succ i =>
        have h := hafter i config' (by simpa using hi)
        have heq : set + 1 + i = set + (i + 1) := by omega
        have hne : set + (i + 1) ≠ set := by omega
        rw [heq] at h
        rw [h, noSlotNodes_bootnodes, noSlotNodes_addNoSlotNodes hd hset, if_neg hne]

end Specs

end Peerset

end SwarmHost.Substrate
