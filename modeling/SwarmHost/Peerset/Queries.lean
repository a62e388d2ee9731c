import SwarmHost.Peerset.Decay

/-! # Answers to reputation queries

The reference reputation of a peer is computed from the changes made to it, with all
seconds between and after them. The table follows it up to the last time the peerset
looked at the clock; a query does not look at the clock, and so is answered with the
reference value only where the seconds since then make no difference.
-/

namespace SwarmHost.Substrate.Peerset

open PeersState

/-- A reputation is changed, or asked for. -/
inductive Entry where
  | change (now : Instant) (peer : PeerId) (modifier : ℤ)
  | query (now : Instant) (peer : PeerId) (channel : ℕ)

section Reference

/-- The reputation of a peer after the last change to it. -/
structure Standing where
  reputation : ℤ
  since : Instant

variable (created : Instant)

def Standing.faded (x : Standing) (t : Instant) : ℤ :=
  reputTick^[elapsed created x.since t] x.reputation

def Standing.apply (p : PeerId) (x : Standing) : Entry → Standing
  | .change now q modifier =>
    if q = p then ⟨saturatingAdd (x.faded created now) modifier, now⟩ else x
  | .query .. => x

def standing (log : List Entry) (p : PeerId) : Standing :=
  log.foldl (Standing.apply created p) ⟨0, created⟩

/-- The reputation that follows from the changes made so far. -/
def reference (log : List Entry) (p : PeerId) (t : Instant) : ℤ :=
  (standing created log p).faded created t

def dueReplies (log : List Entry) : List Entry → List (ℕ × ℤ)
  | [] => []
  | .query now p channel :: entries =>
    (channel, reference created log p now) ::
      dueReplies (log ++ [.query now p channel]) entries
  | .change now p modifier :: entries => dueReplies (log ++ [.change now p modifier]) entries

variable {created}

theorem Standing.faded_of_le {x : Standing} {t t' : Instant} (h : x.since ≤ t) (h' : t ≤ t') :
    x.faded created t' = reputTick^[elapsed created t t'] (x.faded created t) := by
  rw [faded, faded, ← Function.iterate_add_apply, elapsed_add h h']

theorem standing_concat (log : List Entry) (e : Entry) (p : PeerId) :
    standing created (log ++ [e]) p = (standing created log p).apply created p e := by
  rw [standing, List.foldl_append]
  rfl

theorem dueReplies_append (log es es' : List Entry) :
    dueReplies created log (es ++ es') =
      dueReplies created log es ++ dueReplies created (log ++ es) es' := by
  induction es generalizing log with
  | nil => simp [dueReplies]
  | cons e es ih => cases e <;> simp [dueReplies, ih]

end Reference

section Trace

def Action.entries (now : Instant) : Action → List Entry
  | .reportPeer p change => [.change now p change]
  | .peerReputation p channel => [.query now p channel]
  | _ => []

def handled (order : HashOrder) (now : Instant) : Peerset → List Action → List Action
  | _, [] => []
  | s, action :: actions =>
    if s.messageQueue = [] then action :: handled order now (s.onAction order now action) actions
    else []

/-- What an event means for the reputations: reports, dropped connections and queries. -/
def entries (s : Peerset) : Event → List Entry
  | .dropped now set p _ =>
    if s.data.peer set p = .connected then [.change now p disconnectReputationChange] else []
  | .poll order now => (handled order now s s.rx).flatMap (Action.entries now)
  | .send _ | .incoming .. => []

/-- The entries of a run. -/
def trace : Peerset → List Event → List Entry
  | _, [] => []
  | s, event :: events => s.entries event ++ trace (s.next event) events

def Event.time? : Event → Option Instant
  | .send _ => none
  | .incoming now .. | .dropped now .. | .poll _ now => some now

/-- From the given instant on, the clock never goes back. -/
def Clocked (now : Instant) (events : List Event) : Prop :=
  (now :: events.filterMap Event.time?).Pairwise (· ≤ ·)

instance (now : Instant) (events : List Event) : Decidable (Clocked now events) :=
  inferInstanceAs (Decidable (List.Pairwise _ _))

/-- A query comes in the same second as the last look at the clock, or for a peer without a
reputation to lose. -/
def Timely (now : Instant) (s : Peerset) : Action → Prop
  | .peerReputation p _ => s.secsDiff now = 0 ∨ s.data.reputation p = 0
  | _ => True

instance (now : Instant) (s : Peerset) : DecidablePred (Timely now s)
  | .peerReputation .. => inferInstanceAs (Decidable (_ ∨ _))
  | .addReservedPeer .. | .removeReservedPeer .. | .setReservedPeers .. | .setReservedOnly ..
  | .reportPeer .. | .addToPeersSet .. | .removeFromPeersSet .. | .connectToPeer _ =>
    inferInstanceAs (Decidable True)

def Prompt (s : Peerset) : Event → Prop
  | .poll order now => Handles order now (Timely now) s s.rx
  | .send _ | .incoming .. | .dropped .. => True

instance (s : Peerset) : DecidablePred s.Prompt
  | .poll .. => inferInstanceAs (Decidable (Handles ..))
  | .send _ | .incoming .. | .dropped .. => inferInstanceAs (Decidable True)

end Trace

section Clock

variable {s s' s'' : Peerset} {set : SetId} {p : PeerId} {now : Instant} {order : HashOrder}

/-- Nothing is replied, and the clock is not looked at. -/
structure SameClock (s s' : Peerset) : Prop where
  created : s'.created = s.created
  latest : s'.latestTimeUpdate = s.latestTimeUpdate
  replies : s'.replies = s.replies

theorem SameClock.refl (s : Peerset) : SameClock s s := ⟨rfl, rfl, rfl⟩

theorem SameClock.trans (h : SameClock s s') (h' : SameClock s' s'') : SameClock s s'' :=
  ⟨h'.created.trans h.created, h'.latest.trans h.latest, h'.replies.trans h.replies⟩

theorem sameClock_foldl {α : Type*} {f : Peerset → α → Peerset} (hf : ∀ s a, SameClock s (f s a))
    (l : List α) (s : Peerset) : SameClock s (l.foldl f s) := by
  induction l generalizing s with
  | nil => exact .refl s
  | cons a l ih => exact (hf s a).trans (ih _)

theorem sameClock_onAddReservedPeer (s : Peerset) (set : SetId) (p : PeerId) :
    SameClock s (s.onAddReservedPeer set p) := by
  unfold onAddReservedPeer
  split <;> exact ⟨rfl, rfl, rfl⟩

theorem sameClock_onRemoveReservedPeer (s : Peerset) (now : Instant) (set : SetId) (p : PeerId) :
    SameClock s (s.onRemoveReservedPeer now set p) := by
  unfold onRemoveReservedPeer
  dsimp only
  split
  · split <;> exact ⟨rfl, rfl, rfl⟩
  · exact .refl s

theorem sameClock_onRemoveFromPeersSet (s : Peerset) (now : Instant) (set : SetId) (p : PeerId) :
    SameClock s (s.onRemoveFromPeersSet now set p) := by
  unfold onRemoveFromPeersSet
  split
  · exact .refl s
  · split <;> exact ⟨rfl, rfl, rfl⟩

theorem sameClock_onSetReservedOnly (s : Peerset) (only : Bool) :
    SameClock s (s.onSetReservedOnly order now set only) := by
  unfold onSetReservedOnly
  dsimp only
  split
  · have hloop : ∀ (t : Peerset) q, SameClock t
        (if q ∈ t.reserved set then t else t.disconnectAndDrop now set q) := by
      intro t q
      split <;> exact ⟨rfl, rfl, rfl⟩
    have h := sameClock_foldl hloop (order.enumerate (s.data.connectedPeers set))
      { s with reservedNodes := s.reservedNodes.modify set fun r => (r.1, only) }
    exact ⟨h.created, h.latest, h.replies⟩
  · exact ⟨rfl, rfl, rfl⟩

theorem sameClock_onAction (s : Peerset) {action : Action} (h : action.entries now = []) :
    SameClock s (s.onAction order now action) := by
  cases action with
  | addReservedPeer set p => exact sameClock_onAddReservedPeer s set p
  | removeReservedPeer set p => exact sameClock_onRemoveReservedPeer s now set p
  | setReservedPeers set peers =>
    exact (sameClock_foldl (fun t q => sameClock_onAddReservedPeer t set q) _ s).trans
      (sameClock_foldl (fun t q => sameClock_onRemoveReservedPeer t now set q) _ _)
  | setReservedOnly set only => exact sameClock_onSetReservedOnly s only
  | reportPeer p change => cases h
  | addToPeersSet set p =>
    simp only [onAction, addToPeersSet]
    split <;> exact ⟨rfl, rfl, rfl⟩
  | removeFromPeersSet set p => exact sameClock_onRemoveFromPeersSet s now set p
  | peerReputation p channel => cases h
  | connectToPeer p => exact ⟨rfl, rfl, rfl⟩

theorem sameClock_incoming (s : Peerset) (now : Instant) (set : SetId) (p : PeerId)
    (index : IncomingIndex) : SameClock (s.updateTime now) (s.incoming now set p index) := by
  unfold incoming
  dsimp only
  split
  · exact ⟨rfl, rfl, rfl⟩
  · split
    · exact .refl _
    · unfold answer
      split
      · exact ⟨rfl, rfl, rfl⟩
      · split <;> exact ⟨rfl, rfl, rfl⟩

theorem sameClock_dropped (s : Peerset) (now : Instant) (set : SetId) (p : PeerId)
    (reason : DropReason) : SameClock (s.updateTime now) (s.dropped now set p reason) := by
  have hpen : SameClock (s.updateTime now) ((s.updateTime now).penalize now set p) := by
    unfold penalize
    split <;> exact ⟨rfl, rfl, rfl⟩
  unfold dropped allocSlots
  dsimp only
  split
  · exact hpen.trans (sameClock_onRemoveFromPeersSet _ now set p)
  · exact hpen

theorem sameClock_onReportPeer (s : Peerset) (now : Instant) (p : PeerId) (change : ℤ) :
    SameClock (s.updateTime now) (s.onReportPeer now p change) := by
  unfold onReportPeer
  dsimp only
  split
  · exact ⟨rfl, rfl, rfl⟩
  · have hloop : ∀ (t : Peerset) set, SameClock t (if t.data.peer set p = .connected then
        (t.disconnectAndDrop now set p).allocSlots set else t) := by
      intro t set
      split <;> exact ⟨rfl, rfl, rfl⟩
    have h := fun l data => sameClock_foldl hloop l { s.updateTime now with data := data }
    exact ⟨(h _ _).created, (h _ _).latest, (h _ _).replies⟩

theorem reputation_onReportPeer (hs : s.Sound) (p : PeerId) (change : ℤ) (q : PeerId) :
    (s.onReportPeer now p change).data.reputation q =
      if q = p then saturatingAdd ((s.updateTime now).data.reputation p) change
      else (s.updateTime now).data.reputation q := by
  have htime : Does Fades s (s.updateTime? now) (s.updateTime now) := does_updateTime hs
  have hsound := htime.sound.peerReputation p fun _ =>
    saturatingAdd ((s.updateTime now).data.reputation p) change
  unfold onReportPeer
  dsimp only
  split
  · exact reputation_peerReputation _ p _ q
  · have hloop := does_disconnectAll now hsound p fun set => List.mem_range.mp
    rw [hloop.issues.reputation fun _ h => h.1.2]
    exact reputation_peerReputation _ p _ q

theorem reputation_onAction (hs : s.Sound) {action : Action}
    (hset : ∀ set ∈ action.set?, set < s.data.numSets) (h : action.entries now = []) (q : PeerId) :
    (s.onAction order now action).data.reputation q = s.data.reputation q := by
  have hquiet : ∀ op : Operation, op.Quiet → ¬ op.rates := fun _ h => h.2
  have hstill : ∀ op : Operation, op.Still → ¬ op.rates := fun _ h => h.1.2
  cases action with
  | addReservedPeer set p =>
    apply (does_onAddReservedPeer hs (hset set rfl) p).issues.reputation
    rintro op rfl
    simp [Operation.rates]
  | removeReservedPeer set p =>
    exact (does_onRemoveReservedPeer hs (hset set rfl) p).issues.reputation hquiet q
  | setReservedPeers set peers =>
    exact (does_onSetReservedPeers hs (hset set rfl) peers).issues.reputation hquiet q
  | setReservedOnly set only =>
    exact (does_onSetReservedOnly hs (hset set rfl) only).issues.reputation hstill q
  | reportPeer p change => cases h
  | addToPeersSet set p =>
    exact (does_addToPeersSet hs (hset set rfl) p).issues.reputation hstill q
  | removeFromPeersSet set p =>
    exact (does_onRemoveFromPeersSet hs (hset set rfl) p).issues.reputation hstill q
  | peerReputation p channel => cases h
  | connectToPeer p => rfl

end Clock

section Agreement

variable {s s' s'' : Peerset} {created now : Instant} {log es es' : List Entry} {C C' : Prop}
  {p : PeerId} {order : HashOrder}

/-- The table has the reference reputations of the last look at the clock. -/
structure Agrees (created : Instant) (log : List Entry) (s : Peerset) : Prop where
  start : s.created = created
  since : ∀ p, (standing created log p).since ≤ s.latestTimeUpdate
  reputation : ∀ p, s.data.reputation p = reference created log p s.latestTimeUpdate

theorem Agrees.reference (h : s.Agrees created log) (hnow : s.latestTimeUpdate ≤ now) (p : PeerId) :
    reference created log p now = reputTick^[s.secsDiff now] (s.data.reputation p) := by
  rw [h.reputation, Peerset.reference, Standing.faded_of_le (h.since p) hnow, secsDiff, h.start]
  rfl

theorem Agrees.updateTime (h : s.Agrees created log) (hnow : s.latestTimeUpdate ≤ now) :
    (s.updateTime now).Agrees created log := by
  refine ⟨h.start, fun p => (h.since p).trans hnow, fun p => ?_⟩
  rw [reputation_updateTime, ← h.reference hnow]
  rfl

theorem Agrees.keep (h : s.Agrees created log) (hc : SameClock s s')
    (hrep : ∀ p, s'.data.reputation p = s.data.reputation p) : s'.Agrees created log := by
  refine ⟨hc.created.trans h.start, fun p => ?_, fun p => ?_⟩
  · rw [hc.latest]
    exact h.since p
  · rw [hrep, hc.latest, h.reputation]

theorem Agrees.change (h : s.Agrees created log) {modifier : ℤ} (hc : SameClock s s')
    (hrep : ∀ q, s'.data.reputation q =
      if q = p then saturatingAdd (s.data.reputation p) modifier else s.data.reputation q) :
    s'.Agrees created (log ++ [.change s.latestTimeUpdate p modifier]) := by
  refine ⟨hc.created.trans h.start, fun q => ?_, fun q => ?_⟩
  · rw [standing_concat, hc.latest, Standing.apply]
    split
    · exact le_rfl
    · exact h.since q
  · rw [hrep, hc.latest, Peerset.reference, standing_concat, Standing.apply]
    by_cases hq : q = p
    · subst hq
      rw [if_pos rfl, if_pos rfl, Standing.faded, elapsed_self, h.reputation]
      rfl
    · rw [if_neg hq, if_neg (Ne.symm hq), h.reputation]
      rfl

theorem Agrees.query (h : s.Agrees created log) (now : Instant) (p : PeerId) (channel : ℕ) :
    s.Agrees created (log ++ [.query now p channel]) := by
  have hsame : ∀ q, standing created (log ++ [.query now p channel]) q = standing created log q :=
    fun q => standing_concat log _ q
  refine ⟨h.start, fun q => ?_, fun q => ?_⟩
  · rw [hsame]
    exact h.since q
  · rw [h.reputation, Peerset.reference, Peerset.reference, hsame]

/-- The table goes on to agree, one reply is sent for each query, and the replies are the due ones
exactly under the condition. -/
structure Follows (created now : Instant) (s : Peerset) (es : List Entry) (C : Prop)
    (s' : Peerset) : Prop where
  latest : s'.latestTimeUpdate ≤ now
  agrees : ∀ log, s.Agrees created log → s'.Agrees created (log ++ es)
  replies : ∀ log, s.Agrees created log → ∃ rs, s'.replies = s.replies ++ rs ∧
    rs.length = (dueReplies created log es).length ∧ (rs = dueReplies created log es ↔ C)

theorem Follows.refl (h : s.latestTimeUpdate ≤ now) : Follows created now s [] True s := by
  refine ⟨h, fun log hlog => ?_, fun log _ => ⟨[], ?_, rfl, ?_⟩⟩
  · rwa [List.append_nil]
  · rw [List.append_nil]
  · exact iff_of_true rfl trivial

theorem Follows.trans {now' : Instant} (h : Follows created now s es C s')
    (h' : Follows created now' s' es' C' s'') :
    Follows created now' s (es ++ es') (C ∧ C') s'' := by
  refine ⟨h'.latest, fun log hlog => ?_, fun log hlog => ?_⟩
  · rw [← List.append_assoc]
    exact h'.agrees _ (h.agrees log hlog)
  · obtain ⟨rs, hrs, hlen, hiff⟩ := h.replies log hlog
    obtain ⟨rs', hrs', hlen', hiff'⟩ := h'.replies _ (h.agrees log hlog)
    refine ⟨rs ++ rs', ?_, ?_, ?_⟩
    · rw [hrs', hrs, List.append_assoc]
    · rw [dueReplies_append, List.length_append, List.length_append, hlen, hlen']
    · rw [dueReplies_append, ← hiff, ← hiff']
      constructor
      · exact fun heq => List.append_inj heq hlen
      · rintro ⟨rfl, rfl⟩
        rfl

theorem Follows.of_same (h : s.latestTimeUpdate ≤ now) (hc : SameClock s s')
    (hrep : ∀ p, s'.data.reputation p = s.data.reputation p) :
    Follows created now s [] True s' := by
  refine ⟨hc.latest.trans_le h, fun log hlog => ?_, fun log _ => ⟨[], ?_, rfl, ?_⟩⟩
  · rw [List.append_nil]
    exact hlog.keep hc hrep
  · rw [hc.replies, List.append_nil]
  · exact iff_of_true rfl trivial

theorem Follows.of_updateTime (h : s.latestTimeUpdate ≤ now) (hc : SameClock (s.updateTime now) s')
    (hrep : ∀ p, s'.data.reputation p = (s.updateTime now).data.reputation p) :
    Follows created now s [] True s' := by
  refine ⟨hc.latest.le, fun log hlog => ?_, fun log _ => ⟨[], ?_, rfl, ?_⟩⟩
  · rw [List.append_nil]
    exact (hlog.updateTime h).keep hc hrep
  · rw [hc.replies, List.append_nil]
    rfl
  · exact iff_of_true rfl trivial

theorem Follows.of_change {modifier : ℤ} (h : s.latestTimeUpdate ≤ now)
    (hc : SameClock (s.updateTime now) s')
    (hrep : ∀ q, s'.data.reputation q =
      if q = p then saturatingAdd ((s.updateTime now).data.reputation p) modifier
      else (s.updateTime now).data.reputation q) :
    Follows created now s [.change now p modifier] True s' := by
  refine ⟨hc.latest.le, fun log hlog => ?_, fun log _ => ⟨[], ?_, rfl, ?_⟩⟩
  · exact (hlog.updateTime h).change hc hrep
  · rw [hc.replies, List.append_nil]
    rfl
  · exact iff_of_true rfl trivial

theorem follows_onPeerReputation (h : s.latestTimeUpdate ≤ now) (p : PeerId) (channel : ℕ) :
    Follows created now s [.query now p channel] (s.secsDiff now = 0 ∨ s.data.reputation p = 0)
      (s.onPeerReputation p channel) := by
  have hrep : ∀ q, (s.onPeerReputation p channel).data.reputation q = s.data.reputation q := by
    intro q
    rw [onPeerReputation, reputation_peerReputation]
    split
    · next hq => rw [hq]; rfl
    · rfl
  refine ⟨h, fun log hlog => ?_, fun log hlog => ⟨[(channel, s.data.reputation p)], rfl, rfl, ?_⟩⟩
  · have hkeep : (s.onPeerReputation p channel).Agrees created log :=
      ⟨hlog.start, hlog.since, fun q => (hrep q).trans (hlog.reputation q)⟩
    exact hkeep.query now p channel
  · rw [dueReplies, dueReplies, hlog.reference h, ← iterate_reputTick_eq_iff, eq_comm]
    simp

theorem follows_onAction (hs : s.Sound) (h : s.latestTimeUpdate ≤ now) {action : Action}
    (hset : ∀ set ∈ action.set?, set < s.data.numSets) :
    Follows created now s (action.entries now) (Timely now s action)
      (s.onAction order now action) := by
  cases action with
  | reportPeer p change =>
    exact .of_change h (sameClock_onReportPeer s now p change) (reputation_onReportPeer hs p change)
  | peerReputation p channel => exact follows_onPeerReputation h p channel
  | _ => exact .of_same h (sameClock_onAction s rfl) (reputation_onAction hs hset rfl)

theorem follows_pollLoop (hs : s.Sound) (h : s.latestTimeUpdate ≤ now) {actions : List Action}
    (ha : s.Pending actions) :
    Follows created now s ((handled order now s actions).flatMap (Action.entries now))
      (Handles order now (Timely now) s actions) (s.pollLoop order now actions).2 := by
  induction actions generalizing s with
  | nil =>
    unfold pollLoop
    split <;> exact .of_same h ⟨rfl, rfl, rfl⟩ fun _ => rfl
  | cons action actions ih =>
    unfold pollLoop handled Handles
    cases hq : s.messageQueue with
    | nil =>
      have hset := ha action List.mem_cons_self
      have hd :
          Does (¬ ·.connects) s (s.onAction? order now action) (s.onAction order now action) :=
        does_onAction hs hset
      have hfirst : Follows created now s _ _ (s.onAction order now action) :=
        follows_onAction hs h hset
      have hpending : (s.onAction order now action).Pending actions := by
        intro a hmem
        rw [hd.numSets hs]
        exact ha a (List.mem_cons_of_mem _ hmem)
      simp only [if_true, List.flatMap_cons, true_imp_iff]
      exact hfirst.trans (ih hd.sound hfirst.latest hpending)
    | cons message queue =>
      simp only [reduceCtorEq, if_false, List.flatMap_nil, false_imp_iff]
      exact .of_same h ⟨rfl, rfl, rfl⟩ fun _ => rfl

theorem follows_next (hs : s.Sound) (hrx : s.Pending s.rx) {event : Event}
    (hrange : s.InRange event) (h : s.latestTimeUpdate ≤ now)
    (htime : ∀ t, event.time? = some t → t = now) :
    Follows created now s (s.entries event) (s.Prompt event) (s.next event) := by
  cases event with
  | send action => exact .of_same h ⟨rfl, rfl, rfl⟩ fun _ => rfl
  | incoming t set p index =>
    obtain rfl := htime t rfl
    refine .of_updateTime h (sameClock_incoming s t set p index) fun q => ?_
    rw [next, reputation_incoming, reputation_updateTime]
  | dropped t set p reason =>
    obtain rfl := htime t rfl
    have hrep : ∀ q, (s.dropped t set p reason).data.reputation q = _ :=
      reputation_dropped hs hrange p reason
    simp only [← reputation_updateTime] at hrep
    rw [entries]
    split
    · next hp =>
      refine .of_change h (sameClock_dropped s t set p reason) fun q => ?_
      rw [next, hrep q]
      simp [peer_eq_connected.mp hp]
    · next hp =>
      refine .of_updateTime h (sameClock_dropped s t set p reason) fun q => ?_
      rw [next, hrep q, if_neg fun hc => hp (peer_eq_connected.mpr hc.2)]
  | poll order t =>
    obtain rfl := htime t rfl
    exact follows_pollLoop hs h hrx

theorem reputation_initSets (order : HashOrder) (now : Instant) (sets : List SetConfig)
    (d : PeersState) (set : SetId) (p : PeerId) :
    (initSets order now d set sets).reputation p = d.reputation p := by
  have hfold : ∀ {f : PeersState → PeerId → PeersState},
      (∀ d q, (f d q).reputation p = d.reputation p) →
      ∀ (l : List PeerId) (d : PeersState), (l.foldl f d).reputation p = d.reputation p := by
    intro f hf l
    induction l with
    | nil => exact fun _ => rfl
    | cons q l ih => exact fun d => (ih _).trans (hf d q)
  induction sets generalizing d set with
  | nil => rfl
  | cons config sets ih =>
    rw [initSets, ih, hfold, hfold]
    · exact fun d q => reputation_of_nodes (nodes_addNoSlotNode d set q) p
    · intro d q
      split
      · exact (reputation_exec (by simp [Operation.rates]) p :
          (d.exec (.discover set q now)).reputation p = _)
      · rfl

theorem agrees_fromConfig (order : HashOrder) (now : Instant) (sets : List SetConfig) :
    (fromConfig order now sets).Agrees now [] := by
  refine ⟨rfl, fun p => le_rfl, fun p => ?_⟩
  rw [fromConfig, reputation_initSets]
  exact (Function.iterate_fixed reputTick_zero _).symm

end Agreement

section Runs

variable {s s' : Peerset} {created now : Instant} {events : List Event}

theorem Clocked.head {event : Event} (h : Clocked now (event :: events)) :
    ∃ t, now ≤ t ∧ (∀ t', event.time? = some t' → t' = t) ∧ Clocked t events := by
  unfold Clocked at h ⊢
  cases ht : event.time? with
  | none =>
    rw [List.filterMap_cons_none ht] at h
    exact ⟨now, le_rfl, by simp, h⟩
  | some t =>
    rw [List.filterMap_cons_some ht] at h
    obtain ⟨hle, hrest⟩ := List.pairwise_cons.mp h
    exact ⟨t, hle t List.mem_cons_self, by simp [eq_comm], hrest⟩

theorem follows_run (hrun : Run Step s events s') (hclock : Clocked now events)
    (hs : s.Sound ∧ s.Pending s.rx) (h : s.latestTimeUpdate ≤ now) :
    ∃ t, Follows created t s (s.trace events)
      (Along Step (fun s event _ => s.Prompt event) s events) s' := by
  induction hrun generalizing now with
  | nil s =>
    refine ⟨now, ?_⟩
    have halong := iff_of_true (along_nil (R := Step) (s := s)
      (P := fun s event _ => s.Prompt event)) trivial
    rw [halong]
    exact .refl h
  | @cons s t s' event events hstep _ ih =>
    obtain ⟨t', hle, htime, hclock⟩ := hclock.head
    obtain ⟨hkeep, -⟩ := sound_step hstep hs
    obtain ⟨hrange, rfl⟩ := hstep
    have hfirst : Follows created t' s _ _ (s.next event) :=
      follows_next hs.1 hs.2 hrange (h.trans hle) htime
    obtain ⟨t'', hrest⟩ := ih hclock hkeep hfirst.latest
    refine ⟨t'', ?_⟩
    have halong : Along Step (fun s event _ => s.Prompt event) s (event :: events) ↔
        s.Prompt event ∧ Along Step (fun s event _ => s.Prompt event) (s.next event) events := by
      rw [along_cons_iff]
      constructor
      · exact fun h => h _ ⟨hrange, rfl⟩
      · rintro h t ⟨-, rfl⟩
        exact h
    rw [halong]
    exact hfirst.trans hrest

/-- Every query of a run is answered with the reference reputation at its time if and only if each
of them comes in a second in which the clock was looked at, or for a peer without reputation. -/
theorem replies_iff_prompt (order : HashOrder) (now : Instant) (sets : List SetConfig)
    (events : List Event) (s : Peerset) (hclock : Clocked now events)
    (hrun : Run Step (fromConfig order now sets) events s) :
    s.replies = dueReplies now [] ((fromConfig order now sets).trace events) ↔
      Along Step (fun s event _ => s.Prompt event) (fromConfig order now sets) events := by
  obtain ⟨t, h⟩ : ∃ t, Follows now t (fromConfig order now sets) _ _ s := follows_run hrun hclock
    ⟨sound_fromConfig order now sets, by simp [Pending, fromConfig]⟩ le_rfl
  obtain ⟨rs, hrs, -, hiff⟩ := h.replies [] (agrees_fromConfig order now sets)
  rw [hrs, ← hiff]
  rfl

def askedAt (order : HashOrder) (t : Instant) : List Event :=
  [.send (.reportPeer [7] (-100)), .poll order 0, .send (.peerReputation [7] 0), .poll order t]

theorem replies_iff_prompt_askedAt : ∃ order s,
    Run Step (fromConfig order 0 [⟨1, 1, [], ∅, false⟩, ⟨1, 1, [], ∅, false⟩])
      (askedAt order 999999999) s ∧
    s.replies = dueReplies 0 []
      ((fromConfig order 0 [⟨1, 1, [], ∅, false⟩, ⟨1, 1, [], ∅, false⟩]).trace
        (askedAt order 999999999)) := by
  let order : HashOrder := ⟨Finset.toList, Finset.nodup_toList, fun _ _ => Finset.mem_toList⟩
  have hrange : Checks next InRange twoSets (askedAt order 999999999) := by decide +kernel
  have hprompt : Checks next Prompt twoSets (askedAt order 999999999) := by decide +kernel
  have hrun := hrange.run (R := Step) fun _ _ h => ⟨h, rfl⟩
  have halong := hprompt.along (R := Step) fun _ _ _ h => h.2
  rw [← fromConfig_twoSets order] at hrun halong
  exact ⟨order, _, hrun, (replies_iff_prompt order 0 _ _ _ (by decide) hrun).mpr halong⟩

/-- A second later the answer is still the reputation after the report. -/
theorem not_due_askedAt : ∃ order s,
    Clocked 0 (askedAt order 1000000000) ∧
    Run Step (fromConfig order 0 [⟨1, 1, [], ∅, false⟩, ⟨1, 1, [], ∅, false⟩])
      (askedAt order 1000000000) s ∧
    s.replies = [(0, -100)] ∧
    dueReplies 0 [] ((fromConfig order 0 [⟨1, 1, [], ∅, false⟩, ⟨1, 1, [], ∅, false⟩]).trace
      (askedAt order 1000000000)) = [(0, -98)] := by
  let order : HashOrder := ⟨Finset.toList, Finset.nodup_toList, fun _ _ => Finset.mem_toList⟩
  have hrange : Checks next InRange twoSets (askedAt order 1000000000) := by decide +kernel
  have hrun := hrange.run (R := Step) fun _ _ h => ⟨h, rfl⟩
  refine ⟨order, (askedAt order 1000000000).foldl next twoSets, by decide, ?_⟩
  rw [fromConfig_twoSets order]
  exact ⟨hrun, by decide +kernel, by decide +kernel⟩

end Runs

end SwarmHost.Substrate.Peerset
