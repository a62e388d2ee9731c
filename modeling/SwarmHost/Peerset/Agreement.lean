import Mathlib.Data.Finset.Basic
import SwarmHost.Peerset.Membership
import SwarmHost.Runs.Basic

/-! # Agreement of the peerset and the network

The network believes what the messages of the peerset told it and acts on that
while newer messages are queued. As long as no connection is asked for through
a handle, the queued messages always lead from what the network believes to what
the peerset has in its table, and they answer every incoming connection once.
-/

namespace SwarmHost.Substrate.Peerset

open PeersState

/-- What the network knows of its connections. -/
structure View where
  /-- The sets and peers the network believes connected. -/
  believed : Finset (SetId × PeerId)
  /-- The incoming connections that are not answered. -/
  outstanding : IncomingIndex → Option (SetId × PeerId)

namespace View

def receive (v : View) : Message → View
  | .connect set peer =>
    { believed := insert (set, peer) v.believed
      outstanding := fun i => if v.outstanding i = some (set, peer) then none
        else v.outstanding i }
  | .drop set peer => { v with believed := v.believed.erase (set, peer) }
  | .accept index =>
    match v.outstanding index with
    | none => v
    | some x => ⟨insert x v.believed, Function.update v.outstanding index none⟩
  | .reject index => { v with outstanding := Function.update v.outstanding index none }

theorem receive_accept {v : View} {index : IncomingIndex} {x : SetId × PeerId}
    (h : v.outstanding index = some x) : v.receive (.accept index) =
      ⟨insert x v.believed, Function.update v.outstanding index none⟩ := by
  simp [receive, h]

def Proper (v : View) : Message → Prop
  | .connect set peer => (set, peer) ∉ v.believed
  | .drop _ _ => True
  | .accept index => ∃ x, v.outstanding index = some x ∧ x ∉ v.believed
  | .reject index => ∃ x, v.outstanding index = some x

end View

/-- A peerset beside the network that uses it. -/
structure Session where
  peerset : Peerset
  view : View

inductive Event where
  | send (action : Action)
  | incoming (now : Instant) (set : SetId) (peer : PeerId) (index : IncomingIndex)
  | dropped (now : Instant) (set : SetId) (peer : PeerId) (reason : DropReason)
  | poll (order : HashOrder) (now : Instant)

namespace Session

def start (order : HashOrder) (now : Instant) (sets : List SetConfig) : Session :=
  ⟨fromConfig order now sets, ⟨∅, fun _ => none⟩⟩

/-- The network may cause the event. Sets have to exist, an incoming connection is reported under a
new index for a peer without one that is not believed connected, and a connection is dropped only
if it is believed in. -/
def Admissible (s : Session) : Event → Prop
  | .send action => ∀ set ∈ action.set?, set < s.peerset.data.numSets
  | .incoming _ set peer index =>
    set < s.peerset.data.numSets ∧ (set, peer) ∉ s.view.believed ∧
      s.view.outstanding index = none ∧ ∀ i, s.view.outstanding i ≠ some (set, peer)
  | .dropped _ set peer _ =>
    set < s.peerset.data.numSets ∧ (set, peer) ∈ s.view.believed
  | .poll _ _ => True

def emitted (s : Session) : Event → Option Message
  | .poll order now => (s.peerset.pollNext order now).1
  | _ => none

def next (s : Session) : Event → Session
  | .send action => { s with peerset := s.peerset.send action }
  | .incoming now set peer index =>
    { peerset := s.peerset.incoming now set peer index
      view := { s.view with
        outstanding := Function.update s.view.outstanding index (some (set, peer)) } }
  | .dropped now set peer reason =>
    { peerset := s.peerset.dropped now set peer reason
      view := { s.view with believed := s.view.believed.erase (set, peer) } }
  | .poll order now =>
    { peerset := (s.peerset.pollNext order now).2
      view := (s.peerset.pollNext order now).1.elim s.view s.view.receive }

def Step (s : Session) (event : Event) (s' : Session) : Prop :=
  s.Admissible event ∧ s.next event = s'

/-- With no message on its way, the network believes connected what is in the table. -/
def Agrees (s : Session) : Prop :=
  s.peerset.messageQueue = [] → ∀ x, x ∈ s.view.believed ↔ s.peerset.data.Connected x

def EmitsProper (s : Session) (event : Event) (_ : Session) : Prop :=
  ∀ message ∈ s.emitted event, s.view.Proper message

end Session

/-- Receiving the messages one after another is proper, connects nobody on request, answers
everything and ends with the given peers connected. -/
def Settles (v : View) (connected : SetId × PeerId → Prop) : List Message → Prop
  | [] => (∀ x, x ∈ v.believed ↔ connected x) ∧ ∀ i, v.outstanding i = none
  | message :: queue =>
    (∀ set peer, message ≠ .connect set peer) ∧ v.Proper message ∧
      Settles (v.receive message) connected queue

section Settles

variable {v : View} {connected : SetId × PeerId → Prop} {queue : List Message}
  {x : SetId × PeerId} {index : IncomingIndex}

theorem settles_drops (xs : List (SetId × PeerId)) (h : Settles v connected queue) :
    Settles v (fun y => connected y ∧ y ∉ xs) (queue ++ xs.map fun x => .drop x.1 x.2) := by
  induction queue generalizing v with
  | nil =>
    rw [List.nil_append]
    induction xs generalizing v connected with
    | nil =>
      refine ⟨fun y => ?_, h.2⟩
      rw [h.1]
      simp
    | cons x xs ih =>
      refine ⟨fun _ _ => by simp, trivial, ?_⟩
      have hone : Settles (v.receive (.drop x.1 x.2)) (fun y => connected y ∧ y ≠ x) [] := by
        refine ⟨fun y => ?_, h.2⟩
        simp [View.receive, h.1, and_comm]
      have hrest := ih hone
      simp only [List.mem_cons, not_or]
      simpa only [and_assoc] using hrest
  | cons message queue ih => exact ⟨h.1, h.2.1, ih h.2.2⟩

def View.ask (v : View) (index : IncomingIndex) (x : SetId × PeerId) : View :=
  { v with outstanding := Function.update v.outstanding index (some x) }

theorem receive_ask {message : Message} (hm : ∀ set peer, message ≠ .connect set peer)
    (hp : v.Proper message) (hi : v.outstanding index = none) :
    (v.ask index x).Proper message ∧
    (v.ask index x).receive message = (v.receive message).ask index x ∧
    (v.receive message).outstanding index = none := by
  cases message with
  | connect set peer => exact absurd rfl (hm set peer)
  | drop set peer => exact ⟨trivial, rfl, hi⟩
  | accept j =>
    obtain ⟨y, hy, hnot⟩ := hp
    have hne : j ≠ index := by
      rintro rfl
      rw [hi] at hy
      cases hy
    have hj : (v.ask index x).outstanding j = some y := by simp [View.ask, hne, hy]
    refine ⟨⟨y, hj, hnot⟩, ?_, ?_⟩
    · rw [View.receive_accept hj, View.receive_accept hy]
      simp only [View.ask, Function.update_comm hne]
    · simp [View.receive, hy, Ne.symm hne, hi]
  | reject j =>
    obtain ⟨y, hy⟩ := hp
    have hne : j ≠ index := by
      rintro rfl
      rw [hi] at hy
      cases hy
    have hj : (v.ask index x).outstanding j = some y := by simp [View.ask, hne, hy]
    refine ⟨⟨y, hj⟩, ?_, ?_⟩
    · simp only [View.receive, View.ask, Function.update_comm hne]
    · simp [View.receive, Ne.symm hne, hi]

theorem settles_reject (h : Settles v connected queue) (hi : v.outstanding index = none) :
    Settles (v.ask index x) connected (queue ++ [.reject index]) := by
  induction queue generalizing v with
  | nil =>
    refine ⟨fun _ _ => by simp, ⟨x, by simp [View.ask]⟩, h.1, fun i => ?_⟩
    by_cases hj : i = index
    · simp [View.receive, hj]
    · simp [View.receive, View.ask, hj, h.2]
  | cons message queue ih =>
    obtain ⟨hproper, hreceive, hnone⟩ := receive_ask (x := x) h.1 h.2.1 hi
    refine ⟨h.1, hproper, ?_⟩
    rw [hreceive]
    exact ih h.2.2 hnone

theorem settles_accept (h : Settles v connected queue) (hi : v.outstanding index = none)
    (hx : ¬ connected x) :
    Settles (v.ask index x) (fun y => y = x ∨ connected y) (queue ++ [.accept index]) := by
  induction queue generalizing v with
  | nil =>
    have hi' : (v.ask index x).outstanding index = some x := by simp [View.ask]
    refine ⟨fun _ _ => by simp, ⟨x, hi', by simp [View.ask, h.1, hx]⟩, fun y => ?_, fun i => ?_⟩
    · rw [View.receive_accept hi']
      simp [View.ask, h.1]
    · rw [View.receive_accept hi']
      by_cases hj : i = index
      · simp [hj]
      · simp [View.ask, hj, h.2]
  | cons message queue ih =>
    obtain ⟨hproper, hreceive, hnone⟩ := receive_ask (x := x) h.1 h.2.1 hi
    refine ⟨h.1, hproper, ?_⟩
    rw [hreceive]
    exact ih h.2.2 hnone

theorem outstanding_receive {message : Message} {i : IncomingIndex}
    (h : (v.receive message).outstanding i = some x) : v.outstanding i = some x := by
  cases message with
  | connect set peer =>
    simp only [View.receive] at h
    split at h
    · cases h
    · exact h
  | drop set peer => exact h
  | accept j =>
    simp only [View.receive] at h
    split at h
    · exact h
    · by_cases hj : i = j
      · simp [hj] at h
      · simpa [hj] using h
  | reject j =>
    by_cases hj : i = j
    · simp [View.receive, hj] at h
    · simpa [View.receive, hj] using h

theorem Settles.not_connected (h : Settles v connected queue) (hx : x ∉ v.believed)
    (ho : ∀ i, v.outstanding i ≠ some x) : ¬ connected x := by
  induction queue generalizing v with
  | nil => rwa [← h.1]
  | cons message queue ih =>
    apply ih h.2.2
    · cases message with
      | connect set peer => exact absurd rfl (h.1 set peer)
      | drop set peer => exact fun hmem => hx (Finset.mem_of_mem_erase hmem)
      | accept j =>
        obtain ⟨y, hy, -⟩ := h.2.1
        simp only [View.receive, hy, Finset.mem_insert, not_or]
        refine ⟨?_, hx⟩
        rintro rfl
        exact ho j hy
      | reject j => exact hx
    · exact fun i hi => ho i (outstanding_receive hi)

/-- The network drops a connection that it did not ask for anew. -/
theorem settles_dropped (h : Settles v connected queue) (ho : ∀ i, v.outstanding i ≠ some x) :
    Settles { v with believed := v.believed.erase x } (fun y => connected y ∧ y ≠ x) queue := by
  induction queue generalizing v with
  | nil =>
    refine ⟨fun y => ?_, h.2⟩
    simp [h.1, and_comm]
  | cons message queue ih =>
    have hrest := ih h.2.2 fun i hi => ho i (outstanding_receive hi)
    refine ⟨h.1, ?_, ?_⟩
    · cases message with
      | connect set peer => exact absurd rfl (h.1 set peer)
      | drop set peer => trivial
      | accept j =>
        obtain ⟨y, hy, hnot⟩ := h.2.1
        exact ⟨y, hy, fun hmem => hnot (Finset.mem_of_mem_erase hmem)⟩
      | reject j => exact h.2.1
    · cases message with
      | connect set peer => exact absurd rfl (h.1 set peer)
      | drop set peer =>
        simpa only [View.receive, Finset.erase_right_comm] using hrest
      | accept j =>
        obtain ⟨y, hy, -⟩ := h.2.1
        have hne : y ≠ x := by
          rintro rfl
          exact ho j hy
        simpa only [View.receive, hy, Finset.erase_insert_of_ne hne] using hrest
      | reject j => exact hrest

end Settles

/-- The queued messages settle the view, and no two open questions are about one connection. -/
structure Session.Consistent (s : Session) : Prop where
  sized : s.peerset.data.Sized
  actions : ∀ a ∈ s.peerset.rx, (∀ set ∈ a.set?, set < s.peerset.data.numSets) ∧
    ∀ p, a ≠ .connectToPeer p
  settles : Settles s.view s.peerset.data.Connected s.peerset.messageQueue
  distinct : ∀ i j x, s.view.outstanding i = some x → s.view.outstanding j = some x → i = j
  fresh : ∀ i x, s.view.outstanding i = some x → x ∉ s.view.believed

namespace Session

variable {s s' : Session}

theorem consistent_start (order : HashOrder) (now : Instant) (sets : List SetConfig) :
    (start order now sets).Consistent where
  sized := (fromConfig_spec order now sets).1
  actions := by simp [start, fromConfig]
  settles := by
    refine ⟨fun x => ?_, fun _ => rfl⟩
    simp [start, (fromConfig_spec order now sets).2]
  distinct i j x h := by cases h
  fresh i x h := by cases h

theorem Consistent.agrees (h : s.Consistent) : s.Agrees := by
  intro hq
  have hs := h.settles
  rw [hq] at hs
  exact hs.1

/-- Polling handles actions until a message settles the view together with the rest. -/
theorem pollLoop_spec (order : HashOrder) (now : Instant) {v : View} {p : Peerset}
    {actions : List Action} (hs : p.data.Sized)
    (ha : ∀ a ∈ actions, (∀ set ∈ a.set?, set < p.data.numSets) ∧ ∀ q, a ≠ .connectToPeer q)
    (hv : Settles v p.data.Connected p.messageQueue) :
    let out := p.pollLoop order now actions
    out.2.data.Sized ∧ out.2.data.numSets = p.data.numSets ∧ out.2.rx ⊆ actions ∧
      Settles v out.2.data.Connected (out.1.toList ++ out.2.messageQueue) := by
  induction actions generalizing p with
  | nil =>
    unfold pollLoop
    cases hq : p.messageQueue with
    | nil | cons => exact ⟨hs, rfl, List.Subset.refl _, by simpa [hq] using hv⟩
  | cons action actions ih =>
    unfold pollLoop
    cases hq : p.messageQueue with
    | cons message queue => exact ⟨hs, rfl, List.Subset.refl _, by simpa [hq] using hv⟩
    | nil =>
      obtain ⟨hset, hconnect⟩ := ha action List.mem_cons_self
      obtain ⟨xs, hxs⟩ := drops_onAction hs order now hset hconnect
      have hsettles : Settles v (p.onAction order now action).data.Connected
          (p.onAction order now action).messageQueue := by
        have h := settles_drops xs hv
        rw [← hxs.queue] at h
        have heq : (p.onAction order now action).data.Connected =
            fun y => p.data.Connected y ∧ y ∉ xs := by
          ext y
          exact hxs.connected y
        rwa [heq]
      obtain ⟨hs', hnum, hsub, hv'⟩ := ih hxs.sized (by
        intro a hmem
        rw [hxs.numSets]
        exact ha a (List.mem_cons_of_mem _ hmem)) hsettles
      exact ⟨hs', hnum.trans hxs.numSets, List.subset_cons_of_subset _ hsub, hv'⟩

theorem receive_distinct {v : View} {message : Message}
    (hm : ∀ set peer, message ≠ .connect set peer)
    (hd : ∀ i j x, v.outstanding i = some x → v.outstanding j = some x → i = j)
    (hf : ∀ i x, v.outstanding i = some x → x ∉ v.believed) :
    (∀ i j x, (v.receive message).outstanding i = some x →
      (v.receive message).outstanding j = some x → i = j) ∧
    ∀ i x, (v.receive message).outstanding i = some x → x ∉ (v.receive message).believed := by
  constructor
  · intro i j x hi hj
    exact hd i j x (outstanding_receive hi) (outstanding_receive hj)
  · intro i x hi
    have hold := outstanding_receive hi
    cases message with
    | connect set peer => exact absurd rfl (hm set peer)
    | drop set peer => exact fun hmem => hf i x hold (Finset.mem_of_mem_erase hmem)
    | accept j =>
      simp only [View.receive] at hi ⊢
      split
      · exact hf i x hold
      · next y hy =>
        rw [hy] at hi
        rw [Finset.mem_insert, not_or]
        refine ⟨?_, hf i x hold⟩
        rintro rfl
        -- the accepted connection was the only one that was asked for
        obtain rfl := hd i j x hold hy
        simp at hi
    | reject j => exact hf i x hold

theorem Consistent.poll (h : s.Consistent) (order : HashOrder) (now : Instant) :
    (s.next (.poll order now)).Consistent ∧
      ∀ message ∈ s.emitted (.poll order now), s.view.Proper message := by
  obtain ⟨hs, hnum, hsub, hv⟩ := pollLoop_spec order now h.sized h.actions h.settles
  rcases hout : s.peerset.pollLoop order now s.peerset.rx with ⟨message, p⟩
  rw [hout] at hs hnum hsub hv
  have hactions : ∀ a ∈ p.rx,
      (∀ set ∈ a.set?, set < p.data.numSets) ∧ ∀ q, a ≠ .connectToPeer q := by
    intro a ha
    rw [hnum]
    exact h.actions a (hsub ha)
  simp only [next, emitted, pollNext, hout]
  cases message with
  | none => exact ⟨⟨hs, hactions, hv, h.distinct, h.fresh⟩, by simp⟩
  | some message =>
    obtain ⟨hm, hproper, hrest⟩ := hv
    obtain ⟨hd, hf⟩ := receive_distinct hm h.distinct h.fresh
    exact ⟨⟨hs, hactions, hrest, hd, hf⟩, by simpa using hproper⟩

theorem Consistent.incoming (h : s.Consistent) {now : Instant} {set : SetId} {p : PeerId}
    {index : IncomingIndex} (ha : s.Admissible (.incoming now set p index)) :
    (s.next (.incoming now set p index)).Consistent := by
  obtain ⟨hset, hbelieved, hindex, hopen⟩ := ha
  have hans := answers_incoming h.sized hset now p index
  have hnot := h.settles.not_connected hbelieved hopen
  constructor
  · exact hans.sized
  · intro a hmem
    simp only [next, hans.rx, hans.numSets] at hmem ⊢
    exact h.actions a hmem
  · change Settles (s.view.ask index (set, p)) _ _
    have hconnected : ∀ C : SetId × PeerId → Prop,
        (∀ y, (s.peerset.incoming now set p index).data.Connected y ↔ C y) →
        (s.next (.incoming now set p index)).peerset.data.Connected = C := by
      intro C hC
      ext y
      exact hC y
    rcases hans.answer with ⟨hq, -, hc⟩ | ⟨hq, hc⟩ | ⟨-, hc, -⟩
    · rw [hconnected _ hc]
      simp only [next, hq]
      exact settles_accept h.settles hindex hnot
    · rw [hconnected _ hc]
      simp only [next, hq]
      exact settles_reject h.settles hindex
    · exact absurd hc hnot
  · intro i j x hi hj
    by_cases hii : i = index <;> by_cases hjj : j = index
    · rw [hii, hjj]
    · subst hii
      simp only [next, Function.update_self, Function.update_of_ne hjj] at hi hj
      cases hi
      exact absurd hj (hopen j)
    · subst hjj
      simp only [next, Function.update_self, Function.update_of_ne hii] at hi hj
      cases hj
      exact absurd hi (hopen i)
    · simp only [next, Function.update_of_ne hii, Function.update_of_ne hjj] at hi hj
      exact h.distinct i j x hi hj
  · intro i x hi
    by_cases hii : i = index
    · subst hii
      simp only [next, Function.update_self] at hi
      cases hi
      exact hbelieved
    · simp only [next, Function.update_of_ne hii] at hi
      exact h.fresh i x hi

theorem Consistent.dropped (h : s.Consistent) {now : Instant} {set : SetId} {p : PeerId}
    {reason : DropReason} (ha : s.Admissible (.dropped now set p reason)) :
    (s.next (.dropped now set p reason)).Consistent := by
  have hforget := forgets_dropped h.sized now set p reason
  have hopen : ∀ i, s.view.outstanding i ≠ some (set, p) := fun i hi => h.fresh i _ hi ha.2
  constructor
  · exact hforget.sized
  · intro a hmem
    simp only [next, hforget.rx, hforget.numSets] at hmem ⊢
    exact h.actions a hmem
  · have hconnected : (s.next (.dropped now set p reason)).peerset.data.Connected =
        fun y => s.peerset.data.Connected y ∧ y ≠ (set, p) := by
      ext y
      exact hforget.connected y
    rw [hconnected]
    simp only [next, hforget.queue]
    exact settles_dropped h.settles hopen
  · exact h.distinct
  · exact fun i x hi hmem => h.fresh i x hi (Finset.mem_of_mem_erase hmem)

/-- No connection is asked for through a handle. -/
def NoConnect (_ : Session) (event : Event) (_ : Session) : Prop :=
  ∀ p, event ≠ .send (.connectToPeer p)

/-- A step that asks for no connection keeps the state consistent and brings proper messages. -/
theorem consistent_step {event : Event} (hstep : Step s event s') (hc : NoConnect s event s')
    (h : s.Consistent) : s'.Consistent ∧ s.EmitsProper event s' := by
  obtain ⟨ha, rfl⟩ := hstep
  cases event with
  | send action =>
    refine ⟨⟨h.sized, ?_, h.settles, h.distinct, h.fresh⟩, by simp [EmitsProper, emitted]⟩
    intro a hmem
    rcases List.mem_append.mp hmem with hmem | hmem
    · exact h.actions a hmem
    · obtain rfl := List.mem_singleton.mp hmem
      refine ⟨ha, ?_⟩
      rintro p rfl
      exact hc p rfl
  | incoming now set p index => exact ⟨h.incoming ha, by simp [EmitsProper, emitted]⟩
  | dropped now set p reason => exact ⟨h.dropped ha, by simp [EmitsProper, emitted]⟩
  | poll order now => exact h.poll order now

/-- In every run in which no connection is asked for through a handle, the network and the peerset
agree whenever no message is on its way, and every message is proper when it arrives. -/
theorem agreement (order : HashOrder) (now : Instant) (sets : List SetConfig)
    (events : List Event) (h : Along Step NoConnect (start order now sets) events) :
    Always Step Agrees (start order now sets) events ∧
      Along Step EmitsProper (start order now sets) events := by
  obtain ⟨hconsistent, hproper⟩ := always_and_along_of (I := Consistent) (P := EmitsProper)
    (fun _ _ _ hstep hc ht => consistent_step hstep hc ht) (consistent_start order now sets) h
  exact ⟨hconsistent.mono fun _ ht => ht.agrees, hproper⟩

/-- A peerset with one set and nobody in it. -/
theorem fromConfig_single (order : HashOrder) (now : Instant) (inPeers outPeers : ℕ) :
    fromConfig order now [⟨inPeers, outPeers, [], ∅, false⟩] =
      ⟨⟨∅, [⟨0, 0, inPeers, outPeers, ∅⟩]⟩, [(∅, false)], [], [], now, now, []⟩ := by
  simp [fromConfig, initSets, order.enumerate_empty, PeersState.new]

/-- An incoming connection is accepted and believed in. -/
theorem agreement_incoming : ∃ order s,
    Run Step (start order 0 [⟨1, 1, [], ∅, false⟩]) [.incoming 0 0 [7] 0, .poll order 0] s ∧
    (0, [7]) ∈ s.view.believed ∧ ∀ x, x ∈ s.view.believed ↔ s.peerset.data.Connected x := by
  let order : HashOrder := ⟨Finset.toList, Finset.nodup_toList, fun _ _ => Finset.mem_toList⟩
  obtain ⟨s, hrun, hq, hs⟩ : ∃ s, Run Step (start order 0 [⟨1, 1, [], ∅, false⟩])
      [.incoming 0 0 [7] 0, .poll order 0] s ∧ s.peerset.messageQueue = [] ∧
      (0, [7]) ∈ s.view.believed := by
    rw [start, fromConfig_single]
    refine ⟨_, .cons ⟨?_, rfl⟩ (.cons ⟨trivial, rfl⟩ (.nil _)), rfl, ?_⟩
    · refine ⟨by decide, by simp, rfl, by simp⟩
    · decide +kernel
  have h := agreement order 0 [⟨1, 1, [], ∅, false⟩] [.incoming 0 0 [7] 0, .poll order 0]
    (along_of_mem fun event hmem _ _ _ p => by
      rintro rfl
      simp at hmem)
  exact ⟨order, s, hrun, hs, h.1 _ s (List.prefix_refl _) hrun hq⟩

/-- A connection that was asked for through a handle is believed in but not in the table. -/
theorem not_agreement_connectToPeer : ∃ order s,
    Run Step (start order 0 [⟨1, 1, [], ∅, false⟩])
      [.send (.connectToPeer [7]), .poll order 0] s ∧ ¬ s.Agrees := by
  let order : HashOrder := ⟨Finset.toList, Finset.nodup_toList, fun _ _ => Finset.mem_toList⟩
  refine ⟨order, ?_⟩
  rw [start, fromConfig_single]
  refine ⟨_, .cons ⟨?_, rfl⟩ (.cons ⟨trivial, rfl⟩ (.nil _)), ?_⟩
  · simp [Admissible, Action.set?]
  · intro h
    have hx := (h rfl (0, [7])).mp (by decide +kernel)
    revert hx
    decide +kernel

end Session

end SwarmHost.Substrate.Peerset
