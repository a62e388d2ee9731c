import SwarmHost.Peerset.Agreement
import SwarmHost.Peerset.Operations

/-! # Checks of the peerset

The functions of the peerset with the checks of the source: counters must not go
below zero, and what the assertions claim must hold. A function that fails a check
returns nothing. Kinds of operations on the table are told apart by what they
leave alone.
-/

namespace SwarmHost.Substrate

namespace PeersState

namespace Operation

def connects : Operation → Bool
  | .tryOutgoing .. | .tryAcceptIncoming .. => true
  | _ => false

def rates : Operation → Bool
  | .addReputation .. | .peerReputation .. => true
  | _ => false

def regroups : Operation → Bool
  | .addNoSlotNode .. | .removeNoSlotNode .. => true
  | _ => false

/-- Nobody gets connected, and no reputation changes. -/
def Quiet (op : Operation) : Prop := ¬ op.connects ∧ ¬ op.rates

/-- Neither connections, reputations nor reserved nodes change, except that connections close. -/
def Still (op : Operation) : Prop := op.Quiet ∧ ¬ op.regroups

end Operation

variable {d d' d'' : PeersState} {P Q : Operation → Prop} {op : Operation}

/-- The second state results from the first by operations of a kind. -/
def Issues (P : Operation → Prop) (d d' : PeersState) : Prop :=
  ∃ ops, (∀ op ∈ ops, P op) ∧ Run Step d ops d'

theorem Issues.refl (d : PeersState) : Issues P d d := ⟨[], by simp, .nil d⟩

theorem Issues.single (h : d.Allowed op) (hop : P op) : Issues P d (d.exec op) :=
  ⟨[op], by simpa using hop, .cons ⟨h, rfl⟩ (.nil _)⟩

theorem Issues.trans (h : Issues P d d') (h' : Issues P d' d'') : Issues P d d'' := by
  obtain ⟨ops, hops, hrun⟩ := h
  obtain ⟨ops', hops', hrun'⟩ := h'
  refine ⟨ops ++ ops', ?_, Run.append_iff.mpr ⟨d', hrun, hrun'⟩⟩
  intro op hop
  rcases List.mem_append.mp hop with hop | hop
  · exact hops op hop
  · exact hops' op hop

theorem Issues.mono (hPQ : ∀ op, P op → Q op) (h : Issues P d d') : Issues Q d d' := by
  obtain ⟨ops, hops, hrun⟩ := h
  exact ⟨ops, fun op hop => hPQ op (hops op hop), hrun⟩

/-- What every operation of a kind keeps is kept. -/
theorem Issues.invariant {I : PeersState → Prop} (h : Issues P d d')
    (hstep : ∀ d op, P op → d.Allowed op → I d → I (d.exec op)) (hd : I d) : I d' := by
  obtain ⟨ops, hops, hrun⟩ := h
  induction hrun with
  | nil => exact hd
  | @cons d₁ d₂ d₃ op ops hstep' _ ih =>
    obtain ⟨hallowed, rfl⟩ := hstep'
    exact ih (hstep _ op (hops op List.mem_cons_self) hallowed hd)
      fun op' hop => hops op' (List.mem_cons_of_mem _ hop)

theorem Issues.accounted (h : Issues P d d') (hd : d.Accounted) : d'.Accounted :=
  h.invariant (I := Accounted) (fun _ _ _ hallowed hd => accounted_exec hd hallowed) hd

theorem Issues.numSets (h : Issues P d d') (hd : d.Sized) : d'.numSets = d.numSets := by
  have hkeep := h.invariant (I := fun e => e.Sized ∧ e.numSets = d.numSets) ?_ ⟨hd, rfl⟩
  · exact hkeep.2
  · rintro e op - hallowed ⟨he, hnum⟩
    obtain ⟨set, p, hshift⟩ := exists_shift_exec he hallowed
    exact ⟨hshift.sized, hshift.numSets.trans hnum⟩

section Frame

theorem field_modifySet {α : Type*} (g : SetInfo → α) {f : SetInfo → SetInfo}
    (h : ∀ info, g (f info) = g info) (set set' : SetId) :
    g ((d.modifySet set f).setInfo set') = g (d.setInfo set') := by
  simp only [setInfo, modifySet, List.getD_eq_getElem?_getD, List.getElem?_modify]
  cases d.sets[set']? with
  | none => rfl
  | some info => by_cases hset : set = set' <;> simp [hset, h]

theorem field_adjustSlots {α : Type*} (g : SetInfo → α)
    (hin : ∀ info n, g { info with numIn := n } = g info)
    (hout : ∀ info n, g { info with numOut := n } = g info) (set : SetId) (m : MembershipState)
    (f : ℕ → ℕ) (set' : SetId) : g ((d.adjustSlots set m f).setInfo set') = g (d.setInfo set') := by
  cases m with
  | ingoing => exact field_modifySet g (fun info => hin info _) set set'
  | outgoing => exact field_modifySet g (fun info => hout info _) set set'
  | notMember | notConnected => rfl

theorem setInfo_of_sets (h : d'.sets = d.sets) (set : SetId) : d'.setInfo set = d.setInfo set := by
  rw [setInfo, setInfo, h]

/-- Apart from the counters an operation leaves a set alone, unless it regroups. -/
theorem field_exec {α : Type*} (g : SetInfo → α)
    (hin : ∀ info n, g { info with numIn := n } = g info)
    (hout : ∀ info n, g { info with numOut := n } = g info)
    (hregroups : op.regroups → ∀ info nodes, g { info with noSlotNodes := nodes } = g info)
    (set : SetId) : g ((d.exec op).setInfo set) = g (d.setInfo set) := by
  cases op with
  | addNoSlotNode set' p =>
    simp only [exec, addNoSlotNode]
    split
    · rfl
    · rw [field_adjustSlots g hin hout]
      exact field_modifySet g (fun info => hregroups rfl info _) set' set
  | removeNoSlotNode set' p =>
    simp only [exec, removeNoSlotNode]
    split
    · rw [field_adjustSlots g hin hout]
      exact field_modifySet g (fun info => hregroups rfl info _) set' set
    · rfl
  | disconnect set' p now =>
    simp only [exec, disconnect]
    split
    · rfl
    · exact field_adjustSlots g hin hout set' _ _ set
  | addReputation set' p modifier => rfl
  | bumpLastConnectedOrDiscovered set' p now =>
    simp only [exec, bumpLastConnectedOrDiscovered]
    split <;> rfl
  | tryOutgoing set' p =>
    simp only [exec, tryOutgoing]
    split
    · rfl
    · split
      · exact field_adjustSlots g hin hout set' _ _ set
      · rfl
  | tryAcceptIncoming set' p =>
    simp only [exec, tryAcceptIncoming]
    split
    · rfl
    · split
      · exact field_adjustSlots g hin hout set' _ _ set
      · rfl
  | forgetPeer set' p => exact congrArg g (setInfo_of_sets (sets_cleanUp _ p) set)
  | discover set' p now => rfl
  | peerReputation p f => exact congrArg g (setInfo_of_sets (sets_cleanUp _ p) set)

/-- What depends on no counter and no group is fixed. -/
theorem Issues.field {α : Type*} (g : SetInfo → α) (h : Issues P d d')
    (hin : ∀ info n, g { info with numIn := n } = g info)
    (hout : ∀ info n, g { info with numOut := n } = g info)
    (hno : ∀ info nodes, g { info with noSlotNodes := nodes } = g info) (set : SetId) :
    g (d'.setInfo set) = g (d.setInfo set) := by
  refine h.invariant (I := fun e => g (e.setInfo set) = g (d.setInfo set)) ?_ rfl
  rintro e op - - he
  rw [← he]
  exact field_exec g hin hout (fun _ => hno) set

theorem Issues.maxIn (h : Issues P d d') (set : SetId) :
    (d'.setInfo set).maxIn = (d.setInfo set).maxIn :=
  h.field SetInfo.maxIn (fun _ _ => rfl) (fun _ _ => rfl) (fun _ _ => rfl) set

theorem Issues.maxOut (h : Issues P d d') (set : SetId) :
    (d'.setInfo set).maxOut = (d.setInfo set).maxOut :=
  h.field SetInfo.maxOut (fun _ _ => rfl) (fun _ _ => rfl) (fun _ _ => rfl) set

theorem Issues.noSlotNodes (h : Issues P d d') (hP : ∀ op, P op → ¬ op.regroups) (set : SetId) :
    (d'.setInfo set).noSlotNodes = (d.setInfo set).noSlotNodes := by
  refine h.invariant (I := fun e => (e.setInfo set).noSlotNodes = (d.setInfo set).noSlotNodes)
    ?_ rfl
  intro e op hop _ he
  rw [← he]
  exact field_exec SetInfo.noSlotNodes (fun _ _ => rfl) (fun _ _ => rfl)
    (fun h => absurd h (hP op hop)) set

end Frame

end PeersState

namespace Peerset

section Definitions

variable (order : HashOrder) (now : Instant) (s : Peerset) (set : SetId) (peerId : PeerId)

def disconnectAndDrop? : Option Peerset :=
  (s.data.disconnect? set peerId now).map fun data =>
    { s with data := data }.push (.drop set peerId)

def onAddReservedPeer? : Option Peerset :=
  if peerId ∈ s.reserved set then some s
  else (s.data.addNoSlotNode? set peerId).map fun data =>
    { s with
      reservedNodes := s.reservedNodes.modify set fun r => (insert peerId r.1, r.2)
      data := data }

def onRemoveReservedPeer? : Option Peerset :=
  if peerId ∈ s.reserved set then
    let s := { s with
      reservedNodes := s.reservedNodes.modify set fun r => (r.1.erase peerId, r.2)
      data := s.data.removeNoSlotNode set peerId }
    if s.reservedOnly set ∧ s.data.peer set peerId = .connected then
      s.disconnectAndDrop? now set peerId
    else some s
  else some s

def onSetReservedPeers? (peerIds : Finset PeerId) : Option Peerset :=
  let toInsert := order.enumerate (peerIds \ s.reserved set)
  let toRemove := order.enumerate (s.reserved set \ peerIds)
  (toInsert.foldlM (fun (s : Peerset) node => s.onAddReservedPeer? set node) s).bind
    (toRemove.foldlM (fun (s : Peerset) node => s.onRemoveReservedPeer? now set node))

/-- The enumerated peers are expected to be connected. -/
def onSetReservedOnly? (reservedOnly : Bool) : Option Peerset :=
  let s := { s with reservedNodes := s.reservedNodes.modify set fun r => (r.1, reservedOnly) }
  if reservedOnly then
    (order.enumerate (s.data.connectedPeers set)).foldlM (fun s p =>
      if p ∈ s.reserved set then some s
      else if s.data.peer set p = .connected then s.disconnectAndDrop? now set p
      else none) s
  else some s

def onRemoveFromPeersSet? : Option Peerset :=
  if peerId ∈ s.reserved set then some s
  else
    match s.data.peer set peerId with
    | .connected =>
      ((s.data.disconnect? set peerId now).bind (·.forgetPeer? set peerId)).map fun data =>
        { s.push (.drop set peerId) with data := data }
    | .notConnected => (s.data.forgetPeer? set peerId).map fun data => { s with data := data }
    | .unknown => some s

def forgetOld? (data : PeersState) (p : PeerId) : Option PeersState :=
  (List.range data.numSets).foldlM (fun data set =>
    match data.membership set p with
    | .notConnected lastConnected =>
      if lastConnected + forgetAfter < now then data.forgetPeer? set p else some data
    | _ => some data) data

def fade? (data : PeersState) (p : PeerId) : Option PeersState :=
  let after := reputTick (data.reputation p)
  let data := data.peerReputation p fun _ => after
  if after ≠ 0 then some data else forgetOld? now data p

def updateTime? : Option Peerset :=
  ((List.range (s.secsDiff now)).foldlM (fun (data : PeersState) _ =>
    data.nodes.keys.foldlM (fade? now) data) s.data).map fun data =>
      { s with latestTimeUpdate := now, data := data }

def onReportPeer? (change : ℤ) : Option Peerset :=
  (s.updateTime? now).bind fun s =>
    let reputation := saturatingAdd (s.data.reputation peerId) change
    let s := { s with data := s.data.peerReputation peerId fun _ => reputation }
    if bannedThreshold ≤ reputation then some s
    else
      (List.range s.data.numSets).foldlM (fun s set =>
        if s.data.peer set peerId = .connected then s.disconnectAndDrop? now set peerId
        else some s) s

def answer? (index : IncomingIndex) : Option Peerset :=
  if s.data.reputation peerId < bannedThreshold then some (s.push (.reject index))
  else
    (s.data.tryAcceptIncoming? set peerId).map fun
      | (true, data) => { s with data := data }.push (.accept index)
      | (false, data) => { s with data := data }.push (.reject index)

def incoming? (index : IncomingIndex) : Option Peerset :=
  (s.updateTime? now).bind fun s =>
    if s.reservedOnly set ∧ peerId ∉ s.reserved set then some (s.push (.reject index))
    else if s.data.peer set peerId = .connected then some s
    else { s with data := enter now set peerId s.data }.answer? set peerId index

def penalize? : Option Peerset :=
  if s.data.peer set peerId = .connected then
    ((s.data.addReputation? peerId disconnectReputationChange).bind
      (·.disconnect? set peerId now)).map fun data => { s with data := data }
  else some s

def dropped? (reason : DropReason) : Option Peerset :=
  ((s.updateTime? now).bind (·.penalize? now set peerId)).bind fun s =>
    if reason = .refused then s.onRemoveFromPeersSet? now set peerId else some s

def onAction? : Action → Option Peerset
  | .addReservedPeer set peer => s.onAddReservedPeer? set peer
  | .removeReservedPeer set peer => s.onRemoveReservedPeer? now set peer
  | .setReservedPeers set peers => s.onSetReservedPeers? order now set peers
  | .setReservedOnly set reserved => s.onSetReservedOnly? order now set reserved
  | .reportPeer peer change => s.onReportPeer? now peer change
  | .removeFromPeersSet set peer => s.onRemoveFromPeersSet? now set peer
  | action => some (s.onAction order now action)

def pollLoop? (s : Peerset) : List Action → Option (Option Message × Peerset)
  | [] => some (s.pollLoop order now [])
  | action :: actions =>
    match s.messageQueue with
    | [] => (s.onAction? order now action).bind fun s => pollLoop? s actions
    | message :: queue =>
      some (some message, { s with rx := action :: actions, messageQueue := queue })

def initSets? (data : PeersState) : SetId → List SetConfig → Option PeersState
  | _, [] => some data
  | set, config :: configs =>
    ((order.enumerate config.reservedNodes).foldlM
        (fun (data : PeersState) p => data.addNoSlotNode? set p) data).bind fun data =>
      let data := config.bootnodes.foldl (fun data p =>
        if data.peer set p = .unknown then data.discover set p now else data) data
      initSets? data (set + 1) configs

/-- What happens with the checks of the source; `none` if a counter goes below zero or an
assertion fails. -/
def next? : Event → Option Peerset
  | .send action => some (s.send action)
  | .incoming now set peer index => s.incoming? now set peer index
  | .dropped now set peer reason => s.dropped? now set peer reason
  | .poll order now => (s.pollLoop? order now s.rx).map Prod.snd

def next : Event → Peerset
  | .send action => s.send action
  | .incoming now set peer index => s.incoming now set peer index
  | .dropped now set peer reason => s.dropped now set peer reason
  | .poll order now => (s.pollNext order now).2

/-- Callers name sets that exist. -/
def InRange : Event → Prop
  | .send action => ∀ set ∈ action.set?, set < s.data.numSets
  | .incoming _ set _ _ | .dropped _ set _ _ => set < s.data.numSets
  | .poll .. => True

instance : DecidablePred s.InRange
  | .send _ | .incoming .. | .dropped .. | .poll .. => by unfold InRange; infer_instance

def Step (event : Event) (s' : Peerset) : Prop := s.InRange event ∧ s.next event = s'

end Definitions

end Peerset

end SwarmHost.Substrate
