import SwarmHost.Backend.Substrate
import SwarmHost.Filter.Requests

/-! # When an event or a call of the executor fails

A batch of events is given up at the first event that needs a peer that is not
registered, whatever comes after it. A method whose call of the executor fails
keeps what it wrote before the call.
-/

namespace SwarmHost.Filter

variable {T : NetworkBackend} {f : Filter T} {p : T.PeerId} {e : ExecutorEvent T}

section Events

def Addressed (f : Filter T) : ExecutorEvent T → Prop
  | .connect _ => True
  | .forward peers _ _ => ∃ p ∈ peers, p ∈ f.peers
  | .sendRequest p _ _ => p ∈ f.peers
  | .sendResponse p _ => p ∈ f.peers

instance (f : Filter T) : DecidablePred f.Addressed
  | .connect _ => .isTrue trivial
  | .forward peers _ _ => inferInstanceAs (Decidable (∃ p ∈ peers, p ∈ f.peers))
  | .sendRequest p _ _ => inferInstanceAs (Decidable (p ∈ f.peers))
  | .sendResponse p _ => inferInstanceAs (Decidable (p ∈ f.peers))

/-- The batch has the effects it has without the events that are addressed to unregistered
peers. -/
def Independent (f : Filter T) (es : List (ExecutorEvent T)) : Prop :=
  (f.processEvents es).2.2 = (f.processEvents (es.filter f.Addressed)).2.2

/-- The event has an effect when it is reached after the events `done`. -/
def Acts (f : Filter T) (done : List (ExecutorEvent T)) : ExecutorEvent T → Prop
  | .connect _ => True
  | .forward peers _ _ => ∃ p ∈ peers, p ∈ f.peers
  | .sendRequest p _ _ => p ∈ f.peers
  | .sendResponse p _ => p ∈ f.peers ∧ p ∈ f.pendingInbound ∧ produced p done = []

theorem Acts.addressed {done : List (ExecutorEvent T)} (h : f.Acts done e) : f.Addressed e := by
  cases e with
  | connect => trivial
  | forward | sendRequest => exact h
  | sendResponse => exact h.1

theorem Addressed.not_aborts (h : f.Addressed e) : ¬ f.Aborts e := by
  cases e with
  | connect | forward => exact id
  | sendRequest => exact fun ha => ha h
  | sendResponse => exact fun ha => ha.1 h

theorem EventSpec.addressed_iff {e' : ExecutorEvent T}
    {out : Except Error Unit × Filter T × List (FilterEffect T)} (h : EventSpec f e out) :
    out.2.1.Addressed e' ↔ f.Addressed e' := by
  cases e' with
  | connect => exact Iff.rfl
  | forward => simp only [Addressed, h.peers]
  | sendRequest p | sendResponse p => exact h.peers p

theorem forward_of_unknown {peers : List T.PeerId} (h : ∀ p ∈ peers, p ∉ f.peers)
    (protocol : T.Protocol) (notification : T.Message) :
    f.forward protocol notification peers = (f, []) := by
  induction peers with
  | nil => rfl
  | cons p peers ih =>
    have hp : f.peers.get? p = none := Dict.notMem_iff.mp (h p List.mem_cons_self)
    have hone : f.sendPacket protocol notification p = (f, []) := by rw [sendPacket, hp]
    simp [forward, hone, ih fun q hq => h q (List.mem_cons_of_mem _ hq)]

theorem forward_effects_eq_nil_iff (f : Filter T) (peers : List T.PeerId) (protocol : T.Protocol)
    (notification : T.Message) :
    (f.forward protocol notification peers).2 = [] ↔ ∀ p ∈ peers, p ∉ f.peers := by
  constructor
  · intro h
    induction peers with
    | nil => simp
    | cons p peers ih =>
      rw [forward] at h
      obtain ⟨hone, hrest⟩ := List.append_eq_nil_iff.mp h
      have hp : f.peers.get? p = none := by
        cases hp : f.peers.get? p with
        | none => rfl
        | some info => simp [sendPacket, hp] at hone
      have hsame : (f.sendPacket protocol notification p).1 = f := by rw [sendPacket, hp]
      rw [hsame] at hrest
      intro q hq
      rcases List.mem_cons.mp hq with rfl | hq
      · exact Dict.notMem_iff.mpr hp
      · exact ih hrest q hq
  · intro h
    rw [forward_of_unknown h]

theorem processEvent_of_not_acts (ha : ¬ f.Acts [] e) (he : ¬ f.Aborts e) :
    f.processEvent e = (.ok (), f, []) := by
  cases e with
  | connect p => exact absurd trivial ha
  | forward peers protocol notification =>
    rw [processEvent, forward_of_unknown fun p hp hmem => ha ⟨p, hp, hmem⟩]
  | sendRequest p protocol payload => exact absurd ha he
  | sendResponse p payload =>
    have hid : f.pendingInbound.get? p = none := by
      rw [← Dict.notMem_iff]
      intro hmem
      by_cases hp : p ∈ f.peers
      · exact ha ⟨hp, hmem, rfl⟩
      · exact he ⟨hp, hmem⟩
    rw [processEvent, hid]

theorem effects_ne_nil_of_acts (ha : f.Acts [] e) : (f.processEvent e).2.2 ≠ [] := by
  cases e with
  | connect p => simp [processEvent]
  | forward peers protocol notification =>
    obtain ⟨p, hp, hmem⟩ := ha
    rw [processEvent, Ne, forward_effects_eq_nil_iff]
    exact fun h => h p hp hmem
  | sendRequest p protocol payload =>
    obtain ⟨info, hinfo⟩ := Dict.mem_iff.mp ha
    simp [processEvent, hinfo]
  | sendResponse p payload =>
    obtain ⟨hp, hid, -⟩ := ha
    obtain ⟨info, hinfo⟩ := Dict.mem_iff.mp hp
    obtain ⟨id, hid⟩ := Dict.mem_iff.mp hid
    simp [processEvent, hid, hinfo]

theorem effects_of_aborts (h : f.Aborts e) : (f.processEvent e).2.2 = [] := by
  cases e with
  | connect | forward => exact h.elim
  | sendRequest p protocol payload => simp [processEvent, Dict.notMem_iff.mp h]
  | sendResponse p payload =>
    obtain ⟨id, hid⟩ := Dict.mem_iff.mp h.2
    simp [processEvent, hid, Dict.notMem_iff.mp h.1]

theorem processEvent_of_not_aborts (h : ¬ f.Aborts e) :
    f.processEvent e = (.ok (), (f.processEvent e).2.1, (f.processEvent e).2.2) :=
  Prod.ext ((eventSpec f e).ok.mpr h) rfl

theorem processEvent_of_aborts (h : f.Aborts e) :
    ∃ error f', f.processEvent e = (.error error, f', []) := by
  have hok := mt (eventSpec f e).ok.mp (not_not.mpr h)
  have heffects := effects_of_aborts h
  rcases hout : f.processEvent e with ⟨_ | ⟨⟨⟩⟩, f', effects⟩
  · rw [hout] at heffects
    obtain rfl : effects = [] := heffects
    exact ⟨_, f', rfl⟩
  · simp [hout] at hok

theorem effects_eq_nil_iff {es : List (ExecutorEvent T)} (h : ∀ e ∈ es, f.Addressed e) :
    (f.processEvents es).2.2 = [] ↔ ∀ e ∈ es, ¬ f.Acts [] e := by
  induction es with
  | nil => simp [processEvents]
  | cons e es ih =>
    have he : ¬ f.Aborts e := (h e List.mem_cons_self).not_aborts
    rw [processEvents_cons_of_ok (processEvent_of_not_aborts he)]
    simp only [List.append_eq_nil_iff, List.forall_mem_cons]
    by_cases ha : f.Acts [] e
    · simp [ha, effects_ne_nil_of_acts ha]
    · rw [processEvent_of_not_acts ha he]
      simp [ha, ih fun e' he' => h e' (List.mem_cons_of_mem _ he')]

theorem acts_processEvents_iff (f : Filter T) (es : List (ExecutorEvent T)) :
    (f.processEvents es).2.1.Acts [] e ↔ f.Acts (f.reached es) e := by
  have hbatch := batchSpec f es
  cases e with
  | connect => exact Iff.rfl
  | forward => simp only [Acts, hbatch.peers]
  | sendRequest p => exact hbatch.peers p
  | sendResponse p payload =>
    simp only [Acts, hbatch.peers, produced_nil, and_true]
    apply and_congr_right
    intro hp
    rw [Dict.mem_iff_isSome, hbatch.pending p hp, Dict.mem_iff_isSome]
    split
    · next hnil => simp [hnil]
    · next hne => simp [hne]

/-- The batch and the batch without the unaddressed events run alike up to the first event that
aborts. -/
theorem processEvents_filter (f : Filter T) (es : List (ExecutorEvent T)) :
    (f.processEvents (es.filter f.Addressed)).2.2 = (f.processEvents es).2.2 ++
      ((f.processEvents (f.reached es)).2.1.processEvents
        ((es.drop (f.reached es).length).filter f.Addressed)).2.2 := by
  induction es generalizing f with
  | nil => rfl
  | cons e es ih =>
    by_cases he : f.Aborts e
    · obtain ⟨error, f', hout⟩ := processEvent_of_aborts he
      rw [processEvents_cons_of_error hout, reached_cons_of_aborts he]
      rfl
    · have hspec := eventSpec f e
      have hout := processEvent_of_not_aborts he
      have hsame : ∀ es : List (ExecutorEvent T),
          es.filter (f.processEvent e).2.1.Addressed = es.filter f.Addressed := by
        intro es
        exact List.filter_congr fun e' _ => decide_eq_decide.mpr hspec.addressed_iff
      have hrest := ih (f.processEvent e).2.1
      rw [hsame, hsame] at hrest
      rw [hspec.reached_cons he, List.length_cons, List.drop_succ_cons,
        processEvents_cons_of_ok hout, processEvents_cons_of_ok hout]
      by_cases hadd : f.Addressed e
      · rw [List.filter_cons_of_pos (by simpa using hadd), processEvents_cons_of_ok hout]
        simp only [hrest, List.append_assoc]
      · have hnone := processEvent_of_not_acts (fun h => hadd h.addressed) he
        rw [List.filter_cons_of_neg (by simpa using hadd)]
        rw [hnone] at hrest ⊢
        exact hrest

theorem addressed_processEvents_iff (f : Filter T) (es : List (ExecutorEvent T)) :
    (f.processEvents es).2.1.Addressed e ↔ f.Addressed e := by
  have hbatch := batchSpec f es
  cases e with
  | connect => exact Iff.rfl
  | forward => simp only [Addressed, hbatch.peers]
  | sendRequest p | sendResponse p => exact hbatch.peers p

theorem reached_reached (f : Filter T) (es : List (ExecutorEvent T)) :
    f.reached (f.reached es) = f.reached es := by
  rw [reached, List.takeWhile_eq_self_iff]
  intro e he
  exact List.mem_takeWhile_imp (p := fun e => !decide (f.Aborts e)) he

/-- Events for unknown peers do not matter to the others iff nothing after the first event that
aborts the batch has an effect. -/
theorem independent_iff (f : Filter T) (es : List (ExecutorEvent T)) :
    f.Independent es ↔ ∀ e ∈ es.drop (f.reached es).length, ¬ f.Acts (f.reached es) e := by
  have hrest : ∀ e ∈ (es.drop (f.reached es).length).filter f.Addressed,
      (f.processEvents (f.reached es)).2.1.Addressed e := by
    intro e he
    rw [addressed_processEvents_iff]
    exact of_decide_eq_true (List.mem_filter.mp he).2
  rw [Independent, processEvents_filter, List.self_eq_append_right, effects_eq_nil_iff hrest]
  simp only [acts_processEvents_iff, reached_reached, List.mem_filter, decide_eq_true_eq, and_imp]
  constructor
  · intro h e he ha
    exact h e he ha.addressed ha
  · intro h e he _
    exact h e he

/-- A request to a peer that is not registered keeps a request to a registered one from being
sent. -/
theorem not_independent_unknown :
    ¬ Independent (T := loopback) ⟨0, (∅ : Dict _ _).insert [7] ⟨⟨[7]⟩, ∅⟩, ∅⟩
      [.sendRequest [8] "/sync/2" [1], .sendRequest [7] "/sync/2" [1]] := by
  intro h
  cases h

end Events

section Calls

/-- One of the methods that keep a table, called such that it gets to its call of the executor. -/
def Asks (f : Filter T) : FilterCommand T → Prop
  | .registerPeer peer _ => peer ∉ f.peers
  | .unregisterPeer peer | .protocolOpened peer _ | .protocolClosed peer _ => peer ∈ f.peers
  | .injectRequest .. => True
  | _ => False

/-- The peers with what is kept of them and the pending requests are the same. -/
structure SameTables (f g : Filter T) : Prop where
  peers : ∀ p, f.peers.get? p = g.peers.get? p
  pendingInbound : ∀ p, f.pendingInbound.get? p = g.pendingInbound.get? p

def without (f : Filter T) : FilterCommand T → Filter T
  | .unregisterPeer peer => { f with peers := f.peers.erase peer }
  | _ => f

/-- If the executor fails, the method returns its error and has changed nothing, except that a peer
to unregister is gone. -/
def Restores (f : Filter T) (command : FilterCommand T) (error : Error) : Prop :=
  (f.handle (.error error) (.command command)).1 = .error error ∧
    SameTables (f.handle (.error error) (.command command)).2.1 (f.without command)

/-- What the method writes before it calls the executor is in the table already. -/
def Recorded (f : Filter T) : FilterCommand T → Prop
  | .protocolOpened peer protocol | .protocolClosed peer protocol =>
    ∀ info, f.peers.get? peer = some info → protocol ∈ info.protocols
  | .injectRequest _ peer request => f.pendingInbound.get? peer = some (T.requestId request)
  | _ => True

theorem SameTables.refl (f : Filter T) : SameTables f f := ⟨fun _ => rfl, fun _ => rfl⟩

theorem sameTables_addProtocol_iff {protocol : T.Protocol} (answer : ExecutorAnswer T)
    (hp : p ∈ f.peers) : SameTables (f.addProtocol answer p protocol).filter f ↔
      ∀ info, f.peers.get? p = some info → protocol ∈ info.protocols := by
  obtain ⟨info, hinfo⟩ := Dict.mem_iff.mp hp
  simp only [addProtocol, hinfo, Option.some.injEq, forall_eq']
  constructor
  · intro h
    have hget := h.peers p
    rw [Dict.get?_insert_self, hinfo, Option.some.injEq] at hget
    rw [← congrArg PeerInfo.protocols hget]
    exact Finset.mem_insert_self _ _
  · intro hmem
    refine ⟨fun q => ?_, fun _ => rfl⟩
    rw [Dict.get?_insert, Finset.insert_eq_of_mem hmem]
    split
    · next hq => rw [hq, hinfo]
    · rfl

/-- A failing call of the executor leaves the tables alone iff what the method writes before the
call is there already. -/
theorem restores_iff (f : Filter T) (command : FilterCommand T) (error : Error)
    (h : f.Asks command) : f.Restores command error ↔ f.Recorded command := by
  cases command with
  | registerPeer peer sink =>
    have hpeer : peer ∉ f.peers := h
    apply iff_of_true _ trivial
    simp only [Restores, handle, prepare, registerPeer, hpeer, if_false, without, true_and]
    exact .refl f
  | unregisterPeer peer =>
    have hpeer : peer ∈ f.peers := h
    apply iff_of_true _ trivial
    simp only [Restores, handle, prepare, unregisterPeer, hpeer, if_true, without, true_and]
    exact .refl _
  | protocolOpened peer protocol | protocolClosed peer protocol =>
    rw [Recorded, ← sameTables_addProtocol_iff (.error error) h]
    obtain ⟨info, hinfo⟩ := Dict.mem_iff.mp h
    simp [Restores, handle, prepare, protocolOpened, protocolClosed, addProtocol, hinfo, without]
  | injectRequest protocol peer request =>
    simp only [Restores, handle, prepare, injectRequest, without, true_and, Recorded]
    constructor
    · intro hsame
      rw [← hsame.pendingInbound peer]
      exact Dict.get?_insert_self _ _ _
    · intro hpending
      refine ⟨fun _ => rfl, fun q => ?_⟩
      rw [Dict.get?_insert]
      split
      · next hq => rw [hq, hpending]
      · rfl
  | _ => exact h.elim

/-- A filter with a peer, one protocol of the peer and one pending request of it. -/
def busy : Filter loopback :=
  ⟨0, (∅ : Dict _ _).insert [7] ⟨⟨[7]⟩, {"/sync/2"}⟩, (∅ : Dict _ _).insert [7] 3⟩

/-- What is recorded already, and a new peer that the executor refuses, change nothing. -/
theorem restores_refused :
    busy.Restores (.protocolOpened [7] "/sync/2") (.executorError (.runtimeError "")) ∧
    busy.Restores (.injectRequest "/sync/2" [7] ⟨3, [1]⟩) (.executorError (.runtimeError "")) ∧
    busy.Restores (.registerPeer [8] ⟨[8]⟩) (.executorError (.runtimeError "")) := by
  have hpeer : busy.Asks (.protocolOpened [7] "/sync/2") := by
    show [7] ∈ busy.peers
    decide
  have hrequest : busy.Asks (.injectRequest "/sync/2" [7] ⟨3, [1]⟩) := trivial
  have hprotocol : busy.Recorded (.protocolOpened [7] "/sync/2") := by
    intro info hinfo
    obtain rfl := Option.some.inj hinfo
    exact Finset.mem_singleton_self _
  have hnew : busy.Asks (.registerPeer [8] ⟨[8]⟩) := by
    show [8] ∉ busy.peers
    decide
  exact ⟨(restores_iff _ _ _ hpeer).mpr hprotocol, (restores_iff _ _ _ hrequest).mpr rfl,
    (restores_iff _ _ _ hnew).mpr trivial⟩

/-- A request for which there is no filter stays pending. -/
theorem not_restores_unfiltered :
    ¬ Restores (new 0 : Filter loopback) (.injectRequest "/sync/2" [7] ⟨0, [1]⟩)
      (.executorError .filterDoesntExist) := by
  rintro ⟨-, hsame⟩
  exact absurd (hsame.pendingInbound [7]) (by decide)

end Calls

end SwarmHost.Filter
