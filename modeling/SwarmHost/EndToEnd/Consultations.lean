import SwarmHost.Context.Flags
import SwarmHost.EndToEnd.Exchanges
import SwarmHost.Filter.Sinks

/-! # Turns of the filter with the default scripts

A turn sends the requests that the events of the executor ask for, unless an earlier
event ends the batch. The events of a call are taken right after it, together with the
responses that an earlier call left behind when it raised an exception.
-/

namespace SwarmHost.EndToEnd

open Substrate

section Filter

variable {env : Environment} {f : Filter (substrate env)} {turn : Filter.Turn (substrate env)}
  {e : ExecutorEvent (substrate env)} {es : List (ExecutorEvent (substrate env))} {p : PeerId}

def askedFor : ExecutorEvent (substrate env) → Option Exchange
  | .sendRequest peer protocol _ => some ⟨peer, protocol, none⟩
  | _ => none

theorem carried_forward (f : Filter (substrate env)) (protocol : ProtocolName)
    (notification : Message) (peers : List PeerId) :
    carried effectExchange (f.forward protocol notification peers).2 = 0 := by
  induction peers generalizing f with
  | nil => rfl
  | cons p peers ih =>
    have hone : carried effectExchange (f.sendPacket protocol notification p).2 = 0 := by
      unfold Filter.sendPacket
      cases f.peers.get? p <;> rfl
    simp [Filter.forward, hone, ih]

theorem carried_processEvent (h : askedFor e = none) :
    carried effectExchange (f.processEvent e).2.2 = 0 := by
  cases e with
  | connect p => rfl
  | forward peers protocol notification => exact carried_forward f protocol notification peers
  | sendRequest => cases h
  | sendResponse p payload =>
    simp only [Filter.processEvent]
    cases f.pendingInbound.get? p with
    | none => rfl
    | some id =>
      dsimp only
      cases f.peers.get? p <;> rfl

theorem carried_processEvents (h : ∀ e ∈ es, askedFor e = none) :
    carried effectExchange (f.processEvents es).2.2 = 0 := by
  induction es generalizing f with
  | nil => rfl
  | cons e es ih =>
    have hone : carried effectExchange (f.processEvent e).2.2 = 0 :=
      carried_processEvent (h e List.mem_cons_self)
    rcases hout : f.processEvent e with ⟨_ | ⟨⟨⟩⟩, f', effects⟩
    · rw [Filter.processEvents_cons_of_error hout]
      rwa [hout] at hone
    · rw [hout] at hone
      rw [Filter.processEvents_cons_of_ok hout]
      simp only [carried_append, hone, zero_add]
      exact ih fun e he => h e (List.mem_cons_of_mem _ he)

theorem carried_prepare (f : Filter (substrate env)) (answer : ExecutorAnswer (substrate env))
    (input : FilterInput (substrate env)) :
    carried effectExchange (f.prepare answer input).effects = 0 := by
  cases input with
  | poll => rfl
  | command command =>
    cases command with
    | registerPeer peer sink =>
      simp only [Filter.prepare, Filter.registerPeer]
      split
      · rfl
      · cases answer <;> rfl
    | unregisterPeer peer =>
      simp only [Filter.prepare, Filter.unregisterPeer]
      split <;> rfl
    | protocolOpened peer protocol | protocolClosed peer protocol =>
      simp only [Filter.prepare, Filter.protocolOpened, Filter.protocolClosed, Filter.addProtocol]
      cases f.peers.get? peer <;> rfl
    | injectNotification protocol peer notification =>
      simp only [Filter.prepare, Filter.injectNotification, Filter.sendToAll_entries]
      split
      · rfl
      · exact carried_forward f protocol notification f.peers.keys
      · rfl
    | _ => rfl

theorem carried_effects (f : Filter (substrate env)) (turn : Filter.Turn (substrate env)) :
    carried effectExchange (f.effects turn) =
      carried effectExchange ((f.prepared turn).processEvents (f.events turn)).2.2 := by
  have hnone := carried_prepare f turn.answer turn.input
  simp only [Filter.effects, Filter.events, Filter.prepared, Filter.handle]
  cases (f.prepare turn.answer turn.input).events with
  | error => exact hnone
  | ok events => simp only [carried_append, hnone, zero_add]; rfl

theorem events_eq_or_nil (f : Filter (substrate env)) (input : FilterInput (substrate env))
    (answer : ExecutorAnswer (substrate env)) :
    f.events ⟨input, answer⟩ = answer.toOption.getD [] ∨ f.events ⟨input, answer⟩ = [] := by
  cases input with
  | poll => exact .inl rfl
  | command command =>
    cases command with
    | registerPeer peer sink =>
      simp only [Filter.events, Filter.prepare, Filter.registerPeer]
      split
      · exact .inr rfl
      · cases answer <;> exact .inl rfl
    | unregisterPeer peer =>
      simp only [Filter.events, Filter.prepare, Filter.unregisterPeer]
      split
      · exact .inl rfl
      · exact .inr rfl
    | protocolOpened peer protocol | protocolClosed peer protocol =>
      simp only [Filter.events, Filter.prepare, Filter.protocolOpened, Filter.protocolClosed,
        Filter.addProtocol]
      cases f.peers.get? peer with
      | none => exact .inr rfl
      | some => exact .inl rfl
    | injectNotification protocol peer notification =>
      simp only [Filter.events, Filter.prepare, Filter.injectNotification, Filter.sendToAll_entries]
      split
      · exact .inl rfl
      · exact .inr rfl
      · exact .inr rfl
    | installNotificationFilter | installRequestResponseFilter =>
      cases answer <;> exact .inr rfl
    | _ => exact .inl rfl

theorem mem_answer_of_mem_events (h : e ∈ f.events turn) :
    ∃ es, turn.answer = .ok es ∧ e ∈ es := by
  rcases events_eq_or_nil f turn.input turn.answer with heq | hnil
  · rw [heq] at h
    cases hanswer : turn.answer with
    | error error =>
      rw [hanswer] at h
      cases h
    | ok es =>
      rw [hanswer] at h
      exact ⟨es, rfl, h⟩
  · rw [hnil] at h
    cases h

theorem carried_effects_eq_zero
    (h : ∀ es, turn.answer = .ok es → ∀ e ∈ es, askedFor e = none) :
    carried effectExchange (f.effects turn) = 0 := by
  rw [carried_effects]
  refine carried_processEvents fun e he => ?_
  obtain ⟨es, hanswer, hmem⟩ := mem_answer_of_mem_events he
  exact h es hanswer e hmem

theorem carried_processEvents_request {protocol : ProtocolName} {payload : Bytes}
    (hes : ∀ e ∈ es, ∃ q response, e = .sendResponse q response ∧ q ∈ f.peers)
    (hp : f.sink? p = some ⟨p⟩) :
    carried effectExchange (f.processEvents (es ++ [.sendRequest p protocol payload])).2.2 =
      {⟨p, protocol, none⟩} := by
  induction es generalizing f with
  | nil =>
    obtain ⟨info, hinfo, hsink⟩ := Option.map_eq_some_iff.mp hp
    simp only [List.nil_append, Filter.processEvents, Filter.processEvent, hinfo, hsink]
    rfl
  | cons e es ih =>
    obtain ⟨q, response, rfl, hq⟩ := hes e List.mem_cons_self
    obtain ⟨info, hinfo⟩ := Dict.mem_iff.mp hq
    have hrest := fun e he => hes e (List.mem_cons_of_mem _ he)
    rw [List.cons_append]
    cases hid : f.pendingInbound.get? q with
    | none =>
      have hout : f.processEvent (.sendResponse q response) = (.ok (), f, []) := by
        simp only [Filter.processEvent, hid]
      rw [Filter.processEvents_cons_of_ok hout]
      exact ih hrest hp
    | some id =>
      have hout : f.processEvent (.sendResponse q response) =
          (.ok (), { f with pendingInbound := f.pendingInbound.erase q },
            [.sendResponse q info.sink id response]) := by
        simp only [Filter.processEvent, hid, hinfo]
      rw [Filter.processEvents_cons_of_ok hout]
      -- the sinks are those of the filter before the response
      exact ih (f := { f with pendingInbound := f.pendingInbound.erase q }) hrest hp

theorem uses_iff {sink sink' : PacketSink} : (substrate env).Uses sink sink' ↔ sink = sink' := by
  constructor
  · intro h
    induction h with
    | refl => rfl
    | tail _ hlast ih =>
      obtain ⟨protocol, notification, rfl⟩ := hlast
      exact ih
  · rintro rfl
    exact .refl

theorem eq_of_rel {a b : Option PacketSink} (h : Option.Rel (substrate env).Uses a b) : a = b := by
  cases h with
  | none => rfl
  | some h => rw [uses_iff.mp h]

end Filter

section Consultation

variable {env : Environment} {x : Scripts} {ctx : Context} {l : List PendingEvent}
  {es : List (ExecutorEvent (substrate env))} {out : Outcome} {busy : PeerId → Prop}

def Rests (ctx : Context) : Prop := ∀ e ∈ ctx.pendingEvents, e.IsResponse

theorem askedFor_of_convert {e : PendingEvent} {e' : ExecutorEvent (substrate env)}
    (h : x.convert e = some e') (he : e.request? = none) : askedFor e' = none := by
  cases e with
  | connect => cases h; rfl
  | forward =>
    obtain ⟨payload, -, rfl⟩ := Option.map_eq_some_iff.mp h
    rfl
  | sendRequest => cases he
  | sendResponse => cases h; rfl

theorem askedFor_of_mapM_convert (h : l.mapM x.convert = some es)
    (hl : ∀ e ∈ l, e.request? = none) : ∀ e ∈ es, askedFor e = none := by
  induction l generalizing es with
  | nil =>
    cases h
    simp
  | cons e l ih =>
    simp only [List.mapM_cons, bind, Option.bind_eq_some_iff, pure, Option.some.injEq] at h
    obtain ⟨e', he', es', hes', rfl⟩ := h
    obtain ⟨hone, hrest⟩ := List.forall_mem_cons.mp hl
    exact List.forall_mem_cons.mpr ⟨askedFor_of_convert he' hone, ih hes' hrest⟩

theorem mapM_convert_responses (x : Scripts) (h : ∀ e ∈ l, e.IsResponse) :
    ∃ es : List (ExecutorEvent (substrate env)), l.mapM x.convert = some es ∧
      ∀ e ∈ es, ∃ q response payload, .sendResponse q response ∈ l ∧
        e = .sendResponse q payload := by
  induction l with
  | nil => exact ⟨[], rfl, by simp⟩
  | cons e l ih =>
    obtain ⟨hone, hrest⟩ := List.forall_mem_cons.mp h
    obtain ⟨es, hes, hmem⟩ := ih hrest
    cases e with
    | sendResponse q response =>
      refine ⟨.sendResponse q (x.serializeResponse response) :: es, ?_, ?_⟩
      · simp [List.mapM_cons, hes, Scripts.convert]
      · refine List.forall_mem_cons.mpr ⟨⟨q, response, _, List.mem_cons_self, rfl⟩, fun e he => ?_⟩
        obtain ⟨q', response', payload, hl, heq⟩ := hmem e he
        exact ⟨q', response', payload, List.mem_cons_of_mem _ hl, heq⟩
    | _ => cases hone

/-- A consultation without requests. The flags after it are given. -/
structure Still (c : Consultation env) (busy : PeerId → Prop) : Prop where
  asks : ∀ es, c.1 = some (.ok es) → ∀ e ∈ es, askedFor e = none
  rests : Rests c.2
  busy : ∀ q, Context.Busy c.2.peers q ↔ busy q

theorem Still.of_same {answer : Option (ExecutorAnswer (substrate env))} (hrests : Rests ctx)
    (h : ∀ es, answer = some (.ok es) → es = []) :
    Still (answer, ctx) (Context.Busy ctx.peers) where
  asks es hes e he := by
    rw [h es hes] at he
    cases he
  rests := hrests
  busy _ := Iff.rfl

/-- The events of a call without requests are taken, or the call raised and left responses. -/
theorem still_collect (hrests : Rests ctx) (h : Context.Quiet ctx out busy) :
    Still (x.collect out : Consultation env) busy := by
  obtain ⟨result, ctx'⟩ := out
  obtain ⟨⟨new, hevents, hnew, herror⟩, hbusy⟩ := h
  cases result with
  | error error =>
    refine ⟨fun es hes => absurd hes (by simp [Scripts.collect]), fun e he => ?_, hbusy⟩
    change e ∈ ctx'.pendingEvents at he
    rw [hevents] at he
    exact (List.mem_append.mp he).elim (hrests e) (herror error rfl e)
  | ok =>
    refine ⟨fun es hes => ?_, List.forall_mem_nil _, hbusy⟩
    obtain ⟨es', hes', heq⟩ := Option.map_eq_some_iff.mp hes
    obtain rfl : es' = es := Except.ok.inj heq
    refine askedFor_of_mapM_convert hes' fun e he => ?_
    change e ∈ ctx'.pendingEvents at he
    rw [hevents] at he
    exact (List.mem_append.mp he).elim (fun he => (hrests e he).request?) (hnew e)

theorem collect_of_requests (env : Environment) (x : Scripts) {protocol : ProtocolName}
    {provider : PeerId} (hrests : Rests ctx) (h : Context.Requests ctx protocol provider out) :
    ∃ (es : List (ExecutorEvent (substrate env))) (bytes : Bytes),
      x.collect out = (some (.ok (es ++ [.sendRequest provider protocol bytes])), out.2.poll.2) ∧
      ∀ e ∈ es, ∃ q response payload, .sendResponse q response ∈ ctx.pendingEvents ∧
        e = .sendResponse q payload := by
  obtain ⟨result, ctx'⟩ := out
  obtain ⟨hok, ⟨bytes, hevents⟩, -, -, -⟩ := h
  obtain rfl : result = .ok () := hok
  change ctx'.pendingEvents = _ at hevents
  obtain ⟨es, hes, hmem⟩ := mapM_convert_responses x hrests
  refine ⟨es, bytes, ?_, hmem⟩
  simp [Scripts.collect, Context.poll, hevents, hes, Scripts.convert]

end Consultation

end SwarmHost.EndToEnd
