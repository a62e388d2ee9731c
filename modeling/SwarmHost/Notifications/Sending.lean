import SwarmHost.Notifications.Reactions
import SwarmHost.Runs.Basic

/-! # Sending through a sink

A sink never waits. Its notifications queue up in a bounded channel until the
outbound substream is ready for them. The first one that finds the channel full is
discarded with all later ones, and a last message makes the handler close the
connection.
-/

namespace SwarmHost.Substrate

def syncNotificationsBufferSize : ℕ := 2048

/-- What the outbound substream took from the channel and what waits in it, in order. -/
def HandlerState.line : HandlerState → Option (List NotificationsSinkMessage)
  | .opened rx (some out) _ => some (out.written.map .notification ++ rx)
  | _ => none

def NotifsHandler.line (h : NotifsHandler) (i : ℕ) : Option (List NotificationsSinkMessage) :=
  h.protocols[i]?.bind HandlerState.line

section Line

open HandlerState

variable {h : NotifsHandler} {i : ℕ} {l : List NotificationsSinkMessage} {state : HandlerState}

/-- The line stays, or our substream is gone. -/
def HandlerState.Keeps (state state' : HandlerState) : Prop :=
  state'.line = none ∨ state'.line = state.line

theorem HandlerState.Keeps.trans {state₁ state₂ : HandlerState} (h₁ : state.Keeps state₁)
    (h₂ : state₁.Keeps state₂) : state.Keeps state₂ := by
  unfold Keeps at *
  grind

end Line

/-- A handler, and whether the sink of one of its protocols has its sender still. -/
structure Sending where
  handler : NotifsHandler
  syncChannel : Bool

inductive SendingInput where
  /-- A message for the sink; a handler that has looked at the first one in the channel has freed
  its place. -/
  | send (message : Bytes) (peeked : Bool)
  | handle (input : HandlerInput)

namespace Sending

def sendSyncNotification (s : Sending) (i : ℕ) (message : Bytes) (peeked : Bool) : Sending :=
  if s.syncChannel then
    match s.handler.protocols[i]? with
    | some (.opened rx _ _) =>
      if rx.length ≤ syncNotificationsBufferSize + peeked.toNat then
        ⟨s.handler.onSinkMessage i (.notification message), true⟩
      else ⟨s.handler.onSinkMessage i .forceClose, false⟩
    -- the receiver is gone
    | _ => ⟨s.handler, false⟩
  else s

def next (s : Sending) (i : ℕ) : SendingInput → Sending
  | .send message peeked => s.sendSyncNotification i message peeked
  | .handle input => { s with handler := (s.handler.handle input).2 }

/-- A step while the protocol is open; only the sink writes to its channel. -/
def Step (i : ℕ) (s : Sending) (input : SendingInput) (s' : Sending) : Prop :=
  s.next i input = s' ∧ (∀ m, input ≠ .handle (.sinkMessage i m)) ∧ (s'.handler.line i).isSome

/-- The line holds what was given to the sink, all of it or what came before the channel was full
and a last message to close. -/
def Delivers (i : ℕ) (given : List Bytes) (s : Sending) : Prop :=
  ∃ accepted, accepted <+: given ∧
    s.handler.line i = some (accepted.map .notification ++
      if s.syncChannel then [] else [.forceClose]) ∧
    if s.syncChannel then accepted = given else syncNotificationsBufferSize < accepted.length

variable {i : ℕ} {given : List Bytes} {s s' : Sending} {input : SendingInput}

end Sending

end SwarmHost.Substrate
