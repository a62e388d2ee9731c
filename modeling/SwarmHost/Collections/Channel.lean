import Mathlib.Data.List.Basic
import Mathlib.Tactic.Common

/-! # Bounded channels

In one step of a system a bounded channel stays as it is, loses its first message
to its reader, or gets a message from its writer if there is room.
-/

namespace SwarmHost

variable {α : Type*} {room : ℕ} {reads writes : Prop} {l l' : List α}

/-- One step of a channel with the given room, where `reads` and `writes` are what the reader and
the writer need to be ready. -/
inductive Passes (room : ℕ) (reads writes : Prop) : List α → List α → Prop where
  | same (l : List α) : Passes room reads writes l l
  | take {x : α} {l : List α} : reads → Passes room reads writes (x :: l) l
  | put {x : α} {l : List α} : writes → l.length < room → Passes room reads writes l (l ++ [x])

namespace Passes

theorem of_take {x : α} (hreads : reads) (h : l = x :: l') : Passes room reads writes l l' :=
  h ▸ .take hreads

theorem mono {reads' writes' : Prop} (h : Passes room reads writes l l') (hr : reads → reads')
    (hw : writes → writes') : Passes room reads' writes' l l' := by
  cases h with
  | same => exact .same _
  | take hreads => exact .take (hr hreads)
  | put hwrites hroom => exact .put (hw hwrites) hroom

theorem length_le (h : Passes room reads writes l l') (hl : l.length ≤ room) :
    l'.length ≤ room := by
  cases h with
  | same => exact hl
  | take _ => exact Nat.le_of_succ_le hl
  | put _ hroom =>
    rw [List.length_append, List.length_singleton]
    exact hroom

theorem eq_of_full (h : Passes room reads writes l l') (hreads : ¬ reads)
    (hfull : room ≤ l.length) : l' = l := by
  cases h with
  | same => rfl
  | take hready => exact absurd hready hreads
  | put _ hroom => exact absurd hroom (Nat.not_lt.mpr hfull)

theorem length_le_of_not_writes (h : Passes room reads writes l l') (hwrites : ¬ writes) :
    l'.length ≤ l.length := by
  cases h with
  | same => exact Nat.le_refl _
  | take _ => exact Nat.le_succ _
  | put hready _ => exact absurd hready hwrites

end Passes

end SwarmHost
