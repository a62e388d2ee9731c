import Mathlib.Data.List.Nodup
import Mathlib.Tactic.Common

/-! # Numbered timers

Timers are started with a number and never cancelled. An owner holds the number of
a timer and the time at which that one fires, and may let go of it at any moment;
the timer then fires for nothing. Numbers are given once, but a timer that fired
may be started again under its own.
-/

namespace SwarmHost

theorem map_erase_of_nodup {α β : Type*} [BEq α] [LawfulBEq α] [BEq β] [LawfulBEq β] {f : α → β}
    {a : α} {l : List α} (hnodup : (l.map f).Nodup) (ha : a ∈ l) :
    (l.erase a).map f = (l.map f).erase (f a) := by
  induction l with
  | nil => cases ha
  | cons b l ih =>
    obtain ⟨hnot, hnodup⟩ := List.nodup_cons.mp hnodup
    rcases List.mem_cons.mp ha with rfl | hl
    · simp
    · have hne : f b ≠ f a := fun heq => hnot (heq ▸ List.mem_map_of_mem hl)
      have hba : b ≠ a := fun heq => hne (congrArg f heq)
      simp [hne, hba, ih hnodup hl]

/-- A timer that was started and did not fire yet. -/
structure Timer (κ : Type*) where
  number : ℕ
  owner : κ
  firesAt : ℕ
  deriving DecidableEq

namespace Timer

variable {κ : Type*} {held held' : κ → Option (ℕ × ℕ)} {timers : List (Timer κ)} {next : ℕ}
  {x y : κ} {n deadline : ℕ}

/-- Every number was given to one timer, and what an owner holds is a timer of its own that did not
fire yet. -/
structure Kept (held : κ → Option (ℕ × ℕ)) (timers : List (Timer κ)) (next : ℕ) : Prop where
  lt : ∀ t ∈ timers, t.number < next
  nodup : (timers.map number).Nodup
  mem : ∀ x n deadline, held x = some (n, deadline) → ⟨n, x, deadline⟩ ∈ timers

namespace Kept

theorem nil (h : ∀ x, held x = none) : Kept held [] next where
  lt := by rintro t ⟨⟩
  nodup := List.nodup_nil
  mem := by
    intro x n deadline hx
    rw [h x] at hx
    cases hx

theorem eq_of_number_eq (h : Kept held timers next) {t u : Timer κ} (ht : t ∈ timers)
    (hu : u ∈ timers) (heq : t.number = u.number) : t = u :=
  List.inj_on_of_nodup_map h.nodup ht hu heq

theorem filter_number (h : Kept held timers next) (hx : held x = some (n, deadline)) :
    timers.filter (·.number = n) = [⟨n, x, deadline⟩] := by
  have hmem := h.mem x n deadline hx
  have hnodup : (timers.filter (·.number = n)).Nodup := h.nodup.of_map.filter _
  rw [← List.perm_singleton, List.perm_ext_iff_of_nodup hnodup (List.nodup_singleton _)]
  intro t
  rw [List.mem_filter, List.mem_singleton, decide_eq_true_eq]
  constructor
  · rintro ⟨ht, hn⟩
    exact h.eq_of_number_eq ht hmem hn
  · rintro rfl
    exact ⟨hmem, rfl⟩

/-- No two owners hold the same number. -/
theorem owner_unique (h : Kept held timers next) {deadline' : ℕ}
    (hx : held x = some (n, deadline)) (hy : held y = some (n, deadline')) : x = y :=
  congrArg owner (h.eq_of_number_eq (h.mem x n deadline hx) (h.mem y n deadline' hy) rfl)

theorem mem_of_released (h : Kept held timers next) (hy : held' y = none ∨ held' y = held y)
    (hheld : held' y = some (n, deadline)) : ⟨n, y, deadline⟩ ∈ timers := by
  rcases hy with hnone | hsame
  · rw [hnone] at hheld
    cases hheld
  · exact h.mem y n deadline (hsame.symm.trans hheld)

theorem release (h : Kept held timers next) (hheld : ∀ x, held' x = none ∨ held' x = held x) :
    Kept held' timers next :=
  ⟨h.lt, h.nodup, fun x _ _ hx => h.mem_of_released (hheld x) hx⟩

theorem concat (h : Kept held timers next) {next' : ℕ} (hnext : next ≤ next') (hn : n < next')
    (hnew : ∀ t ∈ timers, t.number ≠ n) (hother : ∀ y ≠ x, held' y = none ∨ held' y = held y)
    (hself : held' x = none ∨ held' x = some (n, deadline)) :
    Kept held' (timers ++ [⟨n, x, deadline⟩]) next' where
  lt := by
    intro t ht
    rcases List.mem_append.mp ht with hold | hlast
    · exact Nat.lt_of_lt_of_le (h.lt t hold) hnext
    · rw [List.mem_singleton.mp hlast]
      exact hn
  nodup := by
    rw [List.map_append, List.nodup_append]
    refine ⟨h.nodup, List.nodup_singleton _, ?_⟩
    rintro m hm m' hm' rfl
    obtain ⟨t, ht, rfl⟩ := List.mem_map.mp hm
    exact hnew t ht (List.mem_singleton.mp hm')
  mem := by
    intro y m deadline' hy
    by_cases hyx : y = x
    · subst hyx
      rcases hself with hnone | hsome
      · rw [hnone] at hy
        cases hy
      · obtain ⟨rfl, rfl⟩ := Prod.mk.inj (Option.some.inj (hsome.symm.trans hy))
        exact List.mem_append_right _ (List.mem_singleton_self _)
    · exact List.mem_append_left _ (h.mem_of_released (hother y hyx) hy)

theorem start (h : Kept held timers next) (hother : ∀ y ≠ x, held' y = held y)
    (hself : held' x = none ∨ held' x = some (next, deadline)) :
    Kept held' (timers ++ [⟨next, x, deadline⟩]) (next + 1) :=
  h.concat (Nat.le_succ _) (Nat.lt_succ_self _) (fun t ht => Nat.ne_of_lt (h.lt t ht))
    (fun y hy => .inr (hother y hy)) hself

section Fire

variable [DecidableEq κ] {t : Timer κ}

theorem fire (h : Kept held timers next) (ht : t ∈ timers)
    (hheld : ∀ y, held' y = none ∨ held' y = held y)
    (hself : ∀ deadline, held' t.owner ≠ some (t.number, deadline)) :
    Kept held' (timers.erase t) next where
  lt u hu := h.lt u (List.mem_of_mem_erase hu)
  nodup := h.nodup.sublist (List.erase_sublist.map _)
  mem := by
    intro y n deadline hy
    have hne : (⟨n, y, deadline⟩ : Timer κ) ≠ t := by
      rintro rfl
      exact hself deadline hy
    exact (List.mem_erase_of_ne hne).mpr (h.mem_of_released (hheld y) hy)

theorem fire_again (h : Kept held timers next) (ht : t ∈ timers)
    (hother : ∀ y ≠ t.owner, held' y = held y)
    (hself : held' t.owner = some (t.number, deadline)) :
    Kept held' (timers.erase t ++ [⟨t.number, t.owner, deadline⟩]) next := by
  -- in between the owner holds nothing
  have hfired : Kept (fun y => if y = t.owner then none else held y) (timers.erase t) next := by
    refine h.fire ht (fun y => ?_) fun deadline => ?_
    · by_cases hy : y = t.owner <;> simp [hy]
    · simp
  refine hfired.concat (Nat.le_refl _) (h.lt t ht) ?_ ?_ (.inr hself)
  · intro u hu heq
    obtain rfl := h.eq_of_number_eq (List.mem_of_mem_erase hu) ht heq
    exact h.nodup.of_map.not_mem_erase hu
  · intro y hy
    exact .inr (by rw [hother y hy, if_neg hy])

end Fire

end Kept

end Timer

end SwarmHost
