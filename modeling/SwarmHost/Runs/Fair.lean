import Mathlib.Data.Set.Basic
import Mathlib.Order.WellFounded
import SwarmHost.Runs.Basic

/-! # Waiting and fairness

Tasks that wait for each other are deadlocked; none are if every wait goes down
some rank. A trace is an infinite run that may rest, and it is fair to a class of
labels if the class occurs again and again whenever it is possible again and
again. A weight that a fair class lowers while nothing raises it reaches zero.
-/

namespace SwarmHost

section Deadlock

variable {τ : Type*} {W : τ → τ → Prop}

def Deadlock (W : τ → τ → Prop) (D : Set τ) : Prop := D.Nonempty ∧ ∀ t ∈ D, ∃ u ∈ D, W t u

theorem not_deadlock_of_rank (rank : τ → ℕ) (h : ∀ t u, W t u → rank u < rank t) (D : Set τ) :
    ¬ Deadlock W D := by
  rintro ⟨hne, hwaits⟩
  -- a task of least rank would have to wait for one below it
  have hmem := Function.argminOn_mem rank D hne
  obtain ⟨u, hu, hW⟩ := hwaits _ hmem
  exact Function.not_lt_argminOn rank D hu (h _ u hW)

end Deadlock

variable {σ α : Type*} {R : σ → α → σ → Prop}

/-- Some label of the class can be taken. -/
def Enabled (R : σ → α → σ → Prop) (C : α → Prop) (s : σ) : Prop := ∃ a t, C a ∧ R s a t

/-- An infinite run that may rest at any time. -/
structure Trace (R : σ → α → σ → Prop) where
  state : ℕ → σ
  label : ℕ → Option α
  step : ∀ n a, label n = some a → R (state n) a (state (n + 1))
  rest : ∀ n, label n = none → state (n + 1) = state n

namespace Trace

variable (τ : Trace R) {C : α → Prop} {f : σ → ℕ}

def Occurs (C : α → Prop) (n : ℕ) : Prop := ∃ a, τ.label n = some a ∧ C a

/-- A class that is possible again and again occurs again and again. -/
def Fair (C : α → Prop) : Prop :=
  (∀ n, ∃ m, n ≤ m ∧ Enabled R C (τ.state m)) → ∀ n, ∃ m, n ≤ m ∧ τ.Occurs C m

variable {τ}

/-- What every transition that meets a condition keeps holds at every time. -/
theorem invariant {I : σ → Prop} {Q : σ → α → Prop}
    (hstep : ∀ s a t, R s a t → Q s a → I s → I t)
    (hQ : ∀ n a, τ.label n = some a → Q (τ.state n) a) (h : I (τ.state 0)) (n : ℕ) :
    I (τ.state n) := by
  induction n with
  | zero => exact h
  | succ n ih =>
    cases ha : τ.label n with
    | none => rwa [τ.rest n ha]
    | some a => exact hstep _ a _ (τ.step n a ha) (hQ n a ha) ih

/-- A transition property that also holds of resting holds from each time to the next. -/
theorem next {P : σ → σ → Prop} (hrest : ∀ s, P s s) (hstep : ∀ s a t, R s a t → P s t) (n : ℕ) :
    P (τ.state n) (τ.state (n + 1)) := by
  cases ha : τ.label n with
  | none =>
    rw [τ.rest n ha]
    exact hrest _
  | some a => exact hstep _ a _ (τ.step n a ha)

/-- A preorder that every transition follows relates each time to every later one. -/
theorem chain {P : σ → σ → Prop} (hrefl : ∀ s, P s s) (htrans : ∀ s t u, P s t → P t u → P s u)
    (hstep : ∀ n a, τ.label n = some a → P (τ.state n) (τ.state (n + 1))) {m n : ℕ} (h : m ≤ n) :
    P (τ.state m) (τ.state n) := by
  induction n, h using Nat.le_induction with
  | base => exact hrefl _
  | succ n _ ih =>
    cases ha : τ.label n with
    | none => rwa [τ.rest n ha]
    | some a => exact htrans _ _ _ ih (hstep n a ha)

/-- A positive weight that is never raised while it is positive is lowered, if a fair class lowers
it and is possible again and again should the weight stay as it is. -/
theorem lowered_of_fair (hfair : τ.Fair C)
    (hkeep : ∀ n, 0 < f (τ.state n) → f (τ.state (n + 1)) ≤ f (τ.state n))
    (hlower : ∀ n, τ.Occurs C n → f (τ.state (n + 1)) < f (τ.state n))
    {n : ℕ} (hn : 0 < f (τ.state n))
    (hready : (∀ m, n ≤ m → f (τ.state m) = f (τ.state n)) →
      ∀ k, n ≤ k → ∃ m, k ≤ m ∧ Enabled R C (τ.state m)) :
    ∃ m, n ≤ m ∧ f (τ.state (m + 1)) < f (τ.state m) := by
  by_contra hno
  push Not at hno
  have hconst : ∀ m, n ≤ m → f (τ.state m) = f (τ.state n) := by
    intro m hm
    induction m, hm using Nat.le_induction with
    | base => rfl
    | succ m hm ih => exact (le_antisymm (hkeep m (ih ▸ hn)) (hno m hm)).trans ih
  have henabled : ∀ k, ∃ m, k ≤ m ∧ Enabled R C (τ.state m) := by
    intro k
    obtain ⟨m, hm, he⟩ := hready hconst (max n k) (le_max_left n k)
    exact ⟨m, (le_max_right n k).trans hm, he⟩
  obtain ⟨m, hm, hoccurs⟩ := hfair henabled n
  exact absurd (hlower m hoccurs) (not_lt.mpr (hno m hm))

/-- A weight that from some time on is not raised while it is positive, and always lowered later,
reaches zero. -/
theorem zero_of_lowered {n : ℕ}
    (hkeep : ∀ m, n ≤ m → 0 < f (τ.state m) → f (τ.state (m + 1)) ≤ f (τ.state m))
    (hlowered : ∀ m, n ≤ m → 0 < f (τ.state m) →
      ∃ k, m ≤ k ∧ f (τ.state (k + 1)) < f (τ.state k)) :
    ∃ m, n ≤ m ∧ f (τ.state m) = 0 := by
  induction hv : f (τ.state n) using Nat.strong_induction_on generalizing n with
  | _ v ih =>
    by_contra hno
    push Not at hno
    have hpos : ∀ m, n ≤ m → 0 < f (τ.state m) := fun m hm => Nat.pos_of_ne_zero (hno m hm)
    have hle : ∀ m, n ≤ m → f (τ.state m) ≤ f (τ.state n) := by
      intro m hm
      induction m, hm using Nat.le_induction with
      | base => exact le_rfl
      | succ m hm ih => exact (hkeep m hm (hpos m hm)).trans ih
    obtain ⟨m, hm, hlt⟩ := hlowered n le_rfl (hpos n le_rfl)
    have hnm : n ≤ m + 1 := hm.trans (Nat.le_succ m)
    obtain ⟨k, hk, hzero⟩ := ih _ (hv ▸ lt_of_lt_of_le hlt (hle m hm))
      (fun k hk => hkeep k (hnm.trans hk)) (fun k hk => hlowered k (hnm.trans hk)) rfl
    exact hno k (hnm.trans hk) hzero

/-- A bounded weight that a fair class lowers, and that is again and again zero or can be lowered
by the class, is below its bound again and again. -/
theorem below_of_fair {bound : ℕ} (hfair : τ.Fair C) (hbound : 0 < bound)
    (hle : ∀ n, f (τ.state n) ≤ bound)
    (hlower : ∀ n, τ.Occurs C n → f (τ.state (n + 1)) < f (τ.state n))
    (hready : ∀ n, ∃ m, n ≤ m ∧ (0 < f (τ.state m) → Enabled R C (τ.state m))) (n : ℕ) :
    ∃ m, n ≤ m ∧ f (τ.state m) < bound := by
  by_contra hno
  push Not at hno
  have henabled : ∀ k, ∃ m, k ≤ m ∧ Enabled R C (τ.state m) := by
    intro k
    obtain ⟨m, hm, he⟩ := hready (max n k)
    exact ⟨m, (le_max_right n k).trans hm,
      he (hbound.trans_le (hno m ((le_max_left n k).trans hm)))⟩
  obtain ⟨m, hm, hoccurs⟩ := hfair henabled n
  have hlt := (hlower m hoccurs).trans_le (hle m)
  exact absurd (hno (m + 1) (hm.trans (Nat.le_succ m))) (not_le.mpr hlt)

/-- A trace that ends in a state in which a class is not possible is fair to the class. -/
theorem fair_of_rests {s : σ} {n : ℕ} (hrests : ∀ m, n ≤ m → τ.state m = s)
    (hs : ∀ a t, C a → ¬ R s a t) : τ.Fair C := by
  intro henabled
  obtain ⟨m, hm, a, t, ha, hstep⟩ := henabled n
  rw [hrests m hm] at hstep
  exact absurd hstep (hs a t ha)

def resting (s : σ) : Trace R where
  state _ := s
  label _ := none
  step _ _ h := by cases h
  rest _ _ := rfl

def ofInputs (next : σ → α → σ) (inputs : ℕ → α) (state : ℕ → σ)
    (hnext : ∀ n, state (n + 1) = next (state n) (inputs n))
    (h : ∀ n, R (state n) (inputs n) (next (state n) (inputs n))) : Trace R where
  state := state
  label n := some (inputs n)
  step n a ha := by
    obtain rfl := Option.some.inj ha
    exact hnext n ▸ h n
  rest _ hn := by cases hn

def cons {s : σ} (a : α) (τ : Trace R) (h : R s a (τ.state 0)) : Trace R where
  state
    | 0 => s
    | n + 1 => τ.state n
  label
    | 0 => some a
    | n + 1 => τ.label n
  step n b hb := by
    cases n with
    | zero =>
      obtain rfl := Option.some.inj hb
      exact h
    | succ n => exact τ.step n b hb
  rest n hn := by
    cases n with
    | zero => cases hn
    | succ n => exact τ.rest n hn

/-- A run that meets a condition can be put before a trace that meets it. -/
theorem exists_of_run {Q : σ → α → Prop} {s t : σ} {as : List α}
    (hrun : Run (fun s a t => R s a t ∧ Q s a) s as t) (τ : Trace R) (hτ : τ.state 0 = t)
    (hQ : ∀ n a, τ.label n = some a → Q (τ.state n) a) :
    ∃ τ' : Trace R, τ'.state 0 = s ∧ (∀ n, τ'.state (as.length + n) = τ.state n) ∧
      ∀ n a, τ'.label n = some a → Q (τ'.state n) a := by
  induction hrun with
  | nil s => exact ⟨τ, hτ, by simp, hQ⟩
  | @cons s t u a as hstep _ ih =>
    obtain ⟨τ', hstart, hstate, hQ'⟩ := ih hτ
    refine ⟨cons a τ' (hstart ▸ hstep.1), rfl, fun n => ?_, fun n b hb => ?_⟩
    · rw [List.length_cons, Nat.add_right_comm]
      exact hstate n
    · cases n with
      | zero =>
        obtain rfl := Option.some.inj hb
        exact hstep.2
      | succ n => exact hQ' n b hb

end Trace

end SwarmHost
