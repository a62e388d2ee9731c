import Mathlib.Data.List.Infix
import Mathlib.Tactic.Common

/-! # Runs of a labelled transition relation

`Run R s as t` is a run from `s` to `t` that takes the labels `as` in order.
Properties of whole runs are read off single transitions: an invariant holds in
every state reached, and an exact one-step condition is exact along the run.
-/

namespace SwarmHost

variable {σ α : Type*}

/-- The run that takes the given labels one after another. -/
inductive Run (R : σ → α → σ → Prop) : σ → List α → σ → Prop where
  | nil (s : σ) : Run R s [] s
  | cons {s t u : σ} {a : α} {as : List α} : R s a t → Run R t as u → Run R s (a :: as) u

/-- `I` holds in every state that some prefix of `as` reaches. -/
def Always (R : σ → α → σ → Prop) (I : σ → Prop) (s : σ) (as : List α) : Prop :=
  ∀ pre t, pre <+: as → Run R s pre t → I t

/-- `P` holds of every transition taken along `as`. -/
def Along (R P : σ → α → σ → Prop) (s : σ) (as : List α) : Prop :=
  ∀ pre a t u, pre ++ [a] <+: as → Run R s pre t → R t a u → P t a u

variable {R P Q : σ → α → σ → Prop} {I : σ → Prop} {s t u : σ} {a : α} {as bs : List α}

namespace Run

@[simp] theorem nil_iff : Run R s [] t ↔ t = s := by
  constructor
  · intro h; cases h; rfl
  · rintro rfl; exact .nil _

theorem cons_iff : Run R s (a :: as) u ↔ ∃ t, R s a t ∧ Run R t as u := by
  constructor
  · intro h; cases h with | cons hs hr => exact ⟨_, hs, hr⟩
  · rintro ⟨t, hs, hr⟩; exact .cons hs hr

theorem append_iff : Run R s (as ++ bs) u ↔ ∃ t, Run R s as t ∧ Run R t bs u := by
  induction as generalizing s with
  | nil => simp
  | cons a as ih =>
    simp only [List.cons_append, cons_iff, ih]
    constructor
    · rintro ⟨v, hv, t, ht, hu⟩; exact ⟨t, ⟨v, hv, ht⟩, hu⟩
    · rintro ⟨t, ⟨v, hv, ht⟩, hu⟩; exact ⟨v, hv, t, ht, hu⟩

theorem snoc_iff : Run R s (as ++ [a]) u ↔ ∃ t, Run R s as t ∧ R t a u := by
  simp [append_iff, cons_iff]

/-- A property kept by every transition is kept by every run. -/
theorem invariant (hstep : ∀ t a u, R t a u → I t → I u) (h : Run R s as t) (hs : I s) : I t := by
  induction h with
  | nil => exact hs
  | cons hr _ ih => exact ih (hstep _ _ _ hr hs)

/-- For a partial step function the run ends where folding the function ends. -/
theorem foldlM_iff {step : σ → α → Option σ} :
    Run (fun s a t => step s a = some t) s as t ↔ as.foldlM step s = some t := by
  induction as generalizing s with
  | nil => simp [eq_comm]
  | cons a as ih => simp [cons_iff, ih, Option.bind_eq_some_iff]

theorem exists_of_any {step : σ → α → Option σ} [DecidablePred I]
    (h : (as.foldlM step s).any (fun t => I t) = true) :
    ∃ t, Run (fun s a t => step s a = some t) s as t ∧ I t := by
  obtain ⟨t, ht, hI⟩ := (Option.any_eq_true ..).mp h
  exact ⟨t, foldlM_iff.mpr ht, of_decide_eq_true hI⟩

/-- What is observed along a run, step by step, grows by what is observed of its last step. -/
theorem observed_concat {β : Type*} (observed : σ → List α → List β) (seen : σ → α → List β)
    (hone : ∀ s a, observed s [a] = seen s a) (hnil : ∀ s, observed s [] = [])
    (hcons : ∀ s a t as, R s a t → observed s (a :: as) = seen s a ++ observed t as)
    (h : Run R s as t) (a : α) : observed s (as ++ [a]) = observed s as ++ seen t a := by
  induction h with
  | nil s => rw [List.nil_append, hone, hnil, List.nil_append]
  | cons hstep _ ih =>
    rw [List.cons_append, hcons _ _ _ _ hstep, hcons _ _ _ _ hstep, ih, List.append_assoc]

end Run

theorem along_nil : Along R P s [] := by
  intro pre a t u hp
  simp at hp

/-- A property of the labels holds along every run that takes them. -/
theorem along_of_mem (h : ∀ a ∈ as, ∀ t u, R t a u → P t a u) : Along R P s as := by
  intro pre a t u hp _ hu
  have hmem : a ∈ as := hp.subset (List.mem_append_right pre (List.mem_singleton_self a))
  exact h a hmem t u hu

theorem along_cons_iff :
    Along R P s (a :: as) ↔ ∀ t, R s a t → P s a t ∧ Along R P t as := by
  constructor
  · intro h t ht
    constructor
    · exact h [] a s t (by simp) (.nil s) ht
    · intro pre b u v hp hr hv
      exact h (a :: pre) b u v (by simpa using hp) (.cons ht hr) hv
  · intro h pre b u v hp hr hv
    cases pre with
    | nil =>
      obtain rfl := Run.nil_iff.mp hr
      obtain rfl : b = a := by simpa using hp
      exact (h v hv).1
    | cons c pre =>
      obtain ⟨t, ht, hr⟩ := Run.cons_iff.mp hr
      obtain ⟨rfl, hp'⟩ : c = a ∧ pre ++ [b] <+: as := by simpa using hp
      exact (h t ht).2 pre b u v hp' hr hv

section StepFunction

variable {next : σ → α → σ} {C : σ → α → Prop}

/-- The condition holds at every step of the run of a step function. -/
def Checks (next : σ → α → σ) (C : σ → α → Prop) : σ → List α → Prop
  | _, [] => True
  | s, a :: as => C s a ∧ Checks next C (next s a) as

instance Checks.decidable [∀ s a, Decidable (C s a)] (s : σ) (as : List α) :
    Decidable (Checks next C s as) := by
  induction as generalizing s with
  | nil => exact .isTrue trivial
  | cons a as ih =>
    have := ih (next s a)
    exact instDecidableAnd

theorem Checks.along (hR : ∀ s a t, R s a t → next s a = t) (h : Checks next C s as) :
    Along R (fun s a _ => C s a) s as := by
  induction as generalizing s with
  | nil => exact along_nil
  | cons a as ih =>
    rw [along_cons_iff]
    intro t ht
    obtain rfl := hR s a t ht
    exact ⟨h.1, ih h.2⟩

theorem Checks.run (hR : ∀ s a, C s a → R s a (next s a)) (h : Checks next C s as) :
    Run R s as (as.foldl next s) := by
  induction as generalizing s with
  | nil => exact .nil s
  | cons a as ih => exact .cons (hR s a h.1) (ih h.2)

theorem run_foldl (hR : ∀ s a, R s a (next s a)) (s : σ) (as : List α) :
    Run R s as (as.foldl next s) := by
  induction as generalizing s with
  | nil => exact .nil s
  | cons a as ih => exact .cons (hR s a) (ih _)

end StepFunction

theorem Always.mono {K : σ → Prop} (h : ∀ t, I t → K t) (hA : Always R I s as) :
    Always R K s as :=
  fun pre t hp hr => h t (hA pre t hp hr)

/-- Along a run whose transitions all meet a condition `Q`, an invariant that holds under the
condition is kept, and so is what each transition does under it. -/
theorem always_and_along_of (hstep : ∀ t a u, R t a u → Q t a u → I t → I u ∧ P t a u)
    (hs : I s) (hQ : Along R Q s as) : Always R I s as ∧ Along R P s as := by
  have hA : Always R I s as := by
    intro pre
    induction pre using List.reverseRecOn with
    | nil =>
      intro t _ hr
      rw [Run.nil_iff.mp hr]
      exact hs
    | append_singleton pre a ih =>
      intro u hp hr
      obtain ⟨t, ht, hu⟩ := Run.snoc_iff.mp hr
      have hI := ih t ((List.prefix_append _ _).trans hp) ht
      exact (hstep t a u hu (hQ pre a t u hp ht hu) hI).1
  refine ⟨hA, ?_⟩
  intro pre a t u hp hr hu
  have hI := hA pre t ((List.prefix_append _ _).trans hp) hr
  exact (hstep t a u hu (hQ pre a t u hp hr hu) hI).2

/-- An invariant is kept along every run, and so is what each transition does under it. -/
theorem always_and_along (hstep : ∀ t a u, R t a u → I t → I u ∧ P t a u) (hs : I s) :
    Always R I s as ∧ Along R P s as :=
  always_and_along_of (Q := fun _ _ _ => True) (fun t a u hu _ ht => hstep t a u hu ht) hs
    fun _ _ _ _ _ _ _ => trivial

theorem always_of_along (hstep : ∀ t a u, R t a u → Q t a u → I t → I u) (hs : I s)
    (hQ : Along R Q s as) : Always R I s as :=
  (always_and_along_of (P := fun _ _ _ => True)
    (fun t a u hu hq ht => ⟨hstep t a u hu hq ht, trivial⟩) hs hQ).1

/-- A one-step condition `Q` that is exact for keeping `I` and satisfying `P` is exact along a run,
where an invariant `J` may be used. -/
theorem always_and_along_iff {J : σ → Prop} (hkeep : ∀ t a u, R t a u → J t → J u)
    (hstep : ∀ t a u, R t a u → J t → I t → (P t a u ∧ I u ↔ Q t a u)) (hJ : J s) (hI : I s) :
    Always R I s as ∧ Along R P s as ↔ Along R Q s as := by
  constructor
  · rintro ⟨hA, hP⟩ pre a t u hp hr hu
    have ht : I t := hA pre t ((List.prefix_append _ _).trans hp) hr
    have hu' : I u := hA _ u hp (Run.snoc_iff.mpr ⟨t, hr, hu⟩)
    exact (hstep t a u hu (hr.invariant hkeep hJ) ht).mp ⟨hP pre a t u hp hr hu, hu'⟩
  · intro hQ
    obtain ⟨hA, hP⟩ := always_and_along_of (I := fun t => J t ∧ I t) (P := P) (fun t a u hu hq ht =>
      have h := (hstep t a u hu ht.1 ht.2).mpr hq
      ⟨⟨hkeep t a u hu ht.1, h.2⟩, h.1⟩) ⟨hJ, hI⟩ hQ
    exact ⟨hA.mono fun _ ht => ht.2, hP⟩

/-- A condition that is exact for `K` in transitions from a state with an invariant `I`, which the
condition keeps, is exact along a run. -/
theorem always_iff_along_of {K : σ → Prop} (hkeep : ∀ t a u, R t a u → I t → Q t a u → I u)
    (hexact : ∀ t a u, R t a u → I t → K u → Q t a u) (hK : ∀ t, I t → K t) (hs : I s) :
    Always R K s as ↔ Along R Q s as := by
  constructor
  · intro hA
    -- the states that the transitions lead to have `K`, which is what `I` is kept by
    have hafter : Along R (fun _ _ u => K u) s as :=
      fun pre a t u hp hr hu => hA _ u hp (Run.snoc_iff.mpr ⟨t, hr, hu⟩)
    refine (always_and_along_of (I := I) (fun t a u hu hk ht => ?_) hs hafter).2
    have hq := hexact t a u hu ht hk
    exact ⟨hkeep t a u hu ht hq, hq⟩
  · intro hQ
    exact (always_of_along (fun t a u hu hq ht => hkeep t a u hu ht hq) hs hQ).mono hK

/-- A condition that is exact for keeping `I` in one transition is exact along a run. -/
theorem always_iff_along (hstep : ∀ t a u, R t a u → I t → (I u ↔ Q t a u)) (hs : I s) :
    Always R I s as ↔ Along R Q s as := by
  rw [← always_and_along_iff (J := fun _ => True) (P := fun _ _ _ => True) (I := I)
    (fun _ _ _ _ _ => trivial) (fun t a u hu _ ht => by rw [true_and, hstep t a u hu ht])
    trivial hs]
  exact (and_iff_left fun _ _ _ _ _ _ _ => trivial).symm

/-- Two transition properties that agree where an invariant holds agree along a run. -/
theorem along_congr (hkeep : ∀ t a u, R t a u → I t → I u) (hs : I s)
    (h : ∀ t a u, R t a u → I t → (P t a u ↔ Q t a u)) : Along R P s as ↔ Along R Q s as := by
  constructor
  · intro hP pre a t u hp hr hu
    exact (h t a u hu (hr.invariant hkeep hs)).mp (hP pre a t u hp hr hu)
  · intro hQ pre a t u hp hr hu
    exact (h t a u hu (hr.invariant hkeep hs)).mpr (hQ pre a t u hp hr hu)

end SwarmHost
