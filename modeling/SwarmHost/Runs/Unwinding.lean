import SwarmHost.Runs.Basic

/-! # Two runs that an observer cannot tell apart

A step function that answers each label is run twice. If the labels an observer is
concerned with are the same in both runs, and what the observer sees of a state is
changed by no other label, then the observer sees the same answers and ends up seeing the
same of the state.
-/

namespace SwarmHost

variable {σ α ρ : Type*}

def Answering (step : σ → α → Option (ρ × σ)) (s : σ) (a : α) (t : σ) : Prop :=
  (step s a).map Prod.snd = some t

section Answers

variable (step : σ → α → Option (ρ × σ)) (C : α → Prop) [DecidablePred C]

def answers : σ → List α → List ρ
  | _, [] => []
  | s, a :: as =>
    match step s a with
    | none => []
    | some (r, t) => if C a then r :: answers t as else answers t as

/-- States that look the same still do after a label of no concern was handled in one of them, and
after a label of concern was handled in both, which then has the same answer. -/
structure Unwinds (A : α → Prop) (R : σ → σ → Prop) : Prop where
  symm : ∀ {s t}, R s t → R t s
  skip : ∀ {s s' t a r}, A a → ¬ C a → R s t → step s a = some (r, s') → R s' t
  follow : ∀ {s s' t t' a r r'}, A a → C a → R s t → step s a = some (r, s') →
    step t a = some (r', t') → r = r' ∧ R s' t'

variable {step C} {A : α → Prop} {R : σ → σ → Prop} {s s' t t' : σ} {as bs : List α}

theorem answers_cons {a : α} {r : ρ} (h : step s a = some (r, t)) :
    answers step C s (a :: as) =
      if C a then r :: answers step C t as else answers step C t as := by
  rw [answers, h]

namespace Unwinds

/-- Labels of no concern in one run only. -/
theorem run_skip (h : Unwinds step C A R) (hA : ∀ b ∈ bs, A b) (hR : R s t)
    (hrun : Run (Answering step) t bs t') (hb : bs.filter (C ·) = []) :
    R s t' ∧ answers step C t bs = [] := by
  induction hrun with
  | nil => exact ⟨hR, rfl⟩
  | @cons t u t' b bs hstep _ ih =>
    obtain ⟨⟨r, u'⟩, hb', rfl⟩ := Option.map_eq_some_iff.mp hstep
    obtain ⟨hC, hb⟩ : ¬ C b ∧ bs.filter (C ·) = [] := by
      by_cases hC : C b <;> simp [hC] at hb
      exact ⟨hC, by simpa using hb⟩
    have hu := h.symm (h.skip (hA b List.mem_cons_self) hC (h.symm hR) hb')
    rw [answers_cons hb', if_neg hC]
    exact ih (fun b hb => hA b (List.mem_cons_of_mem _ hb)) hu hb

/-- The runs agree on the labels of concern, so they agree on the answers. -/
theorem run (h : Unwinds step C A R) (hA : ∀ a ∈ as, A a) (hB : ∀ b ∈ bs, A b) (hR : R s t)
    (hs : Run (Answering step) s as s') (ht : Run (Answering step) t bs t')
    (hagree : as.filter (C ·) = bs.filter (C ·)) :
    R s' t' ∧ answers step C s as = answers step C t bs := by
  induction hs generalizing t bs with
  | nil s =>
    obtain ⟨hR', hanswers⟩ := h.run_skip hB hR ht hagree.symm
    exact ⟨hR', hanswers.symm⟩
  | @cons s u s' a as hstep hrest ih =>
    obtain ⟨⟨r, u'⟩, ha, rfl⟩ := Option.map_eq_some_iff.mp hstep
    have hA' : ∀ a ∈ as, A a := fun a ha => hA a (List.mem_cons_of_mem _ ha)
    rw [answers_cons ha]
    by_cases hC : C a
    · rw [List.filter_cons_of_pos (by simpa using hC)] at hagree
      rw [if_pos hC]
      -- the second run may first handle labels of no concern
      induction ht with
      | nil => cases hagree
      | @cons t v t' b bs hstep' hrest' ih' =>
        obtain ⟨⟨r', v'⟩, hb, rfl⟩ := Option.map_eq_some_iff.mp hstep'
        rw [answers_cons hb]
        by_cases hC' : C b
        · rw [List.filter_cons_of_pos (by simpa using hC')] at hagree
          obtain ⟨rfl, htail⟩ := List.cons.inj hagree
          obtain ⟨rfl, hR'⟩ := h.follow (hA a List.mem_cons_self) hC hR ha hb
          obtain ⟨hlast, hanswers⟩ :=
            ih hA' (fun b hb => hB b (List.mem_cons_of_mem _ hb)) hR' hrest' htail
          rw [if_pos hC', hanswers]
          exact ⟨hlast, rfl⟩
        · rw [List.filter_cons_of_neg (by simpa using hC')] at hagree
          have hR' := h.symm (h.skip (hB b List.mem_cons_self) hC' (h.symm hR) hb)
          rw [if_neg hC']
          exact ih' (fun b hb => hB b (List.mem_cons_of_mem _ hb)) hR' hagree ih
    · rw [List.filter_cons_of_neg (by simpa using hC)] at hagree
      have hR' := h.skip (hA a List.mem_cons_self) hC hR ha
      rw [if_neg hC]
      exact ih hA' hB hR' ht hagree

end Unwinds

end Answers

end SwarmHost
