import SwarmHost.Collections.Dict

/-! # Removing a list of keys

The loop removes the keys one after another and fails at the first one that is
absent, so a repeated key stops it. What was removed up to then stays removed.
-/

namespace SwarmHost.Dict

variable {κ ν : Type*} {d : Dict κ ν} {k k' : κ} {ks : List κ}

/-- The key occurs among the keys, and up to its first place none is absent or repeated. -/
def Removed (d : Dict κ ν) (ks : List κ) (k : κ) : Prop :=
  ∃ pre, pre ++ [k] <+: ks ∧ (pre ++ [k]).Nodup ∧ ∀ k' ∈ pre ++ [k], k' ∈ d

theorem not_removed_nil : ¬ d.Removed [] k := by
  rintro ⟨pre, hpre, _⟩
  simp at hpre

theorem Removed.mem (h : d.Removed ks k) : k ∈ ks := by
  obtain ⟨pre, hpre, _⟩ := h
  exact hpre.subset (by simp)

theorem removed_iff_of_nodup (hks : ks.Nodup) (hmem : ∀ k ∈ ks, k ∈ d) :
    d.Removed ks k ↔ k ∈ ks := by
  refine ⟨Removed.mem, fun hk => ?_⟩
  obtain ⟨pre, post, rfl⟩ := List.append_of_mem hk
  have hpre : pre ++ [k] <+: pre ++ k :: post := ⟨post, by simp⟩
  exact ⟨pre, hpre, hks.sublist hpre.sublist, fun y hy => hmem y (hpre.subset hy)⟩

variable [DecidableEq κ]

/-- Remove keys until one is absent; tells whether all of them could be removed. -/
def removeAll (d : Dict κ ν) : List κ → Bool × Dict κ ν
  | [] => (true, d)
  | k :: ks => if k ∈ d then (d.erase k).removeAll ks else (false, d)

/-- The first key goes first, the others are removed from the rest. -/
theorem removed_cons_iff :
    d.Removed (k' :: ks) k ↔ k' ∈ d ∧ (k = k' ∨ (d.erase k').Removed ks k) := by
  constructor
  · rintro ⟨pre, hpre, hnodup, hmem⟩
    cases pre with
    | nil =>
      obtain rfl : k = k' := by simpa using hpre
      exact ⟨hmem k (by simp), .inl rfl⟩
    | cons x pre =>
      rw [List.cons_append, List.cons_prefix_cons] at hpre
      obtain ⟨rfl, hpre⟩ := hpre
      rw [List.cons_append, List.nodup_cons] at hnodup
      refine ⟨hmem x (by simp), .inr ⟨pre, hpre, hnodup.2, ?_⟩⟩
      intro y hy
      rw [mem_erase]
      constructor
      · rintro rfl
        exact hnodup.1 hy
      · exact hmem y (List.mem_cons_of_mem _ hy)
  · rintro ⟨hk', rfl | ⟨pre, hpre, hnodup, hmem⟩⟩
    · refine ⟨[], by simp, by simp, ?_⟩
      simpa using hk'
    · have hne : ∀ y ∈ pre ++ [k], y ≠ k' ∧ y ∈ d := fun y hy => mem_erase.mp (hmem y hy)
      refine ⟨k' :: pre, ?_, ?_, ?_⟩
      · rw [List.cons_append, List.cons_prefix_cons]
        exact ⟨rfl, hpre⟩
      · rw [List.cons_append, List.nodup_cons]
        exact ⟨fun h => (hne k' h).1 rfl, hnodup⟩
      · intro y hy
        rcases List.mem_cons.mp hy with rfl | hy
        · exact hk'
        · exact (hne y hy).2

/-- All keys can be removed iff they are distinct and present. -/
theorem removeAll_ok_iff :
    (d.removeAll ks).1 = true ↔ ks.Nodup ∧ ∀ k ∈ ks, k ∈ d := by
  induction ks generalizing d with
  | nil => simp [removeAll]
  | cons k ks ih =>
    by_cases hk : k ∈ d
    · rw [removeAll, if_pos hk, ih, List.nodup_cons]
      constructor
      · rintro ⟨hnodup, hmem⟩
        refine ⟨⟨fun h => (mem_erase.mp (hmem k h)).1 rfl, hnodup⟩, ?_⟩
        intro y hy
        rcases List.mem_cons.mp hy with rfl | hy
        · exact hk
        · exact (mem_erase.mp (hmem y hy)).2
      · rintro ⟨⟨hnot, hnodup⟩, hmem⟩
        refine ⟨hnodup, fun y hy => mem_erase.mpr ⟨?_, hmem y (List.mem_cons_of_mem _ hy)⟩⟩
        rintro rfl
        exact hnot hy
    · simp [removeAll, hk]

theorem get?_removeAll_of_not_removed (h : ¬ d.Removed ks k) :
    (d.removeAll ks).2.get? k = d.get? k := by
  induction ks generalizing d with
  | nil => rfl
  | cons k' ks ih =>
    by_cases hk' : k' ∈ d
    · rw [removed_cons_iff, not_and, not_or] at h
      rw [removeAll, if_pos hk', ih (h hk').2, get?_erase_ne (h hk').1]
    · rw [removeAll, if_neg hk']

theorem get?_removeAll_of_removed (h : d.Removed ks k) : (d.removeAll ks).2.get? k = none := by
  induction ks generalizing d with
  | nil => exact absurd h not_removed_nil
  | cons k' ks ih =>
    obtain ⟨hk', h⟩ := removed_cons_iff.mp h
    rw [removeAll, if_pos hk']
    by_cases hr : (d.erase k').Removed ks k
    · exact ih hr
    · obtain rfl : k = k' := h.resolve_right hr
      rw [get?_removeAll_of_not_removed hr, get?_erase_self]

theorem mem_removeAll_iff : k ∈ (d.removeAll ks).2 ↔ k ∈ d ∧ ¬ d.Removed ks k := by
  by_cases h : d.Removed ks k
  · simp [mem_iff_isSome, get?_removeAll_of_removed h, h]
  · simp [mem_iff_isSome, get?_removeAll_of_not_removed h, h]

end SwarmHost.Dict
