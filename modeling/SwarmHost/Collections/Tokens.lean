import Mathlib.Algebra.Order.Group.Multiset
import SwarmHost.Collections.Dict
import SwarmHost.Runs.Basic

/-! # Tokens and flags

Tokens move between the parts of a system and each belongs to a key. A flag is
exact if the flagged keys are those with a token and no key has two tokens: then a
token may start where the flag is set, and the flag is cleared when its token ends.
-/

namespace SwarmHost

variable {τ κ α : Type*} {key : τ → κ} {tokens : Multiset τ} {flag flag' : κ → Prop} {t t' : τ}

structure Matched (key : τ → κ) (tokens : Multiset τ) (flag : κ → Prop) : Prop where
  nodup : (tokens.map key).Nodup
  mem_iff : ∀ k, k ∈ tokens.map key ↔ flag k

namespace Matched

theorem zero (h : ∀ k, ¬ flag k) : Matched key 0 flag :=
  ⟨Multiset.nodup_zero, fun k => iff_of_false (Multiset.notMem_zero k) (h k)⟩

theorem congr (h : Matched key tokens flag) (hflag : ∀ k, flag' k ↔ flag k) :
    Matched key tokens flag' :=
  ⟨h.nodup, fun k => (h.mem_iff k).trans (hflag k).symm⟩

theorem flag_of_mem (h : Matched key tokens flag) (ht : t ∈ tokens) : flag (key t) :=
  (h.mem_iff _).mp (Multiset.mem_map_of_mem key ht)

theorem start (h : Matched key tokens flag) (ht : ¬ flag (key t))
    (hflag : ∀ k, flag' k ↔ k = key t ∨ flag k) : Matched key (t ::ₘ tokens) flag' where
  nodup := by
    rw [Multiset.map_cons, Multiset.nodup_cons, h.mem_iff]
    exact ⟨ht, h.nodup⟩
  mem_iff k := by rw [Multiset.map_cons, Multiset.mem_cons, h.mem_iff, hflag]

theorem finish (h : Matched key (t ::ₘ tokens) flag) (hflag : ∀ k, flag' k ↔ k ≠ key t ∧ flag k) :
    Matched key tokens flag' := by
  obtain ⟨hnodup, hmem⟩ := h
  rw [Multiset.map_cons, Multiset.nodup_cons] at hnodup
  refine ⟨hnodup.2, fun k => ?_⟩
  rw [hflag, ← hmem, Multiset.map_cons, Multiset.mem_cons]
  constructor
  · intro hk
    exact ⟨ne_of_mem_of_not_mem hk hnodup.1, .inr hk⟩
  · rintro ⟨hne, rfl | hk⟩
    · exact absurd rfl hne
    · exact hk

theorem replace (h : Matched key (t ::ₘ tokens) flag) (hkey : key t' = key t) :
    Matched key (t' ::ₘ tokens) flag := by
  obtain ⟨hnodup, hmem⟩ := h
  rw [Multiset.map_cons, ← hkey, ← Multiset.map_cons] at hnodup
  refine ⟨hnodup, fun k => ?_⟩
  rw [← hmem, Multiset.map_cons, Multiset.map_cons, hkey]

theorem count_le_one [DecidableEq κ] (h : Matched key tokens flag) (k : κ) :
    (tokens.map key).count k ≤ 1 :=
  Multiset.nodup_iff_count_le_one.mp h.nodup k

end Matched

section Carried

variable (f : α → Option τ)

def carried (l : List α) : Multiset τ := (l.filterMap f : List τ)

@[simp] theorem carried_nil : carried f [] = 0 := rfl

@[simp] theorem carried_append (l l' : List α) :
    carried f (l ++ l') = carried f l + carried f l' := by
  rw [carried, List.filterMap_append, ← Multiset.coe_add]
  rfl

theorem carried_cons (a : α) (l : List α) :
    carried f (a :: l) = ((f a).toList : Multiset τ) + carried f l := by
  cases h : f a with
  | none => rw [carried, List.filterMap_cons_none h]; exact (zero_add _).symm
  | some t => rw [carried, List.filterMap_cons_some h]; rfl

variable {f}

theorem carried_eq_zero {l : List α} (h : ∀ a ∈ l, f a = none) : carried f l = 0 := by
  rw [carried, List.filterMap_eq_nil_iff.mpr h]
  rfl

theorem carried_eraseIdx {l : List α} {n : ℕ} {a : α} (h : l[n]? = some a) (ha : f a = some t) :
    carried f l = t ::ₘ carried f (l.eraseIdx n) := by
  induction l generalizing n with
  | nil => simp at h
  | cons b l ih =>
    cases n with
    | zero =>
      obtain rfl : b = a := by simpa using h
      rw [carried_cons, ha]
      rfl
    | succ n =>
      rw [List.getElem?_cons_succ] at h
      rw [carried_cons, ih h, List.eraseIdx_cons_succ, carried_cons, Multiset.add_cons]

end Carried

section Entries

variable {ν : Type*} [DecidableEq κ] {d : Dict κ ν} {k : κ} {v : ν} (f : κ × ν → τ)

/-- The tokens in a dictionary, with the one that is stored under a new key. -/
theorem coe_map_entries_insert (h : k ∉ d) (v : ν) :
    (((d.insert k v).entries.map f : List τ) : Multiset τ) =
      f (k, v) ::ₘ ((d.entries.map f : List τ) : Multiset τ) := by
  have hperm := (Dict.perm_insert d k v).map f
  rw [Dict.erase_of_notMem h, List.map_cons] at hperm
  exact Multiset.coe_eq_coe.mpr hperm

/-- The tokens in a dictionary, without the one that is taken from a key. -/
theorem coe_map_entries_erase (h : d.get? k = some v) :
    ((d.entries.map f : List τ) : Multiset τ) =
      f (k, v) ::ₘ (((d.erase k).entries.map f : List τ) : Multiset τ) :=
  Multiset.coe_eq_coe.mpr ((Dict.perm_cons_erase h).map f)

end Entries

/-- What a system holds changes by what each of its steps takes in and gives away. The invariant
may say something of the labels that are still to come. -/
theorem Run.balance {σ : Type*} [AddCommMonoid τ] {R : σ → α → σ → Prop} {s t : σ} {as : List α}
    (h : Run R s as t) (gain loss : α → τ) (held : σ → τ) {I : σ → List α → Prop}
    (hstep : ∀ s a t as, R s a t → I s (a :: as) → I t as ∧ gain a + held s = loss a + held t)
    (hs : I s as) : (as.map gain).sum + held s = (as.map loss).sum + held t := by
  induction h with
  | nil => rfl
  | @cons s t u a as ha _ ih =>
    obtain ⟨ht, hbalance⟩ := hstep s a t as ha hs
    calc ((a :: as).map gain).sum + held s
        = (as.map gain).sum + (gain a + held s) := by
          rw [List.map_cons, List.sum_cons, add_comm (gain a), add_assoc]
      _ = loss a + ((as.map gain).sum + held t) := by rw [hbalance, add_left_comm]
      _ = ((a :: as).map loss).sum + held u := by
          rw [ih ht, List.map_cons, List.sum_cons, add_assoc]

end SwarmHost
