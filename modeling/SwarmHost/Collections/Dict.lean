import Mathlib.Data.List.Nodup
import Mathlib.Data.List.Perm.Basic

/-! # Insertion-ordered dictionaries

A dictionary is a list of entries with distinct keys. Updating a present key
keeps its place in the iteration order, a new key goes to the end, and erasing
leaves the order of the others alone.
-/

namespace SwarmHost

variable {κ ν α : Type*}

/-- A finite map iterated in insertion order. -/
structure Dict (κ ν : Type*) where
  entries : List (κ × ν)
  nodup : (entries.map Prod.fst).Nodup
  deriving DecidableEq

namespace Dict

def keys (d : Dict κ ν) : List κ := d.entries.map Prod.fst

instance : Membership κ (Dict κ ν) := ⟨fun d k => k ∈ d.keys⟩

instance : EmptyCollection (Dict κ ν) := ⟨⟨[], by simp⟩⟩

instance : Inhabited (Dict κ ν) := ⟨∅⟩

@[simp] theorem notMem_empty (k : κ) : k ∉ (∅ : Dict κ ν) := List.not_mem_nil

theorem nodup_entries (d : Dict κ ν) : d.entries.Nodup := d.nodup.of_map _

variable [DecidableEq κ]

instance (k : κ) (d : Dict κ ν) : Decidable (k ∈ d) :=
  inferInstanceAs (Decidable (k ∈ d.keys))

/-- The value stored under a key, if any. -/
def get? (d : Dict κ ν) (k : κ) : Option ν := d.entries.lookup k

/-- Overwrite the entry of a key in place, or append a new entry. -/
def assign (k : κ) (v : ν) : List (κ × ν) → List (κ × ν)
  | [] => [(k, v)]
  | e :: es => if e.1 = k then (k, v) :: es else e :: assign k v es

theorem mem_keys_assign (k : κ) (v : ν) (es : List (κ × ν)) (k' : κ) :
    k' ∈ (assign k v es).map Prod.fst ↔ k' = k ∨ k' ∈ es.map Prod.fst := by
  induction es with
  | nil => simp [assign]
  | cons e es ih =>
    by_cases h : e.1 = k
    · simp [assign, h]
    · simp only [assign, h, if_false, List.map_cons, List.mem_cons, ih]
      tauto

theorem nodup_assign (k : κ) (v : ν) {es : List (κ × ν)} (h : (es.map Prod.fst).Nodup) :
    ((assign k v es).map Prod.fst).Nodup := by
  induction es with
  | nil => simp [assign]
  | cons e es ih =>
    rw [List.map_cons, List.nodup_cons] at h
    by_cases he : e.1 = k
    · subst he
      simpa [assign] using h
    · rw [assign, if_neg he, List.map_cons, List.nodup_cons, mem_keys_assign, not_or]
      exact ⟨⟨he, h.1⟩, ih h.2⟩

theorem lookup_cons_eq (e : κ × ν) (es : List (κ × ν)) (k : κ) :
    (e :: es).lookup k = if k = e.1 then some e.2 else es.lookup k := by
  obtain ⟨x, v⟩ := e
  rw [List.lookup_cons]
  by_cases h : k = x
  · simp [h]
  · simp [h, beq_eq_false_iff_ne.mpr h]

theorem lookup_assign (k : κ) (v : ν) (es : List (κ × ν)) (k' : κ) :
    (assign k v es).lookup k' = if k' = k then some v else es.lookup k' := by
  induction es with
  | nil => simp [assign, lookup_cons_eq]
  | cons e es ih =>
    by_cases he : e.1 = k
    · subst he
      by_cases hk : k' = e.1 <;> simp [assign, lookup_cons_eq, hk]
    · simp only [assign, he, if_false, lookup_cons_eq, ih]
      by_cases hk : k' = e.1
      · subst hk
        simp [he]
      · simp [hk]

/-- Store a value under a key. -/
def insert (d : Dict κ ν) (k : κ) (v : ν) : Dict κ ν :=
  ⟨assign k v d.entries, nodup_assign k v d.nodup⟩

/-- Drop the entry of a key. -/
def erase (d : Dict κ ν) (k : κ) : Dict κ ν :=
  ⟨d.entries.filter (·.1 ≠ k), d.nodup.sublist (List.filter_sublist.map _)⟩

/-- Change the value stored under a key; an absent key stays absent. -/
def modify (d : Dict κ ν) (k : κ) (f : ν → ν) : Dict κ ν :=
  match d.get? k with
  | none => d
  | some v => d.insert k (f v)

/-- Change every value. -/
def map (d : Dict κ ν) (f : κ → ν → ν) : Dict κ ν :=
  ⟨d.entries.map fun e => (e.1, f e.1 e.2), by simpa [Function.comp_def] using d.nodup⟩

@[simp] theorem get?_empty (k : κ) : (∅ : Dict κ ν).get? k = none := rfl

theorem get?_insert (d : Dict κ ν) (k k' : κ) (v : ν) :
    (d.insert k v).get? k' = if k' = k then some v else d.get? k' :=
  lookup_assign k v d.entries k'

@[simp] theorem get?_insert_self (d : Dict κ ν) (k : κ) (v : ν) :
    (d.insert k v).get? k = some v := by
  simp [get?_insert]

theorem get?_insert_ne {d : Dict κ ν} {k k' : κ} (v : ν) (h : k' ≠ k) :
    (d.insert k v).get? k' = d.get? k' := by
  simp [get?_insert, h]

theorem lookup_filter_ne (es : List (κ × ν)) (k k' : κ) :
    (es.filter (·.1 ≠ k)).lookup k' = if k' = k then none else es.lookup k' := by
  induction es with
  | nil => simp
  | cons e es ih =>
    by_cases he : e.1 = k
    · rw [List.filter_cons_of_neg (by simp [he]), ih, lookup_cons_eq, he]
      by_cases hk : k' = k <;> simp [hk]
    · rw [List.filter_cons_of_pos (by simp [he]), lookup_cons_eq, lookup_cons_eq, ih]
      by_cases hk : k' = e.1
      · subst hk
        simp [he]
      · simp [hk]

theorem get?_erase (d : Dict κ ν) (k k' : κ) :
    (d.erase k).get? k' = if k' = k then none else d.get? k' :=
  lookup_filter_ne d.entries k k'

@[simp] theorem get?_erase_self (d : Dict κ ν) (k : κ) : (d.erase k).get? k = none := by
  simp [get?_erase]

theorem get?_erase_ne {d : Dict κ ν} {k k' : κ} (h : k' ≠ k) :
    (d.erase k).get? k' = d.get? k' := by
  simp [get?_erase, h]

theorem modify_of_get? {d : Dict κ ν} {k : κ} {v : ν} {f : ν → ν} (h : d.get? k = some v) :
    d.modify k f = d.insert k (f v) := by
  rw [modify, h]

theorem get?_modify (d : Dict κ ν) (k k' : κ) (f : ν → ν) :
    (d.modify k f).get? k' = if k' = k then (d.get? k).map f else d.get? k' := by
  unfold modify
  cases hv : d.get? k with
  | none => split <;> simp_all
  | some v => simp [get?_insert]

theorem get?_map (d : Dict κ ν) (f : κ → ν → ν) (k : κ) :
    (d.map f).get? k = (d.get? k).map (f k) := by
  change (d.entries.map _).lookup k = (d.entries.lookup k).map (f k)
  induction d.entries with
  | nil => rfl
  | cons e es ih =>
    simp only [List.map_cons, lookup_cons_eq, ih]
    by_cases h : k = e.1 <;> simp [h]

theorem mem_iff_isSome {d : Dict κ ν} {k : κ} : k ∈ d ↔ (d.get? k).isSome := by
  change k ∈ d.entries.map Prod.fst ↔ _
  simp only [get?, List.lookup_isSome_iff, beq_iff_eq, List.mem_map]
  constructor
  · rintro ⟨e, he, rfl⟩; exact ⟨e, he, rfl⟩
  · rintro ⟨e, he, rfl⟩; exact ⟨e, he, rfl⟩

theorem mem_iff {d : Dict κ ν} {k : κ} : k ∈ d ↔ ∃ v, d.get? k = some v := by
  rw [mem_iff_isSome, Option.isSome_iff_exists]

theorem notMem_iff {d : Dict κ ν} {k : κ} : k ∉ d ↔ d.get? k = none := by
  rw [mem_iff_isSome, Option.not_isSome_iff_eq_none]

theorem mem_of_get? {d : Dict κ ν} {k : κ} {v : ν} (h : d.get? k = some v) : k ∈ d :=
  mem_iff.mpr ⟨v, h⟩

@[simp] theorem mem_insert {d : Dict κ ν} {k k' : κ} {v : ν} :
    k' ∈ d.insert k v ↔ k' = k ∨ k' ∈ d :=
  mem_keys_assign k v d.entries k'

@[simp] theorem mem_erase {d : Dict κ ν} {k k' : κ} : k' ∈ d.erase k ↔ k' ≠ k ∧ k' ∈ d := by
  rw [mem_iff_isSome, mem_iff_isSome, get?_erase]
  split <;> simp_all

theorem mem_modify {d : Dict κ ν} {k k' : κ} {f : ν → ν} : k' ∈ d.modify k f ↔ k' ∈ d := by
  rw [mem_iff_isSome, mem_iff_isSome, get?_modify]
  split
  · subst k'; rw [Option.isSome_map]
  · rfl

theorem erase_of_notMem {d : Dict κ ν} {k : κ} (h : k ∉ d) : d.erase k = d := by
  obtain ⟨entries, nodup⟩ := d
  have hfilter : entries.filter (·.1 ≠ k) = entries := by
    refine List.filter_eq_self.mpr fun e he => decide_eq_true ?_
    rintro rfl
    exact h (List.mem_map.mpr ⟨e, he, rfl⟩)
  simp only [erase, hfilter]

theorem lookup_eq_some_iff {es : List (κ × ν)} (h : (es.map Prod.fst).Nodup) {k : κ} {v : ν} :
    es.lookup k = some v ↔ (k, v) ∈ es := by
  induction es with
  | nil => simp
  | cons e es ih =>
    rw [List.map_cons, List.nodup_cons] at h
    rw [lookup_cons_eq, List.mem_cons]
    by_cases hk : k = e.1
    · subst hk
      have hnot : (e.1, v) ∉ es := fun hmem => h.1 (List.mem_map.mpr ⟨_, hmem, rfl⟩)
      simp [hnot, Prod.ext_iff, eq_comm]
    · simp [hk, ih h.2, Prod.ext_iff]

theorem mem_entries {d : Dict κ ν} {k : κ} {v : ν} : (k, v) ∈ d.entries ↔ d.get? k = some v :=
  (lookup_eq_some_iff d.nodup).symm

/-- The entry of a key and the rest. -/
theorem perm_cons_erase {d : Dict κ ν} {k : κ} {v : ν} (h : d.get? k = some v) :
    d.entries.Perm ((k, v) :: (d.erase k).entries) := by
  refine (List.perm_ext_iff_of_nodup d.nodup_entries ?_).mpr ?_
  · refine List.nodup_cons.mpr ⟨?_, (d.erase k).nodup_entries⟩
    simp [mem_entries]
  · rintro ⟨k', v'⟩
    rw [List.mem_cons, mem_entries, mem_entries, get?_erase]
    by_cases hk : k' = k
    · subst hk
      simp [h, eq_comm]
    · simp [hk]

theorem perm_of_get? {d d' : Dict κ ν} (h : ∀ k, d.get? k = d'.get? k) :
    d.entries.Perm d'.entries := by
  apply (List.perm_ext_iff_of_nodup (nodup_entries _) (nodup_entries _)).mpr
  rintro ⟨k, v⟩
  rw [mem_entries, mem_entries, h]

theorem perm_insert (d : Dict κ ν) (k : κ) (v : ν) :
    (d.insert k v).entries.Perm ((k, v) :: (d.erase k).entries) := by
  have herase : ((d.insert k v).erase k).entries.Perm (d.erase k).entries := by
    apply perm_of_get?
    intro k'
    rw [get?_erase, get?_erase, get?_insert]
    split <;> rfl
  exact (perm_cons_erase (get?_insert_self d k v)).trans (herase.cons _)

theorem length_keys_insert {d : Dict κ ν} {k : κ} (h : k ∉ d) (v : ν) :
    (d.insert k v).keys.length = d.keys.length + 1 := by
  have hperm := perm_insert d k v
  rw [erase_of_notMem h] at hperm
  simpa [keys] using hperm.length_eq

theorem erase_sublist (d : Dict κ ν) (k : κ) : (d.erase k).entries.Sublist d.entries :=
  List.filter_sublist

theorem foldl_keys_eq (d : Dict κ ν) (k : κ) (f : α → α) (a : α) :
    d.keys.foldl (fun a k' => if k' = k then f a else a) a = if k ∈ d then f a else a := by
  have hskip : ∀ (l : List κ) (a : α), k ∉ l →
      l.foldl (fun a k' => if k' = k then f a else a) a = a := by
    intro l
    induction l with
    | nil => intro a _; rfl
    | cons x l ih =>
      intro a hk
      rw [List.mem_cons, not_or] at hk
      simp only [List.foldl_cons, Ne.symm hk.1, if_false]
      exact ih a hk.2
  have hloop : ∀ (l : List κ) (a : α), l.Nodup →
      l.foldl (fun a k' => if k' = k then f a else a) a = if k ∈ l then f a else a := by
    intro l
    induction l with
    | nil => intro a _; simp
    | cons x l ih =>
      intro a hl
      rw [List.nodup_cons] at hl
      by_cases hx : x = k
      · subst hx
        simp [hskip l _ hl.1]
      · simp [hx, Ne.symm hx, ih _ hl.2]
  exact hloop d.keys a d.nodup

section Merge

variable {μ : Type*}

/-- Update the value of every key of another dictionary, in its order. -/
def merge (f : Option ν → μ → ν) (d : Dict κ ν) (u : Dict κ μ) : Dict κ ν :=
  u.entries.foldl (fun d e => d.insert e.1 (f (d.get? e.1) e.2)) d

theorem get?_merge (f : Option ν → μ → ν) (d : Dict κ ν) (u : Dict κ μ) (k : κ) :
    (d.merge f u).get? k = (u.get? k).elim (d.get? k) fun v => some (f (d.get? k) v) := by
  have hloop : ∀ (es : List (κ × μ)) (d : Dict κ ν), (es.map Prod.fst).Nodup →
      (es.foldl (fun d e => d.insert e.1 (f (d.get? e.1) e.2)) d).get? k =
        (es.lookup k).elim (d.get? k) fun v => some (f (d.get? k) v) := by
    intro es
    induction es with
    | nil => intro d _; rfl
    | cons e es ih =>
      intro d hnodup
      rw [List.map_cons, List.nodup_cons] at hnodup
      rw [List.foldl_cons, ih _ hnodup.2, lookup_cons_eq, get?_insert]
      by_cases hk : k = e.1
      · have hnone : es.lookup k = none := by
          rw [List.lookup_eq_none_iff]
          intro e' he'
          have hne : k ≠ e'.1 := fun h => hnodup.1 (List.mem_map.mpr ⟨e', he', h ▸ hk⟩)
          simpa using hne
        rw [if_pos hk, if_pos hk, hnone, ← hk]
        rfl
      · rw [if_neg hk, if_neg hk]
  exact hloop u.entries d u.nodup

end Merge

end Dict

end SwarmHost
