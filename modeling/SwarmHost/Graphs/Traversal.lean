import Mathlib.Data.Finset.Card
import Mathlib.Logic.Relation

/-! # Depth-first traversal

A traversal keeps a stack of nodes to visit and the nodes already discovered.
Taking nodes until the stack is exhausted visits every node reachable from the
start exactly once, and at most as many steps as there are reachable nodes are
needed.
-/

namespace SwarmHost

variable {α : Type*}

/-- The nodes still to visit, the next one first, and the nodes visited so far. -/
structure Dfs (α : Type*) where
  stack : List α
  discovered : List α

namespace Dfs

def start (a : α) : Dfs α := ⟨[a], []⟩

abbrev Reach (nbrs : α → List α) : α → α → Prop := Relation.ReflTransGen fun a b => b ∈ nbrs a

/-- What holds of a traversal started at `r` between two visits. -/
structure Sound (nbrs : α → List α) (r : α) (d : Dfs α) : Prop where
  stack_reach : ∀ x ∈ d.stack, Reach nbrs r x
  discovered_reach : ∀ x ∈ d.discovered, Reach nbrs r x
  frontier : ∀ x ∈ d.discovered, ∀ y ∈ nbrs x, y ∈ d.discovered ∨ y ∈ d.stack
  root : r ∈ d.discovered ∨ r ∈ d.stack

variable {nbrs : α → List α} {r : α}

theorem sound_start (r : α) : Sound nbrs r (start r) where
  stack_reach x hx := by
    rw [List.mem_singleton.mp hx]
  discovered_reach x hx := by simp [start] at hx
  frontier x hx := by simp [start] at hx
  root := Or.inr (by simp [start])

theorem Sound.pop {a : α} {stack discovered : List α} (h : Sound nbrs r ⟨a :: stack, discovered⟩)
    (ha : a ∈ discovered) : Sound nbrs r ⟨stack, discovered⟩ where
  stack_reach x hx := h.stack_reach x (List.mem_cons_of_mem _ hx)
  discovered_reach := h.discovered_reach
  frontier x hx y hy := by
    rcases h.frontier x hx y hy with hd | hs
    · exact Or.inl hd
    · rcases List.mem_cons.mp hs with rfl | hs
      · exact Or.inl ha
      · exact Or.inr hs
  root := by
    rcases h.root with hd | hs
    · exact Or.inl hd
    · rcases List.mem_cons.mp hs with rfl | hs
      · exact Or.inl ha
      · exact Or.inr hs

theorem Sound.mem_discovered {discovered : List α} (h : Sound nbrs r ⟨[], discovered⟩) {x : α}
    (hx : Reach nbrs r x) : x ∈ discovered := by
  induction hx with
  | refl => simpa using h.root
  | tail _ hy ih => simpa using h.frontier _ ih _ hy

variable [DecidableEq α]

/-- Pop nodes until one was not visited before; visit it and push its new neighbours. -/
def advance (nbrs : α → List α) (discovered : List α) : List α → Option (α × Dfs α)
  | [] => none
  | a :: stack =>
    if a ∈ discovered then advance nbrs discovered stack
    else some (a, ⟨((nbrs a).filter (· ∉ a :: discovered)).reverse ++ stack, a :: discovered⟩)

def next (nbrs : α → List α) (d : Dfs α) : Option (α × Dfs α) := advance nbrs d.discovered d.stack

/-- The nodes the traversal still yields, or `none` if there are more than `n` of them. -/
def iter (nbrs : α → List α) : ℕ → Dfs α → Option (List α)
  | 0, d => if (d.next nbrs).isNone then some [] else none
  | n + 1, d =>
    match d.next nbrs with
    | none => some []
    | some (a, d') => (iter nbrs n d').map (a :: ·)

theorem Sound.visit {a : α} {stack discovered : List α}
    (h : Sound nbrs r ⟨a :: stack, discovered⟩) :
    Sound nbrs r
      ⟨((nbrs a).filter (· ∉ a :: discovered)).reverse ++ stack, a :: discovered⟩ where
  stack_reach x hx := by
    have ha := h.stack_reach a (List.mem_cons_self)
    rcases List.mem_append.mp hx with hn | hs
    · have hm : x ∈ nbrs a := List.mem_of_mem_filter (List.mem_reverse.mp hn)
      exact ha.tail hm
    · exact h.stack_reach x (List.mem_cons_of_mem _ hs)
  discovered_reach x hx := by
    rcases List.mem_cons.mp hx with rfl | hd
    · exact h.stack_reach _ (List.mem_cons_self)
    · exact h.discovered_reach x hd
  frontier x hx y hy := by
    by_cases hyd : y ∈ a :: discovered
    · exact Or.inl hyd
    right
    rcases List.mem_cons.mp hx with rfl | hd
    · simp only [List.mem_append, List.mem_reverse, List.mem_filter]
      exact Or.inl ⟨hy, by simpa using hyd⟩
    · rcases h.frontier x hd y hy with hd' | hs
      · exact absurd (List.mem_cons_of_mem _ hd') hyd
      · rcases List.mem_cons.mp hs with rfl | hs
        · exact absurd (List.mem_cons_self) hyd
        · exact List.mem_append_right _ hs
  root := by
    rcases h.root with hd | hs
    · exact Or.inl (List.mem_cons_of_mem _ hd)
    · rcases List.mem_cons.mp hs with rfl | hs
      · exact Or.inl (List.mem_cons_self)
      · exact Or.inr (List.mem_append_right _ hs)

theorem advance_none {discovered stack : List α} (h : Sound nbrs r ⟨stack, discovered⟩)
    (hn : advance nbrs discovered stack = none) {x : α} (hx : Reach nbrs r x) :
    x ∈ discovered := by
  induction stack with
  | nil => exact h.mem_discovered hx
  | cons a stack ih =>
    rw [advance] at hn
    split at hn
    · exact ih (h.pop ‹_›) hn
    · cases hn

theorem advance_some {discovered stack : List α} (h : Sound nbrs r ⟨stack, discovered⟩)
    {a : α} {d : Dfs α} (hs : advance nbrs discovered stack = some (a, d)) :
    a ∉ discovered ∧ Reach nbrs r a ∧ d.discovered = a :: discovered ∧ Sound nbrs r d := by
  induction stack with
  | nil => cases hs
  | cons b stack ih =>
    rw [advance] at hs
    split at hs
    · exact ih (h.pop ‹_›) hs
    · cases hs
      exact ⟨‹_›, h.stack_reach _ (List.mem_cons_self), rfl, h.visit⟩

/-- From a sound state the remaining nodes are the reachable ones not yet discovered. -/
theorem iter_of_sound {univ : Finset α} (huniv : ∀ x, Reach nbrs r x → x ∈ univ) (n : ℕ)
    (d : Dfs α) (h : Sound nbrs r d) (hd : d.discovered.Nodup)
    (hn : univ.card ≤ n + d.discovered.length) :
    ∃ l, d.iter nbrs n = some l ∧ l.Nodup ∧
      ∀ x, x ∈ l ↔ Reach nbrs r x ∧ x ∉ d.discovered := by
  induction n generalizing d with
  | zero =>
    have hnext : d.next nbrs = none := by
      rcases hnx : d.next nbrs with _ | ⟨a, d'⟩
      · rfl
      -- a further node would be a reachable one outside a full list of them
      obtain ⟨ha, hra, -, -⟩ := advance_some h hnx
      have hsub : insert a d.discovered.toFinset ⊆ univ := by
        intro x hx
        rcases Finset.mem_insert.mp hx with rfl | hx
        · exact huniv _ hra
        · exact huniv _ (h.discovered_reach x (List.mem_toFinset.mp hx))
      have hcard := Finset.card_le_card hsub
      rw [Finset.card_insert_of_notMem (by simpa using ha), List.toFinset_card_of_nodup hd] at hcard
      omega
    refine ⟨[], by simp [iter, hnext], by simp, fun x => ?_⟩
    simp only [List.not_mem_nil, false_iff, not_and, not_not]
    exact advance_none h hnext
  | succ n ih =>
    rcases hnx : d.next nbrs with _ | ⟨a, d'⟩
    · refine ⟨[], by simp [iter, hnx], by simp, fun x => ?_⟩
      simp only [List.not_mem_nil, false_iff, not_and, not_not]
      exact advance_none h hnx
    · obtain ⟨ha, hra, hd', hs⟩ := advance_some h hnx
      have hnd : d'.discovered.Nodup := by
        rw [hd']
        exact List.nodup_cons.mpr ⟨ha, hd⟩
      obtain ⟨l, hl, hln, hmem⟩ := ih d' hs hnd (by rw [hd', List.length_cons]; omega)
      rw [hd'] at hmem
      refine ⟨a :: l, by simp [iter, hnx, hl], ?_, fun x => ?_⟩
      · refine List.nodup_cons.mpr ⟨fun hal => ?_, hln⟩
        exact ((hmem a).mp hal).2 (List.mem_cons_self)
      · rw [List.mem_cons, hmem, List.mem_cons, not_or]
        constructor
        · rintro (rfl | ⟨hx, _, hxd⟩)
          · exact ⟨hra, ha⟩
          · exact ⟨hx, hxd⟩
        · rintro ⟨hx, hxd⟩
          by_cases hxa : x = a
          · exact Or.inl hxa
          · exact Or.inr ⟨hx, hxa, hxd⟩

/-- A traversal yields every node reachable from its start exactly once. -/
theorem iter_start {univ : Finset α} (huniv : ∀ x, Reach nbrs r x → x ∈ univ) {n : ℕ}
    (hn : univ.card ≤ n) :
    ∃ l, (start r).iter nbrs n = some l ∧ l.Nodup ∧ ∀ x, x ∈ l ↔ Reach nbrs r x := by
  obtain ⟨l, hl, hnd, hmem⟩ :=
    iter_of_sound huniv n (start r) (sound_start r) (by simp [start]) (by simpa [start] using hn)
  exact ⟨l, hl, hnd, fun x => by simpa [start] using hmem x⟩

end Dfs

end SwarmHost
