import SwarmHost.Graphs.Traversal

/-! # Undirected multigraphs with positional indices

Nodes and edges are named by their position. Adding one returns the next
position; removing an edge moves the last edge into the hole, so the index of
that other edge changes while its endpoints do not.
-/

namespace SwarmHost

section SwapRemove

variable {α : Type*}

def swapRemove (l : List α) (i : ℕ) : List α :=
  match l.getLast? with
  | none => []
  | some x => (l.set i x).dropLast

@[simp] theorem swapRemove_concat (l : List α) (x : α) (i : ℕ) :
    swapRemove (l ++ [x]) i = if i < l.length then l.set i x else l := by
  simp only [swapRemove, List.getLast?_append, List.getLast?_singleton, Option.some_or]
  split
  · rw [List.set_append_left _ _ ‹_›, List.dropLast_concat]
  · rw [List.set_append_right _ _ (by omega)]
    cases i - l.length <;> simp

theorem length_swapRemove (l : List α) (i : ℕ) : (swapRemove l i).length = l.length - 1 := by
  rcases List.eq_nil_or_concat l with rfl | ⟨l, x, rfl⟩
  · simp [swapRemove]
  · rw [List.concat_eq_append, swapRemove_concat]
    split <;> simp

/-- The last element moves into the hole, and the other positions keep their element. -/
theorem getElem?_swapRemove (l : List α) (i j : ℕ) : (swapRemove l i)[j]? =
    if j + 1 < l.length then (if j = i then l.getLast? else l[j]?) else none := by
  rcases List.eq_nil_or_concat l with rfl | ⟨l, x, rfl⟩
  · simp [swapRemove]
  rw [List.concat_eq_append, swapRemove_concat, List.length_append, List.length_singleton]
  by_cases hj : j < l.length
  · have hj' : j + 1 < l.length + 1 := by omega
    rw [if_pos hj', List.getElem?_append_left hj, List.getLast?_concat]
    by_cases hij : j = i
    · subst hij
      rw [if_pos hj, if_pos rfl, List.getElem?_set_self hj]
    · rw [if_neg hij]
      split
      · exact List.getElem?_set_ne (Ne.symm hij)
      · rfl
  · have hj' : ¬ j + 1 < l.length + 1 := by omega
    rw [if_neg hj']
    split
    · exact List.getElem?_eq_none (by simp; omega)
    · exact List.getElem?_eq_none (by omega)

theorem getElem?_swapRemove_of_ne {l : List α} {i j : ℕ} (hi : j ≠ i) (hl : j + 1 ≠ l.length) :
    (swapRemove l i)[j]? = l[j]? := by
  rw [getElem?_swapRemove, if_neg hi]
  split
  · rfl
  · exact (List.getElem?_eq_none (by omega)).symm

/-- What is left are the elements at the other positions. -/
theorem mem_swapRemove_iff {l : List α} {i : ℕ} {x : α} (h : i < l.length) :
    x ∈ swapRemove l i ↔ ∃ j, j ≠ i ∧ l[j]? = some x := by
  rw [List.mem_iff_getElem?]
  constructor
  · rintro ⟨j, hj⟩
    rw [getElem?_swapRemove] at hj
    split at hj
    · split at hj
      · rw [List.getLast?_eq_getElem?] at hj
        exact ⟨l.length - 1, by omega, hj⟩
      · exact ⟨j, ‹_›, hj⟩
    · cases hj
  · rintro ⟨j, hne, hj⟩
    have hlt := (List.getElem?_eq_some_iff.mp hj).1
    by_cases hlast : j + 1 = l.length
    · refine ⟨i, ?_⟩
      rw [getElem?_swapRemove, if_pos (by omega), if_pos rfl, List.getLast?_eq_getElem?, ← hlast]
      exact hj
    · exact ⟨j, by rw [getElem?_swapRemove_of_ne hne hlast, hj]⟩

/-- Exactly the element at the position is lost. -/
theorem perm_swapRemove {l : List α} {i : ℕ} {x : α} (h : l[i]? = some x) :
    l.Perm (x :: swapRemove l i) := by
  rcases List.eq_nil_or_concat l with rfl | ⟨l, y, rfl⟩
  · simp at h
  rw [List.concat_eq_append] at h ⊢
  rw [swapRemove_concat]
  split
  · rename_i hi
    rw [List.getElem?_append_left hi, List.getElem?_eq_getElem hi, Option.some.injEq] at h
    have hl : l = l.take i ++ x :: l.drop (i + 1) := by
      rw [← h, List.cons_getElem_drop_succ, List.take_append_drop]
    rw [List.set_eq_take_append_cons_drop, if_pos hi]
    have hsplit : l ++ [y] = l.take i ++ x :: (l.drop (i + 1) ++ [y]) := by
      conv_lhs => rw [hl]
      simp
    rw [hsplit]
    exact List.perm_middle.trans
      ((((List.perm_append_singleton y _).append_left _)).cons _)
  · rename_i hi
    have hlt := (List.getElem?_eq_some_iff.mp h).1
    rw [List.length_append, List.length_singleton] at hlt
    obtain rfl : i = l.length := by omega
    rw [List.getElem?_concat_length, Option.some.injEq] at h
    subst h
    exact List.perm_append_singleton _ _

end SwapRemove

/-- Node weights and edge endpoints, both named by their position. -/
structure Multigraph (ω : Type*) where
  nodes : List ω
  edges : List (ℕ × ℕ)
  bounded : ∀ e ∈ edges, e.1 < nodes.length ∧ e.2 < nodes.length

namespace Multigraph

variable {ω : Type*}

instance : EmptyCollection (Multigraph ω) := ⟨⟨[], [], by simp⟩⟩

def addNode (g : Multigraph ω) (w : ω) : Multigraph ω × ℕ :=
  (⟨g.nodes ++ [w], g.edges, fun e he => by
    have := g.bounded e he
    simp only [List.length_append, List.length_singleton]
    omega⟩, g.nodes.length)

/-- Add an edge and return its index; `none` if an endpoint is not a node. -/
def addEdge (g : Multigraph ω) (a b : ℕ) : Option (Multigraph ω × ℕ) :=
  if h : a < g.nodes.length ∧ b < g.nodes.length then
    some (⟨g.nodes, g.edges ++ [(a, b)], fun e he => by
      rcases List.mem_append.mp he with he | he
      · exact g.bounded e he
      · rw [List.mem_singleton.mp he]
        exact h⟩, g.edges.length)
  else none

/-- Remove the edge with the given index; `none` if there is none. -/
def removeEdge (g : Multigraph ω) (e : ℕ) : Option (Multigraph ω) :=
  if h : e < g.edges.length then
    some ⟨g.nodes, swapRemove g.edges e, fun x hx =>
      g.bounded x ((perm_swapRemove (List.getElem?_eq_getElem h)).mem_iff.mpr
        (List.mem_cons_of_mem _ hx))⟩
  else none

def nodeWeight (g : Multigraph ω) (a : ℕ) : Option ω := g.nodes[a]?

/-- The nodes at the other end of the edges of a node, one for each edge. -/
def neighbors (g : Multigraph ω) (a : ℕ) : List ℕ :=
  g.edges.filterMap fun e => if e.1 = a then some e.2 else if e.2 = a then some e.1 else none

/-- The edge with index `e` joins `a` and `b`. -/
def Joins (g : Multigraph ω) (e a b : ℕ) : Prop :=
  g.edges[e]? = some (a, b) ∨ g.edges[e]? = some (b, a)

instance (g : Multigraph ω) (e a b : ℕ) : Decidable (g.Joins e a b) :=
  inferInstanceAs (Decidable (_ ∨ _))

/-- Some edge joins `a` and `b`. -/
def Adj (g : Multigraph ω) (a b : ℕ) : Prop := (a, b) ∈ g.edges ∨ (b, a) ∈ g.edges

instance (g : Multigraph ω) (a b : ℕ) : Decidable (g.Adj a b) :=
  inferInstanceAs (Decidable (_ ∨ _))

/-- `b` lies in the connected component of `a`. -/
def Connected (g : Multigraph ω) : ℕ → ℕ → Prop := Relation.ReflTransGen g.Adj

/-- The nodes of the component of `a` in depth-first order. -/
def dfs (g : Multigraph ω) (a : ℕ) : Option (List ℕ) :=
  (Dfs.start a).iter g.neighbors g.nodes.length

variable {g g' : Multigraph ω} {a b e : ℕ}

theorem addEdge_eq_some {n : ℕ} (h : g.addEdge a b = some (g', n)) :
    g'.nodes = g.nodes ∧ g'.edges = g.edges ++ [(a, b)] ∧ n = g.edges.length := by
  unfold addEdge at h
  split at h
  · cases h; exact ⟨rfl, rfl, rfl⟩
  · cases h

theorem removeEdge_eq_some (h : g.removeEdge e = some g') :
    e < g.edges.length ∧ g'.nodes = g.nodes ∧ g'.edges = swapRemove g.edges e := by
  unfold removeEdge at h
  split at h
  · cases h; exact ⟨‹_›, rfl, rfl⟩
  · cases h

theorem removeEdge_isSome_iff : (g.removeEdge e).isSome ↔ e < g.edges.length := by
  unfold removeEdge
  split <;> simp_all

theorem Joins.lt_length (h : g.Joins e a b) : e < g.edges.length := by
  rcases h with h | h <;> exact (List.getElem?_eq_some_iff.mp h).1

theorem Adj.lt_length (h : g.Adj a b) : a < g.nodes.length ∧ b < g.nodes.length := by
  rcases h with h | h
  · exact g.bounded _ h
  · exact (g.bounded _ h).symm

theorem mem_neighbors : b ∈ g.neighbors a ↔ g.Adj a b := by
  simp only [neighbors, List.mem_filterMap, Adj]
  constructor
  · rintro ⟨⟨x, y⟩, he, h⟩
    dsimp only at h
    split at h
    · cases h; subst x; exact Or.inl he
    · split at h
      · cases h; subst y; exact Or.inr he
      · cases h
  · rintro (h | h)
    · exact ⟨_, h, by simp⟩
    · refine ⟨_, h, ?_⟩
      by_cases hb : b = a <;> simp [hb]

theorem Connected.lt_length (h : g.Connected a b) (ha : a < g.nodes.length) :
    b < g.nodes.length := by
  induction h with
  | refl => exact ha
  | tail _ h _ => exact h.lt_length.2

/-- The traversal visits the nodes of the component once each. -/
theorem dfs_spec (ha : a < g.nodes.length) :
    ∃ l, g.dfs a = some l ∧ l.Nodup ∧ ∀ x, x ∈ l ↔ g.Connected a x := by
  have hreach : Dfs.Reach g.neighbors = g.Connected := by
    simp only [Dfs.Reach, mem_neighbors]
    rfl
  have huniv : ∀ x, Dfs.Reach g.neighbors a x → x ∈ Finset.range g.nodes.length := by
    intro x hx
    rw [hreach] at hx
    exact Finset.mem_range.mpr (hx.lt_length ha)
  obtain ⟨l, hl, hnd, hmem⟩ := Dfs.iter_start huniv (Finset.card_range _).le
  exact ⟨l, hl, hnd, fun x => by rw [hmem, hreach]⟩

end Multigraph

end SwarmHost
