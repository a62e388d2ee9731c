import SwarmHost.Backend.Substrate
import SwarmHost.Overseer.Topology

/-! # The table of links

The overseer remembers the index of the edge it added for an ordered pair of
interfaces. Removing an edge renumbers the last one and linking a pair again
forgets the previous index, so both the table and the answers to `unlink` are
right only along runs that avoid these cases.
-/

namespace SwarmHost.Overseer

variable {T : NetworkBackend} {E : Executor T} {s s' : Overseer T} {a b : T.InterfaceId}

theorem unlinkInterfaces_ok_iff : (s.unlinkInterfaces a b).1 = .ok () ↔
    ∃ e, s.edges.get? (a, b) = some e ∧ e < s.links.edges.length := by
  unfold unlinkInterfaces
  cases he : s.edges.get? (a, b) with
  | none => simp
  | some e =>
    simp only [Option.some.injEq, exists_eq_left', ← Multigraph.removeEdge_isSome_iff]
    cases s.links.removeEdge e <;> simp

theorem unlinkInterfaces_links {e : ℕ} (he : s.edges.get? (a, b) = some e)
    (hlt : e < s.links.edges.length) :
    (s.unlinkInterfaces a b).2.links.edges = swapRemove s.links.edges e := by
  obtain ⟨g, hg⟩ := Option.isSome_iff_exists.mp (Multigraph.removeEdge_isSome_iff.mpr hlt)
  simp only [unlinkInterfaces, he, hg]
  exact (Multigraph.removeEdge_eq_some hg).2.2

section Table

/-- Unlinking the pair succeeds and removes one edge between the two interfaces, nothing else. -/
def UnlinksExactly (s : Overseer T) (a b : T.InterfaceId) : Prop :=
  ∃ n m x, s.index? a = some n ∧ s.index? b = some m ∧ (x = (n, m) ∨ x = (m, n)) ∧
    (s.unlinkInterfaces a b).1 = .ok () ∧
    s.links.edges.Perm (x :: (s.unlinkInterfaces a b).2.links.edges)

/-- Entries of the table name live edges between their interfaces, different entries name
different edges, and every pair in the table can be unlinked. -/
structure LinkTableSound (s : Overseer T) : Prop where
  live : ∀ a b e, s.edges.get? (a, b) = some e →
    ∃ n m, s.index? a = some n ∧ s.index? b = some m ∧ s.links.Joins e n m
  distinct : ∀ k k' e, s.edges.get? k = some e → s.edges.get? k' = some e → k = k'
  unlink : ∀ a b, (a, b) ∈ s.edges → UnlinksExactly s a b

/-- No entry but the one being removed names the last edge of the graph. -/
def LastEdgeUnnamed (s : Overseer T) (call : Call T) : Prop :=
  ∀ a b e, call = .unlinkInterfaces a b → s.edges.get? (a, b) = some e →
    ∀ k, k ≠ (a, b) → s.edges.get? k ≠ some (s.links.edges.length - 1)

/-- An entry that names a live edge between its interfaces unlinks exactly that edge. -/
theorem unlinksExactly_of_joins {e n m : ℕ} (he : s.edges.get? (a, b) = some e)
    (hn : s.index? a = some n) (hm : s.index? b = some m) (hj : s.links.Joins e n m) :
    UnlinksExactly s a b := by
  have hok := unlinkInterfaces_ok_iff.mpr ⟨e, he, hj.lt_length⟩
  have hl := unlinkInterfaces_links he hj.lt_length
  rcases hj with hj | hj
  · exact ⟨n, m, (n, m), hn, hm, Or.inl rfl, hok, hl ▸ perm_swapRemove hj⟩
  · exact ⟨n, m, (m, n), hn, hm, Or.inr rfl, hok, hl ▸ perm_swapRemove hj⟩

theorem LinkTableSound.of_live
    (live : ∀ a b e, s.edges.get? (a, b) = some e →
      ∃ n m, s.index? a = some n ∧ s.index? b = some m ∧ s.links.Joins e n m)
    (distinct : ∀ k k' e, s.edges.get? k = some e → s.edges.get? k' = some e → k = k') :
    LinkTableSound s where
  live := live
  distinct := distinct
  unlink a b hab := by
    obtain ⟨e, he⟩ := Dict.mem_iff.mp hab
    obtain ⟨n, m, hn, hm, hj⟩ := live a b e he
    exact unlinksExactly_of_joins he hn hm hj

theorem linkTableSound_new (parameters : T.NetworkParameters) :
    LinkTableSound (new parameters : Overseer T) :=
  .of_live (by simp [new]) (by simp [new])

theorem LinkTableSound.lt_length (h : LinkTableSound s) {k : T.InterfaceId × T.InterfaceId}
    {e : ℕ} (hk : s.edges.get? k = some e) : e < s.links.edges.length := by
  obtain ⟨n, m, -, -, hj⟩ := h.live k.1 k.2 e hk
  exact hj.lt_length

theorem LinkTableSound.of_same (h : LinkTableSound s) (hl : s'.links.edges = s.links.edges)
    (he : s'.edges = s.edges) (hi : ∀ j n, s.index? j = some n → s'.index? j = some n) :
    LinkTableSound s' := by
  refine .of_live (fun a b e hab => ?_) (by rw [he]; exact h.distinct)
  rw [he] at hab
  obtain ⟨n, m, hn, hm, hj⟩ := h.live a b e hab
  unfold Multigraph.Joins at hj ⊢
  exact ⟨n, m, hi a n hn, hi b m hm, hl ▸ hj⟩

theorem LinkTableSound.link {n m : ℕ} (h : LinkTableSound s) (ha : s.index? a = some n)
    (hb : s.index? b = some m) (hl : s'.links.edges = s.links.edges ++ [(n, m)])
    (he : s'.edges = s.edges.insert (a, b) s.links.edges.length)
    (hi : ∀ j, s'.index? j = s.index? j) : LinkTableSound s' := by
  refine .of_live (fun c d e hcd => ?_) (fun k k' e hk hk' => ?_)
  · rw [he, Dict.get?_insert] at hcd
    simp only [hi, Multigraph.Joins, hl]
    split at hcd
    · rename_i heq
      cases heq
      cases hcd
      exact ⟨n, m, ha, hb, Or.inl List.getElem?_concat_length⟩
    · obtain ⟨x, y, hx, hy, hj⟩ := h.live c d e hcd
      rw [List.getElem?_append_left hj.lt_length]
      exact ⟨x, y, hx, hy, hj⟩
  · rw [he, Dict.get?_insert] at hk hk'
    split at hk <;> split at hk'
    · simp_all
    · cases hk
      exact absurd (h.lt_length hk') (lt_irrefl _)
    · cases hk'
      exact absurd (h.lt_length hk) (lt_irrefl _)
    · exact h.distinct k k' e hk hk'

theorem LinkTableSound.unlink_iff {e : ℕ} (h : LinkTableSound s)
    (he : s.edges.get? (a, b) = some e) (hl : s'.links.edges = swapRemove s.links.edges e)
    (hk : s'.edges = s.edges.erase (a, b)) (hi : ∀ j, s'.index? j = s.index? j) :
    LinkTableSound s' ↔
      ∀ k, k ≠ (a, b) → s.edges.get? k ≠ some (s.links.edges.length - 1) := by
  have hlt := h.lt_length he
  constructor
  · intro h' k hne hlast
    have hk' : s'.edges.get? k = some (s.links.edges.length - 1) := by
      rw [hk, Dict.get?_erase_ne hne, hlast]
    have := h'.lt_length hk'
    rw [hl, length_swapRemove] at this
    omega
  · intro hlast
    have hold : ∀ k e', s'.edges.get? k = some e' → k ≠ (a, b) ∧ s.edges.get? k = some e' := by
      intro k e' hke
      rw [hk, Dict.get?_erase] at hke
      split at hke
      · cases hke
      · exact ⟨‹_›, hke⟩
    refine .of_live (fun c d e' hcd => ?_) (fun k k' e' hk₁ hk₂ => ?_)
    · obtain ⟨hne, hcd⟩ := hold (c, d) e' hcd
      obtain ⟨n, m, hn, hm, hj⟩ := h.live c d e' hcd
      have hdiff : e' ≠ e := by
        rintro rfl
        exact hne (h.distinct _ _ _ hcd he)
      have hend : e' + 1 ≠ s.links.edges.length := by
        intro heq
        apply hlast (c, d) hne
        rw [hcd, ← heq, Nat.add_sub_cancel]
      simp only [hi, Multigraph.Joins, hl, getElem?_swapRemove_of_ne hdiff hend]
      exact ⟨n, m, hn, hm, hj⟩
    · exact h.distinct k k' e' (hold k e' hk₁).2 (hold k' e' hk₂).2

/-- From a sound table, one call leads to a sound table exactly when it leaves no other entry
behind for the last edge. -/
theorem linkTableSound_step (s : Overseer T) (call : Call T) (s' : Overseer T)
    (hs : Step E s call s') (h : LinkTableSound s) :
    LinkTableSound s' ↔ LastEdgeUnnamed s call := by
  cases hs.change with
  | frame hf hu =>
    refine iff_of_true (h.of_same (by rw [hf.links]) hf.edges fun j n hj => hf.index j ▸ hj) ?_
    intro a b e hcall he
    rw [hu a b hcall] at he
    cases he
  | addNode hl he hi =>
    refine iff_of_true (h.of_same (by rw [hl]; rfl) he fun j n hj => hi j ▸ hj) ?_
    intro a b e hcall
    cases hcall
  | @addInterface _ _ _ _ i hnew hl he hi =>
    refine iff_of_true (h.of_same (by rw [hl]; rfl) he fun j n hj => ?_) ?_
    · have hne : j ≠ i := by
        rintro rfl
        exact hnew (index?_isSome_iff.mp (by simp [hj]))
      rw [hi, if_neg hne, hj]
    · intro a b e hcall
      cases hcall
  | link ha hb _ hl hk hi =>
    apply iff_of_true (h.link ha hb hl hk hi)
    intro a b e hcall
    cases hcall
  | unlink he _ _ hl hk hi =>
    rw [h.unlink_iff he hl hk hi]
    constructor
    · rintro hlast _ _ e' ⟨⟩ -
      exact hlast
    · intro hlast
      exact hlast _ _ _ rfl he
  | unlinkStale he hge =>
    have := h.lt_length he
    omega

/-- The table of links stays sound along a run exactly when no unlink call of the run finds
another entry for the last edge of the graph. -/
theorem linkTable_sound_iff (E : Executor T) (parameters : T.NetworkParameters)
    (calls : List (Call T)) :
    Always (Step E) LinkTableSound (new parameters) calls ↔
      Along (Step E) (fun s call _ => LastEdgeUnnamed s call) (new parameters) calls :=
  always_iff_along linkTableSound_step (linkTableSound_new parameters)

/-- Three interfaces are created, 0 is linked to 1 and 1 to 2, and 0 is unlinked from 1. -/
def pathCalls : List (Call loopback) :=
  List.replicate 3 (.createInterface ⟨[127, 0, 0, 1], 0⟩ "" none) ++
    [.linkInterfaces 0 1, .linkInterfaces 1 2, .unlinkInterfaces 0 1]

theorem linkTable_stale :
    ¬ Always (Step (.loading loopback)) LinkTableSound (new ⟨[]⟩) pathCalls := by
  intro h
  obtain ⟨s, hs, hmem, herr⟩ : ∃ s, Run (Step (.loading loopback)) (new ⟨[]⟩) pathCalls s ∧
      (1, 2) ∈ s.edges ∧ (s.unlinkInterfaces 1 2).1 = .error .linkDoesntExist :=
    ⟨_, Run.foldlM_iff.mpr rfl, by decide, rfl⟩
  obtain ⟨_, _, _, _, _, _, hok, _⟩ := (h pathCalls s List.prefix_rfl hs).unlink 1 2 hmem
  rw [herr] at hok
  cases hok

end Table

section Pairs

/-- Some edge of the graph joins the two interfaces. -/
def Linked (s : Overseer T) (a b : T.InterfaceId) : Prop :=
  ∃ n m, s.index? a = some n ∧ s.index? b = some m ∧ s.links.Adj n m

/-- What a set of unordered pairs promises of one call: a successful unlink leaves the pair
unlinked, and after a successful link the pair can be unlinked in either order. -/
def ActsOnPair (E : Executor T) (s : Overseer T) (call : Call T) (s' : Overseer T) : Prop :=
  s.handle E call = some (.ok (), s') →
    (∀ a b, call = .unlinkInterfaces a b → ¬ s'.Linked a b) ∧
    ∀ a b, call = .linkInterfaces a b →
      (s'.unlinkInterfaces a b).1 = .ok () ∧ (s'.unlinkInterfaces b a).1 = .ok ()

/-- A pair is linked only with itself or when the reversed pair has an entry in range, and it is
unlinked only when the entry names the single edge of the pair. -/
def PairUnambiguous (s : Overseer T) (call : Call T) : Prop :=
  (∀ a b, call = .linkInterfaces a b → a ∈ s.interfaces → b ∈ s.interfaces →
    a = b ∨ ∃ e ≤ s.links.edges.length, s.edges.get? (b, a) = some e) ∧
  ∀ a b e, call = .unlinkInterfaces a b → s.edges.get? (a, b) = some e →
    e < s.links.edges.length → ∀ n m e', s.index? a = some n → s.index? b = some m →
      s.links.Joins e' n m → e' = e

theorem linkInterfaces_result {r : Except Error Unit} (h : s.linkInterfaces a b = some (r, s')) :
    r = .ok () ↔ a ∈ s.interfaces ∧ b ∈ s.interfaces := by
  unfold linkInterfaces at h
  split at h
  · rename_i ha hb
    obtain ⟨_, _, h⟩ := Option.map_eq_some_iff.mp h
    cases h
    exact iff_of_true rfl ⟨Dict.mem_of_get? ha, Dict.mem_of_get? hb⟩
  · rename_i hnone
    cases h
    apply iff_of_false (by simp)
    rintro ⟨ha, hb⟩
    obtain ⟨ia, ha⟩ := Dict.mem_iff.mp ha
    obtain ⟨ib, hb⟩ := Dict.mem_iff.mp hb
    exact hnone ia ib ha hb

theorem linked_iff {n m : ℕ} (ha : s.index? a = some n) (hb : s.index? b = some m) :
    s.Linked a b ↔ s.links.Adj n m := by
  simp [Linked, ha, hb]

theorem unlink_reversed_iff {n m : ℕ} (hl : s'.links.edges = s.links.edges ++ [(n, m)])
    (hk : s'.edges = s.edges.insert (a, b) s.links.edges.length) :
    (s'.unlinkInterfaces b a).1 = .ok () ↔
      a = b ∨ ∃ e ≤ s.links.edges.length, s.edges.get? (b, a) = some e := by
  rw [unlinkInterfaces_ok_iff, hl, hk, List.length_append, List.length_singleton]
  by_cases hab : a = b
  · subst hab
    simp [Dict.get?_insert_self]
  · have hne : (b, a) ≠ (a, b) := by
      rintro ⟨⟩
      exact hab rfl
    simp only [Dict.get?_insert_ne _ hne, hab, false_or, Nat.lt_succ_iff]
    exact exists_congr fun e => and_comm

/-- After an unlink the pair is unlinked exactly when the removed edge was its only one. -/
theorem not_linked_iff {e n m : ℕ} (hlt : e < s.links.edges.length)
    (hl : s'.links.edges = swapRemove s.links.edges e) (ha : s'.index? a = some n)
    (hb : s'.index? b = some m) :
    ¬ s'.Linked a b ↔ ∀ e', s.links.Joins e' n m → e' = e := by
  rw [linked_iff ha hb, Multigraph.Adj, hl, mem_swapRemove_iff hlt, mem_swapRemove_iff hlt]
  simp only [Multigraph.Joins]
  constructor
  · intro h e' hj
    by_contra hne
    exact h (hj.imp (fun hj => ⟨e', hne, hj⟩) fun hj => ⟨e', hne, hj⟩)
  · rintro h (⟨e', hne, hj⟩ | ⟨e', hne, hj⟩)
    · exact hne (h e' (Or.inl hj))
    · exact hne (h e' (Or.inr hj))

theorem WellFormed.index_of_entry (h : WellFormed s) {e : ℕ}
    (he : s.edges.get? (a, b) = some e) : ∃ n m, s.index? a = some n ∧ s.index? b = some m := by
  obtain ⟨ha, hb⟩ := h.entries a b e he
  obtain ⟨n, hn⟩ := Option.isSome_iff_exists.mp (index?_isSome_iff.mpr ha)
  obtain ⟨m, hm⟩ := Option.isSome_iff_exists.mp (index?_isSome_iff.mpr hb)
  exact ⟨n, m, hn, hm⟩

theorem actsOnPair_of_frame {call : Call T}
    (hu : ∀ a b, call = .unlinkInterfaces a b → s.edges.get? (a, b) = none)
    (hl : ∀ a b, call = .linkInterfaces a b → ¬ (a ∈ s.interfaces ∧ b ∈ s.interfaces)) :
    ActsOnPair E s call s' ↔ PairUnambiguous s call := by
  refine iff_of_true (fun hok => ⟨?_, ?_⟩) ⟨?_, ?_⟩
  · rintro a b rfl
    have hfst : (s.unlinkInterfaces a b).1 = .ok () := congrArg Prod.fst (Option.some.inj hok)
    obtain ⟨e, he, -⟩ := unlinkInterfaces_ok_iff.mp hfst
    rw [hu a b rfl] at he
    cases he
  · rintro a b rfl
    exact absurd ((linkInterfaces_result hok).mp rfl) (hl a b rfl)
  · intro a b hcall ha hb
    exact absurd ⟨ha, hb⟩ (hl a b hcall)
  · intro a b e hcall he
    rw [hu a b hcall] at he
    cases he

/-- In a well-formed state one call treats the pair as the set does exactly when the pair is
unambiguous. -/
theorem actsOnPair_step (s : Overseer T) (call : Call T) (s' : Overseer T)
    (hs : Step E s call s') (h : WellFormed s) :
    ActsOnPair E s call s' ↔ PairUnambiguous s call := by
  obtain ⟨⟨r, t⟩, hr, ht⟩ := Option.map_eq_some_iff.mp hs
  obtain rfl : t = s' := ht
  cases hs.change with
  | frame _ hu hl => exact actsOnPair_of_frame hu hl
  | addNode | addInterface => exact actsOnPair_of_frame (by simp) (by simp)
  | @link a b n m _ ha hb hn hl hk hi =>
    have hmem : a ∈ s.interfaces ∧ b ∈ s.interfaces :=
      ⟨index?_isSome_iff.mp (by simp [ha]), index?_isSome_iff.mp (by simp [hb])⟩
    obtain rfl := (linkInterfaces_result hr).mpr hmem
    have hself : (t.unlinkInterfaces a b).1 = .ok () := by
      refine unlinkInterfaces_ok_iff.mpr ⟨s.links.edges.length, ?_, ?_⟩
      · rw [hk, Dict.get?_insert_self]
      · rw [hl, List.length_append]
        exact Nat.lt_succ_self _
    constructor
    · intro hacts
      have hrev := ((hacts hr).2 a b rfl).2
      refine ⟨?_, by simp⟩
      rintro _ _ ⟨⟩ - -
      exact (unlink_reversed_iff hl hk).mp hrev
    · rintro ⟨hpair, -⟩ -
      refine ⟨by simp, ?_⟩
      rintro _ _ ⟨⟩
      exact ⟨hself, (unlink_reversed_iff hl hk).mpr (hpair a b rfl hmem.1 hmem.2)⟩
  | @unlink a b e _ he hlt hn hl hk hi =>
    obtain ⟨n, m, ha, hb⟩ := h.index_of_entry he
    have hnot := not_linked_iff hlt hl ((hi a).trans ha) ((hi b).trans hb)
    have hok : r = .ok () := by
      rw [← unlinkInterfaces_ok_iff.mpr ⟨e, he, hlt⟩]
      exact (congrArg Prod.fst (Option.some.inj hr)).symm
    subst hok
    constructor
    · intro hacts
      refine ⟨by simp, ?_⟩
      rintro _ _ e₁ ⟨⟩ he₁ - n₁ m₁ e' hn₁ hm₁
      rw [he] at he₁
      rw [ha] at hn₁
      rw [hb] at hm₁
      cases he₁
      cases hn₁
      cases hm₁
      exact hnot.mp ((hacts hr).1 a b rfl) e'
    · rintro ⟨-, hpair⟩ -
      refine ⟨?_, by simp⟩
      rintro _ _ ⟨⟩
      exact hnot.mpr fun e' => hpair a b e rfl he hlt n m e' ha hb
  | @unlinkStale a b e _ he hge =>
    refine iff_of_true (fun hok => ⟨?_, by simp⟩) ⟨by simp, ?_⟩
    · rintro _ _ ⟨⟩
      have hfst : (s.unlinkInterfaces a b).1 = .ok () := congrArg Prod.fst (Option.some.inj hok)
      obtain ⟨e', he', hlt⟩ := unlinkInterfaces_ok_iff.mp hfst
      rw [he] at he'
      cases he'
      omega
    · rintro _ _ e' ⟨⟩ he' hlt
      rw [he] at he'
      cases he'
      omega

/-- Along a run the link table acts as a set of unordered pairs exactly when every link and
unlink call of the run is unambiguous. -/
theorem links_set_iff (E : Executor T) (parameters : T.NetworkParameters)
    (calls : List (Call T)) :
    Along (Step E) (ActsOnPair E) (new parameters) calls ↔
      Along (Step E) (fun s call _ => PairUnambiguous s call) (new parameters) calls :=
  along_congr wellFormed_step (wellFormed_new parameters) actsOnPair_step

/-- Two interfaces are created, linked twice and unlinked once. -/
def parallelCalls : List (Call loopback) :=
  List.replicate 2 (.createInterface ⟨[127, 0, 0, 1], 0⟩ "" none) ++
    [.linkInterfaces 0 1, .linkInterfaces 0 1, .unlinkInterfaces 0 1]

theorem links_not_set :
    ¬ Along (Step (.loading loopback)) (ActsOnPair (.loading loopback)) (new ⟨[]⟩)
      parallelCalls := by
  intro h
  obtain ⟨s, s', hs, hok, hlinked⟩ : ∃ s s',
      Run (Step (.loading loopback)) (new ⟨[]⟩) parallelCalls.dropLast s ∧
      s.handle (.loading loopback) (.unlinkInterfaces 0 1) = some (.ok (), s') ∧
      s'.Linked 0 1 :=
    ⟨_, _, Run.foldlM_iff.mpr rfl, rfl, 0, 1, rfl, rfl, by decide⟩
  have hstep : Step (.loading loopback) s (.unlinkInterfaces 0 1) s' := by
    rw [Step, hok]
    rfl
  exact (h _ _ s s' List.prefix_rfl hs hstep hok).1 0 1 rfl hlinked

end Pairs

end SwarmHost.Overseer
