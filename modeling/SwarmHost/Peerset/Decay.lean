import SwarmHost.Peerset.Reputation

/-! # Decay of reputations

Every whole second since the creation moves a reputation towards zero, and the seconds
that passed are made up for whenever the peerset looks at the clock. How often it does
so makes no difference, and connections and slots are left alone.
-/

namespace SwarmHost.Substrate

namespace PeersState

variable {d d' d'' : PeersState} {set set' : SetId} {p q : PeerId} {m : MembershipState}

def SameConnections (d d' : PeersState) : Prop :=
  ∀ set p m, m.isConnected → (d'.membership set p = m ↔ d.membership set p = m)

theorem SameConnections.refl (d : PeersState) : SameConnections d d := fun _ _ _ _ => Iff.rfl

theorem SameConnections.trans (h : SameConnections d d') (h' : SameConnections d' d'') :
    SameConnections d d'' :=
  fun set p m hm => (h' set p m hm).trans (h set p m hm)

theorem SameConnections.of_membership
    (h : ∀ set p, d'.membership set p = d.membership set p) : SameConnections d d' := by
  intro set p m _
  rw [h]

/-- A loop of steps that leave the connections alone leaves them alone. -/
theorem sameConnections_foldl {α : Type*} {f : PeersState → α → PeersState}
    (hf : ∀ d a, SameConnections d (f d a)) (l : List α) (d : PeersState) :
    SameConnections d (l.foldl f d) := by
  induction l generalizing d with
  | nil => exact .refl d
  | cons a l ih => exact (hf d a).trans (ih _)

theorem membership_setState (h : d.membership set p ≠ .notMember) (set' : SetId) (q : PeerId) :
    (d.setState set p m).membership set' q =
      if set' = set ∧ q = p then m else d.membership set' q := by
  obtain ⟨node, hnode⟩ := Dict.mem_iff.mp (mem_nodes_of_membership h)
  have hlt : set < node.sets.length := by
    by_contra hlen
    apply h
    rw [membership_of_get? hnode, Node.state]
    simp [List.getElem?_eq_none (not_lt.mp hlen)]
  rw [setState, Dict.modify_of_get? hnode, membership_insert, Node.state_setState hlt]
  by_cases hq : q = p
  · subst hq
    simp only [and_true, if_true, membership_of_get? hnode]
  · simp [hq]

theorem sameConnections_forgetPeer {last : Instant} (h : d.membership set p = .notConnected last) :
    SameConnections d (d.forgetPeer set p) := by
  intro set' q m hm
  rw [forgetPeer, membership_cleanUp, membership_setState (by rw [h]; simp)]
  split
  · next heq =>
    obtain ⟨rfl, rfl⟩ := heq
    rw [h]
    constructor
    · rintro rfl
      cases hm
    · rintro rfl
      cases hm
  · rfl

end PeersState

namespace Peerset

open PeersState

section Tick

variable {r r' r'' : ℤ}

/-- The value fits into a 32-bit integer. -/
def IsI32 (r : ℤ) : Prop := i32Min ≤ r ∧ r ≤ i32Max

def tickDiff (reput : ℤ) : ℤ :=
  let diff := reput.tdiv 50
  if diff = 0 ∧ reput < 0 then -1
  else if diff = 0 ∧ 0 < reput then 1
  else diff

/-- The second value lies between the first and zero. -/
structure TowardsZero (r r' : ℤ) : Prop where
  pos : 0 ≤ r → 0 ≤ r' ∧ r' ≤ r
  neg : r ≤ 0 → r ≤ r' ∧ r' ≤ 0

theorem TowardsZero.refl (r : ℤ) : TowardsZero r r := ⟨fun h => ⟨h, le_rfl⟩, fun h => ⟨le_rfl, h⟩⟩

theorem TowardsZero.trans (h : TowardsZero r r') (h' : TowardsZero r' r'') :
    TowardsZero r r'' := by
  constructor
  · intro hr
    obtain ⟨hr', hle⟩ := h.pos hr
    obtain ⟨hr'', hle'⟩ := h'.pos hr'
    exact ⟨hr'', hle'.trans hle⟩
  · intro hr
    obtain ⟨hle, hr'⟩ := h.neg hr
    obtain ⟨hle', hr''⟩ := h'.neg hr'
    exact ⟨hle.trans hle', hr''⟩

theorem reputTick_eq_saturatingAdd (r : ℤ) : reputTick r = saturatingAdd r (-tickDiff r) := by
  simp only [reputTick, tickDiff]
  split
  · rfl
  · split <;> rfl

theorem tickDiff_pos (h : 0 < r) : 0 < tickDiff r ∧ tickDiff r ≤ r := by
  have hnonneg : 0 ≤ r.tdiv 50 := Int.tdiv_nonneg h.le (by decide)
  have hle : r.tdiv 50 ≤ r := Int.tdiv_le_self 50 h.le
  simp only [tickDiff]
  omega

theorem tickDiff_neg_eq (r : ℤ) : tickDiff (-r) = -tickDiff r := by
  simp only [tickDiff, Int.neg_tdiv]
  omega

theorem tickDiff_neg (h : r < 0) : r ≤ tickDiff r ∧ tickDiff r < 0 := by
  have hpos := tickDiff_pos (Int.neg_pos_of_neg h)
  rw [tickDiff_neg_eq] at hpos
  omega

theorem tickDiff_zero : tickDiff 0 = 0 := by decide

/-- The subtraction stays in range, so that it is not cut off. -/
theorem isI32_tick (h : IsI32 r) :
    IsI32 (tickDiff r) ∧ IsI32 (r - tickDiff r) ∧ reputTick r = r - tickDiff r := by
  have hbounds : i32Min < 0 ∧ 0 < i32Max := by decide
  obtain ⟨hlow, hhigh⟩ := h
  rw [reputTick_eq_saturatingAdd]
  simp only [IsI32, saturatingAdd]
  rcases lt_trichotomy r 0 with hr | rfl | hr
  · have hdiff := tickDiff_neg hr
    omega
  · rw [tickDiff_zero]
    omega
  · have hdiff := tickDiff_pos hr
    omega

theorem isI32_reputTick (h : IsI32 r) : IsI32 (reputTick r) := by
  obtain ⟨-, hrange, heq⟩ := isI32_tick h
  rwa [heq]

theorem reputTick_bounds (r : ℤ) : (0 ≤ r → 0 ≤ reputTick r ∧ (reputTick r < r ∨ r = 0)) ∧
    (r ≤ 0 → (r < reputTick r ∨ r = 0) ∧ reputTick r ≤ 0) := by
  have hbounds : i32Min < 0 ∧ 0 < i32Max := by decide
  rw [reputTick_eq_saturatingAdd]
  simp only [saturatingAdd]
  rcases lt_trichotomy r 0 with hr | rfl | hr
  · have hdiff := tickDiff_neg hr
    omega
  · rw [tickDiff_zero]
    omega
  · have hdiff := tickDiff_pos hr
    omega

theorem towardsZero_reputTick (r : ℤ) : TowardsZero r (reputTick r) := by
  obtain ⟨hpos, hneg⟩ := reputTick_bounds r
  constructor <;> omega

/-- A second brings a reputation nearer to zero, also where the division gives nothing. -/
theorem natAbs_reputTick (r : ℤ) : (reputTick r).natAbs ≤ r.natAbs - 1 := by
  obtain ⟨hpos, hneg⟩ := reputTick_bounds r
  omega

theorem isI32_iterate (h : IsI32 r) (n : ℕ) : IsI32 (reputTick^[n] r) := by
  induction n with
  | zero => exact h
  | succ n ih =>
    rw [Function.iterate_succ_apply']
    exact isI32_reputTick ih

theorem towardsZero_iterate (r : ℤ) (n : ℕ) : TowardsZero r (reputTick^[n] r) := by
  induction n with
  | zero => exact .refl r
  | succ n ih =>
    rw [Function.iterate_succ_apply']
    exact ih.trans (towardsZero_reputTick _)

theorem natAbs_iterate (r : ℤ) (n : ℕ) : (reputTick^[n] r).natAbs ≤ r.natAbs - n := by
  induction n with
  | zero => exact le_rfl
  | succ n ih =>
    rw [Function.iterate_succ_apply']
    have hstep := natAbs_reputTick (reputTick^[n] r)
    omega

/-- Only a reputation of zero is not changed by a second. -/
theorem iterate_reputTick_eq_iff {r : ℤ} {n : ℕ} : reputTick^[n] r = r ↔ n = 0 ∨ r = 0 := by
  constructor
  · intro h
    have habs := natAbs_iterate r n
    rw [h] at habs
    omega
  · rintro (rfl | rfl)
    · rfl
    · exact Function.iterate_fixed reputTick_zero n

/-- A second leaves of a negative reputation about 49 parts in 50. -/
theorem tick_bound (h : IsI32 r) : 49 * (r + 49) ≤ 50 * (reputTick r + 49) := by
  obtain ⟨-, -, heq⟩ := isI32_tick h
  have hdiv := Int.tmod_add_mul_tdiv r 50
  have hmod := Int.tmod_lt_of_pos r (by decide : (0 : ℤ) < 50)
  have hmod' := Int.lt_tmod_of_pos r (by decide : (0 : ℤ) < 50)
  rw [heq]
  simp only [tickDiff]
  omega

theorem iterate_bound (h : IsI32 r) (n : ℕ) :
    49 ^ n * (r + 49) ≤ 50 ^ n * (reputTick^[n] r + 49) := by
  induction n with
  | zero => simp
  | succ n ih =>
    have hstep := tick_bound (isI32_iterate h n)
    calc 49 ^ (n + 1) * (r + 49)
        = 49 * (49 ^ n * (r + 49)) := by rw [pow_succ', Int.mul_assoc]
      _ ≤ 49 * (50 ^ n * (reputTick^[n] r + 49)) := Int.mul_le_mul_of_nonneg_left ih (by decide)
      _ = 50 ^ n * (49 * (reputTick^[n] r + 49)) := Int.mul_left_comm _ _ _
      _ ≤ 50 ^ n * (50 * (reputTick^[n + 1] r + 49)) := by
          rw [Function.iterate_succ_apply']
          exact Int.mul_le_mul_of_nonneg_left hstep (Int.le_of_lt (Int.pow_pos (by decide)))
      _ = 50 ^ (n + 1) * (reputTick^[n + 1] r + 49) := by rw [pow_succ, Int.mul_assoc]

theorem bannedThreshold_le_iterate (h : IsI32 r) {n : ℕ} (hn : 10 ≤ n) :
    bannedThreshold ≤ reputTick^[n] r := by
  have hten : bannedThreshold ≤ reputTick^[10] r := by
    have hbound := iterate_bound h 10
    have hlow : -2147483648 ≤ r := h.1
    rw [show bannedThreshold = -1760936552 by decide]
    omega
  obtain ⟨m, rfl⟩ := Nat.exists_eq_add_of_le' hn
  rw [Function.iterate_add_apply]
  exact le_reputTick_iterate hten m

end Tick

section Time

variable {s : Peerset} {t t' : Instant}

/-- The whole seconds between two instants, counted from the creation. -/
def elapsed (created t t' : Instant) : ℕ :=
  (t' - created) / secondsToNanos - (t - created) / secondsToNanos

theorem elapsed_self (created t : Instant) : elapsed created t t = 0 := Nat.sub_self _

/-- Looking at the clock in between loses no second and counts none twice. -/
theorem elapsed_add {created t t' t'' : Instant} (h : t ≤ t') (h' : t' ≤ t'') :
    elapsed created t' t'' + elapsed created t t' = elapsed created t t'' := by
  have hmono : ∀ {a b : Instant}, a ≤ b →
      (a - created) / secondsToNanos ≤ (b - created) / secondsToNanos :=
    fun hab => Nat.div_le_div_right (Nat.sub_le_sub_right hab _)
  exact Nat.sub_add_sub_cancel (hmono h') (hmono h)

theorem secsDiff_updateTime (h : s.latestTimeUpdate ≤ t) (h' : t ≤ t') :
    (s.updateTime t).secsDiff t' + s.secsDiff t = s.secsDiff t' :=
  elapsed_add h h'

theorem exists_le_secsDiff (s : Peerset) (n : ℕ) :
    ∃ k, ∀ t, s.latestTimeUpdate + k * secondsToNanos ≤ t → n ≤ s.secsDiff t := by
  refine ⟨n + s.created, fun t ht => ?_⟩
  have hcreated : s.created ≤ s.created * secondsToNanos := Nat.le_mul_of_pos_right _ (by decide)
  have hlater : (s.latestTimeUpdate - s.created) + n * secondsToNanos ≤ t - s.created := by
    apply Nat.le_sub_of_add_le
    calc s.latestTimeUpdate - s.created + n * secondsToNanos + s.created
        ≤ s.latestTimeUpdate + n * secondsToNanos + s.created * secondsToNanos :=
          Nat.add_le_add (Nat.add_le_add_right (Nat.sub_le _ _) _) hcreated
      _ = s.latestTimeUpdate + (n + s.created) * secondsToNanos := by
          rw [Nat.add_mul, Nat.add_assoc]
      _ ≤ t := ht
  have hdiv := Nat.div_le_div_right (c := secondsToNanos) hlater
  rw [Nat.add_mul_div_right _ _ (by decide)] at hdiv
  simp only [secsDiff]
  omega

theorem sameConnections_fade (now : Instant) (d : PeersState) (p : PeerId) :
    SameConnections d (fade now d p) := by
  have hrep := SameConnections.of_membership
    (membership_peerReputation d p fun _ => reputTick (d.reputation p))
  unfold fade
  dsimp only
  split
  · exact hrep
  · refine hrep.trans (sameConnections_foldl ?_ _ _)
    intro e set
    split
    · next last hm =>
      split
      · exact sameConnections_forgetPeer hm
      · exact .refl e
    · exact .refl e

theorem sameConnections_updateTime (s : Peerset) (now : Instant) :
    SameConnections s.data (s.updateTime now).data := by
  simp only [updateTime]
  induction s.secsDiff now with
  | zero => exact .refl _
  | succ n ih =>
    rw [Function.iterate_succ_apply']
    exact ih.trans (sameConnections_foldl (sameConnections_fade now) _ _)

end Time

/-- Two updates come to the same reputations as the last one alone. A reputation neither changes
its sign nor moves away from zero, no subtraction is cut off, every reputation gets to zero after
some seconds, and the connections and slots stay as they are. -/
theorem updateTime_decays (s : Peerset) (hs : ∀ p, IsI32 (s.data.reputation p)) {t t' : Instant}
    (h : s.latestTimeUpdate ≤ t) (h' : t ≤ t') :
    (∀ p, ((s.updateTime t).updateTime t').data.reputation p =
      (s.updateTime t').data.reputation p) ∧
    (∀ p, TowardsZero (s.data.reputation p) ((s.updateTime t').data.reputation p)) ∧
    (∀ p n, IsI32 (tickDiff (reputTick^[n] (s.data.reputation p))) ∧
      IsI32 (reputTick^[n] (s.data.reputation p) - tickDiff (reputTick^[n] (s.data.reputation p))) ∧
      reputTick^[n + 1] (s.data.reputation p) =
        reputTick^[n] (s.data.reputation p) - tickDiff (reputTick^[n] (s.data.reputation p))) ∧
    (∀ p, ∃ n, ∀ now, s.latestTimeUpdate + n * secondsToNanos ≤ now →
      (s.updateTime now).data.reputation p = 0) ∧
    SameConnections s.data (s.updateTime t').data ∧
    (s.updateTime t').data.sets = s.data.sets := by
  refine ⟨?_, ?_, ?_, ?_, sameConnections_updateTime s t', sets_updateTime s t'⟩
  · intro p
    rw [reputation_updateTime, reputation_updateTime, reputation_updateTime,
      ← Function.iterate_add_apply, secsDiff_updateTime h h']
  · intro p
    rw [reputation_updateTime]
    exact towardsZero_iterate _ _
  · intro p n
    rw [Function.iterate_succ_apply']
    exact isI32_tick (isI32_iterate (hs p) n)
  · intro p
    obtain ⟨k, hk⟩ := exists_le_secsDiff s (s.data.reputation p).natAbs
    refine ⟨k, fun now hnow => ?_⟩
    have habs := natAbs_iterate (s.data.reputation p) (s.secsDiff now)
    have hle := hk now hnow
    rw [reputation_updateTime]
    omega

/-- A connected peer with the lowest reputation there is. -/
def disgraced : Peerset :=
  ⟨⟨(∅ : Dict PeerId Node).insert [7] ⟨[.ingoing], i32Min⟩, [⟨1, 0, 1, 1, ∅⟩]⟩, [(∅, false)], [],
    [], 0, 0, []⟩

theorem isI32_disgraced (p : PeerId) : IsI32 (disgraced.data.reputation p) := by
  simp only [disgraced, PeersState.reputation, Dict.get?_insert]
  split
  · exact ⟨le_rfl, by decide⟩
  · exact (by decide : i32Min ≤ 0 ∧ 0 ≤ i32Max)

theorem updateTime_decays_disgraced :
    ((disgraced.updateTime 1500000000).updateTime 2000000000).data.reputation [7] =
      (disgraced.updateTime 2000000000).data.reputation [7] ∧
    (disgraced.updateTime 2000000000).data.reputation [7] = -2062443297 := by
  have h : disgraced.latestTimeUpdate ≤ 1500000000 := Nat.zero_le _
  exact ⟨(updateTime_decays disgraced isI32_disgraced h (by decide)).1 [7], by decide +kernel⟩

/-- Ten seconds after it last looked at the clock the peerset holds no peer to be banned, whatever
was reported of it; nine seconds may not be enough. -/
theorem ban_expires {s : Peerset} {now : Instant} (hs : ∀ p, IsI32 (s.data.reputation p))
    (hcreated : s.created ≤ s.latestTimeUpdate)
    (hnow : s.latestTimeUpdate + 10 * secondsToNanos ≤ now) :
    (∀ p, bannedThreshold ≤ (s.updateTime now).data.reputation p) ∧
      reputTick^[9] i32Min < bannedThreshold := by
  have hsecs : 10 ≤ s.secsDiff now := by
    have hsub : s.latestTimeUpdate - s.created + 10 * secondsToNanos ≤ now - s.created :=
      (Nat.sub_add_comm hcreated).symm.trans_le (Nat.sub_le_sub_right hnow _)
    have hdiv := Nat.div_le_div_right (c := secondsToNanos) hsub
    rw [Nat.add_mul_div_right _ _ (by decide)] at hdiv
    exact Nat.le_sub_of_add_le' hdiv
  refine ⟨fun p => ?_, by decide +kernel⟩
  rw [reputation_updateTime]
  exact bannedThreshold_le_iterate (hs p) hsecs

theorem ban_expires_disgraced :
    bannedThreshold ≤ (disgraced.updateTime 10000000000).data.reputation [7] := by
  exact (ban_expires isI32_disgraced le_rfl (by decide)).1 [7]

end Peerset

end SwarmHost.Substrate
