import SharedLedger.Proofs.Balances
import SharedLedger.Proofs.Memberships
import SharedLedger.Proofs.UserView

/-!
# The balances of a user

A user who looks up all balances gets them, as long as the shares of the user's
groups can be added up without rounding, and they are right
(`System.myBalances_exact`). Every sum in the view is one over the debts in the
tables (`Tables.debts`), in which each share occurs once at most: by group and
other user, by other user, and as a whole.
-/

namespace SharedLedger

namespace Tables

open Balance

variable {t : Tables} {u g : ℤ} {k : ℕ}

/-- The sum of all debts whose creditor and debtor pass a test. -/
def owedOverall (t : Tables) (p : Int × Int → Bool) : ℚ :=
  ((t.debts.filter fun d => p d.1.2).map fun d => d.2.value).sum

/-- **The right view of a user**: what the user is owed less what the user owes,
in each group with each other user, with each other user over all groups, and
over everything. -/
structure RightView (t : Tables) (userId : Int) (v : UserBalances) : Prop where
  linked : ∀ p ∈ v.byGroup, ∃ m ∈ t.membersOf p.groupId, m.userId = some userId
  byGroup : ∀ p ∈ v.byGroup, p.net.value =
    t.owedBetween p.groupId (fun k => k = (userId, p.otherId))
      - t.owedBetween p.groupId fun k => k = (p.otherId, userId)
  byUser : ∀ o, v.netWith o =
    t.owedOverall (fun k => k = (userId, o)) - t.owedOverall fun k => k = (o, userId)
  net : v.net.value = t.owedOverall (fun k => k.1 = userId) - t.owedOverall fun k => k.2 = userId

/-! ## Sums over all debts -/

/-- Debts that pass a test, as a weighted sum. -/
theorem weigh_debts (t : Tables) (p : Int × Int → Bool) :
    weigh t.debts (fun j => if p j.2 then 1 else 0) = t.owedOverall p :=
  weigh_ite_eq_sum t.debts fun j => p j.2

theorem owedBetween_eq_weigh (t : Tables) (g : Int) (p : Int × Int → Bool) :
    t.owedBetween g p = weigh t.debts fun j => if j.1 = g then if p j.2 then 1 else 0 else 0 := by
  rw [← weigh_owedRows, weigh_owedRows_eq]
  induction t.debts with
  | nil => rfl
  | cons d ds ih => by_cases hg : d.1.1 = g <;> simp [hg, ih]

/-- What is open between two users in a group, as it weighs for one of them. -/
theorem weigh_facing_only (t : Tables) (u g o : Int) :
    weigh t.debts (facing u (only (g, o))) =
      t.owedBetween g (fun k => k = (u, o)) - t.owedBetween g fun k => k = (o, u) := by
  rw [owedBetween_eq_weigh, owedBetween_eq_weigh, ← weigh_sub]
  refine weigh_congr fun d _ => ?_
  obtain ⟨⟨g', c, d'⟩, -⟩ := d
  by_cases hg : g' = g <;> by_cases hc : c = u <;> by_cases hd : d' = u <;>
    simp [facing, only, hg, hc, hd]

theorem weigh_facing_user (t : Tables) (u o : Int) :
    weigh t.debts (facing u fun j => only o j.2) =
      t.owedOverall (fun k => k = (u, o)) - t.owedOverall fun k => k = (o, u) := by
  rw [← weigh_debts, ← weigh_debts, ← weigh_sub]
  refine weigh_congr fun d _ => ?_
  obtain ⟨⟨g', c, d'⟩, -⟩ := d
  by_cases hc : c = u <;> by_cases hd : d' = u <;> simp [facing, only, hc, hd]

theorem weigh_facing_one (t : Tables) (u : Int) :
    weigh t.debts (facing u fun _ => 1) =
      t.owedOverall (fun k => k.1 = u) - t.owedOverall fun k => k.2 = u := by
  rw [← weigh_debts, ← weigh_debts, ← weigh_sub]
  refine weigh_congr fun d _ => ?_
  simp [facing]

/-! ## The pairs of a user's groups -/

/-- Pairs are those of a group, and can be added up exactly. -/
structure PairsOf (t : Tables) (k : ℕ) (groupId : Int) (ps : List Owed) : Prop where
  pairs_eq : Balance.pairs (t.owedRows groupId) = .ok ps
  weigh_eq : ∀ f, weigh (ps.map Owed.keyed) f = weigh ((t.owedRows groupId).map Owed.keyed) f
  range : ExactRange k (ps.map Owed.keyed)
  distinct : ∀ p ∈ ps, p.creditor ≠ p.debtor

/-- The groups of a user, each with its pairs. -/
def groupsWith (t : Tables) (userId : Int) (ps : Int → List Owed) : List (Int × List Owed) :=
  (t.membershipsOf userId).map fun m => (m.groupId, ps m.groupId)

namespace Consistent

variable {ps : ℤ → List Owed}

theorem exists_pairsOf (h : t.Consistent) (hr : t.ExactShares g k) : ∃ ps, t.PairsOf k g ps := by
  obtain ⟨pairs, hpairs, hw, hc⟩ := Balance.pairs_exact (h.exactRange_owedRows hr).signed
  refine ⟨listed pairs, hpairs, fun f => ?_, ?_, (rightPairs_listed h hw hc).distinct⟩
  · rw [keyed_listed, hw]
  · rw [keyed_listed]
    exact Tally.exactRange_of_weigh (h.exactRange_owedRows hr) hw

/-- Group by group no more is owed than there are shares. -/
theorem weigh_pairsOf_le (h : t.Consistent) {ms : List Member}
    (hms : ∀ m ∈ ms, t.PairsOf k m.groupId (ps m.groupId)) :
    weigh (ms.flatMap fun m => (ps m.groupId).map Owed.keyed) (fun _ => 1) ≤
      ((ms.flatMap fun m => t.splitsOf m.groupId).map fun x => x.2.amount.value).sum := by
  induction ms with
  | nil => exact le_rfl
  | cons m ms ih =>
    obtain ⟨hm, hms⟩ := List.forall_mem_cons.1 hms
    rw [List.flatMap_cons, List.flatMap_cons, weigh_append, List.map_append, List.sum_append,
      hm.weigh_eq]
    exact add_le_add (h.weigh_owedRows_le m.groupId) (ih hms)

/-- All pairs of a user's groups can be added up exactly. -/
theorem exactRange_groupsWith (h : t.Consistent) (hu : t.ExactUser u k)
    (hps : ∀ m ∈ t.membershipsOf u, t.PairsOf k m.groupId (ps m.groupId)) :
    ExactRange k ((t.groupsWith u ps).flatMap fun x => x.2.map Owed.keyed) := by
  have hmem : ∀ a ∈ (t.membershipsOf u).flatMap fun m => (ps m.groupId).map Owed.keyed,
      OnGrid k a.2.value ∧ 0 ≤ a.2.value := by
    intro a ha
    obtain ⟨m, hm, ha⟩ := List.mem_flatMap.1 ha
    exact ⟨(hps m hm).range.grid a ha, (hps m hm).range.nonneg a ha⟩
  rw [groupsWith, List.flatMap_map]
  refine ⟨fun a ha => (hmem a ha).1, fun a ha => (hmem a ha).2, ?_⟩
  have htotal := hu.total
  rw [List.map_map] at htotal
  unfold InRange
  rw [abs_of_nonneg (weigh_nonneg (fun a ha => (hmem a ha).2) fun _ _ => zero_le_one)]
  exact lt_of_le_of_lt (mul_le_mul_of_nonneg_right (h.weigh_pairsOf_le hps) (by positivity)) htotal

/-- **What is counted for a user is all the debts that concern the user.** -/
theorem weigh_postings_groupsWith (h : t.Consistent)
    (hps : ∀ m ∈ t.membershipsOf u, t.PairsOf k m.groupId (ps m.groupId)) (f : ℤ × ℤ → ℚ) :
    weigh (postings u (t.groupsWith u ps)) f = weigh t.debts (facing u f) := by
  have hdistinct : ∀ x ∈ t.groupsWith u ps, ∀ p ∈ x.2, p.creditor ≠ p.debtor := by
    intro x hx
    obtain ⟨m, hm, rfl⟩ := List.mem_map.1 hx
    exact (hps m hm).distinct
  have hgroup : ∀ m ∈ t.membershipsOf u,
      (weigh ((ps m.groupId).map Owed.keyed) fun j => facing u f (m.groupId, j)) =
        weigh (t.debts.filter fun d => d.1.1 = m.groupId) (facing u f) := by
    intro m hm
    rw [(hps m hm).weigh_eq, weigh_owedRows_eq]
    refine weigh_congr fun d hd => ?_
    rw [← of_decide_eq_true (List.mem_filter.1 hd).2]
  have hothers : ∀ j : ℤ × ℤ × ℤ, j.2.1 ≠ u → j.2.2 ≠ u → facing u f j = 0 := by
    intro j hc hd
    simp [facing, hc, hd]
  rw [weigh_postings hdistinct, groupsWith, List.map_map]
  rw [← h.sum_weigh_groups (h.nodup_memberships u) (fun g => linked_iff_memberships.1) hothers,
    List.map_map]
  congr 1
  exact List.map_congr_left hgroup

/-- **The view of a user is right**, where the shares of the user's groups can be
added up. -/
theorem exists_rightView (h : t.Consistent) (hu : t.ExactUser u k) :
    ∃ (ps : ℤ → List Owed) (v : UserBalances),
      (∀ m ∈ t.membershipsOf u, Balance.pairs (t.owedRows m.groupId) = .ok (ps m.groupId)) ∧
        userView u (t.groupsWith u ps) = .ok v ∧ t.RightView u v := by
  have hgroups : ∀ g, ∃ ps, g ∈ (t.membershipsOf u).map (·.groupId) → t.PairsOf k g ps := by
    intro g
    by_cases hg : g ∈ (t.membershipsOf u).map (·.groupId)
    · obtain ⟨m, hm, rfl⟩ := List.mem_map.1 hg
      obtain ⟨ps, hps⟩ := h.exists_pairsOf (h.exactShares_of_user hu hm)
      exact ⟨ps, fun _ => hps⟩
    · exact ⟨[], fun hmem => absurd hmem hg⟩
  choose ps hgroups using hgroups
  have hps : ∀ m ∈ t.membershipsOf u, t.PairsOf k m.groupId (ps m.groupId) :=
    fun m hm => hgroups _ (List.mem_map_of_mem hm)
  have hw := h.weigh_postings_groupsWith hps
  obtain ⟨v, hv, hexact⟩ := userView_exact (signedRange_postings (h.exactRange_groupsWith hu hps).signed)
  refine ⟨ps, v, fun m hm => (hps m hm).pairs_eq, hv, fun p hp => ?_, fun p hp => ?_, fun o => ?_, ?_⟩
  · obtain ⟨x, hx, hgroup⟩ := hexact.group p hp
    obtain ⟨m, hm, rfl⟩ := List.mem_map.1 hx
    exact linked_iff_memberships.2 (hgroup ▸ List.mem_map_of_mem hm)
  · rw [hexact.byGroup p hp, hw]
    exact t.weigh_facing_only u p.groupId p.otherId
  · rw [hexact.byUser, hw]
    exact t.weigh_facing_user u o
  · rw [hexact.net, hw]
    exact t.weigh_facing_one u

end Consistent

end Tables

/-! ## On the store -/

namespace Statement

variable {t : Tables} {u : ℤ} {ps : ℤ → List Owed}

theorem read_pairs (t : Tables) (g : Int) :
    (pairs g).read t = Failure.ofSum (Balance.pairs (t.owedRows g)) := by
  change (Plan.ofExcept (Failure.ofSum (Balance.pairs (t.owedRows g)))).read t = _
  exact Plan.read_ofExcept _

theorem read_pairsOf_cons (t : Tables) (m : Member) (ms : List Member) :
    (pairsOf (m :: ms)).read t = ((pairs m.groupId).read t).bind fun p =>
      ((pairsOf ms).read t).map fun rest => (m.groupId, p) :: rest := by
  change ((pairs m.groupId).bind fun p => (pairsOf ms).bind fun rest =>
    .done ((m.groupId, p) :: rest)).read t = _
  rw [Plan.read_bind]
  congr 1
  funext p
  rw [Plan.read_bind]
  cases (pairsOf ms).read t <;> rfl

theorem read_pairsOf {ms : List Member}
    (hps : ∀ m ∈ ms, Balance.pairs (t.owedRows m.groupId) = .ok (ps m.groupId)) :
    (pairsOf ms).read t = .ok (ms.map fun m => (m.groupId, ps m.groupId)) := by
  induction ms with
  | nil => rfl
  | cons m ms ih =>
    obtain ⟨hm, hms⟩ := List.forall_mem_cons.1 hps
    rw [read_pairsOf_cons, read_pairs, hm, ih hms]
    rfl

/-- The balances of a user as they come out of the tables. -/
def viewOf (t : Tables) (userId : Int) : Except Failure UserBalances :=
  ((pairsOf (t.membershipsOf userId)).read t).bind fun groups =>
    Failure.ofSum (Balance.userView userId groups)

/-- Where the shares can be added up, what comes out is right. -/
theorem exists_viewOf {k : ℕ} (h : t.Consistent) (hu : t.ExactUser u k) :
    ∃ v, viewOf t u = .ok v ∧ t.RightView u v := by
  obtain ⟨ps, v, hps, hview, hright⟩ := h.exists_rightView hu
  refine ⟨v, ?_, hright⟩
  unfold viewOf
  rw [read_pairsOf hps]
  exact congrArg Failure.ofSum hview

/-- A user who is served gets what comes out of the tables. -/
theorem run_ofUser {s : Store} {client : Client} (hs : s.Serves client) (u : Int) :
    ∃ s', s.Unchanged client s' ∧
      (ofUser u).run client s = (s', some (viewOf s.tables u)) := by
  let body : Plan UserBalances := (Plan.ask (.listMemberships u)).bind fun ms =>
    (pairsOf ms).bind fun groups => Plan.ofExcept (Failure.ofSum (Balance.userView u groups))
  have hbody : body.ReadOnly :=
    .bind (Plan.readOnly_ask fun _ _ => ⟨_, rfl⟩) fun ms =>
      .bind (readOnly_pairsOf ms) fun _ => Plan.readOnly_ofExcept _
  have hread : body.read s.tables = viewOf s.tables u := by
    change ((pairsOf (s.tables.membershipsOf u)).bind fun groups =>
      Plan.ofExcept (Failure.ofSum (Balance.userView u groups))).read s.tables = _
    simp only [Plan.read_bind, Plan.read_ofExcept]
    rfl
  rw [← hread]
  exact Operation.run_single hbody hs

end Statement

namespace System

variable {service : Service} {sys : System} {client : Client} {caller : ℤ} {k : ℕ}

/-- **A user who asks for all balances gets them, and they are right**, in every
system that can come about. -/
theorem myBalances_exact (h : Reachable service sys)
    (hshares : sys.store.tables.ExactUser caller k) (hclient : sys.store.Serves client) (now : ℕ) :
    ∃ s v, (service.operation now (.myBalances caller)).run client sys.store =
      (s, some (.ok v)) ∧ sys.store.tables.RightView caller v := by
  obtain ⟨v, hv, hright⟩ := Statement.exists_viewOf h.sound.consistent hshares
  obtain ⟨s, -, hrun⟩ := Statement.run_ofUser hclient caller
  rw [hv] at hrun
  exact ⟨s, v, hrun, hright⟩

end System

end SharedLedger
