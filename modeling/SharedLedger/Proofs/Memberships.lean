import SharedLedger.Proofs.Debts
import SharedLedger.Proofs.Serving

/-!
# The groups of a user

A user is linked in a group by one member of it, so the memberships of a user
and the groups the user is linked in are the same groups, each once. The shares
of these groups are different shares of the store: where all shares together can
be added up without rounding (`Tables.ExactStore`), those of any user can
(`Consistent.exactUser_of_store`), and those of any group.
-/

namespace SharedLedger

/-! ## Amounts that can be added up -/

/-- Amounts with at most `k` digits behind the point, and so few before it that
they are added up without rounding. -/
structure ExactSum (k : ℕ) (ds : List Decimal) : Prop where
  digits : ∀ d ∈ ds, ∃ z : ℤ, d.value * 10 ^ k = z
  total : (ds.map Decimal.value).sum * 10 ^ k < 2 ^ 96

/-- Some of the amounts can be added up where all can, if none is negative. -/
theorem ExactSum.of_subperm {k : ℕ} {ds ds' : List Decimal} (h : ExactSum k ds)
    (hpos : ∀ d ∈ ds, 0 ≤ d.value) (hsub : ds'.Subperm ds) : ExactSum k ds' where
  digits d hd := h.digits d (hsub.subset hd)
  total := by
    obtain ⟨es, hperm, hes⟩ := hsub
    have hle : (ds'.map Decimal.value).sum ≤ (ds.map Decimal.value).sum := by
      rw [← (hperm.map Decimal.value).sum_eq]
      refine (hes.map _).sum_le_sum fun x hx => ?_
      obtain ⟨d, hd, rfl⟩ := List.mem_map.1 hx
      exact hpos d hd
    exact lt_of_le_of_lt (mul_le_mul_of_nonneg_right hle (by positivity)) h.total

namespace Tables

variable {t : Tables} {u g : ℤ} {k : ℕ}

/-- The shares of all groups together can be added up without rounding. -/
def ExactStore (t : Tables) (k : ℕ) : Prop := ExactSum k (t.shares.toList.map (·.amount))

/-- The shares of all groups a user is linked in. -/
def splitsFor (t : Tables) (userId : Int) : List (Expense × Share) :=
  (t.membershipsOf userId).flatMap fun m => t.splitsOf m.groupId

/-- The shares of a user's groups can be added up without rounding. -/
def ExactUser (t : Tables) (userId : Int) (k : ℕ) : Prop :=
  ExactSum k ((t.splitsFor userId).map (·.2.amount))

/-- The groups a user is linked in. -/
def linkedGroups (t : Tables) (userId : Int) : List Group :=
  t.groups.toList.filter fun g => (t.membersOf g.id).any fun m => m.isLinkedTo userId

theorem mem_membershipsOf {m : Member} :
    m ∈ t.membershipsOf u ↔ m ∈ t.members.toList ∧ m.userId = some u := by
  simp [membershipsOf, Member.isLinkedTo]

theorem exactShares_iff :
    t.ExactShares g k ↔ ExactSum k ((t.splitsOf g).map fun x => x.2.amount) := by
  constructor
  · rintro ⟨hd, ht⟩
    refine ⟨fun d hmem => ?_, ?_⟩
    · obtain ⟨x, hx, rfl⟩ := List.mem_map.1 hmem
      exact hd x hx
    · rwa [List.map_map]
  · rintro ⟨hd, ht⟩
    refine ⟨fun x hx => hd _ (List.mem_map_of_mem hx), ?_⟩
    rwa [List.map_map] at ht

/-- All shares with their expenses are all shares. -/
theorem splits_sublist (t : Tables) : (t.splits.map Prod.snd).Sublist t.shares.toList := by
  unfold splits
  generalize t.shares.toList = ss
  induction ss with
  | nil => exact .slnil
  | cons s ss ih =>
    rw [List.filterMap_cons]
    cases t.expenses.find? s.expenseId with
    | none => exact ih.cons s
    | some e => exact ih.cons_cons s

namespace Consistent

/-- The memberships of a user are in different groups. -/
theorem nodup_memberships (h : t.Consistent) (u : ℤ) :
    ((t.membershipsOf u).map (·.groupId)).Nodup := by
  refine List.Nodup.map_on (fun m hm o ho hg => ?_) (t.members.nodup.filter _)
  have hm' := mem_membershipsOf.1 hm
  have ho' := mem_membershipsOf.1 ho
  exact h.link_unique m hm'.1 o ho'.1 hg u hm'.2 ho'.2

theorem linked_iff_memberships :
    (∃ m ∈ t.membersOf g, m.userId = some u) ↔ g ∈ (t.membershipsOf u).map (·.groupId) := by
  simp only [mem_membersOf, List.mem_map, mem_membershipsOf]
  constructor
  · rintro ⟨m, ⟨hm, hg⟩, hu⟩
    exact ⟨m, ⟨hm, hu⟩, hg⟩
  · rintro ⟨m, ⟨hm, hu⟩, hg⟩
    exact ⟨m, ⟨hm, hg⟩, hu⟩

theorem linked_iff_linkedGroups (h : t.Consistent) :
    (∃ m ∈ t.membersOf g, m.userId = some u) ↔ g ∈ (t.linkedGroups u).map (·.id) := by
  simp only [linkedGroups, List.mem_map, List.mem_filter, Access.any_isLinkedTo]
  constructor
  · rintro ⟨m, hm, hu⟩
    have hg := h.member_group m (mem_membersOf.1 hm).1
    rw [(mem_membersOf.1 hm).2] at hg
    obtain ⟨row, hrow⟩ := Index.contains_eq_true_iff.1 hg
    have hid : row.id = g := Index.key_of_find? hrow
    exact ⟨row, ⟨Index.mem_of_find? hrow, m, hid.symm ▸ hm, hu⟩, hid⟩
  · rintro ⟨row, ⟨-, hlinked⟩, rfl⟩
    exact hlinked

theorem nodup_linkedGroups (t : Tables) (u : ℤ) : ((t.linkedGroups u).map (·.id)).Nodup :=
  t.groups.nodup_keys_of_nodup (t.groups.nodup.filter _) fun _ hg => (List.mem_filter.1 hg).1

/-! ### Parts of the store -/

theorem share_pos (h : t.Consistent) {s : Share} (hs : s ∈ t.shares.toList) : 0 < s.amount.value := by
  obtain ⟨e, -, hfit, -⟩ := h.share_expense s hs
  exact hfit.amount_pos

/-- The shares of a user's groups are different shares. -/
theorem splitsFor_subperm (h : t.Consistent) (u : ℤ) : (t.splitsFor u).Subperm t.splits := by
  refine List.subperm_of_subset (List.nodup_flatMap.2 ⟨fun m _ => t.nodup_splitsOf _, ?_⟩) ?_
  · have hdistinct := h.nodup_memberships u
    rw [List.Nodup, List.pairwise_map] at hdistinct
    refine hdistinct.imp fun hne x hx hx' => hne ?_
    exact (mem_splitsOf_iff.1 hx).2.symm.trans (mem_splitsOf_iff.1 hx').2
  · intro x hx
    obtain ⟨m, -, hx⟩ := List.mem_flatMap.1 hx
    exact (mem_splitsOf_iff.1 hx).1

theorem exactSum_of_store (h : t.Consistent) (hs : t.ExactStore k) {xs : List (Expense × Share)}
    (hxs : xs.Subperm t.splits) : ExactSum k (xs.map (·.2.amount)) := by
  refine ExactSum.of_subperm hs (fun d hd => ?_) ?_
  · obtain ⟨s, hs, rfl⟩ := List.mem_map.1 hd
    exact (h.share_pos hs).le
  · have hall := t.splits_sublist.map (·.amount)
    rw [List.map_map] at hall
    obtain ⟨ys, hperm, hys⟩ := hxs
    exact ⟨ys.map (·.2.amount), hperm.map _, (hys.map _).trans hall⟩

theorem exactUser_of_store (h : t.Consistent) (hs : t.ExactStore k) (u : ℤ) : t.ExactUser u k :=
  h.exactSum_of_store hs (h.splitsFor_subperm u)

theorem exactShares_of_store (h : t.Consistent) (hs : t.ExactStore k) (g : ℤ) :
    t.ExactShares g k := by
  refine exactShares_iff.2 (h.exactSum_of_store hs ?_)
  exact (t.splitsOf_perm g).subperm.trans List.filter_sublist.subperm

theorem exactShares_of_user (h : t.Consistent) (hu : t.ExactUser u k) {m : Member}
    (hm : m ∈ t.membershipsOf u) : t.ExactShares m.groupId k := by
  refine exactShares_iff.2 (ExactSum.of_subperm hu (fun d hd => ?_) ?_)
  · obtain ⟨x, hx, rfl⟩ := List.mem_map.1 hd
    obtain ⟨o, -, hx⟩ := List.mem_flatMap.1 hx
    exact (h.amount_pos hx).le
  · refine ((List.sublist_flatten_of_mem ?_).map _).subperm
    exact List.mem_map_of_mem hm

end Consistent

end Tables

end SharedLedger
