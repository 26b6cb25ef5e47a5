import SharedLedger.Proofs.Aggregation
import SharedLedger.Proofs.Consistency
import Mathlib.Algebra.Order.BigOperators.Group.List

/-!
# Debts in the tables

What the shares of a group make its users owe each other, read off the rows
(`Tables.parties?`, `Tables.owedBetween`). The rows the store answers with are
these debts one by one (`owedRows_eq`), so sums over them are sums over shares
(`weigh_owedRows`). In consistent tables both parties of a debt are linked in
the group, and they are two.

The debts of all groups together are one list, with at most one entry for each
share (`Tables.debts`). What a group owes is the part of it that belongs to the
group (`weigh_owedRows_eq`), and the groups a user is linked in make up all of
it that concerns the user (`Consistent.sum_weigh_groups`).
-/

namespace SharedLedger

namespace Tables

variable {t : Tables} {g c d : ℤ} {k : ℕ} {x : Expense × Share}

/-- The shares of a group, each with its expense. -/
def splitsOf (t : Tables) (groupId : Int) : List (Expense × Share) :=
  (t.expensesOf groupId).flatMap fun e => (t.sharesOf e.id).map fun s => (e, s)

/-- The creditor and the debtor of a share: the users that the member who paid
and the member who owes are linked to. There are none if these are the same
member or one of them is not linked. -/
def parties? (t : Tables) (x : Expense × Share) : Option (Int × Int) := do
  let creditor ← t.linkedUser? x.1.paidBy
  let ower ← x.2.owedBy.filter fun m => m ≠ x.1.paidBy
  return (creditor, ← t.linkedUser? ower)

/-- The sum of the shares of a group whose creditor and debtor pass a test. -/
def owedBetween (t : Tables) (groupId : Int) (p : Int × Int → Bool) : ℚ :=
  (((t.splitsOf groupId).filter fun x => (t.parties? x).any p).map fun x => x.2.amount.value).sum

/-- The shares of a group have at most `k` digits behind the point, and so few
before it that they are added up without rounding. -/
structure ExactShares (t : Tables) (groupId : Int) (k : ℕ) : Prop where
  digits : ∀ x ∈ t.splitsOf groupId, ∃ z : ℤ, x.2.amount.value * 10 ^ k = z
  total : ((t.splitsOf groupId).map fun x => x.2.amount.value).sum * 10 ^ k < 2 ^ 96

theorem mem_splitsOf :
    x ∈ t.splitsOf g ↔
      x.1 ∈ t.expenses.toList ∧ x.1.groupId = g ∧ x.2 ∈ t.shares.toList ∧ x.2.expenseId = x.1.id := by
  simp only [splitsOf, List.mem_flatMap, List.mem_map, mem_expensesOf, mem_sharesOf]
  constructor
  · rintro ⟨e, ⟨he, hg⟩, s, ⟨hs, hid⟩, rfl⟩
    exact ⟨he, hg, hs, hid⟩
  · rintro ⟨he, hg, hs, hid⟩
    exact ⟨x.1, ⟨he, hg⟩, x.2, ⟨hs, hid⟩, rfl⟩

theorem parties?_eq_some_iff :
    t.parties? x = some (c, d) ↔
      t.linkedUser? x.1.paidBy = some c ∧
        ∃ m, x.2.owedBy = some m ∧ m ≠ x.1.paidBy ∧ t.linkedUser? m = some d := by
  simp only [parties?, Option.bind_eq_bind, Option.bind_eq_some_iff, Option.filter_eq_some_iff,
    decide_eq_true_eq, pure, Option.some.injEq, Prod.mk.injEq]
  constructor
  · rintro ⟨_, hc, m, ⟨hm, hne⟩, _, hd, rfl, rfl⟩
    exact ⟨hc, m, hm, hne, hd⟩
  · rintro ⟨hc, m, hm, hne, hd⟩
    exact ⟨c, hc, m, ⟨hm, hne⟩, d, hd, rfl, rfl⟩

/-! ## The rows of the store -/

/-- The store answers with the debts of a group, share by share. -/
theorem owedRows_eq (t : Tables) (g : Int) :
    t.owedRows g = (t.splitsOf g).filterMap fun x =>
      (t.parties? x).map fun k => ⟨k.1, k.2, x.2.amount⟩ := by
  unfold owedRows splitsOf
  rw [List.filterMap_flatMap]
  congr 1
  funext e
  rw [List.filterMap_map]
  unfold owedFor
  cases hc : t.linkedUser? e.paidBy with
  | none => simp [parties?, hc]
  | some creditor =>
    refine List.filterMap_congr fun s _ => ?_
    cases hm : s.owedBy with
    | none => simp [parties?, hc, hm]
    | some m =>
      -- a share the payer owes is nobody's debt
      by_cases hne : m = e.paidBy
      · simp [parties?, hc, hm, hne, Option.filter]
      · cases hd : t.linkedUser? m <;> simp [parties?, hc, hm, hne, hd, Option.filter]

theorem mem_owedRows {r : Owed} :
    r ∈ t.owedRows g ↔
      ∃ x ∈ t.splitsOf g, t.parties? x = some (r.creditor, r.debtor) ∧ x.2.amount = r.amount := by
  rw [owedRows_eq, List.mem_filterMap]
  simp only [Option.map_eq_some_iff, Prod.exists]
  constructor
  · rintro ⟨e, s, hx, c, d, hp, rfl⟩
    exact ⟨e, s, hx, hp, rfl⟩
  · rintro ⟨e, s, hx, hp, ha⟩
    exact ⟨e, s, hx, r.creditor, r.debtor, hp, by rw [ha]⟩

/-- **Sums over the rows are sums over the shares.** -/
theorem weigh_owedRows (t : Tables) (g : Int) (p : Int × Int → Bool) :
    weigh ((t.owedRows g).map Owed.keyed) (fun k => if p k then 1 else 0) = t.owedBetween g p := by
  rw [owedRows_eq]
  unfold owedBetween
  induction t.splitsOf g with
  | nil => rfl
  | cons x l ih =>
    cases hk : t.parties? x with
    | none => simpa [hk] using ih
    | some k =>
      by_cases hp : p k = true
      · simpa [hk, hp, Owed.keyed] using ih
      · simpa [hk, hp, Owed.keyed] using ih

/-! ## Consistent tables -/

namespace Consistent

theorem amount_pos (h : t.Consistent) (hx : x ∈ t.splitsOf g) : 0 < x.2.amount.value := by
  obtain ⟨-, -, hs, -⟩ := mem_splitsOf.1 hx
  obtain ⟨e, -, -, hfit, -⟩ := h.expense_of_share hs
  exact hfit.amount_pos

/-- The parties of a share are looked for among the members of its group. -/
theorem hasMember_of_split (h : t.Consistent) (hx : x ∈ t.splitsOf g) :
    t.HasMember g x.1.paidBy ∧ ∀ m, x.2.owedBy = some m → t.HasMember g m := by
  obtain ⟨he, rfl, hs, hid⟩ := mem_splitsOf.1 hx
  obtain ⟨e, hfind, -, howers⟩ := h.share_expense x.2 hs
  rw [hid, Index.find?_of_mem he, Option.some.injEq] at hfind
  exact ⟨h.expense_payer x.1 he, hfind ▸ howers⟩

/-- The parties of a share are linked to two members of the group. -/
theorem members_of_parties (h : t.Consistent) (hx : x ∈ t.splitsOf g)
    (hp : t.parties? x = some (c, d)) :
    ∃ m ∈ t.membersOf g, ∃ o ∈ t.membersOf g, m.id ≠ o.id ∧ m.userId = some c ∧ o.userId = some d := by
  obtain ⟨hc, ower, hower, hne, hd⟩ := parties?_eq_some_iff.1 hp
  have hrow {id u : ℤ} (hin : t.HasMember g id) (hu : t.linkedUser? id = some u) :
      ∃ m ∈ t.membersOf g, m.id = id ∧ m.userId = some u := by
    obtain ⟨m, hm, hg⟩ := hin
    unfold linkedUser? at hu
    rw [hm, Option.bind_some] at hu
    exact ⟨m, mem_membersOf.2 ⟨Index.mem_of_find? hm, hg⟩, Index.key_of_find? hm, hu⟩
  obtain ⟨hpayer, howers⟩ := h.hasMember_of_split hx
  obtain ⟨m, hm, hmid, hmu⟩ := hrow hpayer hc
  obtain ⟨o, ho, hoid, hou⟩ := hrow (howers ower hower) hd
  exact ⟨m, hm, o, ho, by rw [hmid, hoid]; exact hne.symm, hmu, hou⟩

/-- **Nobody owes a share to themselves**: two members of a group are not linked
to the same user. -/
theorem parties_ne (h : t.Consistent) (hx : x ∈ t.splitsOf g) (hp : t.parties? x = some (c, d)) :
    c ≠ d := by
  obtain ⟨m, hm, o, ho, hne, hmc, hod⟩ := h.members_of_parties hx hp
  rintro rfl
  rw [mem_membersOf] at hm ho
  exact hne (congrArg Member.id (h.link_unique m hm.1 o ho.1 (hm.2.trans ho.2.symm) c hmc hod))

/-- A group owes no more than its shares. -/
theorem weigh_owedRows_le (h : t.Consistent) (g : ℤ) :
    weigh ((t.owedRows g).map Owed.keyed) (fun _ => 1)
      ≤ ((t.splitsOf g).map fun x => x.2.amount.value).sum := by
  have hsum : weigh ((t.owedRows g).map Owed.keyed) (fun _ => 1) = t.owedBetween g fun _ => true := by
    rw [← weigh_owedRows]
    simp
  -- shares without two linked parties are left out, and none is negative
  rw [hsum]
  refine (List.filter_sublist.map _).sum_le_sum fun y hy => ?_
  obtain ⟨x, hx, rfl⟩ := List.mem_map.1 hy
  exact (h.amount_pos hx).le

/-- The debts of a group can be added up exactly where its shares can. -/
theorem exactRange_owedRows (h : t.Consistent) (hr : t.ExactShares g k) :
    ExactRange k ((t.owedRows g).map Owed.keyed) := by
  have hamount : ∀ a ∈ (t.owedRows g).map Owed.keyed, ∃ x ∈ t.splitsOf g, x.2.amount = a.2 := by
    intro a ha
    obtain ⟨r, hr, rfl⟩ := List.mem_map.1 ha
    obtain ⟨x, hx, -, hxr⟩ := mem_owedRows.1 hr
    exact ⟨x, hx, hxr⟩
  have hnonneg : ∀ a ∈ (t.owedRows g).map Owed.keyed, 0 ≤ a.2.value := by
    intro a ha
    obtain ⟨x, hx, hxa⟩ := hamount a ha
    exact hxa ▸ (h.amount_pos hx).le
  refine ⟨fun a ha => ?_, hnonneg, ?_⟩
  · obtain ⟨x, hx, hxa⟩ := hamount a ha
    exact hxa ▸ hr.digits x hx
  · unfold InRange
    rw [abs_of_nonneg (weigh_nonneg hnonneg fun _ _ => zero_le_one)]
    exact lt_of_le_of_lt
      (mul_le_mul_of_nonneg_right (h.weigh_owedRows_le g) (by positivity)) hr.total

end Consistent

/-! ## All groups together -/

/-- All shares, each with its expense. -/
def splits (t : Tables) : List (Expense × Share) :=
  t.shares.toList.filterMap fun s => (t.expenses.find? s.expenseId).map fun e => (e, s)

/-- All that is owed, by group, creditor and debtor: an entry for every share
that has a creditor and a debtor. -/
def debts (t : Tables) : List ((Int × Int × Int) × Decimal) :=
  t.splits.filterMap fun x => (t.parties? x).map fun k => ((x.1.groupId, k), x.2.amount)

theorem mem_splits :
    x ∈ t.splits ↔ x.2 ∈ t.shares.toList ∧ t.expenses.find? x.2.expenseId = some x.1 := by
  simp only [splits, List.mem_filterMap, Option.map_eq_some_iff]
  constructor
  · rintro ⟨s, hs, e, he, rfl⟩
    exact ⟨hs, he⟩
  · rintro ⟨hs, he⟩
    exact ⟨x.2, hs, x.1, he, rfl⟩

theorem mem_splitsOf_iff : x ∈ t.splitsOf g ↔ x ∈ t.splits ∧ x.1.groupId = g := by
  rw [mem_splitsOf, mem_splits]
  constructor
  · rintro ⟨he, hg, hs, hid⟩
    exact ⟨⟨hs, hid ▸ Index.find?_of_mem he⟩, hg⟩
  · rintro ⟨⟨hs, he⟩, hg⟩
    exact ⟨Index.mem_of_find? he, hg, hs, (Index.key_of_find? he).symm⟩

theorem nodup_splits (t : Tables) : t.splits.Nodup := by
  refine List.Nodup.filterMap ?_ t.shares.nodup
  intro s s' x hs hs'
  obtain ⟨e, -, rfl⟩ := Option.map_eq_some_iff.1 hs
  obtain ⟨e', -, he'⟩ := Option.map_eq_some_iff.1 hs'
  exact (congrArg Prod.snd he').symm

theorem nodup_splitsOf (t : Tables) (g : Int) : (t.splitsOf g).Nodup := by
  refine List.nodup_flatMap.2 ⟨fun e _ => ?_, ?_⟩
  · exact (t.shares.nodup.filter _).map fun s s' hs => (Prod.mk.inj hs).2
  · refine (t.expenses.nodup.filter _).imp fun hne => ?_
    intro x hx hx'
    obtain ⟨s, -, rfl⟩ := List.mem_map.1 hx
    obtain ⟨s', -, hs'⟩ := List.mem_map.1 hx'
    exact hne (congrArg Prod.fst hs').symm

/-- The shares of a group are those of all shares that belong to it. -/
theorem splitsOf_perm (t : Tables) (g : Int) :
    (t.splitsOf g).Perm (t.splits.filter fun x => x.1.groupId = g) := by
  refine (List.perm_ext_iff_of_nodup (t.nodup_splitsOf g) (t.nodup_splits.filter _)).2 fun x => ?_
  rw [mem_splitsOf_iff, List.mem_filter, decide_eq_true_eq]

theorem mem_debts {d : (ℤ × ℤ × ℤ) × Decimal} :
    d ∈ t.debts ↔
      ∃ x ∈ t.splits, x.1.groupId = d.1.1 ∧ t.parties? x = some d.1.2 ∧ x.2.amount = d.2 := by
  simp only [debts, List.mem_filterMap, Option.map_eq_some_iff]
  constructor
  · rintro ⟨x, hx, k, hk, rfl⟩
    exact ⟨x, hx, rfl, hk, rfl⟩
  · rintro ⟨x, hx, hg, hk, ha⟩
    exact ⟨x, hx, d.1.2, hk, Prod.ext (Prod.ext hg rfl) ha⟩

/-- The debts of a group, from its shares. -/
theorem filter_debts (t : Tables) (g : Int) :
    (t.debts.filter fun d => d.1.1 = g) =
      (t.splits.filter fun x => x.1.groupId = g).filterMap fun x =>
        (t.parties? x).map fun k => ((x.1.groupId, k), x.2.amount) := by
  unfold debts
  rw [List.filter_filterMap, List.filterMap_filter]
  refine List.filterMap_congr fun x _ => ?_
  cases t.parties? x with
  | none => simp
  | some k => by_cases hg : x.1.groupId = g <;> simp [hg]

/-- **The debts of a group are a part of all debts.** -/
theorem weigh_owedRows_eq (t : Tables) (g : Int) (f : Int × Int → ℚ) :
    weigh ((t.owedRows g).map Owed.keyed) f =
      weigh (t.debts.filter fun d => d.1.1 = g) fun j => f j.2 := by
  have hshares : ∀ xs : List (Expense × Share),
      weigh ((xs.filterMap fun x =>
          (t.parties? x).map fun k => (⟨k.1, k.2, x.2.amount⟩ : Owed)).map Owed.keyed) f =
        weigh (xs.filterMap fun x =>
          (t.parties? x).map fun k => ((x.1.groupId, k), x.2.amount)) fun j => f j.2 := by
    intro xs
    induction xs with
    | nil => rfl
    | cons x xs ih => cases hk : t.parties? x <;> simp [hk, ih, Owed.keyed]
  rw [owedRows_eq, hshares, filter_debts]
  exact weigh_perm ((t.splitsOf_perm g).filterMap _) _

namespace Consistent

/-- The parties of a debt are two users who are linked in its group. -/
theorem linked_of_mem_debts (h : t.Consistent) {d : (ℤ × ℤ × ℤ) × Decimal} (hd : d ∈ t.debts) :
    d.1.2.1 ≠ d.1.2.2 ∧ (∃ m ∈ t.membersOf d.1.1, m.userId = some d.1.2.1) ∧
      ∃ m ∈ t.membersOf d.1.1, m.userId = some d.1.2.2 := by
  obtain ⟨x, hx, hg, hk, -⟩ := mem_debts.1 hd
  have hxg : x ∈ t.splitsOf d.1.1 := mem_splitsOf_iff.2 ⟨hx, hg⟩
  obtain ⟨m, hm, o, ho, -, hmu, hou⟩ := h.members_of_parties hxg hk
  exact ⟨h.parties_ne hxg hk, ⟨m, hm, hmu⟩, o, ho, hou⟩

/-- **The groups of a user make up all debts that concern the user.** -/
theorem sum_weigh_groups (h : t.Consistent) {u : ℤ} {gs : List ℤ} (hgs : gs.Nodup)
    (hlinked : ∀ g, (∃ m ∈ t.membersOf g, m.userId = some u) → g ∈ gs) {f : ℤ × ℤ × ℤ → ℚ}
    (hf : ∀ j, j.2.1 ≠ u → j.2.2 ≠ u → f j = 0) :
    (gs.map fun g => weigh (t.debts.filter fun d => d.1.1 = g) f).sum = weigh t.debts f := by
  refine sum_weigh_filter Prod.fst hgs fun d hd hne => hlinked _ ?_
  obtain ⟨-, hc, hd⟩ := h.linked_of_mem_debts hd
  by_cases hcu : d.1.2.1 = u
  · exact hcu ▸ hc
  · by_cases hdu : d.1.2.2 = u
    · exact hdu ▸ hd
    · exact absurd (hf d.1 hcu hdu) hne

end Consistent

end Tables

end SharedLedger
