import SharedLedger.Proofs.Agreement
import SharedLedger.Proofs.Kept

/-!
# Links and what is owed

Expenses and shares name members, balances name users: what is owed in a group
depends on who its members are linked to. Where links to some users are missing
(`Tables.Restricts`), the rows of these users drop out and all others stay
(`Restricts.owedRows_eq`), and because each pair is added up by itself
(`Balance.pairs_filter`) so do the pairs (`Restricts.exists_balancesOf`). Where
no link is missing, nothing changes at all (`Restricts.balancesOf_eq`).
-/

namespace SharedLedger

/-! ## Sums for each pair by itself -/

namespace Balance

/-- Counts what is owed for its pair. -/
def post (t : PairTally) (r : Owed) : Except Overflow PairTally := do
  return t.put ((r.creditor, r.debtor), ← (t.held (r.creditor, r.debtor)).add r.amount)

theorem pairs_eq (rows : List Owed) : pairs rows = (rows.foldlM post Index.empty).map listed := by
  change (rows.foldlM post Index.empty >>= fun t => .ok (listed t)) = _
  cases rows.foldlM post Index.empty <;> rfl

theorem post_eq_ok_iff {t t' : PairTally} {r : Owed} :
    post t r = .ok t' ↔ ∃ c, (t.held (r.creditor, r.debtor)).add r.amount = .ok c ∧
      t' = t.put ((r.creditor, r.debtor), c) := by
  unfold post
  cases (t.held (r.creditor, r.debtor)).add r.amount with
  | error o => exact ⟨fun h => (by cases h), fun ⟨_, h, _⟩ => (by cases h)⟩
  | ok c =>
    constructor
    · rintro ⟨⟩
      exact ⟨c, rfl, rfl⟩
    · rintro ⟨_, ⟨⟩, rfl⟩
      rfl

section Filter

variable {rows ps : List Owed} {p : Int × Int → Bool}

/-- Counting what is owed leaves what other pairs have as it is. -/
theorem post_filter {t t' : PairTally} {r : Owed} (h : post t r = .ok t') :
    (if p (r.creditor, r.debtor) then post (t.filter fun a => p a.1) r
      else .ok (t.filter fun a => p a.1)) = .ok (t'.filter fun a => p a.1) := by
  obtain ⟨c, hc, rfl⟩ := post_eq_ok_iff.1 h
  have hput : (t.put ((r.creditor, r.debtor), c)).filter (fun a => p a.1) = _ := t.filter_put p _
  rw [hput]
  split
  · next hp =>
    have hheld : Tally.held (t.filter fun a => p a.1) (r.creditor, r.debtor) =
        t.held (r.creditor, r.debtor) := by
      unfold Tally.held
      rw [Index.find?_filter]
      cases hfind : t.find? (r.creditor, r.debtor) with
      | none => rfl
      | some a =>
        have hkey : a.1 = (r.creditor, r.debtor) := Index.key_of_find? hfind
        simp [Option.filter, hkey, hp]
    exact post_eq_ok_iff.2 ⟨c, hheld ▸ hc, rfl⟩
  · rfl

/-- **Pairs are added up independently**: those of some of the rows are the same
ones as among the pairs of all rows. -/
theorem pairs_filter (h : pairs rows = .ok ps) :
    pairs (rows.filter fun r => p (r.creditor, r.debtor)) =
      .ok (ps.filter fun r => p (r.creditor, r.debtor)) := by
  have hloop : ∀ (rows : List Owed) (t t' : PairTally), rows.foldlM post t = .ok t' →
      (rows.filter fun r => p (r.creditor, r.debtor)).foldlM post (t.filter fun a => p a.1) =
        .ok (t'.filter fun a => p a.1) := by
    intro rows
    induction rows with
    | nil =>
      rintro t _ ⟨⟩
      rfl
    | cons r rows ih =>
      intro t t' h
      obtain ⟨t₁, hpost, hrest⟩ := Failure.bind_eq_ok_iff.1 h
      have hstep := post_filter (p := p) hpost
      rw [List.filter_cons]
      by_cases hp : p (r.creditor, r.debtor) = true
      · rw [if_pos hp] at hstep
        rw [if_pos hp, List.foldlM_cons, hstep]
        exact ih t₁ t' hrest
      · rw [if_neg hp] at hstep
        rw [if_neg hp, Except.ok.inj hstep]
        exact ih t₁ t' hrest
  rw [pairs_eq] at h ⊢
  cases ht : rows.foldlM post Index.empty with
  | error o =>
    rw [ht] at h
    cases h
  | ok t =>
    rw [ht] at h
    obtain rfl : listed t = ps := Except.ok.inj h
    have hempty : (Index.empty : PairTally).filter (fun a => p a.1) = Index.empty := rfl
    have hlisted : listed (t.filter fun a => p a.1) =
        (listed t).filter fun r => p (r.creditor, r.debtor) := by
      unfold listed
      rw [Index.toList_filter, List.filter_map]
      rfl
    rw [← hempty, hloop rows _ t ht, ← hlisted]
    rfl

end Filter

/-- Who starts with zero depends on who is linked, not on the members. -/
theorem startingNets_congr {ms ms' : List Member}
    (h : ∀ u, (∃ m ∈ ms, m.userId = some u) ↔ ∃ m ∈ ms', m.userId = some u) :
    startingNets ms = startingNets ms' := by
  have hfind : ∀ (us : List Int) (t : UserTally) (u : Int),
      (us.foldl (fun t u => t.put (u, Decimal.zero)) t).find? u =
        if u ∈ us then some (u, Decimal.zero) else t.find? u := by
    intro us
    induction us with
    | nil => exact fun t u => rfl
    | cons v us ih =>
      intro t u
      rw [List.foldl_cons, ih, Index.find?_put]
      by_cases hv : v = u
      · simp [hv]
      · simp [hv, Ne.symm hv]
  refine Index.ext_find? fun u => ?_
  unfold startingNets
  rw [hfind, hfind]
  simp only [List.mem_filterMap, h u]

end Balance

namespace Failure

variable {α β ε : Type}

theorem map_eq_ok_iff {x : Except ε α} {f : α → β} {b : β} :
    x.map f = .ok b ↔ ∃ a, x = .ok a ∧ f a = b := by
  cases x <;> simp [Except.map]

theorem ofSum_eq_ok_iff {x : Except Overflow α} {a : α} : ofSum x = .ok a ↔ x = .ok a := by
  cases x <;> simp [ofSum]

end Failure

/-- The pairs among the balances of a group are those of its rows. -/
theorem Statement.pairs_of_balancesOf {t : Tables} {g : ℤ} {b : GroupBalances}
    (h : balancesOf t g = .ok b) : Balance.pairs (t.owedRows g) = .ok b.pairs := by
  obtain ⟨x, hread, hrest⟩ := Failure.bind_eq_ok_iff.1 h
  obtain ⟨payments, -, rfl⟩ := Failure.map_eq_ok_iff.1 hrest
  rw [read_pairsAndNets] at hread
  obtain ⟨ps, hps, hnets⟩ := Failure.bind_eq_ok_iff.1 hread
  obtain ⟨ns, -, rfl⟩ := Failure.map_eq_ok_iff.1 hnets
  exact Failure.ofSum_eq_ok_iff.1 hps

/-! ## Groups with fewer links -/

namespace Tables

variable {t t' : Tables} {g : ℤ} {k : ℕ} {q : ℤ → Bool}

/-- The same members, expenses and shares are in a group, but of the links of its
members only those to users who pass a test are left. -/
structure Restricts (t t' : Tables) (groupId : Int) (q : Int → Bool) : Prop where
  expensesOf : t'.expensesOf groupId = t.expensesOf groupId
  sharesOf : ∀ e ∈ t.expensesOf groupId, t'.sharesOf e.id = t.sharesOf e.id
  hasMember : ∀ id, t'.HasMember groupId id ↔ t.HasMember groupId id
  linkedUser? : ∀ id, t.HasMember groupId id → t'.linkedUser? id = (t.linkedUser? id).filter q

theorem linkedUser?_of_find {id : ℤ} {m : Member} (h : t.members.find? id = some m) :
    t.linkedUser? id = m.userId := by
  unfold linkedUser?
  rw [h]
  rfl

/-- Who is linked in a group, by the ids of its members. -/
theorem exists_linked_iff {u : ℤ} :
    (∃ m ∈ t.membersOf g, m.userId = some u) ↔
      ∃ id, t.HasMember g id ∧ t.linkedUser? id = some u := by
  constructor
  · rintro ⟨m, hm, hu⟩
    have hfind := Index.find?_of_mem (mem_membersOf.1 hm).1
    exact ⟨m.id, ⟨m, hfind, (mem_membersOf.1 hm).2⟩, (linkedUser?_of_find hfind).trans hu⟩
  · rintro ⟨id, ⟨m, hfind, hg⟩, hu⟩
    rw [linkedUser?_of_find hfind] at hu
    exact ⟨m, mem_membersOf.2 ⟨Index.mem_of_find? hfind, hg⟩, hu⟩

namespace Restricts

theorem splitsOf_eq (h : t.Restricts t' g q) : t'.splitsOf g = t.splitsOf g := by
  unfold splitsOf
  rw [h.expensesOf]
  exact List.flatMap_congr fun e he => by rw [h.sharesOf e he]

/-- A share has its two parties if both are still linked. -/
theorem parties?_eq (h : t.Restricts t' g q) (ht : t.Consistent) {x : Expense × Share}
    (hx : x ∈ t.splitsOf g) :
    t'.parties? x = (t.parties? x).filter fun k => q k.1 && q k.2 := by
  obtain ⟨hpayer, howers⟩ := ht.hasMember_of_split hx
  refine Option.ext fun ⟨c, d⟩ => ?_
  rw [Option.filter_eq_some_iff, parties?_eq_some_iff, parties?_eq_some_iff, h.linkedUser? _ hpayer,
    Option.filter_eq_some_iff, Bool.and_eq_true]
  constructor
  · rintro ⟨⟨hc, hqc⟩, m, hm, hne, hd⟩
    rw [h.linkedUser? _ (howers m hm), Option.filter_eq_some_iff] at hd
    exact ⟨⟨hc, m, hm, hne, hd.1⟩, hqc, hd.2⟩
  · rintro ⟨⟨hc, m, hm, hne, hd⟩, hqc, hqd⟩
    refine ⟨⟨hc, hqc⟩, m, hm, hne, ?_⟩
    rw [h.linkedUser? _ (howers m hm), Option.filter_eq_some_iff]
    exact ⟨hd, hqd⟩

/-- **The rows of users without links drop out**, and all others stay. -/
theorem owedRows_eq (h : t.Restricts t' g q) (ht : t.Consistent) :
    t'.owedRows g = (t.owedRows g).filter fun r => q r.creditor && q r.debtor := by
  rw [Tables.owedRows_eq, Tables.owedRows_eq, h.splitsOf_eq, List.filter_filterMap]
  refine List.filterMap_congr fun x hx => ?_
  rw [h.parties?_eq ht hx]
  cases t.parties? x with
  | none => rfl
  | some k => cases hq : q k.1 && q k.2 <;> simp [Option.filter, hq]

theorem owedRows_eq_self (h : t.Restricts t' g fun _ => true) (ht : t.Consistent) :
    t'.owedRows g = t.owedRows g := by
  rw [h.owedRows_eq ht]
  exact List.filter_eq_self.2 fun _ _ => rfl

theorem linked_iff (h : t.Restricts t' g q) (u : ℤ) :
    (∃ m ∈ t'.membersOf g, m.userId = some u) ↔
      (∃ m ∈ t.membersOf g, m.userId = some u) ∧ q u = true := by
  rw [exists_linked_iff, exists_linked_iff]
  constructor
  · rintro ⟨id, hid, hu⟩
    have hid' := (h.hasMember id).1 hid
    rw [h.linkedUser? id hid', Option.filter_eq_some_iff] at hu
    exact ⟨⟨id, hid', hu.1⟩, hu.2⟩
  · rintro ⟨⟨id, hid, hu⟩, hq⟩
    refine ⟨id, (h.hasMember id).2 hid, ?_⟩
    rw [h.linkedUser? id hid, Option.filter_eq_some_iff]
    exact ⟨hu, hq⟩

theorem exactShares (h : t.Restricts t' g q) (hr : t.ExactShares g k) : t'.ExactShares g k where
  digits := h.splitsOf_eq.symm ▸ hr.digits
  total := h.splitsOf_eq.symm ▸ hr.total

end Restricts

end Tables

/-- The balances of a group without those users who fail a test: no pair of
theirs is left, all others are what they were, and they have no net. -/
structure GroupBalances.Without (b b' : GroupBalances) (q : Int → Bool) : Prop where
  pairs_eq : b'.pairs = b.pairs.filter fun p => q p.creditor && q p.debtor
  nets : ∀ n ∈ b'.nets, q n.userId = true

namespace Tables.Restricts

variable {t t' : Tables} {g : ℤ} {k : ℕ} {q : ℤ → Bool}

/-- **Where no link is missing, the balances are the same.** -/
theorem balancesOf_eq (h : t.Restricts t' g fun _ => true) (ht : t.Consistent) :
    Statement.balancesOf t' g = Statement.balancesOf t g := by
  have hstart : Balance.startingNets (t'.membersOf g) = Balance.startingNets (t.membersOf g) :=
    Balance.startingNets_congr fun u => (h.linked_iff u).trans (and_iff_left rfl)
  unfold Statement.balancesOf
  rw [Statement.read_pairsAndNets, Statement.read_pairsAndNets, h.owedRows_eq_self ht]
  unfold Balance.nets
  rw [hstart]

/-- **Where links are missing, the pairs of these users are missing**, and nothing
else. -/
theorem exists_balancesOf (h : t.Restricts t' g q) (ht : t.Consistent) (ht' : t'.Consistent)
    (hr : t.ExactShares g k) :
    ∃ b b', Statement.balancesOf t g = .ok b ∧ Statement.balancesOf t' g = .ok b' ∧
      b.Without b' q := by
  obtain ⟨b, hb, -⟩ := Statement.exists_balancesOf ht hr
  obtain ⟨b', hb', hright⟩ := Statement.exists_balancesOf ht' (h.exactShares hr)
  refine ⟨b, b', hb, hb', ?_, fun n hn => ?_⟩
  · have hpairs := Balance.pairs_filter (p := fun k => q k.1 && q k.2)
      (Statement.pairs_of_balancesOf hb)
    rw [← h.owedRows_eq ht, Statement.pairs_of_balancesOf hb'] at hpairs
    exact Except.ok.inj hpairs
  · exact ((h.linked_iff _).1 ((hright.nets.occurs_iff _).1 ⟨n, hn, rfl⟩)).2

end Tables.Restricts

end SharedLedger
