import SharedLedger.Proofs.Aggregation
import SharedLedger.Proofs.Payments

/-!
# What rows come to

Any rows can be added up whose sizes can (`Balance.adds_up`): whatever their signs
and in whatever order, whether or not a user owes something to the same user, two
users owe each other or the members of the group know of a user at all. Every
creditor and debtor who occur make one pair, everybody who is linked or occurs has
one net, and both have what the rows come to exactly. What is owed to one user is
owed by another or the same one, so the nets sum to zero.
-/

namespace SharedLedger

/-- An owed amount as a number, at whatever scale it is written. -/
def Owed.valued (r : Owed) : (Int × Int) × ℚ := ((r.creditor, r.debtor), r.amount.value)

namespace Balance

open Tally

variable {rows rows' ps ps' : List Owed} {members : List Member} {k : ℕ}

/-- What the rows that pass a test come to. -/
def sumOf (rows : List Owed) (p : Owed → Bool) : ℚ :=
  ((rows.filter p).map (·.amount.value)).sum

/-- **The exact pairs of rows**: all that occur, each once and in order, with the
sum of its rows. -/
structure ExactPairs (rows ps : List Owed) : Prop where
  ascending : ps.Pairwise fun p q =>
    p.creditor < q.creditor ∨ p.creditor = q.creditor ∧ p.debtor < q.debtor
  occurs_iff : ∀ c d, (∃ p ∈ ps, p.creditor = c ∧ p.debtor = d) ↔
    ∃ r ∈ rows, r.creditor = c ∧ r.debtor = d
  amount : ∀ p ∈ ps, p.amount.value =
    sumOf rows fun r => (r.creditor, r.debtor) = (p.creditor, p.debtor)

/-- **The exact nets of rows**: all users who are linked or occur, each once and in
order, with the sum of the rows they are the creditors of less that of the rows
they are the debtors of. -/
structure ExactNets (members : List Member) (rows : List Owed) (ns : List Net) : Prop where
  ascending : ns.Pairwise fun m n => m.userId < n.userId
  occurs_iff : ∀ u, (∃ n ∈ ns, n.userId = u) ↔
    (∃ m ∈ members, m.userId = some u) ∨ ∃ r ∈ rows, r.creditor = u ∨ r.debtor = u
  amount : ∀ n ∈ ns, n.amount.value =
    sumOf rows (fun r => r.creditor = n.userId) - sumOf rows fun r => r.debtor = n.userId
  sum : (ns.map (·.amount.value)).sum = 0

/-! ## Sums of rows -/

theorem weigh_keyed_only (rows : List Owed) (k : Int × Int) :
    weigh (rows.map Owed.keyed) (only k) = sumOf rows fun r => (r.creditor, r.debtor) = k := by
  rw [weigh_only_eq_sum, List.filter_map, List.map_map]
  rfl

/-- The rows that have a user on one of the two sides. -/
theorem weigh_keyed_side (rows : List Owed) (side : Int × Int → Int) (u : Int) :
    (weigh (rows.map Owed.keyed) fun k => only u (side k)) =
      sumOf rows fun r => side (r.creditor, r.debtor) = u := by
  have hside : ∀ k, only u (side k) = if decide (side k = u) then 1 else 0 := by
    intro k
    simp only [only, decide_eq_true_eq]
  simp only [hside]
  rw [weigh_ite_eq_sum, List.filter_map, List.map_map]
  rfl

/-- The rows of a user, counted for their creditors and against their debtors. -/
theorem weigh_balance_only (rows : List Owed) (u : Int) :
    weigh (rows.map Owed.keyed) (balance (only u)) =
      sumOf rows (fun r => r.creditor = u) - sumOf rows fun r => r.debtor = u := by
  have hsides := weigh_sub (rows.map Owed.keyed) (fun k => only u k.1) fun k => only u k.2
  rwa [weigh_keyed_side rows Prod.fst, weigh_keyed_side rows Prod.snd] at hsides

/-- Rows that all fail the test come to nothing. -/
theorem sumOf_eq_zero {p : Owed → Bool} (h : ∀ r ∈ rows, ¬ p r = true) : sumOf rows p = 0 := by
  rw [sumOf, List.filter_eq_nil_iff.2 h]
  rfl

/-- The order of the rows does not matter. -/
theorem sumOf_perm (h : rows.Perm rows') (p : Owed → Bool) : sumOf rows p = sumOf rows' p :=
  ((h.filter p).map _).sum_eq

/-! ## Pairs -/

namespace ExactPairs

theorem perm (h : ExactPairs rows ps) (hperm : rows.Perm rows') : ExactPairs rows' ps where
  ascending := h.ascending
  occurs_iff c d := by
    rw [h.occurs_iff]
    exact exists_congr fun r => and_congr_left fun _ => hperm.mem_iff
  amount p hp := (h.amount p hp).trans (sumOf_perm hperm _)

/-- The pairs and their sums are those of the rows. -/
theorem mem_valued {a : (Int × Int) × ℚ} (h : ExactPairs rows ps) : a ∈ ps.map Owed.valued ↔
    (∃ r ∈ rows, r.creditor = a.1.1 ∧ r.debtor = a.1.2) ∧
      a.2 = sumOf rows fun r => (r.creditor, r.debtor) = a.1 := by
  rw [← h.occurs_iff]
  constructor
  · intro ha
    obtain ⟨p, hp, rfl⟩ := List.mem_map.1 ha
    exact ⟨⟨p, hp, rfl, rfl⟩, h.amount p hp⟩
  · rintro ⟨⟨p, hp, hc, hd⟩, hv⟩
    refine List.mem_map.2 ⟨p, hp, Prod.ext (Prod.ext hc hd) ?_⟩
    change p.amount.value = a.2
    rw [hv, h.amount p hp, hc, hd]

theorem ascending_valued (h : ExactPairs rows ps) : (ps.map Owed.valued).Pairwise
    fun a b => KeyOrder.before a.1 b.1 = true :=
  List.pairwise_map.2 (h.ascending.imp before_pair_iff.2)

/-- **There is one way to add rows up.** -/
theorem unique (h : ExactPairs rows ps) (h' : ExactPairs rows ps') :
    ps.map Owed.valued = ps'.map Owed.valued := by
  refine Index.eq_of_ascending h.ascending_valued h'.ascending_valued fun a => ?_
  rw [h.mem_valued, h'.mem_valued]

end ExactPairs

/-- A tally of the rows lists their pairs. -/
theorem exactPairs_listed {pairs : PairTally}
    (hw : ∀ f, weigh pairs.toList f = weigh (rows.map Owed.keyed) f)
    (hc : ∀ k, pairs.contains k = true ↔ ∃ r ∈ rows, (r.creditor, r.debtor) = k) :
    ExactPairs rows (listed pairs) where
  ascending := ascending_listed pairs
  occurs_iff c d := by
    rw [exists_mem_listed, hc]
    simp only [Prod.mk.injEq]
  amount p hp := by
    rw [value_of_mem_listed hp, hw, weigh_keyed_only]

/-- A tally of the rows on both sides lists their nets. -/
theorem exactNets_listed {nets : UserTally}
    (hw : ∀ f, weigh nets.toList f = weigh (rows.map Owed.keyed) (balance f))
    (hc : ∀ u, nets.contains u = true ↔
      (∃ m ∈ members, m.userId = some u) ∨ ∃ r ∈ rows, r.creditor = u ∨ r.debtor = u) :
    ExactNets members rows (listedNets nets) where
  ascending := ascending_listedNets nets
  occurs_iff u := exists_mem_listedNets.trans (hc u)
  amount n hn := by
    rw [value_of_mem_listedNets hn, hw, weigh_balance_only]
  sum := by
    rw [sum_listedNets, hw]
    exact weigh_balance_one _

/-- **Rows are added up exactly**: to pairs, in whatever order they come, and from
these to nets. -/
theorem adds_up (members : List Member) (hgrid : ∀ r ∈ rows, OnGrid k r.amount.value)
    (hrange : InRange k (rows.map fun r => |r.amount.value|).sum) :
    ∃ ps ns, pairs rows = .ok ps ∧ ExactPairs rows ps ∧ nets members ps = .ok ns ∧
      ExactNets members rows ns ∧
      ∀ rows', rows'.Perm rows → ∃ ps', pairs rows' = .ok ps' ∧
        ps'.map Owed.valued = ps.map Owed.valued := by
  have hin : SignedRange k (rows.map Owed.keyed) := .of_map Owed.keyed hgrid hrange
  obtain ⟨p, hp, hpw, hpc⟩ := pairs_exact hin
  have hpairs : ExactPairs rows (listed p) := exactPairs_listed hpw hpc
  have hin' : SignedRange k ((listed p).map Owed.keyed) := by
    rw [keyed_listed]
    exact signedRange_of_weigh hin hpw
  obtain ⟨t, ht, htw, htc⟩ := nets_exact members hin'
  have hnets : ExactNets members rows (listedNets t) := by
    refine exactNets_listed (fun f => ?_) fun u => ?_
    · rw [htw, keyed_listed, hpw]
    · rw [htc]
      -- a user occurs in a pair if and only if in a row
      refine or_congr_right ⟨?_, ?_⟩
      · rintro ⟨q, hq, hu⟩
        obtain ⟨r, hr, hc, hd⟩ := (hpairs.occurs_iff q.creditor q.debtor).1 ⟨q, hq, rfl, rfl⟩
        exact ⟨r, hr, hc ▸ hd ▸ hu⟩
      · rintro ⟨r, hr, hu⟩
        obtain ⟨q, hq, hc, hd⟩ := (hpairs.occurs_iff r.creditor r.debtor).2 ⟨r, hr, rfl, rfl⟩
        exact ⟨q, hq, hc ▸ hd ▸ hu⟩
  refine ⟨listed p, listedNets t, hp, hpairs, ht, hnets, fun rows' hperm => ?_⟩
  have hin'' : SignedRange k (rows'.map Owed.keyed) :=
    .of_map Owed.keyed (fun r hr => hgrid r (hperm.mem_iff.1 hr))
      ((hperm.map fun r => |r.amount.value|).sum_eq ▸ hrange)
  obtain ⟨p', hp', hpw', hpc'⟩ := pairs_exact hin''
  exact ⟨listed p', hp', ((exactPairs_listed hpw' hpc').perm hperm).unique hpairs⟩

end Balance

namespace Sample

theorem loan_fits : 4 < Nat.pow 2 96 := by decide

theorem refund_fits : 325 < Nat.pow 2 96 := by decide

/-- Two users who owe each other, one of them less after a refund; one who owes
nobody else, and one who is no member. -/
def tabs : List Owed :=
  [⟨1, 2, tenths 105 (by decide)⟩, ⟨2, 1, whole 4 loan_fits⟩, ⟨3, 3, cents 500 (by decide)⟩,
    ⟨1, 2, (cents 325 refund_fits).neg⟩, ⟨9, 1, cents 75 (by decide)⟩]

/-- Two members are linked to user 2, one to nobody. -/
def regulars : List Member :=
  [⟨10, 5, some 2, "Bob"⟩, ⟨11, 5, some 1, "Ann"⟩, ⟨12, 5, some 2, "Bobby"⟩, ⟨13, 5, none, "Guest"⟩,
    ⟨14, 5, some 4, "Dot"⟩]

end Sample

/-- The tabs, also when they are read from the other end. -/
theorem Balance.adds_up_tabs :
    ∃ ps ns ps', pairs Sample.tabs = .ok ps ∧ ExactPairs Sample.tabs ps ∧
      nets Sample.regulars ps = .ok ns ∧ ExactNets Sample.regulars Sample.tabs ns ∧
      pairs Sample.tabs.reverse = .ok ps' ∧ ps'.map Owed.valued = ps.map Owed.valued ∧
      ps.map Owed.valued = [((1, 2), 29 / 4), ((2, 1), 4), ((3, 3), 5), ((9, 1), 3 / 4)] ∧
      ns.map (fun n => (n.userId, n.amount.value)) =
        [(1, 5 / 2), (2, -13 / 4), (3, 0), (4, 0), (9, 3 / 4)] := by
  have hunits : ∀ r ∈ Sample.tabs, r.amount.value * 10 ^ 2 =
      ((r.amount.value * 10 ^ 2).num : ℚ) := by decide +kernel
  have hsizes : (Sample.tabs.map fun r => |r.amount.value|).sum = 47 / 2 := by decide +kernel
  have hrange : InRange 2 (Sample.tabs.map fun r => |r.amount.value|).sum := by
    rw [hsizes]
    norm_num [InRange]
  obtain ⟨ps, ns, hps, hpairs, hns, hnets, hsame⟩ :=
    adds_up Sample.regulars (fun r hr => ⟨_, hunits r hr⟩) hrange
  obtain ⟨ps', hps', hvalued⟩ := hsame _ (List.reverse_perm _)
  have hrun : (pairs Sample.tabs).map (·.map Owed.valued) =
      .ok [((1, 2), 29 / 4), ((2, 1), 4), ((3, 3), 5), ((9, 1), 3 / 4)] := by decide +kernel
  have hrun' : ((pairs Sample.tabs).bind (nets Sample.regulars)).map
      (·.map fun n => (n.userId, n.amount.value)) =
        .ok [(1, 5 / 2), (2, -13 / 4), (3, 0), (4, 0), (9, 3 / 4)] := by decide +kernel
  rw [hps] at hrun hrun'
  change (nets Sample.regulars ps).map _ = _ at hrun'
  rw [hns] at hrun'
  exact ⟨ps, ns, ps', hps, hpairs, hns, hnets, hps', hvalued, Except.ok.inj hrun,
    Except.ok.inj hrun'⟩

end SharedLedger
