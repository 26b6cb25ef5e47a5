import SharedLedger.Proofs.Balances
import SharedLedger.Proofs.Sums
import Mathlib.Combinatorics.SimpleGraph.Connectivity.Represents
import Mathlib.Combinatorics.SimpleGraph.Metric

/-!
# How many payments it takes

Debts can be settled pair by pair, with one payment between any two users who
have something open between them. Settling their nets mostly takes fewer
payments, but not always: the largest debtor pays the largest creditor even where
the two have nothing to do with each other. Users who are joined by what is open,
directly or through others, make up a circle, and a circle of `n` users has at
least `n - 1` open pairs (`ncard_le_edges_add_components`). So every circle after
the first costs at most one payment more than settling pair by pair
(`Balance.exists_fewPayments`), and may well cost it
(`Balance.payments_exceed_openPairs`).
-/

namespace SharedLedger

/-! ## Edges and components -/

section Graph

variable {V : Type} {G : SimpleGraph V} {v r : V} {S : Set V}

/-- On the way to another vertex the next one is closer. -/
theorem exists_adj_closer (h : G.Reachable v r) (hne : v ≠ r) :
    ∃ w, G.Adj v w ∧ G.dist w r < G.dist v r := by
  obtain ⟨p, hp⟩ := h.exists_walk_length_eq_dist
  cases p with
  | nil => exact absurd rfl hne
  | cons hadj p =>
    refine ⟨_, hadj, ?_⟩
    rw [← hp, SimpleGraph.Walk.length_cons]
    exact Nat.lt_succ_of_le (SimpleGraph.dist_le p)

/-- **Vertices need edges**: there are as many as there are edges at most, and one
more for each component they are in. -/
theorem ncard_le_edges_add_components (hE : G.edgeSet.Finite) (hS : S.Finite) :
    S.ncard ≤ G.edgeSet.ncard + (G.connectedComponentMk '' S).ncard := by
  -- one vertex of each component is its root
  obtain ⟨R, hRS, hR⟩ := Set.exists_subset_bijOn S G.connectedComponentMk
  have hroot : ∀ v ∈ S, ∃ r ∈ R, G.Reachable v r := by
    intro v hv
    obtain ⟨r, hr, he⟩ := hR.surjOn (Set.mem_image_of_mem _ hv)
    exact ⟨r, hr, (SimpleGraph.ConnectedComponent.exact he).symm⟩
  choose! root hrootR hreach using hroot
  have hnext : ∀ v ∈ S \ R, ∃ w, G.Adj v w ∧ G.dist w (root v) < G.dist v (root v) :=
    fun v hv => exists_adj_closer (hreach v hv.1) fun he => hv.2 (he ▸ hrootR v hv.1)
  choose! next hadj hcloser using hnext
  -- every other vertex has an edge of its own, the one towards its root
  have hothers : (S \ R).ncard ≤ G.edgeSet.ncard := by
    refine Set.ncard_le_ncard_of_injOn (fun v => s(v, next v)) (fun v hv => hadj v hv) ?_ hE
    intro v hv w hw he
    rcases Sym2.eq_iff.1 he with ⟨hvw, -⟩ | ⟨hvn, hnw⟩
    · exact hvw
    · have hreach' : G.Reachable v w := hnw ▸ (hadj v hv).reachable
      have hsame : root v = root w := by
        refine hR.injOn (hrootR v hv.1) (hrootR w hw.1) (SimpleGraph.ConnectedComponent.sound ?_)
        exact (hreach v hv.1).symm.trans (hreach'.trans (hreach w hw.1))
      -- each of the two would be closer to the root than the other
      have hv' := hcloser v hv
      have hw' := hcloser w hw
      rw [hnw, hsame] at hv'
      rw [← hvn] at hw'
      exact absurd hv' hw'.not_gt
  have hroots : R.ncard = (G.connectedComponentMk '' S).ncard :=
    SimpleGraph.ConnectedComponent.Represents.ncard_eq hR
  have hsplit := Set.ncard_sdiff_add_ncard_of_subset hRS hS
  omega

end Graph

namespace Balance

open Tally Settlement

variable {rows : List Owed} {members : List Member} {a b u : Int} {k : ℕ}

/-! ## Open pairs -/

/-- What one user is owed by another, less what the one owes the other. -/
def openBetween (rows : List Owed) (a b : Int) : ℚ :=
  sumOf rows (fun r => (r.creditor, r.debtor) = (a, b))
    - sumOf rows fun r => (r.creditor, r.debtor) = (b, a)

/-- What is open for one side is open for the other, the other way round. -/
theorem openBetween_swap (rows : List Owed) (a b : Int) :
    openBetween rows b a = -openBetween rows a b :=
  (neg_sub _ _).symm

/-- **Users are joined** who have something open between them. -/
def joined (rows : List Owed) : SimpleGraph Int where
  Adj a b := openBetween rows a b ≠ 0
  symm := ⟨fun a b h => by rwa [openBetween_swap, neg_ne_zero]⟩
  loopless := ⟨fun a h => h (sub_self _)⟩

instance (rows : List Owed) : DecidableRel (joined rows).Adj := fun a b =>
  inferInstanceAs (Decidable (openBetween rows a b ≠ 0))

/-- The pairs of users, in no order, who have something open between them. -/
def openPairs (rows : List Owed) : Finset (Sym2 Int) :=
  (rows.map fun r => s(r.creditor, r.debtor)).toFinset.filter (· ∈ (joined rows).edgeSet)

/-- Who is joined occurs in a row together. -/
theorem exists_row_of_joined (h : (joined rows).Adj a b) :
    ∃ r ∈ rows, s(r.creditor, r.debtor) = s(a, b) := by
  by_contra hnone
  push Not at hnone
  have hzero : ∀ c d, s(c, d) = s(a, b) →
      (sumOf rows fun r => (r.creditor, r.debtor) = (c, d)) = 0 := by
    intro c d hcd
    refine sumOf_eq_zero fun r hr he => hnone r hr ?_
    obtain ⟨rfl, rfl⟩ := Prod.mk.inj (of_decide_eq_true he)
    exact hcd
  refine h ?_
  rw [openBetween, hzero a b rfl, hzero b a Sym2.eq_swap, sub_zero]

/-- The open pairs are the edges. -/
theorem coe_openPairs (rows : List Owed) :
    (openPairs rows : Set (Sym2 Int)) = (joined rows).edgeSet := by
  ext e
  rw [Finset.mem_coe, openPairs, Finset.mem_filter, List.mem_toFinset, List.mem_map]
  refine and_iff_right_of_imp fun he => ?_
  induction e with
  | h a b => exact exists_row_of_joined he

/-! ## Circles -/

/-- What a user is owed by all others, less what the user owes them. -/
def netOf (rows : List Owed) (u : Int) : ℚ :=
  sumOf rows (fun r => r.creditor = u) - sumOf rows fun r => r.debtor = u

/-- **The circles with something to settle**: the users who are joined, directly or
through others, where one of them at least has a net. -/
def circles (rows : List Owed) : Set (joined rows).ConnectedComponent :=
  (joined rows).connectedComponentMk '' {u | netOf rows u ≠ 0}

/-- Users who are joined have in common what the two users of every row have in
common. -/
theorem iff_of_reachable {p : Int → Prop} (hrows : ∀ r ∈ rows, (p r.creditor ↔ p r.debtor))
    (h : (joined rows).Reachable a b) : p a ↔ p b := by
  obtain ⟨w⟩ := h
  induction w with
  | nil => rfl
  | cons hadj _ ih =>
    obtain ⟨r, hr, he⟩ := exists_row_of_joined hadj
    refine Iff.trans ?_ ih
    rcases Sym2.eq_iff.1 he with ⟨rfl, rfl⟩ | ⟨rfl, rfl⟩
    · exact hrows r hr
    · exact (hrows r hr).symm

/-- Who has a net occurs in a row. -/
theorem exists_row_of_netOf_ne_zero (h : netOf rows u ≠ 0) :
    ∃ r ∈ rows, r.creditor = u ∨ r.debtor = u := by
  by_contra hnone
  push Not at hnone
  have hcreditor : (sumOf rows fun r => r.creditor = u) = 0 :=
    sumOf_eq_zero fun r hr he => (hnone r hr).1 (of_decide_eq_true he)
  have hdebtor : (sumOf rows fun r => r.debtor = u) = 0 :=
    sumOf_eq_zero fun r hr he => (hnone r hr).2 (of_decide_eq_true he)
  refine h ?_
  rw [netOf, hcreditor, hdebtor, sub_zero]

/-- **How many users have a net**: as many as there are open pairs at most, and one
more for each circle. -/
theorem ncard_netOf_le (rows : List Owed) (hfin : {u | netOf rows u ≠ 0}.Finite) :
    {u | netOf rows u ≠ 0}.ncard ≤ (openPairs rows).card + (circles rows).ncard := by
  have hedges : (joined rows).edgeSet.Finite := by
    rw [← coe_openPairs]
    exact (openPairs rows).finite_toSet
  have hcount := ncard_le_edges_add_components hedges hfin
  rwa [← coe_openPairs, Set.ncard_coe_finset] at hcount

/-! ## Payments -/

/-- Rows that can be added up have nets that are settled. -/
theorem exists_settled_rows (members : List Member) (h : ExactRange k (rows.map Owed.keyed)) :
    ∃ ps ns payments, pairs rows = .ok ps ∧ nets members ps = .ok ns ∧
      settle ns = .ok payments ∧ Settled ns payments ∧ ∀ u, merged ns u = netOf rows u := by
  obtain ⟨p, hp, hpw, -⟩ := pairs_exact h.signed
  have hlisted : SignedRange k ((listed p).map Owed.keyed) := by
    rw [keyed_listed]
    exact signedRange_of_weigh h.signed hpw
  obtain ⟨t, ht, htw, -⟩ := nets_exact members hlisted
  have hw : ∀ f, weigh t.toList f = weigh (rows.map Owed.keyed) (balance f) := by
    intro f
    rw [htw, keyed_listed, hpw]
  obtain ⟨payments, hpayments, hsettled⟩ := (settleable_nets h hw).exists_settled_nets
  refine ⟨listed p, listedNets t, payments, hp, ht, hpayments, hsettled, fun u => ?_⟩
  rw [merged_eq, listedNets, keyed_nets, hw, weigh_balance_only, netOf]

/-- **Few payments**: there are as many as there are open pairs at most, and one more
for each circle but the first. -/
theorem exists_fewPayments (members : List Member) (hpos : ∀ r ∈ rows, 0 < r.amount.value)
    (hgrid : ∀ r ∈ rows, OnGrid k r.amount.value)
    (hrange : InRange k (rows.map (·.amount.value)).sum) :
    ∃ ps ns payments, pairs rows = .ok ps ∧ nets members ps = .ok ns ∧
      settle ns = .ok payments ∧
      payments.length ≤ (openPairs rows).card + (circles rows).ncard - 1 := by
  have hrows : ExactRange k (rows.map Owed.keyed) := by
    refine ⟨List.forall_mem_map.2 hgrid, List.forall_mem_map.2 fun r hr => (hpos r hr).le, ?_⟩
    simpa [weigh, Owed.keyed, Function.comp_def] using hrange
  obtain ⟨ps, ns, payments, hps, hns, hpayments, hsettled, hnet⟩ :=
    exists_settled_rows members hrows
  refine ⟨ps, ns, payments, hps, hns, hpayments, ?_⟩
  -- those with a net are the creditors and the debtors
  have hparties : (↑(creditors ns ∪ debtors ns) : Set Int) = {u | netOf rows u ≠ 0} := by
    simp only [coe_parties, hnet]
  have hcount := ncard_netOf_le rows (hparties ▸ Finset.finite_toSet _)
  rw [← hparties, Set.ncard_coe_finset, Finset.card_union_of_disjoint (disjoint_parties ns)]
    at hcount
  have hmost := hsettled.most
  omega

end Balance

namespace Sample

theorem ten_fits : 10 < Nat.pow 2 96 := by decide

/-- A few whole units. -/
def few (n : Fin 10) : Decimal := whole n.val (n.isLt.trans ten_fits)

/-- Two rounds that have nobody in common: user 1 paid for the users 2 and 3, and
user 4 for user 5. -/
def rounds : List Owed := [⟨1, 2, few 3⟩, ⟨1, 3, few 3⟩, ⟨4, 5, few 5⟩]

/-- What it comes to for each of them. -/
def roundNets : List Net :=
  [⟨1, few 6⟩, ⟨2, (few 3).neg⟩, ⟨3, (few 3).neg⟩, ⟨4, few 5⟩, ⟨5, (few 5).neg⟩]

/-- What they pay: only the last payment is between two who have something open
between them. -/
def crossed : List Payment := [⟨5, 1, few 5⟩, ⟨2, 4, few 3⟩, ⟨3, 4, few 2⟩, ⟨3, 1, few 1⟩]

theorem pos_rounds : ∀ r ∈ rounds, 0 < r.amount.value := by decide +kernel

theorem onGrid_rounds : ∀ r ∈ rounds, OnGrid 0 r.amount.value := by
  have hunits : ∀ r ∈ rounds, r.amount.value * 10 ^ 0 =
      ((r.amount.value * 10 ^ 0).num : ℚ) := by decide +kernel
  exact fun r hr => ⟨_, hunits r hr⟩

theorem inRange_rounds : InRange 0 (rounds.map (·.amount.value)).sum := by
  have hsum : (rounds.map (·.amount.value)).sum = 11 := by decide +kernel
  rw [hsum]
  norm_num [InRange]

theorem settle_rounds : Balance.pairs rounds = .ok rounds ∧ Balance.nets [] rounds = .ok roundNets ∧
    Settlement.settle roundNets = .ok crossed ∧ (Balance.openPairs rounds).card = 3 := by
  decide +kernel

/-- The two rounds are two circles. -/
theorem ncard_circles_rounds : (Balance.circles rounds).ncard = 2 := by
  have hjoined : (Balance.joined rounds).Adj 2 1 ∧ (Balance.joined rounds).Adj 3 1 ∧
      (Balance.joined rounds).Adj 5 4 := by decide +kernel
  have hnets : Balance.netOf rounds 1 ≠ 0 ∧ Balance.netOf rounds 4 ≠ 0 := by decide +kernel
  have hcircles : Balance.circles rounds = {(Balance.joined rounds).connectedComponentMk 1,
      (Balance.joined rounds).connectedComponentMk 4} := by
    refine Set.Subset.antisymm ?_ (Set.pair_subset ⟨1, hnets.1, rfl⟩ ⟨4, hnets.2, rfl⟩)
    rintro _ ⟨u, hu, rfl⟩
    obtain ⟨r, hr, hside⟩ := Balance.exists_row_of_netOf_ne_zero hu
    have husers : u = 1 ∨ u = 2 ∨ u = 3 ∨ u = 4 ∨ u = 5 := by
      have hall : ∀ r ∈ rounds, (r.creditor = 1 ∨ r.creditor = 4) ∧
          (r.debtor = 2 ∨ r.debtor = 3 ∨ r.debtor = 5) := by decide +kernel
      have hrow := hall r hr
      omega
    rcases husers with rfl | rfl | rfl | rfl | rfl
    · exact .inl rfl
    · exact .inl (SimpleGraph.ConnectedComponent.sound hjoined.1.reachable)
    · exact .inl (SimpleGraph.ConnectedComponent.sound hjoined.2.1.reachable)
    · exact .inr rfl
    · exact .inr (SimpleGraph.ConnectedComponent.sound hjoined.2.2.reachable)
  rw [hcircles, Set.ncard_pair]
  intro he
  have hsides : ∀ r ∈ rounds, (r.creditor ≤ 3 ↔ r.debtor ≤ 3) := by decide +kernel
  have hsame := Balance.iff_of_reachable (p := fun u => u ≤ 3) hsides
    (SimpleGraph.ConnectedComponent.exact he)
  omega

end Sample

namespace Balance

/-- The two rounds take as many payments as they may. -/
theorem exists_fewPayments_rounds :
    ((∀ r ∈ Sample.rounds, 0 < r.amount.value) ∧ (∀ r ∈ Sample.rounds, OnGrid 0 r.amount.value) ∧
      InRange 0 (Sample.rounds.map (·.amount.value)).sum) ∧
    ∃ ps ns payments, pairs Sample.rounds = .ok ps ∧ nets [] ps = .ok ns ∧
      Settlement.settle ns = .ok payments ∧
      payments.length ≤ (openPairs Sample.rounds).card + (circles Sample.rounds).ncard - 1 ∧
      payments.length = 4 ∧ (openPairs Sample.rounds).card = 3 ∧
      (circles Sample.rounds).ncard = 2 := by
  refine ⟨⟨Sample.pos_rounds, Sample.onGrid_rounds, Sample.inRange_rounds⟩, ?_⟩
  obtain ⟨ps, ns, payments, hps, hns, hpayments, hfew⟩ :=
    exists_fewPayments [] Sample.pos_rounds Sample.onGrid_rounds Sample.inRange_rounds
  obtain ⟨hps', hns', hpayments', hthree⟩ := Sample.settle_rounds
  obtain rfl : Sample.rounds = ps := Except.ok.inj (hps'.symm.trans hps)
  obtain rfl : Sample.roundNets = ns := Except.ok.inj (hns'.symm.trans hns)
  obtain rfl : Sample.crossed = payments := Except.ok.inj (hpayments'.symm.trans hpayments)
  exact ⟨_, _, _, hps, hns, hpayments, hfew, rfl, hthree, Sample.ncard_circles_rounds⟩

/-- **Settling can take more payments than there are open pairs.** Pair by pair the
two rounds would take three: the users 2 and 3 pay user 1, and user 5 pays user 4.
But user 5 owes most and user 1 is owed most, so the first payment is between the
two rounds. -/
theorem payments_exceed_openPairs :
    ((∀ r ∈ Sample.rounds, r.creditor ≠ r.debtor) ∧ (∀ r ∈ Sample.rounds, 0 < r.amount.value) ∧
      (∀ r ∈ Sample.rounds, OnGrid 0 r.amount.value) ∧
      InRange 0 (Sample.rounds.map (·.amount.value)).sum) ∧
    pairs Sample.rounds = .ok Sample.rounds ∧ nets [] Sample.rounds = .ok Sample.roundNets ∧
      Settlement.settle Sample.roundNets = .ok Sample.crossed ∧
      (openPairs Sample.rounds).card < Sample.crossed.length := by
  obtain ⟨hps, hns, hpayments, hthree⟩ := Sample.settle_rounds
  have hdistinct : ∀ r ∈ Sample.rounds, r.creditor ≠ r.debtor := by decide +kernel
  refine ⟨⟨hdistinct, Sample.pos_rounds, Sample.onGrid_rounds, Sample.inRange_rounds⟩, hps, hns,
    hpayments, ?_⟩
  rw [hthree]
  decide

end Balance

end SharedLedger
