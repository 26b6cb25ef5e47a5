import SharedLedger.Proofs.Debts
import SharedLedger.Proofs.Isolation
import SharedLedger.Proofs.Serving
import SharedLedger.Proofs.Settlement

/-!
# The balances of a group

Whatever led to the committed tables, a member of a group who asks for its
balances gets them, as long as the shares of the group can be added up without
rounding, and they are right (`System.groupBalances_exact`): pairs and nets are
the sums of the debts in the tables, and the payments bring every net to zero.
-/

namespace SharedLedger

/-- What a user has open after a payment. -/
def Payment.settling (userId : Int) (rest : ℚ) (p : Payment) : ℚ :=
  rest + (if p.payer = userId then p.amount.value else 0)
    - (if p.payee = userId then p.amount.value else 0)

namespace Tables

/-- **The right pairs of a group**: all creditors and debtors of its shares,
each pair once and in order, with the sum of what is owed between them. -/
structure RightPairs (t : Tables) (groupId : Int) (ps : List Owed) : Prop where
  ascending : ps.Pairwise fun p q =>
    p.creditor < q.creditor ∨ p.creditor = q.creditor ∧ p.debtor < q.debtor
  distinct : ∀ p ∈ ps, p.creditor ≠ p.debtor
  occurs_iff : ∀ c d, (∃ p ∈ ps, p.creditor = c ∧ p.debtor = d) ↔
    ∃ x ∈ t.splitsOf groupId, t.parties? x = some (c, d)
  amount : ∀ p ∈ ps, p.amount.value = t.owedBetween groupId fun k => k = (p.creditor, p.debtor)

/-- **The right nets of a group**: all users linked in it, each once and in
order, with what they are owed less what they owe. -/
structure RightNets (t : Tables) (groupId : Int) (ns : List Net) : Prop where
  ascending : ns.Pairwise fun m n => m.userId < n.userId
  occurs_iff : ∀ u, (∃ n ∈ ns, n.userId = u) ↔ ∃ m ∈ t.membersOf groupId, m.userId = some u
  amount : ∀ n ∈ ns, n.amount.value =
    t.owedBetween groupId (fun k => k.1 = n.userId) - t.owedBetween groupId fun k => k.2 = n.userId
  sum : (ns.map fun n => n.amount.value).sum = 0

/-- **The right balances of a group.** -/
structure RightBalances (t : Tables) (groupId : Int) (b : GroupBalances) : Prop where
  groupId_eq : b.groupId = groupId
  pairs : t.RightPairs groupId b.pairs
  nets : t.RightNets groupId b.nets
  settled : ∀ n ∈ b.nets, b.payments.foldl (Payment.settling n.userId) n.amount.value = 0

end Tables

theorem Payment.foldl_settling (u : Int) (x : ℚ) (ps : List Payment) :
    ps.foldl (settling u) x
      = x + weigh (ps.map made) (only u) - weigh (ps.map received) (only u) := by
  induction ps generalizing x with
  | nil => simp
  | cons p ps ih =>
    have hstep : settling u x p
        = x + only u p.payer * p.amount.value - only u p.payee * p.amount.value := by
      simp [settling, only]
    rw [List.foldl_cons, ih, hstep, List.map_cons, List.map_cons, weigh_cons, weigh_cons]
    simp only [made, received]
    ring

namespace Balance

open Tally Tables

variable {t : Tables} {g : ℤ} {k : ℕ} {pairs : PairTally} {nets : UserTally}

/-- Sums over the debts of the tables make the right pairs. -/
theorem rightPairs_listed (h : t.Consistent)
    (hw : ∀ f, weigh pairs.toList f = weigh ((t.owedRows g).map Owed.keyed) f)
    (hc : ∀ k, pairs.contains k = true ↔ ∃ r ∈ t.owedRows g, (r.creditor, r.debtor) = k) :
    t.RightPairs g (listed pairs) := by
  have hoccurs : ∀ c d, (∃ p ∈ listed pairs, p.creditor = c ∧ p.debtor = d) ↔
      ∃ x ∈ t.splitsOf g, t.parties? x = some (c, d) := by
    intro c d
    rw [exists_mem_listed, hc]
    constructor
    · rintro ⟨r, hr, hk⟩
      obtain ⟨x, hx, hp, -⟩ := mem_owedRows.1 hr
      exact ⟨x, hx, hk ▸ hp⟩
    · rintro ⟨x, hx, hp⟩
      exact ⟨⟨c, d, x.2.amount⟩, mem_owedRows.2 ⟨x, hx, hp, rfl⟩, rfl⟩
  refine ⟨ascending_listed pairs, fun p hp => ?_, hoccurs, fun p hp => ?_⟩
  · obtain ⟨x, hx, hparties⟩ := (hoccurs p.creditor p.debtor).1 ⟨p, hp, rfl, rfl⟩
    exact h.parties_ne hx hparties
  · rw [value_of_mem_listed hp, hw, ← weigh_owedRows]
    refine weigh_congr fun b _ => ?_
    simp only [only, decide_eq_true_eq]

/-- Credits less debts make the right nets. -/
theorem rightNets_listed (h : t.Consistent)
    (hw : ∀ f, weigh nets.toList f = weigh ((t.owedRows g).map Owed.keyed) (balance f))
    (hc : ∀ u, nets.contains u = true ↔
      (∃ m ∈ t.membersOf g, m.userId = some u) ∨ ∃ p ∈ listed pairs, p.creditor = u ∨ p.debtor = u)
    (hp : t.RightPairs g (listed pairs)) :
    t.RightNets g (listedNets nets) := by
  refine ⟨ascending_listedNets nets, fun u => ?_, fun n hn => ?_, ?_⟩
  · rw [exists_mem_listedNets, hc]
    -- whoever occurs in a pair is linked in the group anyway
    refine ⟨?_, Or.inl⟩
    rintro (hlinked | ⟨p, hp', hu⟩)
    · exact hlinked
    · obtain ⟨x, hx, hparties⟩ := (hp.occurs_iff p.creditor p.debtor).1 ⟨p, hp', rfl, rfl⟩
      obtain ⟨m, hm, o, ho, -, hmu, hou⟩ := h.members_of_parties hx hparties
      rcases hu with rfl | rfl
      · exact ⟨m, hm, hmu⟩
      · exact ⟨o, ho, hou⟩
  · rw [value_of_mem_listedNets hn, hw, ← weigh_owedRows, ← weigh_owedRows, ← weigh_sub]
    refine weigh_congr fun b _ => ?_
    simp only [balance, only, decide_eq_true_eq]
  · rw [sum_listedNets, hw]
    exact weigh_balance_one _

/-- The nets can be settled. -/
theorem settleable_nets {l : List ((Int × Int) × Decimal)} (h : ExactRange k l)
    (hw : ∀ f, weigh nets.toList f = weigh l (balance f)) : Settlement.Settleable k nets where
  sum := by
    rw [hw]
    exact weigh_balance_one l
  grid a ha := by
    rw [value_of_mem ha, hw]
    exact h.onGrid (whole_balance_only a.1)
  range f hf := by
    rw [hw]
    refine h.inRange fun j => ?_
    unfold balance
    rcases hf j.1 with h₁ | h₁ <;> rcases hf j.2 with h₂ | h₂ <;> simp [h₁, h₂]

end Balance

/-- **Balances are right**: where the shares of a group can be added up, its
pairs, its nets and the payments are all found, and they are right. -/
theorem Tables.Consistent.exists_rightBalances {t : Tables} {g : ℤ} {k : ℕ} (h : t.Consistent)
    (hr : t.ExactShares g k) :
    ∃ b : GroupBalances, Balance.pairs (t.owedRows g) = .ok b.pairs ∧
      Balance.nets (t.membersOf g) b.pairs = .ok b.nets ∧ Settlement.settle b.nets = .ok b.payments ∧
      t.RightBalances g b := by
  have hrows := h.exactRange_owedRows hr
  obtain ⟨pairs, hpairs, hpw, hpc⟩ := Balance.pairs_exact hrows.signed
  have hp : t.RightPairs g (Balance.listed pairs) := Balance.rightPairs_listed h hpw hpc
  have hrange : ExactRange k ((Balance.listed pairs).map Owed.keyed) := by
    rw [Balance.keyed_listed]
    exact Tally.exactRange_of_weigh hrows hpw
  obtain ⟨nets, hnets, hnw, hnc⟩ := Balance.nets_exact (t.membersOf g) hrange.signed
  have hw : ∀ f, weigh nets.toList f = weigh ((t.owedRows g).map Owed.keyed) (Balance.balance f) := by
    intro f
    rw [hnw, Balance.keyed_listed, hpw]
  have hn := Balance.rightNets_listed h hw hnc hp
  obtain ⟨ps, hps, -, hrec, hmade⟩ := Settlement.settle_exact (Balance.settleable_nets hrows hw)
  refine ⟨⟨g, Balance.listed pairs, _, ps⟩, hpairs, hnets, hps, rfl, hp, hn, fun n hn => ?_⟩
  obtain ⟨a, ha, rfl⟩ := List.mem_map.1 hn
  rw [Payment.foldl_settling, Tally.value_of_mem ha]
  exact Settlement.weigh_even hrec hmade (only a.1)

/-! ## On the store -/

namespace Statement

variable {t : Tables} {g : ℤ} {b : GroupBalances}

theorem alone_pairsAndNets (hp : Balance.pairs (t.owedRows g) = .ok b.pairs)
    (hn : Balance.nets (t.membersOf g) b.pairs = .ok b.nets) (ids : Stream' Int) :
    (pairsAndNets g).alone t ids = .ok ⟨(b.pairs, b.nets), [], [], t, ids⟩ := by
  refine (Plan.alone_query rfl rfl).2 ?_
  change ((Plan.ofExcept (Failure.ofSum (Balance.pairs (t.owedRows g)))).bind _).alone t ids = _
  refine Plan.alone_ofExcept.2 ⟨b.pairs, by rw [hp]; rfl, ?_⟩
  refine (Plan.alone_query rfl rfl).2 ?_
  exact Plan.alone_ofExcept.2 ⟨b.nets, by rw [hn]; rfl, rfl⟩

end Statement

namespace System

variable {service : Service} {sys : System} {client : Client} {caller g : ℤ} {k : ℕ}

/-- **A member who asks for the balances of a group gets them, and they are
right**, in every system that can come about. -/
theorem groupBalances_exact (h : Reachable service sys)
    (hcaller : ∃ m ∈ sys.store.tables.membersOf g, m.userId = some caller)
    (hshares : sys.store.tables.ExactShares g k) (hclient : sys.store.Serves client) (now : ℕ) :
    ∃ s b, (service.operation now (.act caller (.groupBalances g))).run client sys.store =
        (s, some (.ok b)) ∧ sys.store.tables.RightBalances g b := by
  have hcons : sys.store.tables.Consistent := h.sound.consistent
  obtain ⟨b, hpairs, hnets, hps, hb⟩ := hcons.exists_rightBalances hshares
  -- a member's group exists, so the look-up before the authorization finds it
  have hg : sys.store.tables.groups.contains g = true := by
    obtain ⟨m, hm, -⟩ := hcaller
    rw [Tables.mem_membersOf] at hm
    exact hm.2 ▸ hcons.member_group m hm.1
  obtain ⟨s₁, ht, hs, hauthorize⟩ :=
    Access.drive_authorize (α := GroupBalances) hg hcaller hclient
  rw [← ht] at hpairs hnets
  have ids : Stream' Int := Stream'.const 0
  obtain ⟨s₂, -, -, hlookup⟩ := Operation.drive_transaction (α := GroupBalances)
    (Statement.readOnly_pairsAndNets g) hs (Statement.alone_pairsAndNets hpairs hnets ids)
  refine ⟨s₂, b, ?_, hb⟩
  have hdrive : (service.operation now (.act caller (.groupBalances g))).drive client sys.store
      = (s₂, .outside (.done (.ok b))) := by
    refine (hauthorize _).trans ((hlookup _).trans ?_)
    change Operation.drive client s₂ ((Operation.done (Settlement.settle b.nets)).bind fun ps =>
      .done (.ok (⟨g, b.pairs, b.nets, ps⟩ : GroupBalances))) = _
    rw [hps, ← hb.groupId_eq]
    rfl
  unfold Operation.run
  rw [hdrive]
  rfl

/-- The two users of the small ledger look up the dinner they shared. -/
theorem groupBalances_trip :
    ((∃ m ∈ Sample.trip.store.tables.membersOf 3, m.userId = some 1) ∧
      Sample.trip.store.tables.ExactShares 3 2 ∧ Sample.trip.store.Serves Sample.client) ∧
    ∃ s b, (Sample.service.operation 0 (.act 1 (.groupBalances 3))).run Sample.client
        Sample.trip.store = (s, some (.ok b)) ∧ Sample.trip.store.tables.RightBalances 3 b := by
  have hcaller : ∃ m ∈ Sample.trip.store.tables.membersOf 3, m.userId = some 1 := by
    decide +kernel
  have hhalves : ∀ x ∈ Sample.trip.store.tables.splitsOf 3, x.2.amount.value = 15 := by
    decide +kernel
  have htotal : ((Sample.trip.store.tables.splitsOf 3).map fun x => x.2.amount.value).sum = 30 := by
    decide +kernel
  have hshares : Sample.trip.store.tables.ExactShares 3 2 := by
    refine ⟨fun x hx => ⟨1500, ?_⟩, ?_⟩
    · rw [hhalves x hx]
      norm_num
    · rw [htotal]
      norm_num
  have hclient : Sample.trip.store.Serves Sample.client :=
    ⟨by decide +kernel, fun _ => by decide +kernel⟩
  exact ⟨⟨hcaller, hshares, hclient⟩,
    groupBalances_exact Sample.reachable_trip hcaller hshares hclient 0⟩

end System

end SharedLedger
