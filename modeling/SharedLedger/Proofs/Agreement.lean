import SharedLedger.Proofs.MyBalances

/-!
# Balances agree

The view of a user and the balances of a group are calculated in different
ways: one walks the memberships of a user and looks at pairs from one side, the
other adds up all pairs of a group. They agree all the same, and the views of
two users agree with each other (`System.balances_agree`), because all of them
are sums over the same debts: the groups of a user hold every debt that concerns
the user, and each of these in one group only.
-/

namespace SharedLedger

namespace GroupBalances

/-- What a user has open in the group. -/
def netOf (b : GroupBalances) (userId : Int) : ℚ :=
  ((b.nets.find? fun n => n.userId = userId).map fun n => n.amount.value).getD 0

/-- What a debtor owes a creditor in the group. -/
def owed (b : GroupBalances) (creditor debtor : Int) : ℚ :=
  ((b.pairs.find? fun p => p.creditor = creditor ∧ p.debtor = debtor).map fun p =>
    p.amount.value).getD 0

end GroupBalances

namespace Tables

open Balance

variable {t : Tables} {u g : ℤ} {b : GroupBalances}

/-- What is owed between two users is the sum of their shares, also where they
have none. -/
theorem RightBalances.owed_eq (h : t.RightBalances g b) (c d : ℤ) :
    b.owed c d = t.owedBetween g fun k => k = (c, d) := by
  unfold GroupBalances.owed
  cases hfind : b.pairs.find? fun p => p.creditor = c ∧ p.debtor = d with
  | some p =>
    obtain ⟨rfl, rfl⟩ : p.creditor = c ∧ p.debtor = d := by simpa using List.find?_some hfind
    exact h.pairs.amount p (List.mem_of_find?_eq_some hfind)
  | none =>
    have hnone : ∀ x ∈ t.splitsOf g, t.parties? x ≠ some (c, d) := by
      intro x hx hp
      obtain ⟨p, hp, hc, hd⟩ := (h.pairs.occurs_iff c d).2 ⟨x, hx, hp⟩
      have hno := List.find?_eq_none.1 hfind p hp
      simp [hc, hd] at hno
    have hempty : ((t.splitsOf g).filter fun x => (t.parties? x).any fun k => k = (c, d)) = [] := by
      refine List.filter_eq_nil_iff.2 fun x hx hany => ?_
      obtain ⟨k, hk, hkey⟩ := (Option.any_eq_true ..).1 hany
      exact hnone x hx (by rw [hk, of_decide_eq_true hkey])
    unfold owedBetween
    rw [hempty]
    rfl

/-- The net of a user who is linked in a group weighs the debts of the group. -/
theorem RightBalances.netOf_eq (h : t.RightBalances g b)
    (hlinked : ∃ m ∈ t.membersOf g, m.userId = some u) :
    b.netOf u = weigh (t.debts.filter fun d => d.1.1 = g) fun j => balance (only u) j.2 := by
  have hnet : ∀ n ∈ b.nets, n.userId = u →
      n.amount.value = weigh (t.debts.filter fun d => d.1.1 = g) fun j => balance (only u) j.2 := by
    rintro n hn rfl
    rw [h.nets.amount n hn, ← weigh_owedRows, ← weigh_owedRows, ← weigh_sub, ← weigh_owedRows_eq]
    refine weigh_congr fun d _ => ?_
    simp only [balance, only, decide_eq_true_eq]
  unfold GroupBalances.netOf
  cases hfind : b.nets.find? fun n => n.userId = u with
  | some n =>
    exact hnet n (List.mem_of_find?_eq_some hfind) (by simpa using List.find?_some hfind)
  | none =>
    obtain ⟨n, hn, hnu⟩ := (h.nets.occurs_iff u).2 hlinked
    have hno := List.find?_eq_none.1 hfind n hn
    simp [hnu] at hno

/-- **The nets of a user's groups make up what is open for the user.** -/
theorem Consistent.sum_netOf (h : t.Consistent) {bal : ℤ → GroupBalances}
    (hbal : ∀ g ∈ t.linkedGroups u, t.RightBalances g.id (bal g.id)) :
    ((t.linkedGroups u).map fun g => (bal g.id).netOf u).sum =
      t.owedOverall (fun k => k.1 = u) - t.owedOverall fun k => k.2 = u := by
  have hgroup : ∀ g ∈ t.linkedGroups u, (bal g.id).netOf u =
      weigh (t.debts.filter fun d => d.1.1 = g.id) fun j => balance (only u) j.2 := by
    intro g hg
    exact (hbal g hg).netOf_eq (h.linked_iff_linkedGroups.2 (List.mem_map_of_mem hg))
  have hothers : ∀ j : ℤ × ℤ × ℤ, j.2.1 ≠ u → j.2.2 ≠ u → balance (only u) j.2 = 0 := by
    intro j hc hd
    simp [balance, only_of_ne hc, only_of_ne hd]
  have hsum := h.sum_weigh_groups (nodup_linkedGroups t u)
    (fun g => h.linked_iff_linkedGroups.1) hothers
  rw [List.map_map] at hsum
  rw [List.map_congr_left hgroup]
  -- what counts for the user facing everybody is the balance of the user alone
  exact hsum.trans (t.weigh_facing_one u)

end Tables

namespace Statement

/-- The balances of a group as they come out of the tables. -/
def balancesOf (t : Tables) (groupId : Int) : Except Failure GroupBalances :=
  ((pairsAndNets groupId).read t).bind fun b =>
    (Settlement.settle b.2).map fun ps => ⟨groupId, b.1, b.2, ps⟩

theorem read_pairsAndNets (t : Tables) (g : Int) :
    (pairsAndNets g).read t = (Failure.ofSum (Balance.pairs (t.owedRows g))).bind fun ps =>
      (Failure.ofSum (Balance.nets (t.membersOf g) ps)).map fun ns => (ps, ns) := by
  change ((pairs g).bind fun ps => (Plan.ask (.listMembers g)).bind fun ms =>
    (Plan.ofExcept (Failure.ofSum (Balance.nets ms ps))).bind fun ns => .done (ps, ns)).read t = _
  rw [Plan.read_bind, read_pairs]
  congr 1
  funext ps
  change ((Plan.ofExcept (Failure.ofSum (Balance.nets (t.membersOf g) ps))).bind fun ns =>
    .done (ps, ns)).read t = _
  rw [Plan.read_bind, Plan.read_ofExcept]
  cases Failure.ofSum (Balance.nets (t.membersOf g) ps) <;> rfl

/-- Where the shares can be added up, what comes out is right. -/
theorem exists_balancesOf {t : Tables} {g : ℤ} {k : ℕ} (h : t.Consistent)
    (hr : t.ExactShares g k) : ∃ b, balancesOf t g = .ok b ∧ t.RightBalances g b := by
  obtain ⟨b, hpairs, hnets, hps, hb⟩ := h.exists_rightBalances hr
  refine ⟨b, ?_, hb⟩
  have hread : (pairsAndNets g).read t = .ok (b.pairs, b.nets) := by
    rw [read_pairsAndNets, hpairs]
    change (Failure.ofSum (Balance.nets (t.membersOf g) b.pairs)).map _ = _
    rw [hnets]
    rfl
  unfold balancesOf
  rw [hread]
  change (Settlement.settle b.nets).map _ = _
  rw [hps, ← hb.groupId_eq]
  rfl

end Statement

namespace Action

variable {s : Store} {client : Client} {caller g : ℤ} {k : ℕ}

/-- A member who is served gets what comes out of the tables. -/
theorem run_groupBalances (h : s.tables.Consistent)
    (hlinked : ∃ m ∈ s.tables.membersOf g, m.userId = some caller) (hs : s.Serves client) :
    ∃ s', s.Unchanged client s' ∧ ((Action.groupBalances g).on caller).run client s =
      (s', some (Statement.balancesOf s.tables g)) := by
  have hg : s.tables.groups.contains g = true := h.contains_of_linked hlinked
  have hpermit := Access.permit_eq_ok hg hlinked
  obtain ⟨s₁, hs₁, hauthorize⟩ :=
    Access.drive_authorize_bind (α := GroupBalances) hs caller (.group g)
  obtain ⟨s₂, hs₂, hlookup⟩ := Operation.drive_single_bind (α := GroupBalances)
    (Statement.readOnly_pairsAndNets g) hs₁.serves
  rw [hpermit] at hauthorize
  rw [hs₁.tables_eq] at hlookup
  refine ⟨s₂, hs₁.trans hs₂, ?_⟩
  have hdrive : ((Action.groupBalances g).on caller).drive client s =
      (s₂, .outside (.done (Statement.balancesOf s.tables g))) := by
    refine (hauthorize _).trans ((hlookup _).trans ?_)
    unfold Statement.balancesOf
    cases (Statement.pairsAndNets g).read s.tables with
    | error e => rfl
    | ok b =>
      change Operation.drive client s₂ ((Operation.done (Settlement.settle b.2)).bind fun ps =>
        .done (.ok (⟨g, b.1, b.2, ps⟩ : GroupBalances))) = _
      simp only [Except.bind]
      cases Settlement.settle b.2 <;> rfl
  unfold Operation.run
  rw [hdrive]
  rfl

end Action

namespace Sample

/-- The shares of the small ledger are whole cents. -/
theorem exactStore_trip : trip.store.tables.ExactStore 2 := by
  have hhalves : ∀ s ∈ trip.store.tables.shares.toList, s.amount.value = 15 := by
    decide +kernel
  have htotal : (trip.store.tables.shares.toList.map fun s => s.amount.value).sum = 30 := by
    decide +kernel
  refine ⟨fun d hd => ⟨1500, ?_⟩, ?_⟩
  · obtain ⟨s, hs, rfl⟩ := List.mem_map.1 hd
    rw [hhalves s hs]
    norm_num
  · rw [List.map_map]
    refine lt_of_eq_of_lt (congrArg (· * (10 : ℚ) ^ 2) htotal) ?_
    norm_num

/-- A client that stays is always served. -/
theorem serves_client (s : Store) : s.Serves client := ⟨rfl, nofun⟩

end Sample

namespace System

variable {service : Service} {sys : System} {client : Client} {k : ℕ}

/-- **Balances agree**, in every system that can come about in which all shares
can be added up without rounding. What is open between two users is the same for
both, up to the sign. The net of a user is the sum of the user's nets in the
groups. Each entry by group is what is owed less what is owed back in the pairs
of the group. And every sum in the view counts each debt once. -/
theorem balances_agree (h : Reachable service sys) (hshares : sys.store.tables.ExactStore k)
    (hclient : sys.store.Serves client) (now : ℕ) (a b : ℤ) :
    ∃ (va vb : UserBalances) (bal : ℤ → GroupBalances),
      (∃ s, (service.operation now (.myBalances a)).run client sys.store = (s, some (.ok va))) ∧
      (∃ s, (service.operation now (.myBalances b)).run client sys.store = (s, some (.ok vb))) ∧
      (∀ g ∈ sys.store.tables.linkedGroups a,
        ∃ s, (service.operation now (.act a (.groupBalances g.id))).run client sys.store =
          (s, some (.ok (bal g.id)))) ∧
      va.netWith b = -vb.netWith a ∧
      va.net.value = ((sys.store.tables.linkedGroups a).map fun g => (bal g.id).netOf a).sum ∧
      (∀ p ∈ va.byGroup, (∃ g ∈ sys.store.tables.linkedGroups a, g.id = p.groupId) ∧
        p.net.value = (bal p.groupId).owed a p.otherId - (bal p.groupId).owed p.otherId a) ∧
      sys.store.tables.RightView a va := by
  have hcons : sys.store.tables.Consistent := h.sound.consistent
  obtain ⟨sa, va, hva, ha⟩ := myBalances_exact h (hcons.exactUser_of_store hshares a) hclient now
  obtain ⟨sb, vb, hvb, hb⟩ := myBalances_exact h (hcons.exactUser_of_store hshares b) hclient now
  have hgroups : ∀ g, ∃ bal : GroupBalances, (∃ m ∈ sys.store.tables.membersOf g, m.userId = some a) →
      sys.store.tables.RightBalances g bal ∧
        ∃ s, (service.operation now (.act a (.groupBalances g))).run client sys.store =
          (s, some (.ok bal)) := by
    intro g
    by_cases hlinked : ∃ m ∈ sys.store.tables.membersOf g, m.userId = some a
    · obtain ⟨bal, hout, hbal⟩ :=
        Statement.exists_balancesOf hcons (hcons.exactShares_of_store hshares g)
      obtain ⟨s, -, hrun⟩ := Action.run_groupBalances hcons hlinked hclient
      rw [hout] at hrun
      exact ⟨bal, fun _ => ⟨hbal, s, hrun⟩⟩
    · exact ⟨⟨g, [], [], []⟩, fun hmem => absurd hmem hlinked⟩
  choose bal hbal using hgroups
  have hlinked : ∀ g ∈ sys.store.tables.linkedGroups a,
      ∃ m ∈ sys.store.tables.membersOf g.id, m.userId = some a :=
    fun g hg => hcons.linked_iff_linkedGroups.2 (List.mem_map_of_mem hg)
  refine ⟨va, vb, bal, ⟨sa, hva⟩, ⟨sb, hvb⟩, fun g hg => (hbal _ (hlinked g hg)).2, ?_, ?_, ?_, ha⟩
  · rw [ha.byUser, hb.byUser, neg_sub]
  · rw [ha.net, hcons.sum_netOf fun g hg => (hbal _ (hlinked g hg)).1]
  · intro p hp
    have hmember := ha.linked p hp
    obtain ⟨g, hg, hid⟩ := List.mem_map.1 (hcons.linked_iff_linkedGroups.1 hmember)
    refine ⟨⟨g, hg, hid⟩, ?_⟩
    rw [ha.byGroup p hp, (hbal _ hmember).1.owed_eq, (hbal _ hmember).1.owed_eq]

/-- The two users of the small ledger see the same fifteen from two sides. -/
theorem balances_agree_trip :
    (Sample.trip.store.tables.ExactStore 2 ∧ Sample.trip.store.Serves Sample.client) ∧
    ∃ va vb : UserBalances,
      (∃ s, (Sample.service.operation 0 (.myBalances 1)).run Sample.client Sample.trip.store =
        (s, some (.ok va))) ∧
      (∃ s, (Sample.service.operation 0 (.myBalances 2)).run Sample.client Sample.trip.store =
        (s, some (.ok vb))) ∧
      va.netWith 2 = 15 ∧ vb.netWith 1 = -15 := by
  obtain ⟨va, vb, bal, hva, hvb, -, hagree, -, -, hright⟩ :=
    balances_agree Sample.reachable_trip Sample.exactStore_trip (Sample.serves_client _) 0 1 2
  have hnet : va.netWith 2 = 15 := by
    rw [hright.byUser]
    decide +kernel
  refine ⟨⟨Sample.exactStore_trip, Sample.serves_client _⟩, va, vb, hva, hvb, hnet, ?_⟩
  rw [← neg_neg (vb.netWith 1), ← hagree, hnet]

end System

end SharedLedger
