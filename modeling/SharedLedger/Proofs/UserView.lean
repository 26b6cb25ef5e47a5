import SharedLedger.Proofs.Aggregation
import SharedLedger.Proofs.Signed

/-!
# What is open for a user

A user's view counts every pair of the user's groups that the user is part of,
for the user as creditor and against the user as debtor (`Balance.posting?`).
In range, all its sums are exact (`Balance.userView_exact`): those by group,
those by user and the net are three weighted sums of the same postings.
`Balance.weigh_postings` says what these are worth in terms of the pairs.
-/

namespace SharedLedger

/-- What is open between the user and another over all groups. -/
def UserBalances.netWith (v : UserBalances) (otherId : Int) : ℚ :=
  ((v.byUser.find? fun p => p.otherId = otherId).map fun p => p.net.value).getD 0

namespace Balance

open Tally

variable {n : ℕ} {u : ℤ} {groups : List (ℤ × List Owed)}

/-- How a pair of a group counts for a user, if it does. -/
def posting? (u : Int) (x : Int × Owed) : Option ((Int × Int) × Decimal) :=
  if x.2.creditor = u then some ((x.1, x.2.debtor), x.2.amount)
  else if x.2.debtor = u then some ((x.1, x.2.creditor), x.2.amount.neg)
  else none

/-- The pairs of all groups, one after the other. -/
def pairsIn (groups : List (Int × List Owed)) : List (Int × Owed) :=
  groups.flatMap fun g => g.2.map fun p => (g.1, p)

/-- All that counts for or against a user. -/
def postings (u : Int) (groups : List (Int × List Owed)) : List ((Int × Int) × Decimal) :=
  (pairsIn groups).filterMap (posting? u)

/-- What weighs `f` by group and other user, in terms of group, creditor and
debtor. -/
def facing (u : Int) (f : Int × Int → ℚ) (j : Int × Int × Int) : ℚ :=
  (if j.2.1 = u then f (j.1, j.2.2) else 0) - if j.2.2 = u then f (j.1, j.2.1) else 0

/-! ## What the postings are worth -/

/-- Who counts for a user, or against. -/
theorem posting?_eq_some {x : Int × Owed} {a : (Int × Int) × Decimal} (h : posting? u x = some a) :
    (x.2.creditor = u ∧ a = ((x.1, x.2.debtor), x.2.amount)) ∨
      (x.2.debtor = u ∧ a = ((x.1, x.2.creditor), x.2.amount.neg)) := by
  unfold posting? at h
  split at h
  · next hc => exact .inl ⟨hc, (Option.some.inj h).symm⟩
  · split at h
    · next hd => exact .inr ⟨hd, (Option.some.inj h).symm⟩
    · cases h

theorem mem_postings {a : (Int × Int) × Decimal} :
    a ∈ postings u groups ↔ ∃ g ∈ groups, ∃ p ∈ g.2, posting? u (g.1, p) = some a := by
  simp only [postings, pairsIn, List.mem_filterMap, List.mem_flatMap, List.mem_map]
  constructor
  · rintro ⟨_, ⟨g, hg, p, hp, rfl⟩, ha⟩
    exact ⟨g, hg, p, hp, ha⟩
  · rintro ⟨g, hg, p, hp, ha⟩
    exact ⟨_, ⟨g, hg, p, hp, rfl⟩, ha⟩

/-- What counts for a user is from one of the groups. -/
theorem exists_group_of_mem {a : (Int × Int) × Decimal} (h : a ∈ postings u groups) :
    ∃ g ∈ groups, g.1 = a.1.1 := by
  obtain ⟨g, hg, p, -, ha⟩ := mem_postings.1 h
  refine ⟨g, hg, ?_⟩
  rcases posting?_eq_some ha with ⟨-, rfl⟩ | ⟨-, rfl⟩ <;> rfl

theorem postings_cons (g : Int × List Owed) (groups : List (Int × List Owed)) :
    postings u (g :: groups) =
      (g.2.filterMap fun p => posting? u (g.1, p)) ++ postings u groups := by
  rw [postings, pairsIn, List.flatMap_cons, List.filterMap_append, List.filterMap_map]
  rfl

/-- The postings of one group weigh what its pairs weigh. -/
theorem weigh_postings_group {g : ℤ} {ps : List Owed} (hne : ∀ p ∈ ps, p.creditor ≠ p.debtor)
    (f : Int × Int → ℚ) :
    weigh (ps.filterMap fun p => posting? u (g, p)) f =
      weigh (ps.map Owed.keyed) fun k => facing u f (g, k) := by
  induction ps with
  | nil => rfl
  | cons p ps ih =>
    obtain ⟨hp, hps⟩ := List.forall_mem_cons.1 hne
    rw [List.map_cons, weigh_cons, ← ih hps, List.filterMap_cons]
    -- creditor and debtor are two, so the pair counts once at most
    by_cases hc : p.creditor = u
    · have hd : p.debtor ≠ u := fun hd => hp (hc.trans hd.symm)
      simp [posting?, facing, Owed.keyed, hc, hd]
    · by_cases hd : p.debtor = u
      · simp [posting?, facing, Owed.keyed, hc, hd]
      · simp [posting?, facing, Owed.keyed, hc, hd]

/-- **The postings of a user weigh what the pairs weigh that concern the
user.** -/
theorem weigh_postings (hne : ∀ g ∈ groups, ∀ p ∈ g.2, p.creditor ≠ p.debtor) (f : Int × Int → ℚ) :
    weigh (postings u groups) f =
      (groups.map fun g => weigh (g.2.map Owed.keyed) fun k => facing u f (g.1, k)).sum := by
  induction groups with
  | nil => rfl
  | cons g groups ih =>
    obtain ⟨hg, hgroups⟩ := List.forall_mem_cons.1 hne
    rw [postings_cons, weigh_append, List.map_cons, List.sum_cons, weigh_postings_group hg,
      ih hgroups]

theorem keyed_pairsIn (groups : List (Int × List Owed)) :
    (pairsIn groups).map (fun x => x.2.keyed) = groups.flatMap fun g => g.2.map Owed.keyed := by
  simp [pairsIn, List.map_flatMap, Function.comp_def]

/-- No more counts for or against a user than there is. -/
theorem sizes_postings_le (u : Int) (xs : List (Int × Owed)) :
    sizes ((xs.filterMap (posting? u)).map Prod.snd) ≤ sizes (xs.map fun x => x.2.amount) := by
  induction xs with
  | nil => exact le_rfl
  | cons x xs ih =>
    have hsize : ∀ a ∈ posting? u x, |a.2.value| = |x.2.amount.value| := by
      intro a ha
      rcases posting?_eq_some ha with ⟨-, rfl⟩ | ⟨-, rfl⟩
      · rfl
      · rw [Decimal.value_neg, abs_neg]
    rw [List.map_cons, sizes_cons, List.filterMap_cons]
    cases hp : posting? u x with
    | none => exact ih.trans (le_add_of_nonneg_left (abs_nonneg _))
    | some a =>
      rw [List.map_cons, sizes_cons, hsize a hp]
      exact add_le_add le_rfl ih

/-- The postings of a user are in range where the pairs are. -/
theorem signedRange_postings (h : SignedRange n (groups.flatMap fun g => g.2.map Owed.keyed)) :
    SignedRange n (postings u groups) where
  grid a ha := by
    obtain ⟨g, hg, p, hp, ha⟩ := mem_postings.1 ha
    have hgrid : OnGrid n p.amount.value :=
      h.grid p.keyed (List.mem_flatMap.2 ⟨g, hg, List.mem_map_of_mem hp⟩)
    rcases posting?_eq_some ha with ⟨-, rfl⟩ | ⟨-, rfl⟩
    · exact hgrid
    · exact (Decimal.value_neg _).symm ▸ hgrid.neg
  total := by
    refine inRange_sizes_mono h.total ?_
    rw [← keyed_pairsIn, List.map_map]
    exact sizes_postings_le u (pairsIn groups)

/-! ## Counting the pairs -/

theorem positions_eq (u : Int) (groups : List (Int × List Owed)) :
    positions u groups =
      (pairsIn groups).foldlM (fun t x => countPair u x.1 t x.2) Index.empty := by
  unfold positions
  generalize (Index.empty : PairTally) = t
  induction groups generalizing t with
  | nil => rfl
  | cons g groups ih =>
    rw [List.foldlM_cons, pairsIn, List.flatMap_cons, List.foldlM_append, List.foldlM_map]
    exact bind_congr fun t' => ih t'

/-- Counting a pair posts what it counts. -/
theorem countPair_exact {l : List ((Int × Int) × Decimal)} {t : PairTally} {x : Int × Owed}
    (h : SignedRange n (l ++ (posting? u x).toList)) (hw : ∀ f, weigh t.toList f = weigh l f) :
    ∃ t', countPair u x.1 t x.2 = .ok t' ∧
      (∀ f, weigh t'.toList f = weigh (l ++ (posting? u x).toList) f) ∧
      ∀ j, t'.contains j = true ↔ t.contains j = true ∨ ∃ a ∈ posting? u x, a.1 = j := by
  have hposted : ∀ {t' : PairTally} {a : (Int × Int) × Decimal}, Posted t t' a.1 a.2.value →
      (∀ f, weigh t'.toList f = weigh (l ++ [a]) f) ∧
        ∀ j, t'.contains j = true ↔ t.contains j = true ∨ ∃ b ∈ some a, b.1 = j := by
    intro t' a hpost
    refine ⟨fun f => ?_, fun j => (hpost.contains j).trans (or_congr_right ?_)⟩
    · rw [hpost.weigh, hw, weigh_append, weigh_cons, weigh_nil, add_zero]
    · exact ⟨fun hj => ⟨a, rfl, hj.symm⟩, fun ⟨b, hb, hj⟩ => by cases hb; exact hj.symm⟩
  unfold countPair
  by_cases hc : x.2.creditor = u
  -- the user is owed the amount
  · have hp : posting? u x = some ((x.1, x.2.debtor), x.2.amount) := if_pos hc
    rw [hp] at h ⊢
    obtain ⟨c, hadd, hpost⟩ := add_signed h hw
    refine ⟨t.put ((x.1, x.2.debtor), c), ?_, hposted hpost⟩
    rw [if_pos hc]
    change ((Tally.held t (x.1, x.2.debtor)).add x.2.amount >>= _) = _
    rw [hadd]
    rfl
  by_cases hd : x.2.debtor = u
  -- the user owes it
  · have hp : posting? u x = some ((x.1, x.2.creditor), x.2.amount.neg) :=
      (if_neg hc).trans (if_pos hd)
    rw [hp] at h ⊢
    obtain ⟨c, hsub, hpost⟩ := sub_signed h hw
    refine ⟨t.put ((x.1, x.2.creditor), c), ?_, hposted hpost⟩
    rw [if_neg hc, if_pos hd]
    change ((Tally.held t (x.1, x.2.creditor)).sub x.2.amount >>= _) = _
    rw [hsub]
    rfl
  · have hp : posting? u x = none := (if_neg hc).trans (if_neg hd)
    rw [hp]
    refine ⟨t, ?_, fun f => ?_, fun j => ?_⟩
    · rw [if_neg hc, if_neg hd]
    · rw [hw, Option.toList_none, List.append_nil]
    · exact ⟨.inl, fun hj => hj.elim id fun ⟨_, ha, _⟩ => by cases ha⟩

/-- **The sums by group and other user are exact.** -/
theorem positions_exact (h : SignedRange n (postings u groups)) :
    ∃ t : PairTally, positions u groups = .ok t ∧
      (∀ f, weigh t.toList f = weigh (postings u groups) f) ∧
      ∀ j, t.contains j = true ↔ ∃ a ∈ postings u groups, a.1 = j := by
  have hsnoc : ∀ (xs : List (Int × Owed)) x, (xs ++ [x]).filterMap (posting? u) =
      xs.filterMap (posting? u) ++ (posting? u x).toList := by
    intro xs x
    rw [List.filterMap_append, List.filterMap_cons]
    cases posting? u x <;> rfl
  rw [positions_eq]
  unfold postings at h ⊢
  -- after any number of pairs the tally weighs what these post
  refine foldlM_ok (fun done (t : PairTally) =>
    (∀ f, weigh t.toList f = weigh (done.filterMap (posting? u)) f) ∧
    ∀ j, t.contains j = true ↔ ∃ a ∈ done.filterMap (posting? u), a.1 = j)
    ⟨fun _ => rfl, fun j => ⟨fun h => (by cases h), fun ⟨_, h, _⟩ => (by cases h)⟩⟩ ?_
  rintro done x rest t hall ⟨hw, hc⟩
  have hdone : SignedRange n (done.filterMap (posting? u) ++ (posting? u x).toList) := by
    rw [hall, List.append_cons, List.filterMap_append, hsnoc] at h
    exact h.left
  obtain ⟨t', ht', hw', hc'⟩ := countPair_exact hdone hw
  refine ⟨t', ht', fun f => by rw [hw', hsnoc], fun j => ?_⟩
  rw [hc', hc, hsnoc]
  simp only [List.mem_append, Option.mem_toList, Option.mem_def, or_and_right, exists_or]

/-! ## The view -/

/-- **A view that is a sum of the postings of its user**: by group and other
user, by other user, and as a whole. -/
structure ExactView (u : Int) (groups : List (Int × List Owed)) (v : UserBalances) : Prop where
  group : ∀ p ∈ v.byGroup, ∃ g ∈ groups, g.1 = p.groupId
  byGroup : ∀ p ∈ v.byGroup, p.net.value = weigh (postings u groups) (only (p.groupId, p.otherId))
  byUser : ∀ o, v.netWith o = weigh (postings u groups) fun j => only o j.2
  net : v.net.value = weigh (postings u groups) fun _ => 1

/-- What a view says about another user is what the tally of it has. -/
theorem netWith_eq {byUser : UserTally} {v : UserBalances}
    (hv : v.byUser = byUser.toList.map fun a => ⟨a.1, a.2⟩) (o : Int) :
    v.netWith o = weigh byUser.toList (only o) := by
  rw [weigh_only]
  unfold UserBalances.netWith Tally.held Index.find?
  rw [hv, List.find?_map]
  simp only [Function.comp_def]
  cases byUser.toList.find? fun a => decide (a.1 = o) <;> simp

/-- **A view that lists two tallies**: of what counts by group and other user, and
of the same by other user alone. -/
structure Listing (l : List ((Int × Int) × Decimal)) (byGroup : PairTally) (byUser : UserTally)
    (v : UserBalances) : Prop where
  byGroup_eq : v.byGroup = byGroup.toList.map fun a => ⟨a.1.1, a.1.2, a.2⟩
  byUser_eq : v.byUser = byUser.toList.map fun a => ⟨a.1, a.2⟩
  weigh_byGroup : ∀ f, weigh byGroup.toList f = weigh l f
  contains_byGroup : ∀ j, byGroup.contains j = true ↔ ∃ a ∈ l, a.1 = j
  weigh_byUser : ∀ f, weigh byUser.toList f = weigh byGroup.toList fun j => f j.2
  contains_byUser : ∀ o, byUser.contains o = true ↔ ∃ a ∈ byGroup.toList, a.1.2 = o
  owedToUser : v.owedToUser.value = (byUser.toList.map fun a => max a.2.value 0).sum
  owedByUser : v.owedByUser.value = (byUser.toList.map fun a => max (-a.2.value) 0).sum
  net : v.net.value = weigh byUser.toList fun _ => 1

/-- In range there is a view, and it lists what counts for the user and against. -/
theorem exists_listing (h : SignedRange n (postings u groups)) :
    ∃ byGroup byUser v, userView u groups = .ok v ∧ v.userId = u ∧
      Listing (postings u groups) byGroup byUser v := by
  obtain ⟨byGroup, hpositions, hgroup, hoccurs⟩ := positions_exact h
  have hrekeyed := (signedRange_of_weigh h hgroup).rekey Prod.snd
  obtain ⟨byUser, hregroup, huser, husers⟩ := UserTally.addAll_exact hrekeyed
  have hrange := signedRange_of_weigh hrekeyed huser
  have hgrid : ∀ d ∈ byUser.toList.map Prod.snd, OnGrid n d.value := by
    intro d hd
    obtain ⟨a, ha, rfl⟩ := List.mem_map.1 hd
    exact hrange.grid a ha
  obtain ⟨owed, owes, net, howed, howes, hnet, howedv, howesv, hnetv⟩ :=
    Decimal.exists_totals hgrid hrange.total
  have hview : userView u groups = .ok ⟨u, byGroup.toList.map fun a => ⟨a.1.1, a.1.2, a.2⟩,
      byUser.toList.map fun a => ⟨a.1, a.2⟩, owed, owes.neg, net⟩ := by
    rw [List.foldlM_map] at hregroup
    unfold userView
    rw [hpositions]
    simp only [bind, Except.bind, hregroup, howed, howes, hnet]
    rfl
  rw [List.map_map] at howedv howesv hnetv
  refine ⟨byGroup, byUser, _, hview, rfl, rfl, rfl, hgroup, hoccurs, fun f => ?_, fun o => ?_,
    howedv, howesv, ?_⟩
  · rw [huser, weigh_rekey]
  · rw [husers]
    simp only [List.mem_map, exists_exists_and_eq_and]
  · rw [hnetv]
    simp [weigh, Function.comp_def]

/-- **The view of a user is exact.** -/
theorem userView_exact (h : SignedRange n (postings u groups)) :
    ∃ v, userView u groups = .ok v ∧ ExactView u groups v := by
  obtain ⟨byGroup, byUser, v, hv, -, hlist⟩ := exists_listing h
  refine ⟨v, hv, fun p hp => ?_, fun p hp => ?_, fun o => ?_, ?_⟩
  · rw [hlist.byGroup_eq] at hp
    obtain ⟨a, ha, rfl⟩ := List.mem_map.1 hp
    obtain ⟨b, hb, hkey⟩ := (hlist.contains_byGroup a.1).1 (Index.contains_of_mem ha)
    exact hkey ▸ exists_group_of_mem hb
  · rw [hlist.byGroup_eq] at hp
    obtain ⟨a, ha, rfl⟩ := List.mem_map.1 hp
    rw [value_of_mem ha, hlist.weigh_byGroup]
  · rw [netWith_eq hlist.byUser_eq, hlist.weigh_byUser, hlist.weigh_byGroup]
  · rw [hlist.net, hlist.weigh_byUser, hlist.weigh_byGroup]

end Balance

end SharedLedger
