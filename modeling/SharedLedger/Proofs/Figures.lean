import SharedLedger.Proofs.Payments
import SharedLedger.Proofs.UserView

/-!
# What a view says in numbers

The view of a user can be drawn up of any pairs whose sizes can be added up
(`Balance.view_sums_up`): of pairs of either sign, with the user on both sides, and of
a group that comes more than once. It has one amount for every group and other
user who occur with the user, one for every such user over all groups, and two
totals. These split the users by the sign an amount is written with, zero
included, so neither total is below zero, and the net is what is left of both.
In numbers (`UserBalances.figures`) there is one such view of the pairs, whatever
their order and however they are spread over the groups (`ExactFigures.unique`).
-/

namespace SharedLedger

/-- What a view says, its amounts as numbers. -/
structure Figures where
  userId : Int
  byGroup : List ((Int × Int) × ℚ)
  byUser : List (Int × ℚ)
  owedToUser : ℚ
  owedByUser : ℚ
  net : ℚ
  deriving DecidableEq

/-- The amounts of a view at no particular scale, and zero without a sign. -/
def UserBalances.figures (v : UserBalances) : Figures where
  userId := v.userId
  byGroup := v.byGroup.map fun p => ((p.groupId, p.otherId), p.net.value)
  byUser := v.byUser.map fun p => (p.otherId, p.net.value)
  owedToUser := v.owedToUser.value
  owedByUser := v.owedByUser.value
  net := v.net.value

namespace Balance

open Tally

/-- A pair of a group, its amount as a number. -/
structure Entry where
  groupId : Int
  creditor : Int
  debtor : Int
  amount : ℚ
  deriving DecidableEq

/-- A pair as an entry of a group. -/
def entry (x : Int × Owed) : Entry := ⟨x.1, x.2.creditor, x.2.debtor, x.2.amount.value⟩

/-- The pairs of all groups as entries. -/
def entries (groups : List (Int × List Owed)) : List Entry := (pairsIn groups).map entry

/-- What the entries that pass a test come to. -/
def entrySum (es : List Entry) (p : Entry → Bool) : ℚ := ((es.filter p).map (·.amount)).sum

/-- `o` owes `u` in group `g`. -/
def Entry.isOwed (e : Entry) (u g o : Int) : Prop := e.groupId = g ∧ e.creditor = u ∧ e.debtor = o

/-- `u` owes `o`, who is somebody else, in group `g`. -/
def Entry.isDebt (e : Entry) (u g o : Int) : Prop :=
  e.groupId = g ∧ e.debtor = u ∧ e.creditor = o ∧ o ≠ u

instance (e : Entry) (u g o : Int) : Decidable (e.isOwed u g o) :=
  inferInstanceAs (Decidable (_ ∧ _ ∧ _))

instance (e : Entry) (u g o : Int) : Decidable (e.isDebt u g o) :=
  inferInstanceAs (Decidable (_ ∧ _ ∧ _ ∧ _))

/-- **The exact figures of a user**: what is open in each group with each other user,
the same over all groups, and what that comes to for the user and against. -/
structure ExactFigures (u : Int) (es : List Entry) (v : Figures) : Prop where
  user : v.userId = u
  byGroup_ascending : v.byGroup.Pairwise fun a b =>
    a.1.1 < b.1.1 ∨ a.1.1 = b.1.1 ∧ a.1.2 < b.1.2
  byGroup_occurs_iff : ∀ g o, (∃ a ∈ v.byGroup, a.1 = (g, o)) ↔
    ∃ e ∈ es, e.isOwed u g o ∨ e.isDebt u g o
  byGroup_amount : ∀ a ∈ v.byGroup, a.2 =
    entrySum es (fun e => e.isOwed u a.1.1 a.1.2) - entrySum es fun e => e.isDebt u a.1.1 a.1.2
  byUser_ascending : v.byUser.Pairwise fun a b => a.1 < b.1
  byUser_occurs_iff : ∀ o, (∃ a ∈ v.byUser, a.1 = o) ↔ ∃ b ∈ v.byGroup, b.1.2 = o
  byUser_amount : ∀ a ∈ v.byUser, a.2 = ((v.byGroup.filter fun b => b.1.2 = a.1).map (·.2)).sum
  owedToUser : v.owedToUser = (v.byUser.map fun a => max a.2 0).sum
  owedByUser : v.owedByUser = (v.byUser.map fun a => max (-a.2) 0).sum
  owedToUser_nonneg : 0 ≤ v.owedToUser
  owedByUser_nonneg : 0 ≤ v.owedByUser
  net_eq_sub : v.net = v.owedToUser - v.owedByUser
  net_eq_sum : v.net = (v.byUser.map (·.2)).sum

variable {k : ℕ} {u : ℤ} {es es' : List Entry} {v v' : Figures}
  {groups groups' : List (ℤ × List Owed)}

/-! ## Entries and what they post -/

theorem entrySum_cons (e : Entry) (es : List Entry) (p : Entry → Bool) :
    entrySum (e :: es) p = (if p e then e.amount else 0) + entrySum es p := by
  by_cases h : p e = true <;> simp [entrySum, h]

/-- The order of the entries does not matter. -/
theorem entrySum_perm (h : es.Perm es') (p : Entry → Bool) : entrySum es p = entrySum es' p :=
  ((h.filter p).map _).sum_eq

/-- An entry is posted with the group and the other user it is about. -/
theorem exists_posting_iff {x : Int × Owed} {g o : Int} :
    (∃ a ∈ posting? u x, a.1 = (g, o)) ↔ (entry x).isOwed u g o ∨ (entry x).isDebt u g o := by
  unfold posting? Entry.isOwed Entry.isDebt entry
  by_cases hc : x.2.creditor = u
  · simp only [if_pos hc, Option.mem_def, Option.some.injEq, exists_eq_left', Prod.mk.injEq]
    grind
  by_cases hd : x.2.debtor = u
  · simp only [if_neg hc, if_pos hd, Option.mem_def, Option.some.injEq, exists_eq_left',
      Prod.mk.injEq]
    grind
  · simp [hc, hd]

theorem exists_postings_iff {g o : Int} :
    (∃ a ∈ postings u groups, a.1 = (g, o)) ↔
      ∃ e ∈ entries groups, e.isOwed u g o ∨ e.isDebt u g o := by
  unfold postings entries
  simp only [List.mem_filterMap, List.mem_map, exists_exists_and_eq_and, ← exists_posting_iff,
    Option.mem_def]
  constructor
  · rintro ⟨a, ⟨x, hx, ha⟩, hkey⟩
    exact ⟨x, hx, a, ha, hkey⟩
  · rintro ⟨x, hx, a, ha, hkey⟩
    exact ⟨a, ⟨x, hx, ha⟩, hkey⟩

/-- What counts under a group and another user is what that user owes there, less
what is owed to them. -/
theorem weigh_postings_only (u g o : Int) (xs : List (Int × Owed)) :
    weigh (xs.filterMap (posting? u)) (only (g, o)) =
      entrySum (xs.map entry) (fun e => e.isOwed u g o) -
        entrySum (xs.map entry) fun e => e.isDebt u g o := by
  induction xs with
  | nil => simp [entrySum]
  | cons x xs ih =>
    rw [List.map_cons, entrySum_cons, entrySum_cons, List.filterMap_cons]
    have hpost : ((posting? u x).map fun a => only (g, o) a.1 * a.2.value).getD 0 =
        (if (entry x).isOwed u g o then (entry x).amount else 0) -
          if (entry x).isDebt u g o then (entry x).amount else 0 := by
      unfold posting? Entry.isOwed Entry.isDebt entry only
      split <;> grind [Decimal.value_neg]
    simp only [decide_eq_true_eq]
    cases hp : posting? u x with
    | none =>
      rw [hp] at hpost
      change 0 = _ at hpost
      rw [ih]
      linarith
    | some a =>
      rw [hp] at hpost
      change only (g, o) a.1 * a.2.value = _ at hpost
      rw [weigh_cons, ih]
      linarith

/-! ## One view -/

namespace ExactFigures

theorem perm (h : ExactFigures u es v) (hperm : es.Perm es') : ExactFigures u es' v where
  user := h.user
  byGroup_ascending := h.byGroup_ascending
  byGroup_occurs_iff g o := by
    rw [h.byGroup_occurs_iff]
    exact exists_congr fun e => and_congr_left fun _ => hperm.mem_iff
  byGroup_amount a ha := by rw [h.byGroup_amount a ha, entrySum_perm hperm, entrySum_perm hperm]
  byUser_ascending := h.byUser_ascending
  byUser_occurs_iff := h.byUser_occurs_iff
  byUser_amount := h.byUser_amount
  owedToUser := h.owedToUser
  owedByUser := h.owedByUser
  owedToUser_nonneg := h.owedToUser_nonneg
  owedByUser_nonneg := h.owedByUser_nonneg
  net_eq_sub := h.net_eq_sub
  net_eq_sum := h.net_eq_sum

theorem mem_byGroup_iff {a : (Int × Int) × ℚ} (h : ExactFigures u es v) : a ∈ v.byGroup ↔
    (∃ e ∈ es, e.isOwed u a.1.1 a.1.2 ∨ e.isDebt u a.1.1 a.1.2) ∧
      a.2 = entrySum es (fun e => e.isOwed u a.1.1 a.1.2) -
        entrySum es fun e => e.isDebt u a.1.1 a.1.2 := by
  rw [← h.byGroup_occurs_iff]
  constructor
  · exact fun ha => ⟨⟨a, ha, rfl⟩, h.byGroup_amount a ha⟩
  · rintro ⟨⟨b, hb, hkey⟩, hv⟩
    have hamount := h.byGroup_amount b hb
    rw [hkey, ← hv] at hamount
    exact (Prod.ext hkey hamount : b = a) ▸ hb

theorem mem_byUser_iff {a : Int × ℚ} (h : ExactFigures u es v) : a ∈ v.byUser ↔
    (∃ b ∈ v.byGroup, b.1.2 = a.1) ∧
      a.2 = ((v.byGroup.filter fun b => b.1.2 = a.1).map (·.2)).sum := by
  rw [← h.byUser_occurs_iff]
  constructor
  · exact fun ha => ⟨⟨a, ha, rfl⟩, h.byUser_amount a ha⟩
  · rintro ⟨⟨b, hb, hkey⟩, hv⟩
    have hamount := h.byUser_amount b hb
    rw [hkey, ← hv] at hamount
    exact (Prod.ext hkey hamount : b = a) ▸ hb

/-- **There is one view of the same entries.** -/
theorem unique (h : ExactFigures u es v) (h' : ExactFigures u es v') : v = v' := by
  have hgroup : v.byGroup = v'.byGroup :=
    Index.eq_of_ascending (h.byGroup_ascending.imp before_pair_iff.2)
      (h'.byGroup_ascending.imp before_pair_iff.2)
      fun a => by rw [h.mem_byGroup_iff, h'.mem_byGroup_iff]
  have huser : v.byUser = v'.byUser := by
    have hbefore : ∀ {a b : Int × ℚ}, a.1 < b.1 → KeyOrder.before a.1 b.1 = true := by
      intro a b hab
      simpa [KeyOrder.before] using hab
    refine Index.eq_of_ascending (h.byUser_ascending.imp hbefore)
      (h'.byUser_ascending.imp hbefore) fun a => ?_
    rw [h.mem_byUser_iff, h'.mem_byUser_iff, hgroup]
  have howed : v.owedToUser = v'.owedToUser := by rw [h.owedToUser, h'.owedToUser, huser]
  have howes : v.owedByUser = v'.owedByUser := by rw [h.owedByUser, h'.owedByUser, huser]
  have hnet : v.net = v'.net := by rw [h.net_eq_sum, h'.net_eq_sum, huser]
  cases v
  cases v'
  simp only at hgroup huser howed howes hnet
  rw [Figures.mk.injEq]
  exact ⟨h.user.trans h'.user.symm, hgroup, huser, howed, howes, hnet⟩

end ExactFigures

/-- Amounts that count for somebody and amounts that count against. -/
theorem sum_eq_sub (l : List ℚ) :
    l.sum = (l.map fun x => max x 0).sum - (l.map fun x => max (-x) 0).sum := by
  induction l with
  | nil => simp
  | cons x l ih =>
    rw [List.sum_cons, List.map_cons, List.map_cons, List.sum_cons, List.sum_cons, ih]
    rcases le_total 0 x with hx | hx
    · rw [max_eq_left hx, max_eq_right (neg_nonpos.2 hx)]
      ring
    · rw [max_eq_right hx, max_eq_left (neg_nonneg.2 hx)]
      ring

/-- A view that lists what the entries post has their figures. -/
theorem exactFigures_of_listing {w : UserBalances} {byGroup : PairTally} {byUser : UserTally}
    (huser : w.userId = u) (h : Listing (postings u groups) byGroup byUser w) :
    ExactFigures u (entries groups) w.figures := by
  have hgroups : w.figures.byGroup = byGroup.toList.map fun a => (a.1, a.2.value) := by
    simp [UserBalances.figures, h.byGroup_eq]
  have husers : w.figures.byUser = byUser.toList.map fun a => (a.1, a.2.value) := by
    simp [UserBalances.figures, h.byUser_eq]
  have howed : w.figures.owedToUser = (w.figures.byUser.map fun a => max a.2 0).sum := by
    rw [husers, List.map_map]
    exact h.owedToUser
  have howes : w.figures.owedByUser = (w.figures.byUser.map fun a => max (-a.2) 0).sum := by
    rw [husers, List.map_map]
    exact h.owedByUser
  have hnet : w.figures.net = (w.figures.byUser.map (·.2)).sum := by
    rw [husers, List.map_map]
    refine h.net.trans ?_
    simp [weigh, Function.comp_def]
  have hnonneg : ∀ (φ : Int × ℚ → ℚ) (l : List (Int × ℚ)), 0 ≤ (l.map fun a => max (φ a) 0).sum :=
    fun φ l => List.sum_nonneg fun x hx => by
      obtain ⟨a, -, rfl⟩ := List.mem_map.1 hx
      exact le_max_right _ _
  refine ⟨huser, ?_, fun g o => ?_, fun a ha => ?_, ?_, fun o => ?_, fun a ha => ?_, howed, howes,
    ?_, ?_, ?_, hnet⟩
  · rw [hgroups]
    exact List.pairwise_map.2 (byGroup.ascending.imp before_pair_iff.1)
  · rw [hgroups, ← exists_postings_iff, ← h.contains_byGroup, Index.contains_iff]
    simp only [List.mem_map, exists_exists_and_eq_and]
  · rw [hgroups] at ha
    obtain ⟨b, hb, rfl⟩ := List.mem_map.1 ha
    change b.2.value = _
    rw [value_of_mem hb, h.weigh_byGroup]
    exact weigh_postings_only u b.1.1 b.1.2 (pairsIn groups)
  · rw [husers]
    refine List.pairwise_map.2 (byUser.ascending.imp fun hab => ?_)
    simpa [KeyOrder.before] using hab
  · rw [husers, hgroups]
    simp only [List.mem_map, exists_exists_and_eq_and]
    rw [← h.contains_byUser, Index.contains_iff]
  · rw [husers] at ha
    obtain ⟨b, hb, rfl⟩ := List.mem_map.1 ha
    change b.2.value = _
    have hweigh : weigh byGroup.toList (fun j => only b.1 j.2) =
        weigh byGroup.toList fun j => if decide (j.2 = b.1) then 1 else 0 :=
      weigh_congr fun a _ => by simp only [only, decide_eq_true_eq]
    rw [value_of_mem hb, h.weigh_byUser, hweigh, weigh_ite_eq_sum, hgroups, List.filter_map,
      List.map_map]
    rfl
  · rw [howed]
    exact hnonneg (·.2) _
  · rw [howes]
    exact hnonneg (-·.2) _
  · rw [hnet, howed, howes, sum_eq_sub, List.map_map, List.map_map]
    rfl

/-- In range there is a view, and it has the figures of the entries. -/
theorem exists_exactFigures (u : Int) (hgrid : ∀ e ∈ entries groups, OnGrid k e.amount)
    (hrange : InRange k ((entries groups).map fun e => |e.amount|).sum) :
    ∃ w, userView u groups = .ok w ∧ ExactFigures u (entries groups) w.figures := by
  have hsizes : ((entries groups).map fun e => |e.amount|) =
      (pairsIn groups).map fun x => |x.2.keyed.2.value| := List.map_map
  rw [hsizes] at hrange
  have hpairs : SignedRange k ((pairsIn groups).map fun x => x.2.keyed) :=
    .of_map _ (fun x hx => hgrid (entry x) (List.mem_map_of_mem hx)) hrange
  rw [keyed_pairsIn] at hpairs
  obtain ⟨byGroup, byUser, w, hw, huser, hlist⟩ := exists_listing (signedRange_postings hpairs)
  exact ⟨w, hw, exactFigures_of_listing huser hlist⟩

/-- **The view of a user sums up exactly**, by group, by user and altogether, and what
it says in numbers depends on the entries alone. -/
theorem view_sums_up (u : Int) (hgrid : ∀ e ∈ entries groups, OnGrid k e.amount)
    (hrange : InRange k ((entries groups).map fun e => |e.amount|).sum) :
    ∃ w, userView u groups = .ok w ∧ ExactFigures u (entries groups) w.figures ∧
      ∀ groups', (entries groups').Perm (entries groups) →
        ∃ w', userView u groups' = .ok w' ∧ w'.figures = w.figures := by
  obtain ⟨w, hw, hexact⟩ := exists_exactFigures u hgrid hrange
  refine ⟨w, hw, hexact, fun groups' hperm => ?_⟩
  have hrange' : InRange k ((entries groups').map fun e => |e.amount|).sum :=
    (hperm.map fun e => |e.amount|).sum_eq ▸ hrange
  obtain ⟨w', hw', hexact'⟩ :=
    exists_exactFigures u (fun e he => hgrid e (hperm.mem_iff.1 he)) hrange'
  exact ⟨w', hw', (hexact'.perm hperm).unique hexact⟩

end Balance

namespace Sample

/-- The pairs of two households, the first of which comes twice. User 1 is on both
sides of a pair, has got something back and is owed nothing at all by user 4. -/
def households : List (Int × List Owed) :=
  [(5, [⟨1, 2, cents 1051 (by decide)⟩, ⟨2, 1, cents 401 (by decide)⟩,
      ⟨1, 1, cents 503 (by decide)⟩]),
    (6, [⟨3, 1, cents 77 (by decide)⟩, ⟨1, 2, (cents 327 (by decide)).neg⟩,
      ⟨1, 4, Decimal.zero.neg⟩, ⟨7, 1, cents 251 (by decide)⟩]),
    (5, [⟨2, 3, cents 907 (by decide)⟩, ⟨1, 3, cents 77 (by decide)⟩])]

/-- The same pairs, one group after the other and each read from its end. -/
def reordered : List (Int × List Owed) := households.reverse.map fun g => (g.1, g.2.reverse)

end Sample

/-- The households, also when they are read from the other end: what is open with
user 3 cancels out, and there is an amount for each of five users. -/
theorem Balance.view_sums_up_households :
    ∃ w w', userView 1 Sample.households = .ok w ∧
      ExactFigures 1 (entries Sample.households) w.figures ∧
      userView 1 Sample.reordered = .ok w' ∧ w'.figures = w.figures ∧ w.figures =
        ⟨1, [((5, 1), 503 / 100), ((5, 2), 13 / 2), ((5, 3), 77 / 100), ((6, 2), -327 / 100),
            ((6, 3), -77 / 100), ((6, 4), 0), ((6, 7), -251 / 100)],
          [(1, 503 / 100), (2, 323 / 100), (3, 0), (4, 0), (7, -251 / 100)],
          413 / 50, 251 / 100, 23 / 4⟩ := by
  have hunits : ∀ e ∈ entries Sample.households, e.amount * 10 ^ 2 =
      ((e.amount * 10 ^ 2).num : ℚ) := by decide +kernel
  have hsizes : ((entries Sample.households).map fun e => |e.amount|).sum = 1797 / 50 := by
    decide +kernel
  have hrange : InRange 2 ((entries Sample.households).map fun e => |e.amount|).sum := by
    rw [hsizes]
    norm_num [InRange]
  have hperm : (entries Sample.reordered).Perm (entries Sample.households) := by decide +kernel
  obtain ⟨w, hw, hexact, hsame⟩ := view_sums_up 1 (fun e he => ⟨_, hunits e he⟩) hrange
  obtain ⟨w', hw', hfigures⟩ := hsame _ hperm
  have hrun : (userView 1 Sample.households).map UserBalances.figures = .ok
      ⟨1, [((5, 1), 503 / 100), ((5, 2), 13 / 2), ((5, 3), 77 / 100), ((6, 2), -327 / 100),
          ((6, 3), -77 / 100), ((6, 4), 0), ((6, 7), -251 / 100)],
        [(1, 503 / 100), (2, 323 / 100), (3, 0), (4, 0), (7, -251 / 100)],
        413 / 50, 251 / 100, 23 / 4⟩ := by decide +kernel
  rw [hw] at hrun
  exact ⟨w, w', hw, hexact, hw', hfigures, Except.ok.inj hrun⟩

end SharedLedger
