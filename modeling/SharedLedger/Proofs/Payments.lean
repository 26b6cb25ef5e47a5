import SharedLedger.Proofs.Rounds
import SharedLedger.Proofs.Signed
import SharedLedger.Proofs.System
import Mathlib.Algebra.BigOperators.Group.List.Basic

/-!
# Who pays whom, and how often

Nets are settled whoever they are listed for and in whatever order: what counts
is what the entries of each user come to together. Where all entries sum to zero
and can be added up without rounding, every payment goes from a user who owes to
one who is owed, each of them ends at zero, and there are fewer payments than
such users (`Settlement.settles_all`); where they do not sum to zero, the sum is
reported.
-/

namespace SharedLedger

/-- A net, by whom it concerns. -/
def Net.keyed (n : Net) : Int × Decimal := (n.userId, n.amount)

namespace Settlement

open Tally

/-! ## Users -/

section Users

variable {t : UserTally} {nets : List Net} {ps : List Payment} {u : Int} {k : ℕ}

/-- What the entries of a user come to. -/
def merged (nets : List Net) (u : Int) : ℚ :=
  ((nets.filter (·.userId = u)).map (·.amount.value)).sum

/-- What a user pays. -/
def paidBy (ps : List Payment) (u : Int) : ℚ :=
  ((ps.filter (·.payer = u)).map (·.amount.value)).sum

/-- What a user is paid. -/
def paidTo (ps : List Payment) (u : Int) : ℚ :=
  ((ps.filter (·.payee = u)).map (·.amount.value)).sum

/-- The users who are owed something. -/
def creditors (nets : List Net) : Finset Int :=
  (nets.map (·.userId)).toFinset.filter (0 < merged nets ·)

/-- The users who owe something. -/
def debtors (nets : List Net) : Finset Int :=
  (nets.map (·.userId)).toFinset.filter (merged nets · < 0)

/-- The items whose entries are a user's, added up. -/
theorem sum_filter_eq_weigh {α : Type} (l : List α) (entry : α → Int × Decimal) (u : Int) :
    ((l.filter fun a => (entry a).1 = u).map fun a => (entry a).2.value).sum =
      weigh (l.map entry) (only u) := by
  rw [weigh_only_eq_sum, List.filter_map, List.map_map]
  rfl

theorem merged_eq (nets : List Net) (u : Int) :
    merged nets u = weigh (nets.map Net.keyed) (only u) :=
  sum_filter_eq_weigh nets Net.keyed u

theorem paidBy_eq (ps : List Payment) (u : Int) :
    paidBy ps u = weigh (ps.map Payment.made) (only u) :=
  sum_filter_eq_weigh ps Payment.made u

theorem paidTo_eq (ps : List Payment) (u : Int) :
    paidTo ps u = weigh (ps.map Payment.received) (only u) :=
  sum_filter_eq_weigh ps Payment.received u

/-- Who has no entry has nothing. -/
theorem mem_of_merged_ne_zero (h : merged nets u ≠ 0) : u ∈ nets.map (·.userId) := by
  by_contra hu
  refine h ((merged_eq nets u).trans (weigh_only_of_notMem ?_))
  rwa [List.map_map]

theorem mem_creditors : u ∈ creditors nets ↔ 0 < merged nets u := by
  rw [creditors, Finset.mem_filter, List.mem_toFinset]
  exact and_iff_right_of_imp fun h => mem_of_merged_ne_zero h.ne'

theorem mem_debtors : u ∈ debtors nets ↔ merged nets u < 0 := by
  rw [debtors, Finset.mem_filter, List.mem_toFinset]
  exact and_iff_right_of_imp fun h => mem_of_merged_ne_zero h.ne

/-- Nobody is both owed something and owing something. -/
theorem disjoint_parties (nets : List Net) : Disjoint (creditors nets) (debtors nets) :=
  Finset.disjoint_left.2 fun _ hc hd => (mem_creditors.1 hc).not_gt (mem_debtors.1 hd)

/-- Who has something open is one or the other. -/
theorem coe_parties (nets : List Net) :
    (↑(creditors nets ∪ debtors nets) : Set Int) = {u | merged nets u ≠ 0} := by
  ext u
  rw [Finset.mem_coe, Finset.mem_union, mem_creditors, mem_debtors, Set.mem_ofPred_eq,
    ne_iff_lt_or_gt, or_comm]

/-- Who has an amount in a tally occurs in it. -/
theorem mem_of_held_ne_zero (h : (held t u).value ≠ 0) : (u, held t u) ∈ t.toList := by
  unfold held at h ⊢
  cases hfind : t.find? u with
  | none => rw [hfind] at h; simp at h
  | some a =>
    have ha := Index.mem_of_find? hfind
    have hu : a.1 = u := Index.key_of_find? hfind
    subst hu
    exact ha

theorem mem_credits : u ∈ (credits t).map Prod.fst ↔ 0 < (held t u).value := by
  constructor
  · intro h
    obtain ⟨a, ha, rfl⟩ := List.mem_map.1 h
    obtain ⟨ha, hpos⟩ := List.mem_filter.1 ((queue_perm _).mem_iff.1 ha)
    rw [held_of_mem ha]
    exact Decimal.isPositive_iff.1 hpos
  · intro h
    refine List.mem_map.2 ⟨(u, held t u), (queue_perm _).mem_iff.2 ?_, rfl⟩
    exact List.mem_filter.2 ⟨mem_of_held_ne_zero h.ne', Decimal.isPositive_iff.2 h⟩

theorem value_held_opposite (t : UserTally) (u : Int) :
    (held t.opposite u).value = -(held t u).value := by
  rw [← weigh_only, weigh_opposite, weigh_only]

theorem mem_debts : u ∈ (debts t).map Prod.fst ↔ (held t u).value < 0 := by
  rw [debts_eq, mem_credits, value_held_opposite, neg_pos]

theorem nodup_credits (t : UserTally) : ((credits t).map Prod.fst).Nodup := by
  refine ((queue_perm _).map Prod.fst).nodup_iff.2 ?_
  exact t.nodup_keys.sublist (List.filter_sublist.map _)

theorem nodup_debts (t : UserTally) : ((debts t).map Prod.fst).Nodup :=
  debts_eq t ▸ nodup_credits t.opposite

theorem positive_credits (t : UserTally) : Positive (credits t) := by
  intro a ha
  have hmem := List.mem_filter.1 ((queue_perm _).mem_iff.1 ha)
  exact Decimal.isPositive_iff.1 hmem.2

theorem positive_debts (t : UserTally) : Positive (debts t) :=
  debts_eq t ▸ positive_credits t.opposite

/-- Entries in range are merged into a tally of what each user's come to. -/
theorem exists_merge (h : SignedRange k (nets.map Net.keyed)) :
    ∃ t, merge nets = .ok t ∧ ∀ f, weigh t.toList f = weigh (nets.map Net.keyed) f := by
  obtain ⟨t, ht, hw, -⟩ := UserTally.addAll_exact h
  rw [List.foldlM_map] at ht
  exact ⟨t, ht, hw⟩

/-- A tally in range that sums to zero can be settled. -/
theorem Settleable.of_signedRange (h : SignedRange k t.toList)
    (hsum : weigh t.toList (fun _ => 1) = 0) : Settleable k t where
  sum := hsum
  grid := h.grid
  range f hf := h.inRange fun u => by rcases hf u with hu | hu <;> simp [hu]

end Users

/-! ## All of it -/

section Settled

variable {t : UserTally} {nets : List Net} {ps : List Payment} {k : ℕ}

/-- **What it takes for payments to settle nets.** -/
structure Settled (nets : List Net) (ps : List Payment) : Prop where
  /-- Everybody ends at zero. -/
  even : ∀ u, merged nets u + paidBy ps u - paidTo ps u = 0
  /-- Those who owe pay those who are owed. -/
  parties : ∀ p ∈ ps, merged nets p.payer < 0 ∧ 0 < merged nets p.payee
  /-- What changes hands is what is owed. -/
  amounts : (ps.map (·.amount.value)).sum = ∑ u ∈ creditors nets, merged nets u
  /-- Each of them takes part. -/
  least : max (creditors nets).card (debtors nets).card ≤ ps.length
  /-- Every payment is the last one of somebody, the very last one that of two. -/
  most : ps.length ≤ (creditors nets).card + (debtors nets).card - 1

/-- **One side of the payments**: where everybody ends at zero, and those on the
other side have nothing to their credit, everybody who has takes part, so there are
at least as many payments as such users. -/
theorem card_le_length_of_side {owed : Int → ℚ} {side other : Payment → Int × Decimal}
    (heven : ∀ u, owed u + weigh (ps.map other) (only u) = weigh (ps.map side) (only u))
    (hother : ∀ p ∈ ps, owed (other p).1 ≤ 0) {us : Finset Int} (hus : ∀ u ∈ us, 0 < owed u) :
    us.card ≤ ps.length := by
  have hsubset : us ⊆ ((ps.map side).map Prod.fst).toFinset := by
    intro u hu
    have habsent : u ∉ (ps.map other).map Prod.fst := by
      intro hin
      obtain ⟨a, ha, rfl⟩ := List.mem_map.1 hin
      obtain ⟨p, hp, rfl⟩ := List.mem_map.1 ha
      exact (hother p hp).not_gt (hus _ hu)
    -- what the user is owed has to come from this side
    by_contra hnot
    have hnet := heven u
    rw [weigh_only_of_notMem habsent, weigh_only_of_notMem fun h => hnot (List.mem_toFinset.2 h),
      add_zero] at hnet
    exact (hus u hu).ne' hnet
  have hcard := (Finset.card_le_card hsubset).trans (List.toFinset_card_le _)
  rwa [List.length_map, List.length_map] at hcard

/-- Where everybody ends at zero and only those who owe pay those who are owed,
there are at least as many payments as users of either side. -/
theorem card_le_length (heven : ∀ u, merged nets u + paidBy ps u - paidTo ps u = 0)
    (hparties : ∀ p ∈ ps, merged nets p.payer < 0 ∧ 0 < merged nets p.payee) :
    max (creditors nets).card (debtors nets).card ≤ ps.length := by
  simp only [paidBy_eq, paidTo_eq] at heven
  refine max_le ?_ ?_
  · exact card_le_length_of_side (fun u => sub_eq_zero.1 (heven u))
      (fun p hp => (hparties p hp).1.le) fun u hu => mem_creditors.1 hu
  · have heven' : ∀ u, -merged nets u + weigh (ps.map Payment.received) (only u) =
        weigh (ps.map Payment.made) (only u) := fun u => by linarith [heven u]
    exact card_le_length_of_side heven' (fun p hp => (neg_neg_of_pos (hparties p hp).2).le)
      fun u hu => neg_pos.2 (mem_debtors.1 hu)

section Tallied

variable (hw : ∀ f, weigh t.toList f = weigh (nets.map Net.keyed) f)

include hw

/-- A tally of the entries has what each user's come to. -/
theorem held_eq_merged (u : Int) : (held t u).value = merged nets u := by
  rw [← weigh_only, hw, merged_eq]

theorem toFinset_credits : ((credits t).map Prod.fst).toFinset = creditors nets := by
  ext u
  rw [List.mem_toFinset, mem_credits, mem_creditors, held_eq_merged hw]

theorem toFinset_debts : ((debts t).map Prod.fst).toFinset = debtors nets := by
  ext u
  rw [List.mem_toFinset, mem_debts, mem_debtors, held_eq_merged hw]

theorem card_creditors : (creditors nets).card = (credits t).length := by
  rw [← toFinset_credits hw, List.toFinset_card_of_nodup (nodup_credits t), List.length_map]

theorem card_debtors : (debtors nets).card = (debts t).length := by
  rw [← toFinset_debts hw, List.toFinset_card_of_nodup (nodup_debts t), List.length_map]

/-- What is open to be received is what the creditors are owed. -/
theorem weigh_credits :
    weigh (credits t) (fun _ => 1) = ∑ u ∈ creditors nets, merged nets u := by
  rw [← toFinset_credits hw, List.sum_toFinset _ (nodup_credits t), List.map_map]
  unfold weigh
  congr 1
  refine List.map_congr_left fun a ha => ?_
  have hmem := (List.mem_filter.1 ((queue_perm _).mem_iff.1 ha)).1
  rw [one_mul, Function.comp_apply, ← held_eq_merged hw, held_of_mem hmem]

/-- The payments of a merged tally settle its entries. -/
theorem settled_of_pay (hpay : pay (credits t) (debts t) = .ok ps)
    (hrec : ∀ f, weigh (ps.map Payment.received) f = weigh (credits t) f)
    (hmade : ∀ f, weigh (ps.map Payment.made) f = weigh (debts t) f) : Settled nets ps := by
  have heven : ∀ u, merged nets u + paidBy ps u - paidTo ps u = 0 := by
    intro u
    rw [merged_eq, paidBy_eq, paidTo_eq, ← hw]
    exact weigh_even hrec hmade (only u)
  obtain ⟨cs, ds, hloop⟩ := pay_eq_ok_iff.1 hpay
  have hparties : ∀ p ∈ ps, merged nets p.payer < 0 ∧ 0 < merged nets p.payee := by
    intro p hp
    obtain ⟨hpayee, hpayer⟩ := hloop.parties p hp
    rw [mem_credits, held_eq_merged hw] at hpayee
    rw [mem_debts, held_eq_merged hw] at hpayer
    exact ⟨hpayer, hpayee⟩
  refine ⟨heven, hparties, ?_, card_le_length heven hparties, ?_⟩
  · rw [← weigh_credits hw, ← hrec]
    simp [weigh, Payment.received, Function.comp_def]
  · rw [card_creditors hw, card_debtors hw]
    exact hloop.length_le

end Tallied

/-- The nets of a tally, by whom they concern. -/
theorem keyed_nets (t : UserTally) :
    (t.toList.map fun a => (⟨a.1, a.2⟩ : Net)).map Net.keyed = t.toList := by
  rw [List.map_map]
  exact List.map_id _

/-- The nets of a tally are settled as they are listed. -/
theorem Settleable.exists_settled_nets (h : Settleable k t) :
    ∃ ps, settle (t.toList.map fun a => ⟨a.1, a.2⟩) = .ok ps ∧
      Settled (t.toList.map fun a => ⟨a.1, a.2⟩) ps := by
  obtain ⟨ps, hps, hpay, hrec, hmade⟩ := settle_exact h
  exact ⟨ps, hps, settled_of_pay (fun f => by rw [keyed_nets]) hpay hrec hmade⟩

/-- The range of a list of nets is that of its amounts. -/
theorem signedRange_keyed (hgrid : ∀ n ∈ nets, OnGrid k n.amount.value)
    (hrange : InRange k (nets.map fun n => |n.amount.value|).sum) :
    SignedRange k (nets.map Net.keyed) :=
  .of_map Net.keyed hgrid hrange

/-- All entries together. -/
theorem weigh_keyed (nets : List Net) :
    weigh (nets.map Net.keyed) (fun _ => 1) = (nets.map (·.amount.value)).sum := by
  simp [weigh, Net.keyed, Function.comp_def]

/-- In range the total is the sum. -/
theorem exists_total_nets (hgrid : ∀ n ∈ nets, OnGrid k n.amount.value)
    (hrange : InRange k (nets.map fun n => |n.amount.value|).sum) :
    ∃ c, Decimal.total (nets.map (·.amount)) = .ok c ∧
      c.value = (nets.map (·.amount.value)).sum := by
  have hsizes : sizes (nets.map (·.amount)) = (nets.map fun n => |n.amount.value|).sum := by
    unfold sizes
    rw [List.map_map]
    rfl
  obtain ⟨c, hc, hv⟩ := Decimal.total_signed (List.forall_mem_map.2 hgrid) (hsizes ▸ hrange)
  rw [List.map_map] at hv
  exact ⟨c, hc, hv⟩

/-- **Nets that sum to zero are settled**, by the payments of their tally. -/
theorem exists_settled (hgrid : ∀ n ∈ nets, OnGrid k n.amount.value)
    (hrange : InRange k (nets.map fun n => |n.amount.value|).sum)
    (hzero : (nets.map (·.amount.value)).sum = 0) :
    ∃ t ps, (∀ f, weigh t.toList f = weigh (nets.map Net.keyed) f) ∧ Settleable k t ∧
      settle nets = .ok ps ∧ pay (credits t) (debts t) = .ok ps ∧ Settled nets ps := by
  obtain ⟨c, hc, hv⟩ := exists_total_nets hgrid hrange
  have hin := signedRange_keyed hgrid hrange
  obtain ⟨t, ht, hw⟩ := exists_merge hin
  have hsum : weigh t.toList (fun _ => 1) = 0 := by rw [hw, weigh_keyed, hzero]
  have hsettle := Settleable.of_signedRange (signedRange_of_weigh hin hw) hsum
  obtain ⟨ps, hps, hpay, hrec, hmade⟩ := settle_merged_exact hsettle hc (hv.trans hzero) ht
  exact ⟨t, ps, hw, hsettle, hps, hpay, settled_of_pay hw hpay hrec hmade⟩

/-- **Nets are settled, or their sum is reported.** -/
theorem settles_all (hgrid : ∀ n ∈ nets, OnGrid k n.amount.value)
    (hrange : InRange k (nets.map fun n => |n.amount.value|).sum) :
    ((nets.map (·.amount.value)).sum ≠ 0 → ∃ s, settle nets = .error (.refused (.unbalanced s)) ∧
      s.value = (nets.map (·.amount.value)).sum) ∧
    ((nets.map (·.amount.value)).sum = 0 → ∃ ps, settle nets = .ok ps ∧ Settled nets ps) := by
  obtain ⟨c, hc, hv⟩ := exists_total_nets hgrid hrange
  refine ⟨fun hne => ⟨c, settle_of_not_isZero hc ?_, hv⟩, fun hzero => ?_⟩
  · exact Bool.eq_false_iff.2 fun hz => hne (hv.symm.trans (Decimal.isZero_iff.1 hz))
  · obtain ⟨-, ps, -, -, hps, -, hsettled⟩ := exists_settled hgrid hrange hzero
    exact ⟨ps, hps, hsettled⟩

end Settled

end Settlement

namespace Sample

theorem scale_tenths_le : 1 ≤ 28 := by decide

/-- So many tenths. -/
def tenths (n : Nat) (h : n < Nat.pow 2 96) : Decimal := ⟨false, n, 1, h, scale_tenths_le⟩

/-- So many whole units. -/
def whole (n : Nat) (h : n < Nat.pow 2 96) : Decimal := ⟨false, n, 0, h, Decimal.zero.scale_le⟩

/-- What an evening comes to for three users. -/
def evening : List Net :=
  [⟨1, { Decimal.one with mantissa := 11, mantissa_lt := by decide }⟩,
    ⟨2, (cents 325 (by decide)).neg⟩, ⟨1, (cents 50 (by decide)).neg⟩,
    ⟨3, (cents 725 (by decide)).neg⟩]

/-- What they pay for it. -/
def transfers : List Payment := [⟨3, 1, cents 725 (by decide)⟩, ⟨2, 1, cents 325 (by decide)⟩]

end Sample

/-- User 1 occurs twice and the amounts are written at two scales: the users 3
and 2 pay, the larger debt first. Without the first entry there is no balance. -/
theorem Settlement.settles_all_evening :
    (settle Sample.evening = .ok Sample.transfers ∧ Settled Sample.evening Sample.transfers) ∧
    ∃ s, settle Sample.evening.tail = .error (.refused (.unbalanced s)) ∧ s.value = -11 := by
  have hgrid : ∀ n ∈ Sample.evening, OnGrid 2 n.amount.value := by
    have hunits : ∀ n ∈ Sample.evening, n.amount.value * 10 ^ 2 =
        ((n.amount.value * 10 ^ 2).num : ℚ) := by decide +kernel
    exact fun n hn => ⟨_, hunits n hn⟩
  have hsizes : (Sample.evening.map fun n => |n.amount.value|).sum = 22 := by decide +kernel
  have hsizes' : (Sample.evening.tail.map fun n => |n.amount.value|).sum = 11 := by
    decide +kernel
  have hrange : InRange 2 (Sample.evening.map fun n => |n.amount.value|).sum := by
    rw [hsizes]
    norm_num [InRange]
  have hrange' : InRange 2 (Sample.evening.tail.map fun n => |n.amount.value|).sum := by
    rw [hsizes']
    norm_num [InRange]
  have hsum : (Sample.evening.tail.map (·.amount.value)).sum = -11 := by decide +kernel
  constructor
  · obtain ⟨ps, hps, hsettled⟩ := (settles_all hgrid hrange).2 (by decide +kernel)
    have hrun : settle Sample.evening = .ok Sample.transfers := by decide +kernel
    rw [hrun] at hps
    cases hps
    exact ⟨hrun, hsettled⟩
  · rw [← hsum]
    exact (settles_all (fun n hn => hgrid n (List.mem_of_mem_tail hn)) hrange').1
      (by rw [hsum]; norm_num)

end SharedLedger
