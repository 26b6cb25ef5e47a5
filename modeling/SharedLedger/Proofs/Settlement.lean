import SharedLedger.Proofs.Tally

/-!
# Settling is exact

In range, nets that sum to zero are settled: there are payments, and together
they bring every net to zero (`Settlement.settle_exact`). The loop keeps two
lists of open amounts with the same total. A payment takes its amount from the
front of both, so it closes one of the two, and what a user still has open is
what the payments to come will move.
-/

namespace SharedLedger

/-- The tally with every amount turned round: who was owed something owes it. -/
def UserTally.opposite (t : UserTally) : UserTally := t.map (fun a => (a.1, a.2.neg)) fun _ => rfl

/-- A payment, by who receives it. -/
def Payment.received (p : Payment) : Int × Decimal := (p.payee, p.amount)

/-- A payment, by who makes it. -/
def Payment.made (p : Payment) : Int × Decimal := (p.payer, p.amount)

namespace Settlement

open Tally

variable {n : ℕ} {l rest : List (Int × Decimal)} {a : Int × Decimal} {paid : Decimal}

/-! ## Open amounts -/

/-- Amounts that are open: positive, and to be had exactly. -/
structure Open (n : ℕ) (l : List (Int × Decimal)) : Prop where
  pos : ∀ a ∈ l, 0 < a.2.value
  grid : ∀ a ∈ l, OnGrid n a.2.value
  range : ∀ a ∈ l, InRange n a.2.value

theorem Open.of_subset {l' : List (Int × Decimal)} (h : Open n l) (hl : ∀ a ∈ l', a ∈ l) :
    Open n l' where
  pos a ha := h.pos a (hl a ha)
  grid a ha := h.grid a (hl a ha)
  range a ha := h.range a (hl a ha)

theorem Open.tail (h : Open n (a :: l)) : Open n l := h.of_subset fun _ => List.mem_cons_of_mem a

theorem Open.cons (hpos : 0 < a.2.value) (hgrid : OnGrid n a.2.value) (hrange : InRange n a.2.value)
    (h : Open n l) : Open n (a :: l) where
  pos := List.forall_mem_cons.2 ⟨hpos, h.pos⟩
  grid := List.forall_mem_cons.2 ⟨hgrid, h.grid⟩
  range := List.forall_mem_cons.2 ⟨hrange, h.range⟩

/-- Where nothing is left in total, nothing is open. -/
theorem Open.eq_nil (h : Open n l) (hsum : weigh l (fun _ => 1) = 0) : l = [] := by
  cases l with
  | nil => rfl
  | cons a l =>
    have ha := h.pos a List.mem_cons_self
    have hl := weigh_nonneg (f := fun _ => 1) (fun b hb => (h.tail.pos b hb).le) fun _ _ => zero_le_one
    rw [weigh_cons, one_mul] at hsum
    linarith

theorem enqueue_perm (a : Int × Decimal) (l : List (Int × Decimal)) : (enqueue a l).Perm (a :: l) := by
  induction l with
  | nil => exact .refl _
  | cons b l ih =>
    unfold enqueue
    split
    · exact .refl _
    · exact (ih.cons b).trans (.swap a b l)

theorem queue_perm (l : List (Int × Decimal)) : (queue l).Perm l := by
  induction l with
  | nil => exact .refl _
  | cons a l ih => exact (enqueue_perm a _).trans (ih.cons a)

theorem value_least (a b : Decimal) : (a.least b).value = min a.value b.value := by
  unfold Decimal.least
  split
  · next h => rw [min_eq_left (Decimal.atMost_iff.1 h)]
  · next h => rw [min_eq_right (not_le.1 fun hle => h (Decimal.atMost_iff.2 hle)).le]

/-- What is left of an open amount goes back among the others. -/
theorem reopen_exact (ha : Open n (a :: rest)) (hgrid : OnGrid n paid.value) (hpos : 0 < paid.value)
    (hle : paid.value ≤ a.2.value) :
    ∃ l, reopen a paid rest = .ok l ∧ Open n l ∧
      (∀ f, weigh l f = weigh rest f + f a.1 * (a.2.value - paid.value)) ∧
      l.length ≤ rest.length + 1 ∧ (paid.value = a.2.value → l.length = rest.length) := by
  have hval := ha.pos a List.mem_cons_self
  unfold reopen
  split
  · next hb =>
    have hlt := Decimal.below_iff.1 hb
    have hrange : InRange n (a.2.value - paid.value) := by
      refine (ha.range a List.mem_cons_self).mono ?_
      rw [abs_of_nonneg (sub_nonneg.2 hle), abs_of_pos hval]
      linarith
    obtain ⟨c, hc, hv⟩ := Decimal.sub_exact (ha.grid a List.mem_cons_self) hgrid hrange
    have hperm := enqueue_perm (a.1, c) rest
    refine ⟨enqueue (a.1, c) rest, by rw [hc]; rfl, ?_, fun f => ?_, ?_, fun he => ?_⟩
    · refine Open.of_subset (Open.cons ?_ ?_ ?_ ha.tail) fun b hb => hperm.mem_iff.1 hb
      · exact hv ▸ sub_pos.2 hlt
      · exact hv ▸ (ha.grid a List.mem_cons_self).sub hgrid
      · exact hv ▸ hrange
    · rw [weigh_perm hperm, weigh_cons, hv]
      ring
    · rw [hperm.length_eq, List.length_cons]
    · exact absurd he hlt.ne
  · next hb =>
    have heq : paid.value = a.2.value :=
      le_antisymm hle (not_lt.1 fun hlt => hb (Decimal.below_iff.2 hlt))
    refine ⟨rest, rfl, ha.tail, fun f => ?_, Nat.le_succ _, fun _ => rfl⟩
    rw [heq, sub_self, mul_zero, add_zero]

/-! ## The payments -/

/-- **One payment** takes its amount from the front of both lists, closes one of
the two amounts there and leaves the totals even. -/
theorem pay_exact {credit debt : Int × Decimal} {credits debts : List (Int × Decimal)}
    (hc : Open n (credit :: credits)) (hd : Open n (debt :: debts))
    (hsum : weigh (credit :: credits) (fun _ => 1) = weigh (debt :: debts) fun _ => 1)
    (hpaid : paid = credit.2.least debt.2) :
    ∃ cs ds, reopen credit paid credits = .ok cs ∧ reopen debt paid debts = .ok ds ∧
      Open n cs ∧ Open n ds ∧
      (∀ f, weigh (credit :: credits) f = f credit.1 * paid.value + weigh cs f) ∧
      (∀ f, weigh (debt :: debts) f = f debt.1 * paid.value + weigh ds f) ∧
      weigh cs (fun _ => 1) = weigh ds (fun _ => 1) ∧
      cs.length + ds.length < (credit :: credits).length + (debt :: debts).length := by
  have hcpos := hc.pos credit List.mem_cons_self
  have hdpos := hd.pos debt List.mem_cons_self
  have hpay : paid.value = min credit.2.value debt.2.value := by rw [hpaid, value_least]
  have hgrid : OnGrid n paid.value := by
    rw [hpaid]
    unfold Decimal.least
    split
    · exact hc.grid credit List.mem_cons_self
    · exact hd.grid debt List.mem_cons_self
  have hpos : 0 < paid.value := hpay ▸ lt_min hcpos hdpos
  obtain ⟨cs, hcs, hcopen, hcw, hclen, hcfull⟩ :=
    reopen_exact hc hgrid hpos (hpay ▸ min_le_left _ _)
  obtain ⟨ds, hds, hdopen, hdw, hdlen, hdfull⟩ :=
    reopen_exact hd hgrid hpos (hpay ▸ min_le_right _ _)
  refine ⟨cs, ds, hcs, hds, hcopen, hdopen, fun f => ?_, fun f => ?_, ?_, ?_⟩
  · rw [weigh_cons, hcw]
    ring
  · rw [weigh_cons, hdw]
    ring
  · rw [weigh_cons, weigh_cons] at hsum
    rw [hcw, hdw]
    linarith
  · -- one of the two is closed, so there is less to do
    simp only [List.length_cons]
    rcases min_choice credit.2.value debt.2.value with hmin | hmin
    · have := hcfull (hpay.trans hmin)
      omega
    · have := hdfull (hpay.trans hmin)
      omega

/-- **One payment and the rest**: what the loop does while both lists have a
front. -/
theorem payUpto_cons_eq_ok {fuel : ℕ} {credit debt : Int × Decimal}
    {credits debts : List (Int × Decimal)} {ps : List Payment} :
    payUpto (fuel + 1) (credit :: credits) (debt :: debts) = .ok ps ↔
      ∃ cs ds qs, reopen credit (credit.2.least debt.2) credits = .ok cs ∧
        reopen debt (credit.2.least debt.2) debts = .ok ds ∧ payUpto fuel cs ds = .ok qs ∧
        ps = ⟨debt.1, credit.1, credit.2.least debt.2⟩ :: qs := by
  change (reopen credit _ credits).bind (fun cs => (reopen debt _ debts).bind fun ds =>
    (payUpto fuel cs ds).bind fun qs => .ok (_ :: qs)) = .ok ps ↔ _
  constructor
  · intro h
    cases hcs : reopen credit (credit.2.least debt.2) credits with
    | error o => rw [hcs] at h; cases h
    | ok cs =>
    rw [hcs] at h
    change (reopen debt _ debts).bind _ = _ at h
    cases hds : reopen debt (credit.2.least debt.2) debts with
    | error o => rw [hds] at h; cases h
    | ok ds =>
    rw [hds] at h
    change (payUpto fuel cs ds).bind _ = _ at h
    cases hqs : payUpto fuel cs ds with
    | error o => rw [hqs] at h; cases h
    | ok qs =>
    rw [hqs] at h
    cases h
    exact ⟨cs, ds, qs, rfl, rfl, hqs, rfl⟩
  · rintro ⟨cs, ds, qs, hcs, hds, hqs, rfl⟩
    rw [hcs]
    change (reopen debt _ debts).bind _ = _
    rw [hds]
    change (payUpto fuel cs ds).bind _ = _
    rw [hqs]
    rfl

/-- **Payments close what is open.** To every user flows what the user has open
to be received, and from every user what is open to be paid. -/
theorem payUpto_exact (fuel : ℕ) {credits debts : List (Int × Decimal)} (hc : Open n credits)
    (hd : Open n debts) (hfuel : credits.length + debts.length ≤ fuel)
    (hsum : weigh credits (fun _ => 1) = weigh debts fun _ => 1) :
    ∃ ps, payUpto fuel credits debts = .ok ps ∧
      (∀ f, weigh (ps.map Payment.received) f = weigh credits f) ∧
      ∀ f, weigh (ps.map Payment.made) f = weigh debts f := by
  -- the fuel is the number of amounts that are open, and every payment closes one
  induction fuel generalizing credits debts with
  | zero =>
    obtain rfl : credits = [] := List.length_eq_zero_iff.1 (by omega)
    obtain rfl : debts = [] := List.length_eq_zero_iff.1 (by omega)
    exact ⟨[], rfl, fun _ => rfl, fun _ => rfl⟩
  | succ fuel ih =>
    cases credits with
    | nil =>
      obtain rfl := hd.eq_nil hsum.symm
      exact ⟨[], rfl, fun _ => rfl, fun _ => rfl⟩
    | cons credit credits =>
      cases debts with
      | nil => cases hc.eq_nil hsum
      | cons debt debts =>
        obtain ⟨cs, ds, hcs, hds, hcopen, hdopen, hcw, hdw, hsum', hless⟩ := pay_exact hc hd hsum rfl
        obtain ⟨ps, hps, hrec, hmade⟩ := ih hcopen hdopen (by omega) hsum'
        refine ⟨⟨debt.1, credit.1, credit.2.least debt.2⟩ :: ps,
          payUpto_cons_eq_ok.2 ⟨cs, ds, ps, hcs, hds, hps, rfl⟩, fun f => ?_, fun f => ?_⟩
        · rw [List.map_cons, weigh_cons, hrec, hcw]
          rfl
        · rw [List.map_cons, weigh_cons, hmade, hdw]
          rfl

/-! ## From nets to payments -/

variable {t : UserTally}

/-- Nets of one user each, in order, are not merged with each other. -/
theorem merge_eq (t : UserTally) : merge (t.toList.map fun a => ⟨a.1, a.2⟩) = .ok t := by
  have hloop : ∃ t' : UserTally, t.toList.foldlM (fun (t : UserTally) a => t.add a.1 a.2)
      Index.empty = .ok t' ∧ t'.toList = t.toList := by
    refine foldlM_ok (fun done (t' : UserTally) => t'.toList = done) rfl ?_
    intro done a rest t' hall ht'
    have hasc : (done ++ [a]).Pairwise fun a b => KeyOrder.before a.1 b.1 = true := by
      refine t.ascending.sublist ?_
      rw [hall]
      exact List.Sublist.append_left (List.singleton_sublist.2 List.mem_cons_self) done
    -- the users ascend, so the next one is not among those done
    have hnew : t'.contains a.1 = false := by
      rw [Index.contains_eq_false_iff, Index.find?_eq_none_iff, ht']
      intro b hb he
      have hba := (List.pairwise_append.1 hasc).2.2 b hb a (List.mem_singleton_self a)
      rw [he, KeyOrder.irrefl] at hba
      cases hba
    refine ⟨t'.put a, ?_, ?_⟩
    · unfold UserTally.add
      rw [held_of_new hnew]
      rfl
    · refine Index.eq_of_ascending (t'.put a).ascending hasc fun b => ?_
      rw [Index.mem_put_of_new hnew, ht', List.mem_append, List.mem_singleton, or_comm]
  obtain ⟨t', ht', hl⟩ := hloop
  unfold merge
  rw [List.foldlM_map]
  exact ht'.trans (congrArg Except.ok (Index.ext hl))

/-- **Debts are credits** once all amounts are turned round, so that what holds of
one side holds of the other. -/
theorem debts_eq (t : UserTally) : debts t = credits t.opposite := by
  unfold debts credits UserTally.opposite
  rw [Index.toList_map, List.filter_map]
  simp only [Function.comp_def, Decimal.isPositive_neg]

theorem weigh_opposite (t : UserTally) (f : Int → ℚ) :
    weigh t.opposite.toList f = -weigh t.toList f := by
  unfold UserTally.opposite
  rw [Index.toList_map]
  induction t.toList with
  | nil => simp
  | cons a l ih =>
    rw [List.map_cons, weigh_cons, weigh_cons, ih, Decimal.value_neg]
    ring

/-- A sum of nets is what is open to be received less what is open to be
paid. -/
theorem weigh_credits_sub_debts (t : UserTally) (f : Int → ℚ) :
    weigh (credits t) f - weigh (debts t) f = weigh t.toList f := by
  unfold credits debts
  rw [weigh_perm (queue_perm _), weigh_perm (queue_perm _)]
  induction t.toList with
  | nil => simp
  | cons a l ih =>
    rw [List.filter_cons, List.filter_cons, weigh_cons, ← ih]
    -- a net is paid, is nothing or is received; in each case it is queued on that side only
    rcases lt_trichotomy a.2.value 0 with h | h | h
    · have hp : ¬ a.2.isPositive = true := fun hp => absurd (Decimal.isPositive_iff.1 hp) h.not_gt
      rw [if_neg hp, if_pos (Decimal.isNegative_iff.2 h)]
      simp
      ring
    · have hp : ¬ a.2.isPositive = true := fun hp => absurd (Decimal.isPositive_iff.1 hp) h.not_gt
      have hn : ¬ a.2.isNegative = true := fun hn => absurd (Decimal.isNegative_iff.1 hn) h.not_lt
      rw [if_neg hp, if_neg hn, h]
      simp
    · have hn : ¬ a.2.isNegative = true := fun hn => absurd (Decimal.isNegative_iff.1 hn) h.not_gt
      rw [if_pos (Decimal.isPositive_iff.2 h), if_neg hn, weigh_cons]
      ring

/-- **Nets that can be settled**: they sum to zero, and no sum of some of them
is out of range. -/
structure Settleable (n : ℕ) (t : UserTally) : Prop where
  sum : weigh t.toList (fun _ => 1) = 0
  grid : ∀ a ∈ t.toList, OnGrid n a.2.value
  range : ∀ f : Int → ℚ, (∀ u, f u = 0 ∨ f u = 1) → InRange n (weigh t.toList f)

theorem Settleable.inRange_of_mem (h : Settleable n t) (ha : a ∈ t.toList) : InRange n a.2.value := by
  rw [value_of_mem ha]
  exact h.range _ fun u => by unfold only; split <;> simp

theorem Settleable.open_credits (h : Settleable n t) : Open n (credits t) := by
  have hmem : ∀ a ∈ credits t, a ∈ t.toList ∧ a.2.isPositive = true := fun a ha =>
    List.mem_filter.1 ((queue_perm _).mem_iff.1 ha)
  exact
  { pos := fun a ha => Decimal.isPositive_iff.1 (hmem a ha).2
    grid := fun a ha => h.grid a (hmem a ha).1
    range := fun a ha => h.inRange_of_mem (hmem a ha).1 }

theorem Settleable.opposite (h : Settleable n t) : Settleable n t.opposite where
  sum := by rw [weigh_opposite, h.sum, neg_zero]
  grid a ha := by
    obtain ⟨b, hb, rfl⟩ := List.mem_map.1 ha
    rw [Decimal.value_neg]
    exact (h.grid b hb).neg
  range f hf := by
    rw [weigh_opposite]
    exact (h.range f hf).mono (abs_neg _).le

theorem Settleable.open_debts (h : Settleable n t) : Open n (debts t) :=
  debts_eq t ▸ h.opposite.open_credits

/-- Nets add up exactly, one after the other. -/
theorem Settleable.total_exact (h : Settleable n t) :
    ∃ c, Decimal.total (t.toList.map Prod.snd) = .ok c ∧ c.value = 0 := by
  have hsum : ((t.toList.map Prod.snd).map Decimal.value).sum = 0 := by
    rw [← h.sum]
    simp [weigh, Function.comp_def]
  rw [← hsum]
  refine Decimal.total_exact (k := n) (fun x hx => ?_) fun bs hbs => ?_
  · obtain ⟨a, ha, rfl⟩ := List.mem_map.1 hx
    exact h.grid a ha
  · -- The first few nets are those of the users among them.
    obtain ⟨p, ⟨q, hq⟩, rfl⟩ := List.prefix_map_iff.1 hbs
    have hnodup : (p ++ q).Pairwise fun a b => KeyOrder.before a.1 b.1 = true := hq ▸ t.ascending
    have hp : weigh p (fun u => if u ∈ p.map Prod.fst then 1 else 0) = weigh p fun _ => 1 :=
      weigh_congr fun a ha => if_pos (List.mem_map_of_mem ha)
    have hrest : weigh q (fun u => if u ∈ p.map Prod.fst then 1 else 0) = 0 := by
      refine weigh_eq_zero fun b hb => if_neg fun hin => ?_
      obtain ⟨a, ha, he⟩ := List.mem_map.1 hin
      have hab := (List.pairwise_append.1 hnodup).2.2 a ha b hb
      rw [he, KeyOrder.irrefl] at hab
      cases hab
    have hall := h.range (fun u => if u ∈ p.map Prod.fst then 1 else 0) fun u => by
      split <;> simp
    rw [← hq, weigh_append, hp, hrest, add_zero] at hall
    simpa [weigh, Function.comp_def] using hall

variable {nets : List Net} {c : Decimal}

/-- Nets whose total is zero are merged and paid. -/
theorem settle_of_isZero (hc : Decimal.total (nets.map (·.amount)) = .ok c)
    (hzero : c.isZero = true) (ht : merge nets = .ok t) :
    settle nets = Failure.ofSum (pay (credits t) (debts t)) := by
  unfold settle
  rw [hc]
  simp only [Failure.ofSum, bind, Except.bind, hzero, Bool.not_true, ht]
  rfl

/-- Nets whose total is not zero are not settled; the total is reported. -/
theorem settle_of_not_isZero (hc : Decimal.total (nets.map (·.amount)) = .ok c)
    (hne : c.isZero = false) : settle nets = .error (.refused (.unbalanced c)) := by
  unfold settle
  rw [hc]
  simp only [Failure.ofSum, bind, Except.bind, hne, Bool.not_false]
  rfl

/-- **Nets are settled exactly** once they are merged: the payments move what is
open, and nothing else. -/
theorem settle_merged_exact (h : Settleable n t)
    (hc : Decimal.total (nets.map (·.amount)) = .ok c) (hzero : c.value = 0)
    (ht : merge nets = .ok t) :
    ∃ ps, settle nets = .ok ps ∧ pay (credits t) (debts t) = .ok ps ∧
      (∀ f, weigh (ps.map Payment.received) f = weigh (credits t) f) ∧
      ∀ f, weigh (ps.map Payment.made) f = weigh (debts t) f := by
  have hbalance := weigh_credits_sub_debts t fun _ => 1
  rw [h.sum] at hbalance
  obtain ⟨ps, hps, hrec, hmade⟩ := payUpto_exact _ h.open_credits h.open_debts le_rfl
    (sub_eq_zero.1 hbalance)
  refine ⟨ps, ?_, hps, hrec, hmade⟩
  rw [settle_of_isZero hc (Decimal.isZero_iff.2 hzero) ht]
  exact congrArg Failure.ofSum hps

/-- **The nets of a tally are settled exactly** as they are listed. -/
theorem settle_exact (h : Settleable n t) :
    ∃ ps, settle (t.toList.map fun a => ⟨a.1, a.2⟩) = .ok ps ∧
      pay (credits t) (debts t) = .ok ps ∧
      (∀ f, weigh (ps.map Payment.received) f = weigh (credits t) f) ∧
      ∀ f, weigh (ps.map Payment.made) f = weigh (debts t) f := by
  obtain ⟨c, hc, hzero⟩ := h.total_exact
  have htotal :
      Decimal.total ((t.toList.map fun a => (⟨a.1, a.2⟩ : Net)).map (·.amount)) = .ok c := by
    rw [List.map_map]
    exact hc
  exact settle_merged_exact h htotal hzero (merge_eq t)

/-- What a user pays and does not receive makes up for the net. -/
theorem weigh_even {ps : List Payment}
    (hrec : ∀ f, weigh (ps.map Payment.received) f = weigh (credits t) f)
    (hmade : ∀ f, weigh (ps.map Payment.made) f = weigh (debts t) f) (f : Int → ℚ) :
    weigh t.toList f + weigh (ps.map Payment.made) f - weigh (ps.map Payment.received) f = 0 := by
  rw [hrec, hmade, ← weigh_credits_sub_debts t f]
  ring

end Settlement

end SharedLedger
