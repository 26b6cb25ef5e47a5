import SharedLedger.Proofs.Payments
import Mathlib.Data.Prod.Lex

/-!
# The largest with the largest

The rule of settling without its queues: of all users the one with the largest
credit and the one with the largest debt come first, of equal ones the lower user
id; the smaller of the two amounts is paid, and so on with what is left
(`Settlement.Greedy`). The rule leaves no choice (`Greedy.unique`) and pays less
and less (`Greedy.amounts_decrease`). The loop follows it because its lists stay
in order (`Settlement.ordered_reopen`), so the front of each is the user the rule
picks, and because in range nothing that goes back to a list is rounded
(`Pays.greedy`). What it starts from is what the entries of every user come to
together, so neither their order nor their number matters (`Settlement.pays_greedily`).
-/

namespace SharedLedger

/-- A payment whose amount is a number, at whatever scale it is written. -/
structure Transfer where
  payer : Int
  payee : Int
  amount : ℚ
  deriving DecidableEq

/-- What is paid, by whom and to whom. -/
def Payment.transfer (p : Payment) : Transfer := ⟨p.payer, p.payee, p.amount.value⟩

namespace Settlement

open Tally

/-! ## The rule -/

/-- The user to come first has the largest amount, and of those who have as much
the lowest id. -/
def First (owed : Int → ℚ) (u : Int) : Prop :=
  0 < owed u ∧ ∀ v, owed v < owed u ∨ owed v = owed u ∧ u ≤ v

/-- What is due to everybody once `debtor` has paid `creditor` the smaller of the
two amounts. -/
def afterPayment (due : Int → ℚ) (creditor debtor : Int) : Int → ℚ :=
  Function.update
    (Function.update due creditor (due creditor - min (due creditor) (-due debtor)))
    debtor (due debtor + min (due creditor) (-due debtor))

/-- **The rule**: the largest debtor pays the largest creditor, again and again,
until nobody is owed anything or nobody owes anything. What is due to a user who
owes something is negative. -/
inductive Greedy : (Int → ℚ) → List Transfer → Prop
  /-- Nobody is left on one side. -/
  | settled {due : Int → ℚ} (h : (∀ u, due u ≤ 0) ∨ ∀ u, 0 ≤ due u) : Greedy due []
  /-- One more payment. -/
  | pay {due : Int → ℚ} {creditor debtor : Int} {ts : List Transfer} (hc : First due creditor)
    (hd : First (-due) debtor) (h : Greedy (afterPayment due creditor debtor) ts) :
    Greedy due (⟨debtor, creditor, min (due creditor) (-due debtor)⟩ :: ts)

section Rule

variable {owed due : Int → ℚ} {creditor debtor u v : Int} {ts ts' : List Transfer} {m : ℚ}

theorem First.le (h : First owed u) (v : Int) : owed v ≤ owed u :=
  (h.2 v).elim le_of_lt fun h => h.1.le

/-- There is one user to come first. -/
theorem First.unique (hu : First owed u) (hv : First owed v) : u = v := by
  have heq : owed u = owed v := le_antisymm (hv.le u) (hu.le v)
  have huv : u ≤ v := (hu.2 v).elim (fun hlt => absurd heq hlt.ne') And.right
  have hvu : v ≤ u := (hv.2 u).elim (fun hlt => absurd heq hlt.ne) And.right
  exact le_antisymm huv hvu

/-- With somebody on both sides there is something to pay. -/
theorem not_settled_of_first (hc : First due creditor) (hd : First (-due) debtor) :
    ¬ ((∀ u, due u ≤ 0) ∨ ∀ u, 0 ≤ due u) := by
  rintro (hnone | hnone)
  · exact hc.1.not_ge (hnone creditor)
  · exact hd.1.not_ge (neg_nonpos.2 (hnone debtor))

/-- **The rule leaves no choice.** -/
theorem Greedy.unique (h : Greedy due ts) (h' : Greedy due ts') : ts = ts' := by
  induction h generalizing ts' with
  | settled hnone =>
    cases h' with
    | settled => rfl
    | pay hc hd _ => exact (not_settled_of_first hc hd hnone).elim
  | pay hc hd _ ih =>
    cases h' with
    | settled hnone => exact (not_settled_of_first hc hd hnone).elim
    | pay hc' hd' h' =>
      obtain rfl := hc.unique hc'
      obtain rfl := hd.unique hd'
      rw [ih h']

/-! What a payment does to what is due, said for those who are owed; for those who
owe it is the same with the signs turned round (`neg_afterPayment`). -/

theorem ne_of_first (hc : First due creditor) (hd : First (-due) debtor) : creditor ≠ debtor := by
  rintro rfl
  exact hc.1.not_gt (neg_pos.1 hd.1)

/-- The amount is the same whichever side is turned round. -/
theorem min_neg_sides (due : Int → ℚ) (creditor debtor : Int) :
    min ((-due) debtor) (-(-due) creditor) = min (due creditor) (-due debtor) := by
  rw [Pi.neg_apply, Pi.neg_apply, neg_neg, min_comm]

theorem neg_afterPayment (hne : creditor ≠ debtor) :
    -afterPayment due creditor debtor = afterPayment (-due) debtor creditor := by
  funext u
  unfold afterPayment
  rw [min_neg_sides, Pi.neg_apply]
  by_cases hud : u = debtor
  · subst hud
    rw [Function.update_self, Function.update_of_ne hne.symm, Function.update_self, Pi.neg_apply]
    ring
  · rw [Function.update_of_ne hud]
    by_cases huc : u = creditor
    · subst huc
      rw [Function.update_self, Function.update_self, Pi.neg_apply]
      ring
    · rw [Function.update_of_ne huc, Function.update_of_ne huc, Function.update_of_ne hud,
        Pi.neg_apply]

/-- What is owed to anybody stays as it is, but for the one who is paid. -/
theorem max_afterPayment (hc : First due creditor) (hd : First (-due) debtor) (u : Int) :
    max (afterPayment due creditor debtor u) 0 =
      max (due u) 0 - only u creditor * min (due creditor) (-due debtor) := by
  have hne := ne_of_first hc hd
  have hpos := hc.1
  have hneg : due debtor < 0 := neg_pos.1 hd.1
  unfold afterPayment
  by_cases hud : u = debtor
  · subst hud
    have hle : due u + min (due creditor) (-due u) ≤ 0 := by
      linarith [min_le_right (due creditor) (-due u)]
    rw [Function.update_self, only_of_ne hne, max_eq_right hle, max_eq_right hneg.le]
    ring
  · rw [Function.update_of_ne hud]
    by_cases huc : u = creditor
    · subst huc
      have hle : 0 ≤ due u - min (due u) (-due debtor) := sub_nonneg.2 (min_le_left _ _)
      rw [Function.update_self, only_self, one_mul, max_eq_left hle, max_eq_left hpos.le]
    · rw [Function.update_of_ne huc, only_of_ne (Ne.symm huc), zero_mul, sub_zero]

/-- Nobody is owed more afterwards than the one who came first. -/
theorem afterPayment_le (hc : First due creditor) (hd : First (-due) debtor) (u : Int) :
    afterPayment due creditor debtor u ≤ due creditor := by
  have hpaid : 0 ≤ only u creditor * min (due creditor) (-due debtor) := by
    have hmin : 0 < min (due creditor) (-due debtor) := lt_min hc.1 hd.1
    unfold only
    split <;> simp [hmin.le]
  calc afterPayment due creditor debtor u
      ≤ max (afterPayment due creditor debtor u) 0 := le_max_left _ _
    _ ≤ max (due u) 0 := by
      rw [max_afterPayment hc hd]
      linarith
    _ ≤ due creditor := max_le (hc.le u) hc.1.le

/-- Nobody owes more afterwards than the one who came first. -/
theorem neg_afterPayment_le (hc : First due creditor) (hd : First (-due) debtor) (u : Int) :
    -afterPayment due creditor debtor u ≤ -due debtor := by
  have hc' : First (-(-due)) creditor := (neg_neg due).symm ▸ hc
  have hle := afterPayment_le hd hc' u
  rwa [← neg_afterPayment (ne_of_first hc hd)] at hle

/-- No payment is larger than all that is owed on one of the sides. -/
theorem Greedy.amount_le (h : Greedy due ts) (hm : (∀ u, due u ≤ m) ∨ ∀ u, -due u ≤ m) :
    ∀ t ∈ ts, t.amount ≤ m := by
  induction h with
  | settled => simp
  | pay hc hd _ ih =>
    refine List.forall_mem_cons.2 ⟨?_, ih ?_⟩
    · rcases hm with hm | hm
      · exact (min_le_left _ _).trans (hm _)
      · exact (min_le_right _ _).trans (hm _)
    · rcases hm with hm | hm
      · exact .inl fun u => (afterPayment_le hc hd u).trans (hm _)
      · exact .inr fun u => (neg_afterPayment_le hc hd u).trans (hm _)

/-- **The rule pays less and less.** -/
theorem Greedy.amounts_decrease (h : Greedy due ts) : (ts.map (·.amount)).Pairwise (· ≥ ·) := by
  induction h with
  | settled => exact .nil
  | @pay due creditor debtor ts hc hd h ih =>
    refine List.pairwise_cons.2 ⟨fun x hx => ?_, ih⟩
    obtain ⟨t, ht, rfl⟩ := List.mem_map.1 hx
    -- the side whose first user has less is the one that nobody exceeds
    rcases min_choice (due creditor) (-due debtor) with hmin | hmin
    · rw [hmin]
      exact h.amount_le (.inl (afterPayment_le hc hd)) t ht
    · rw [hmin]
      exact h.amount_le (.inr (neg_afterPayment_le hc hd)) t ht

end Rule

/-! ## The lists stay in order -/

section Order

variable {a b : Int × Decimal} {l rest : List (Int × Decimal)} {paid : Decimal}

/-- The place of an open amount: the larger ones first, and of equal ones the
lower user id. -/
def rank (a : Int × Decimal) : ℚ ×ₗ Int := toLex (-a.2.value, a.1)

/-- A list of open amounts in order. -/
def Ordered (l : List (Int × Decimal)) : Prop := l.Pairwise fun a b => rank a ≤ rank b

theorem goesBefore_iff : goesBefore a b = true ↔ rank a < rank b := by
  unfold goesBefore rank
  rw [Bool.or_eq_true, Bool.and_eq_true, Decimal.below_iff, Decimal.sameAs_iff, decide_eq_true_eq,
    Prod.Lex.toLex_lt_toLex, neg_lt_neg_iff, neg_inj]

theorem ordered_enqueue (h : Ordered l) : Ordered (enqueue a l) := by
  induction l with
  | nil => exact List.pairwise_singleton _ _
  | cons b l ih =>
    obtain ⟨hb, hl⟩ := List.pairwise_cons.1 h
    unfold enqueue
    split
    · next hab =>
      have hle := (goesBefore_iff.1 hab).le
      refine List.pairwise_cons.2 ⟨List.forall_mem_cons.2 ⟨hle, fun c hc => ?_⟩, h⟩
      exact hle.trans (hb c hc)
    · next hab =>
      have hle : rank b ≤ rank a := not_lt.1 fun hlt => hab (goesBefore_iff.2 hlt)
      refine List.pairwise_cons.2 ⟨fun c hc => ?_, ih hl⟩
      rcases List.mem_cons.1 ((enqueue_perm a l).mem_iff.1 hc) with rfl | hc
      · exact hle
      · exact hb c hc

theorem ordered_queue (l : List (Int × Decimal)) : Ordered (queue l) := by
  induction l with
  | nil => exact .nil
  | cons a l ih => exact ordered_enqueue ih

/-- **What is left of an open amount goes back to its place.** -/
theorem ordered_reopen (h : reopen a paid rest = .ok l) (hord : Ordered (a :: rest)) :
    Ordered l := by
  have hrest := (List.pairwise_cons.1 hord).2
  obtain ⟨-, rfl⟩ | ⟨-, c, -, rfl⟩ := reopen_eq_ok_iff.1 h
  · exact hrest
  · exact ordered_enqueue hrest

end Order

/-! ## The loop follows the rule -/

section Loop

variable {owed due : Int → ℚ} {a credit debt : Int × Decimal} {ps : List Payment} {n : ℕ} {u : Int}
  {l rest cs ds cs' ds' : List (Int × Decimal)}

/-- A list of what is owed to whom. -/
structure Lists (owed : Int → ℚ) (l : List (Int × Decimal)) : Prop where
  ordered : Ordered l
  nodup : (l.map Prod.fst).Nodup
  positive : Positive l
  amount : ∀ u, weigh l (only u) = max (owed u) 0

namespace Lists

theorem owed_of_mem (h : Lists owed l) (ha : a ∈ l) : owed a.1 = a.2.value := by
  have hpos := h.positive a ha
  have hmax := h.amount a.1
  rw [weigh_only_of_mem h.nodup ha] at hmax
  rcases max_choice (owed a.1) 0 with hm | hm
  · exact (hmax.trans hm).symm
  · exact absurd (hmax.trans hm) hpos.ne'

/-- Who is owed something is listed. -/
theorem exists_mem (h : Lists owed l) (hu : 0 < owed u) : ∃ a ∈ l, a.1 = u := by
  have hmem : u ∈ l.map Prod.fst := by
    by_contra hnot
    have hmax := h.amount u
    rw [weigh_only_of_notMem hnot, max_eq_left hu.le] at hmax
    exact hu.ne hmax
  exact List.mem_map.1 hmem

/-- **The front of the list comes first.** -/
theorem first (h : Lists owed (a :: rest)) : First owed a.1 := by
  have ha := h.owed_of_mem List.mem_cons_self
  have hpos := h.positive a List.mem_cons_self
  refine ⟨ha ▸ hpos, fun v => ?_⟩
  by_cases hv : 0 < owed v
  · obtain ⟨b, hb, rfl⟩ := h.exists_mem hv
    have hle : rank a ≤ rank b := by
      rcases List.mem_cons.1 hb with rfl | hb
      · exact le_rfl
      · exact (List.pairwise_cons.1 h.ordered).1 b hb
    unfold rank at hle
    rwa [Prod.Lex.toLex_le_toLex, neg_lt_neg_iff, neg_inj, ← ha, ← h.owed_of_mem hb, eq_comm] at hle
  · exact .inl (lt_of_le_of_lt (not_lt.1 hv) (ha ▸ hpos))

theorem nonpos_of_nil (h : Lists owed []) (u : Int) : owed u ≤ 0 := by
  by_contra hu
  obtain ⟨a, ha, -⟩ := h.exists_mem (not_le.1 hu)
  exact absurd ha List.not_mem_nil

/-- A payment takes its amount from the front and from nobody else. -/
theorem step {owed' : Int → ℚ} {paid : Decimal} (h : Lists owed (a :: rest))
    (hl : reopen a paid rest = .ok l) (hpos : Positive l)
    (hw : ∀ f, weigh (a :: rest) f = f a.1 * paid.value + weigh l f)
    (howed : ∀ u, max (owed' u) 0 = max (owed u) 0 - only u a.1 * paid.value) : Lists owed' l where
  ordered := ordered_reopen hl h.ordered
  nodup := nodup_reopen hl h.nodup
  positive := hpos
  amount u := by
    rw [howed, ← h.amount, hw]
    ring

end Lists

/-- **The loop follows the rule.** -/
theorem Pays.greedy (h : Pays cs ds ps cs' ds') (hc : Open n cs) (hd : Open n ds)
    (hsum : weigh cs (fun _ => 1) = weigh ds fun _ => 1) (hcs : Lists due cs)
    (hds : Lists (-due) ds) : Greedy due (ps.map Payment.transfer) := by
  -- what is due changes with every payment, and the lists with it
  induction h generalizing due with
  | settled hnone =>
    rcases hnone with rfl | rfl
    · exact .settled (.inl hcs.nonpos_of_nil)
    · exact .settled (.inr fun u => neg_nonpos.1 (hds.nonpos_of_nil u))
  | @round credit debt _ _ cs ds _ _ _ hcredit hdebt _ ih =>
    obtain ⟨_, _, hcredit', hdebt', hcopen, hdopen, hcw, hdw, hsum', -⟩ := pay_exact hc hd hsum rfl
    rw [hcredit] at hcredit'
    rw [hdebt] at hdebt'
    cases hcredit'
    cases hdebt'
    have hfirst : First due credit.1 := hcs.first
    have hfirst' : First (-due) debt.1 := hds.first
    have hpaid : (credit.2.least debt.2).value = min (due credit.1) (-due debt.1) := by
      rw [value_least, hcs.owed_of_mem List.mem_cons_self, ← hds.owed_of_mem List.mem_cons_self]
      rfl
    have hcs' : Lists (afterPayment due credit.1 debt.1) cs :=
      hcs.step hcredit hcopen.pos hcw fun u => by rw [max_afterPayment hfirst hfirst', hpaid]
    have hds' : Lists (-afterPayment due credit.1 debt.1) ds := by
      rw [neg_afterPayment (ne_of_first hfirst hfirst')]
      refine hds.step hdebt hdopen.pos hdw fun u => ?_
      rw [max_afterPayment hfirst' ((neg_neg due).symm ▸ hfirst), hpaid, min_neg_sides]
    have hrest := ih hcopen hdopen hsum' hcs' hds'
    rw [List.map_cons, Payment.transfer, hpaid]
    exact .pay hfirst hfirst' hrest

end Loop

/-! ## What it starts from -/

section Start

variable {t : UserTally} {nets nets' : List Net} {k k' : ℕ} {u : Int}

/-- The credits are those of the users who are owed something. -/
theorem lists_credits (t : UserTally) : Lists (fun u => (held t u).value) (credits t) where
  ordered := ordered_queue _
  nodup := nodup_credits t
  positive := positive_credits t
  amount u := by
    by_cases hu : 0 < (held t u).value
    · obtain ⟨a, ha, rfl⟩ := List.mem_map.1 (mem_credits.2 hu)
      have hmem := (List.mem_filter.1 ((queue_perm _).mem_iff.1 ha)).1
      rw [weigh_only_of_mem (nodup_credits t) ha, held_of_mem hmem, max_eq_left]
      exact (positive_credits t a ha).le
    · rw [weigh_only_of_notMem fun h => hu (mem_credits.1 h), max_eq_right (not_lt.1 hu)]

/-- The debts are those of the users who owe something. -/
theorem lists_debts (t : UserTally) : Lists (fun u => -(held t u).value) (debts t) := by
  simpa only [debts_eq, value_held_opposite] using lists_credits t.opposite

/-- The sum of the entries is that of what those of each user come to. -/
theorem sum_merged {s : Finset Int} (hs : ∀ n ∈ nets, n.userId ∈ s) :
    ∑ u ∈ s, merged nets u = (nets.map (·.amount.value)).sum := by
  have hparts : ∀ u, merged nets u =
      weigh ((nets.map Net.keyed).filter fun a => id a.1 = u) fun _ => 1 := by
    intro u
    rw [merged_eq, weigh_only_eq_sum]
    simp [weigh]
  calc ∑ u ∈ s, merged nets u
      = (s.toList.map (merged nets)).sum := (Finset.sum_map_toList s _).symm
    _ = weigh (nets.map Net.keyed) fun _ => 1 := by
      rw [funext hparts]
      exact sum_weigh_filter id s.nodup_toList
        (List.forall_mem_map.2 fun n hn _ => Finset.mem_toList.2 (hs n hn))
    _ = (nets.map (·.amount.value)).sum := weigh_keyed nets

/-- Entries that come to the same for every user have the same sum. -/
theorem sum_eq_of_merged (h : ∀ u, merged nets' u = merged nets u) :
    (nets'.map (·.amount.value)).sum = (nets.map (·.amount.value)).sum := by
  have hs : ∀ n ∈ nets ++ nets', n.userId ∈ ((nets ++ nets').map (·.userId)).toFinset :=
    fun n hn => List.mem_toFinset.2 (List.mem_map_of_mem hn)
  rw [← sum_merged fun n hn => hs n (List.mem_append_right nets hn),
    ← sum_merged fun n hn => hs n (List.mem_append_left nets' hn)]
  exact Finset.sum_congr rfl fun u _ => h u

/-- Nets that sum to zero are settled by the rule. -/
theorem exists_greedy (hgrid : ∀ n ∈ nets, OnGrid k n.amount.value)
    (hrange : InRange k (nets.map fun n => |n.amount.value|).sum)
    (hzero : (nets.map (·.amount.value)).sum = 0) :
    ∃ ps, settle nets = .ok ps ∧ Greedy (merged nets) (ps.map Payment.transfer) := by
  obtain ⟨t, ps, hw, hsettle, hps, hpay, -⟩ := exists_settled hgrid hrange hzero
  obtain ⟨cs, ds, hloop⟩ := pay_eq_ok_iff.1 hpay
  have hmerged : merged nets = fun u => (held t u).value :=
    funext fun u => (held_eq_merged hw u).symm
  have hbalance := weigh_credits_sub_debts t fun _ => 1
  rw [hsettle.sum] at hbalance
  rw [hmerged]
  exact ⟨ps, hps, hloop.greedy hsettle.open_credits hsettle.open_debts (sub_eq_zero.1 hbalance)
    (lists_credits t) (lists_debts t)⟩

/-- **Nets that sum to zero are settled by the rule**, payment by payment. So the
payments become smaller and smaller, and all that counts is what the entries of
each user come to: in any order, in any number and at any scale. -/
theorem pays_greedily (hgrid : ∀ n ∈ nets, OnGrid k n.amount.value)
    (hrange : InRange k (nets.map fun n => |n.amount.value|).sum)
    (hzero : (nets.map (·.amount.value)).sum = 0) :
    ∃ ps, settle nets = .ok ps ∧
      (∀ ts, Greedy (merged nets) ts ↔ ts = ps.map Payment.transfer) ∧
      (ps.map (·.amount.value)).Pairwise (· ≥ ·) ∧
      ∀ k' nets', (∀ n ∈ nets', OnGrid k' n.amount.value) →
        InRange k' (nets'.map fun n => |n.amount.value|).sum →
        (∀ u, merged nets' u = merged nets u) →
        ∃ ps', settle nets' = .ok ps' ∧ ps'.map Payment.transfer = ps.map Payment.transfer := by
  obtain ⟨ps, hps, hgreedy⟩ := exists_greedy hgrid hrange hzero
  refine ⟨ps, hps, fun ts => ⟨fun h => h.unique hgreedy, fun h => h ▸ hgreedy⟩, ?_, ?_⟩
  · have hdecrease := hgreedy.amounts_decrease
    rwa [List.map_map] at hdecrease
  · intro k' nets' hgrid' hrange' hmerged
    obtain ⟨ps', hps', hgreedy'⟩ :=
      exists_greedy hgrid' hrange' ((sum_eq_of_merged hmerged).trans hzero)
    rw [funext hmerged] at hgreedy'
    exact ⟨ps', hps', hgreedy'.unique hgreedy⟩

end Start

end Settlement

namespace Sample

/-- What five users of a flat come to, written at three scales. -/
def flat : List Net :=
  [⟨5, whole 10 (by decide)⟩, ⟨2, tenths 40 (by decide)⟩, ⟨9, (whole 6 (by decide)).neg⟩,
    ⟨7, (cents 600 (by decide)).neg⟩, ⟨8, (tenths 20 (by decide)).neg⟩]

/-- The same in another order, in more entries and at other scales. -/
def bills : List Net :=
  [⟨7, (whole 6 (by decide)).neg⟩, ⟨5, cents 700 (by decide)⟩, ⟨8, (whole 2 (by decide)).neg⟩,
    ⟨9, (whole 7 (by decide)).neg⟩, ⟨2, whole 4 (by decide)⟩, ⟨5, whole 3 (by decide)⟩,
    ⟨9, tenths 10 (by decide)⟩]

/-- Who pays whom for it. -/
def rents : List Transfer := [⟨7, 5, 6⟩, ⟨9, 2, 4⟩, ⟨8, 5, 2⟩, ⟨9, 5, 2⟩]

end Sample

/-- The users 7 and 9 owe as much, and so do 8 and 9 later; what is left of the
credit of 5 is as much as that of 2. Every time the lower id goes first. -/
theorem Settlement.pays_greedily_flat :
    ∃ ps ps', settle Sample.flat = .ok ps ∧ settle Sample.bills = .ok ps' ∧
      ps.map Payment.transfer = Sample.rents ∧ ps'.map Payment.transfer = Sample.rents ∧
      ps' ≠ ps ∧ Greedy (merged Sample.flat) Sample.rents := by
  have hunits : ∀ n ∈ Sample.flat ++ Sample.bills, n.amount.value * 10 ^ 2 =
      ((n.amount.value * 10 ^ 2).num : ℚ) := by decide +kernel
  have hgrid : ∀ n ∈ Sample.flat ++ Sample.bills, OnGrid 2 n.amount.value :=
    fun n hn => ⟨_, hunits n hn⟩
  have hsizes : (Sample.flat.map fun n => |n.amount.value|).sum = 28 ∧
      (Sample.bills.map fun n => |n.amount.value|).sum = 30 := by decide +kernel
  have hrange : InRange 2 (Sample.flat.map fun n => |n.amount.value|).sum := by
    rw [hsizes.1]
    norm_num [InRange]
  have hrange' : InRange 2 (Sample.bills.map fun n => |n.amount.value|).sum := by
    rw [hsizes.2]
    norm_num [InRange]
  have hlisted : ∀ u ∈ (Sample.flat ++ Sample.bills).map (·.userId),
      merged Sample.bills u = merged Sample.flat u := by decide +kernel
  have hmerged : ∀ u, merged Sample.bills u = merged Sample.flat u := by
    intro u
    by_contra hne
    refine hne (hlisted u ?_)
    rw [List.map_append, List.mem_append]
    by_cases hzero : merged Sample.flat u = 0
    · exact .inr (mem_of_merged_ne_zero fun hz => hne (hz.trans hzero.symm))
    · exact .inl (mem_of_merged_ne_zero hzero)
  obtain ⟨ps, hps, hrule, -, hsame⟩ := pays_greedily
    (fun n hn => hgrid n (List.mem_append_left _ hn)) hrange (by decide +kernel)
  obtain ⟨ps', hps', htransfers⟩ :=
    hsame 2 Sample.bills (fun n hn => hgrid n (List.mem_append_right _ hn)) hrange' hmerged
  have hrun : (settle Sample.flat).map (·.map Payment.transfer) = .ok Sample.rents := by
    decide +kernel
  have hdiffer : settle Sample.bills ≠ settle Sample.flat := by decide +kernel
  rw [hps] at hrun hdiffer
  rw [hps'] at hdiffer
  have hrents : ps.map Payment.transfer = Sample.rents := Except.ok.inj hrun
  have hne : ps' ≠ ps := fun he => hdiffer (congrArg Except.ok he)
  have hgreedy : Greedy (merged Sample.flat) Sample.rents := (hrule _).2 hrents.symm
  exact ⟨ps, ps', hps, hps', hrents, htransfers.trans hrents, hne, hgreedy⟩

end SharedLedger
