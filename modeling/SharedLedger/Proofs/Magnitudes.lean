import SharedLedger.Proofs.Payments

/-!
# Settling amounts of any size

Nets may be so large, and written with so many digits, that their sums are
rounded. Once they are merged the payments are found all the same: the loop ends
without a sum out of range, and those who owe pay those who are owed, nobody the
same user twice (`Settlement.matching_ends`). What is not kept is the money. The
total that is compared with zero is rounded, and so is what the loop takes to be
open, so nets that do not sum to zero can be accepted, and payments can leave
something open (`Settlement.money_lost`). How much that can be is said for all
nets (`Settlement.kept_up_to_rounding`): one part in `10 ^ 28` of their sizes for
every sum, and nothing where the sizes can be added up without rounding.
-/

namespace SharedLedger

namespace Sample

theorem crumb_fits : 4 < Nat.pow 2 96 := by decide

/-- A large loan, and a crumb that nobody owes. -/
def crumb : List Net :=
  [⟨1, whole (5 * 10 ^ 28) (by decide)⟩, ⟨2, tenths 4 crumb_fits⟩,
    ⟨3, (whole (5 * 10 ^ 28) (by decide)).neg⟩]

/-- Four users owe a large amount to one, with digits for which what is left of it
has no room. -/
def syndicate : List Net :=
  [⟨2, (tenths (7 * 10 ^ 28 + 6) (by decide)).neg⟩, ⟨3, (tenths (7 * 10 ^ 28 + 6) (by decide)).neg⟩,
    ⟨4, (tenths (7 * 10 ^ 28 + 8) (by decide)).neg⟩,
    ⟨5, (whole (29 * 10 ^ 27 - 2) (by decide)).neg⟩, ⟨1, whole (5 * 10 ^ 28) (by decide)⟩]

/-- What the four are told to pay: the last one less than is owed. -/
def instalments : List Payment :=
  [⟨5, 1, whole (29 * 10 ^ 27 - 2) (by decide)⟩, ⟨4, 1, tenths (7 * 10 ^ 28 + 8) (by decide)⟩,
    ⟨2, 1, tenths (7 * 10 ^ 28 + 6) (by decide)⟩, ⟨3, 1, tenths (7 * 10 ^ 28 + 4) (by decide)⟩]

end Sample

namespace Settlement

open Tally

variable {t : UserTally} {nets : List Net} {ps : List Payment} {a : Int × Decimal} {paid : Decimal}
  {rest l cs ds cs' ds' : List (Int × Decimal)} {f g : Int → ℚ} {u : Int}

/-! ## The loop ends -/

/-- The users of a tally who are owed something. -/
def owedCount (t : UserTally) : ℕ := t.toList.countP fun a => 0 < a.2.value

/-- The users of a tally who owe something. -/
def owingCount (t : UserTally) : ℕ := t.toList.countP fun a => a.2.value < 0

theorem length_credits (t : UserTally) : (credits t).length = owedCount t := by
  unfold credits owedCount
  rw [(queue_perm _).length_eq, ← List.countP_eq_length_filter]
  refine List.countP_congr fun a _ => ?_
  rw [Decimal.isPositive_iff, decide_eq_true_eq]

theorem length_debts (t : UserTally) : (debts t).length = owingCount t := by
  rw [debts_eq, length_credits, owedCount, owingCount, UserTally.opposite, Index.toList_map,
    List.countP_map]
  refine List.countP_congr fun a _ => ?_
  simp [Decimal.value_neg]

/-- **What the payments between the users of a tally are like**, whatever the
amounts. -/
structure Matched (t : UserTally) (ps : List Payment) : Prop where
  /-- Every payment is of something. -/
  amounts : ∀ p ∈ ps, 0 < p.amount.value
  /-- Those who owe pay those who are owed. -/
  parties : ∀ p ∈ ps, (held t p.payer).value < 0 ∧ 0 < (held t p.payee).value
  /-- Nobody pays the same user twice. -/
  once : (ps.map fun p => (p.payer, p.payee)).Nodup
  /-- Every payment is the last one of somebody, the very last one that of two. -/
  most : ps.length ≤ owedCount t + owingCount t - 1
  /-- It takes two sides. -/
  none : owedCount t = 0 ∨ owingCount t = 0 → ps = []

/-- **The loop ends once the nets are merged**, with nothing open on one side and
no sum out of range, and its payments are those of `settle`. -/
theorem matching_ends (ht : merge nets = .ok t) :
    ∃ ps cs ds, Pays (credits t) (debts t) ps cs ds ∧ (cs = [] ∨ ds = []) ∧
      pay (credits t) (debts t) = .ok ps ∧ Matched t ps ∧
      ∀ c, Decimal.total (nets.map (·.amount)) = .ok c → c.isZero = true →
        settle nets = .ok ps := by
  obtain ⟨ps, cs, ds, h⟩ := exists_pays (positive_credits t) (positive_debts t)
  have hpay : pay (credits t) (debts t) = .ok ps := pay_eq_ok_iff.2 ⟨cs, ds, h⟩
  refine ⟨ps, cs, ds, h, h.eq_nil_or, hpay, ?_, fun c hc hz => ?_⟩
  · refine ⟨(h.positive (positive_credits t) (positive_debts t)).1, fun p hp => ?_,
      h.nodup_parties (nodup_credits t) (nodup_debts t), ?_, fun hnone => ?_⟩
    · obtain ⟨hpayee, hpayer⟩ := h.parties p hp
      exact ⟨mem_debts.1 hpayer, mem_credits.1 hpayee⟩
    · rw [← length_credits, ← length_debts]
      exact h.length_le
    · rw [← length_credits, ← length_debts, List.length_eq_zero_iff,
        List.length_eq_zero_iff] at hnone
      exact h.eq_nil hnone
  · rw [settle_of_isZero hc hz ht, hpay]
    rfl

/-- The loop ends for the syndicate, although what is left of its credit is
rounded. -/
theorem matching_ends_syndicate :
    ∃ t ps, merge Sample.syndicate = .ok t ∧ pay (credits t) (debts t) = .ok ps ∧ Matched t ps ∧
      settle Sample.syndicate = .ok ps := by
  have hmerge : (merge Sample.syndicate).isOk = true := by decide +kernel
  have htotal : Decimal.total (Sample.syndicate.map (·.amount)) = .ok Decimal.zero := by
    decide +kernel
  cases ht : merge Sample.syndicate with
  | error o =>
    rw [ht] at hmerge
    cases hmerge
  | ok t =>
    obtain ⟨ps, cs, ds, -, -, hpay, hps, hsettle⟩ := matching_ends ht
    exact ⟨t, ps, rfl, hpay, hps, hsettle Decimal.zero htotal rfl⟩

/-! ## What merging costs -/

theorem add_eq_ok_iff {d : Decimal} {t' : UserTally} :
    t.add u d = .ok t' ↔ ∃ c, (held t u).add d = .ok c ∧ t' = t.put (u, c) := by
  change ((held t u).add d).bind (fun c => .ok (t.put (u, c))) = .ok t' ↔ _
  cases (held t u).add d with
  | error o => simp [Except.bind]
  | ok c => simp [Except.bind, eq_comm]

/-- A tally that has what entries come to, up to one rounding for every entry and
however the users are weighed. -/
def Approximates (t : UserTally) (nets : List Net) : Prop :=
  ∀ f : Int → ℚ, (∀ v, |f v| ≤ 1) → |weigh t.toList f - weigh (nets.map Net.keyed) f| ≤
    Decimal.loss nets.length * sizes (nets.map (·.amount))

/-- Of one more entry only the sum of its user is rounded, and that is no larger
than all entries so far. -/
theorem Approximates.add {n : Net} {c : Decimal} (h : Approximates t nets)
    (hc : (held t n.userId).add n.amount = .ok c) :
    Approximates (t.put (n.userId, c)) (nets ++ [n]) := by
  intro f hf
  have hheld : |(held t n.userId).value - weigh (nets.map Net.keyed) (only n.userId)| ≤
      Decimal.loss nets.length * sizes (nets.map (·.amount)) := by
    rw [← weigh_only]
    exact h _ (abs_only_le _)
  have hsize : |weigh (nets.map Net.keyed) (only n.userId)| ≤ sizes (nets.map (·.amount)) := by
    have hle := SignedRange.abs_weigh_le (nets.map Net.keyed) (abs_only_le n.userId)
    rwa [List.map_map] at hle
  have hlost : |c.value - ((held t n.userId).value + n.amount.value)| ≤
      ((1 + Decimal.loss nets.length) * sizes (nets.map (·.amount)) + |n.amount.value|) /
        10 ^ 28 :=
    (Decimal.abs_value_add_sub_le hc).trans
      (div_le_div_of_nonneg_right (Decimal.abs_add_le_of_loss hsize hheld) (by positivity))
  have hweighed : |f n.userId * (c.value - ((held t n.userId).value + n.amount.value))| ≤
      |c.value - ((held t n.userId).value + n.amount.value)| := by
    rw [abs_mul]
    exact mul_le_of_le_one_left (abs_nonneg _) (hf n.userId)
  have hsum : sizes ((nets ++ [n]).map (·.amount)) =
      sizes (nets.map (·.amount)) + |n.amount.value| := by
    simp [sizes]
  have hparts : weigh (t.put (n.userId, c)).toList f - weigh ((nets ++ [n]).map Net.keyed) f =
      (weigh t.toList f - weigh (nets.map Net.keyed) f) +
        f n.userId * (c.value - ((held t n.userId).value + n.amount.value)) := by
    rw [weigh_put, List.map_append, weigh_append]
    simp [Net.keyed]
    ring
  rw [hsum, hparts, List.length_append, List.length_singleton]
  calc |(weigh t.toList f - weigh (nets.map Net.keyed) f) +
        f n.userId * (c.value - ((held t n.userId).value + n.amount.value))|
      ≤ |weigh t.toList f - weigh (nets.map Net.keyed) f| +
        |f n.userId * (c.value - ((held t n.userId).value + n.amount.value))| := abs_add_le _ _
    _ ≤ Decimal.loss nets.length * sizes (nets.map (·.amount)) +
        ((1 + Decimal.loss nets.length) * sizes (nets.map (·.amount)) + |n.amount.value|) /
          10 ^ 28 :=
      add_le_add (h f hf) (hweighed.trans hlost)
    _ ≤ Decimal.loss (nets.length + 1) * (sizes (nets.map (·.amount)) + |n.amount.value|) :=
      Decimal.loss_succ_mul_le nets.length (abs_nonneg _)

/-- **Merging costs what adding up costs.** -/
theorem approximates_merge (h : merge nets = .ok t) : Approximates t nets := by
  refine foldlM_inv (fun done t => Approximates t done) (fun f _ => by simp) ?_ h
  intro done n t t' hdone hstep
  obtain ⟨c, hc, rfl⟩ := add_eq_ok_iff.1 hstep
  exact hdone.add hc

/-- Merging lists one user for an entry at most. -/
theorem length_merge_le (h : merge nets = .ok t) : t.toList.length ≤ nets.length := by
  refine foldlM_inv (fun done (t : UserTally) => t.toList.length ≤ done.length) (by simp) ?_ h
  intro done n t t' ih hstep
  obtain ⟨c, -, rfl⟩ := add_eq_ok_iff.1 hstep
  have hput := t.length_put_le (n.userId, c)
  rw [List.length_append, List.length_singleton]
  omega

/-! ## What the rounds cost -/

theorem value_le_weigh (h : Positive (a :: rest)) : a.2.value ≤ weigh (a :: rest) fun _ => 1 := by
  have hrest : 0 ≤ weigh rest fun _ => 1 :=
    weigh_nonneg (fun b hb => (h b (List.mem_cons_of_mem a hb)).le) fun _ _ => zero_le_one
  rw [weigh_cons, one_mul]
  exact le_add_of_nonneg_right hrest

/-- What is paid and what stays open of an amount is the amount, rounded once. -/
theorem abs_weigh_reopen_sub_le (h : reopen a paid rest = .ok l) (hpos : Positive (a :: rest))
    (hpaid : 0 < paid.value) (hle : paid.value ≤ a.2.value) (hf : ∀ v, |f v| ≤ 1) :
    |weigh (a :: rest) f - f a.1 * paid.value - weigh l f| ≤
      weigh (a :: rest) (fun _ => 1) / 10 ^ 28 := by
  have hsize := value_le_weigh hpos
  rw [weigh_cons]
  obtain ⟨hge, rfl⟩ | ⟨hlt, c, hc, rfl⟩ := reopen_eq_ok_iff.1 h
  · have hzero : f a.1 * a.2.value + weigh l f - f a.1 * paid.value - weigh l f = 0 := by
      rw [le_antisymm hle hge]
      ring
    have hnonneg : 0 ≤ weigh (a :: l) fun _ => 1 := hpaid.le.trans (hle.trans hsize)
    rw [hzero, abs_zero]
    positivity
  · have hlost := Decimal.abs_value_sub_sub_le hc
    rw [abs_of_pos (sub_pos.2 hlt)] at hlost
    have hparts : f a.1 * a.2.value + weigh rest f - f a.1 * paid.value -
        weigh (enqueue (a.1, c) rest) f = -(f a.1 * (c.value - (a.2.value - paid.value))) := by
      rw [weigh_perm (enqueue_perm (a.1, c) rest), weigh_cons]
      ring
    rw [hparts, abs_neg, abs_mul]
    calc |f a.1| * |c.value - (a.2.value - paid.value)|
        ≤ |c.value - (a.2.value - paid.value)| := mul_le_of_le_one_left (abs_nonneg _) (hf a.1)
      _ ≤ (a.2.value - paid.value) / 10 ^ 28 := hlost
      _ ≤ weigh (a :: rest) (fun _ => 1) / 10 ^ 28 :=
        div_le_div_of_nonneg_right (by linarith) (by positivity)

/-- No more is open than before, but for what is rounded. -/
theorem weigh_reopen_le (h : reopen a paid rest = .ok l) (hpos : Positive (a :: rest))
    (hpaid : 0 < paid.value) (hle : paid.value ≤ a.2.value) :
    weigh l (fun _ => 1) ≤ (1 + 1 / 10 ^ 28) * weigh (a :: rest) fun _ => 1 := by
  have hlost := (abs_le.1 (abs_weigh_reopen_sub_le (f := fun _ => 1) h hpos hpaid hle (by simp))).1
  linarith

/-- What is missed in two steps is missed in one of them. -/
theorem abs_sub_add_sub_le (x y z v w : ℚ) : |x - (y + v) - w| ≤ |x - y - z| + |z - v - w| := by
  have hsplit : x - (y + v) - w = (x - y - z) + (z - v - w) := by ring
  rw [hsplit]
  exact abs_add_le _ _

theorem abs_neg_add_sub_add_le (w x y z : ℚ) : |-w + x - y + z| ≤ |w| + (|x| + |y|) + |z| := by
  have hfirst := abs_add_le (-w + x - y) z
  have hsecond := abs_sub (-w + x) y
  have hthird := abs_add_le (-w) x
  rw [abs_neg] at hthird
  linarith

/-- **The rounds cost what so many sums cost**: on each side, what is paid and
what stays open is what was open, but for what is rounded. -/
theorem Pays.lost (h : Pays cs ds ps cs' ds') (hc : Positive cs) (hd : Positive ds)
    (hf : ∀ v, |f v| ≤ 1) (hg : ∀ v, |g v| ≤ 1) :
    |weigh cs f - weigh (ps.map Payment.received) f - weigh cs' f| +
        |weigh ds g - weigh (ps.map Payment.made) g - weigh ds' g| ≤
      Decimal.loss ps.length * (weigh cs (fun _ => 1) + weigh ds fun _ => 1) := by
  induction h with
  | settled => simp
  | @round credit debt credits debts cs ds cs' ds' ps hcs hds h ih =>
    have hpaid := least_pos hc hd
    have hlec : (credit.2.least debt.2).value ≤ credit.2.value := value_least _ _ ▸ min_le_left _ _
    have hled : (credit.2.least debt.2).value ≤ debt.2.value := value_least _ _ ▸ min_le_right _ _
    have hrest := ih (positive_reopen hc hpaid hcs) (positive_reopen hd hpaid hds)
    have hcredit := abs_weigh_reopen_sub_le hcs hc hpaid hlec hf
    have hdebt := abs_weigh_reopen_sub_le hds hd hpaid hled hg
    have hopen : weigh cs (fun _ => 1) + weigh ds (fun _ => 1) ≤ (1 + 1 / 10 ^ 28) *
        (weigh (credit :: credits) (fun _ => 1) + weigh (debt :: debts) fun _ => 1) := by
      rw [mul_add]
      exact add_le_add (weigh_reopen_le hcs hc hpaid hlec) (weigh_reopen_le hds hd hpaid hled)
    have hreceived : weigh (List.map Payment.received (⟨debt.1, credit.1, credit.2.least debt.2⟩ :: ps))
        f = f credit.1 * (credit.2.least debt.2).value + weigh (ps.map Payment.received) f :=
      weigh_cons _ _ _
    have hmade : weigh (List.map Payment.made (⟨debt.1, credit.1, credit.2.least debt.2⟩ :: ps)) g =
        g debt.1 * (credit.2.least debt.2).value + weigh (ps.map Payment.made) g :=
      weigh_cons _ _ _
    have hfirst := abs_sub_add_sub_le (weigh (credit :: credits) f)
      (f credit.1 * (credit.2.least debt.2).value) (weigh cs f) (weigh (ps.map Payment.received) f)
      (weigh cs' f)
    have hsecond := abs_sub_add_sub_le (weigh (debt :: debts) g)
      (g debt.1 * (credit.2.least debt.2).value) (weigh ds g) (weigh (ps.map Payment.made) g)
      (weigh ds' g)
    have hall := mul_le_mul_of_nonneg_left hopen (Decimal.loss_nonneg ps.length)
    rw [hreceived, hmade, List.length_cons, Decimal.loss_succ]
    linarith

/-! ## All of it -/

/-- Which side of a tally a user is on. -/
def side (t : UserTally) (u : Int) : ℚ := if 0 ≤ (held t u).value then 1 else -1

theorem abs_side_le (t : UserTally) (u : Int) : |side t u| ≤ 1 := by
  unfold side
  split <;> simp

/-- What is open on both sides is what the entries come to without their signs. -/
theorem weigh_open_le (h : merge nets = .ok t) :
    weigh (credits t) (fun _ => 1) + weigh (debts t) (fun _ => 1) ≤
      (1 + Decimal.loss nets.length) * sizes (nets.map (·.amount)) := by
  have hcredits : weigh (credits t) (side t) = weigh (credits t) fun _ => 1 := by
    refine weigh_congr fun a ha => if_pos ?_
    exact (mem_credits.1 (List.mem_map_of_mem ha)).le
  have hdebts : weigh (debts t) (side t) = weigh (debts t) fun _ => 0 - 1 := by
    refine weigh_congr fun a ha => (if_neg ?_).trans (by norm_num)
    exact not_le.2 (mem_debts.1 (List.mem_map_of_mem ha))
  rw [weigh_sub, weigh_eq_zero (f := fun _ => 0) fun _ _ => rfl] at hdebts
  have hopen := weigh_credits_sub_debts t (side t)
  rw [hcredits, hdebts] at hopen
  have hlost := (abs_le.1 (approximates_merge h (side t) (abs_side_le t))).2
  have hsize := (abs_le.1 (SignedRange.abs_weigh_le (nets.map Net.keyed) (abs_side_le t))).2
  rw [List.map_map] at hsize
  change _ ≤ sizes (nets.map (·.amount)) at hsize
  linarith

theorem length_open_le (t : UserTally) :
    (credits t).length + (debts t).length ≤ t.toList.length := by
  rw [length_credits, length_debts]
  unfold owedCount owingCount
  induction t.toList with
  | nil => simp
  | cons a l ih =>
    rw [List.countP_cons, List.countP_cons, List.length_cons]
    by_cases hpos : 0 < a.2.value
    · have hneg : ¬ a.2.value < 0 := not_lt.2 hpos.le
      simp only [hpos, hneg, decide_true, decide_false, if_true, Bool.false_eq_true, if_false]
      omega
    · simp only [hpos, decide_false, Bool.false_eq_true, if_false]
      split <;> omega

theorem settle_eq_ok_iff : settle nets = .ok ps ↔
    ∃ c t, Decimal.total (nets.map (·.amount)) = .ok c ∧ c.isZero = true ∧ merge nets = .ok t ∧
      pay (credits t) (debts t) = .ok ps := by
  constructor
  · intro h
    cases hc : Decimal.total (nets.map (·.amount)) with
    | error o =>
      unfold settle at h
      rw [hc] at h
      cases h
    | ok c =>
    cases hz : c.isZero with
    | false =>
      rw [settle_of_not_isZero hc hz] at h
      cases h
    | true =>
    cases ht : merge nets with
    | error o =>
      unfold settle at h
      simp only [hc, ht, hz, Failure.ofSum, bind, Except.bind, Bool.not_true] at h
      cases h
    | ok t =>
    rw [settle_of_isZero hc hz ht] at h
    refine ⟨c, t, rfl, hz, rfl, ?_⟩
    cases hp : pay (credits t) (debts t) with
    | error o =>
      rw [hp] at h
      cases h
    | ok qs =>
      rw [hp] at h
      cases h
      rfl
  · rintro ⟨c, t, hc, hz, ht, hp⟩
    rw [settle_of_isZero hc hz ht, hp]
    rfl

/-- What is accepted sums to zero, but for what is rounded. -/
theorem abs_sum_le_of_settle (h : settle nets = .ok ps) :
    |(nets.map (·.amount.value)).sum| ≤ Decimal.loss nets.length * sizes (nets.map (·.amount)) := by
  obtain ⟨c, t, hc, hz, -, -⟩ := settle_eq_ok_iff.1 h
  have hlost := Decimal.abs_value_total_sub_le_sizes hc
  rw [Decimal.isZero_iff.1 hz, zero_sub, abs_neg, List.length_map, List.map_map] at hlost
  exact hlost

/-- **What is left open when the loop is over** is what the totals of the two sides
differ by: on one side nothing is open. -/
theorem Pays.left_le (h : Pays cs ds ps cs' ds') (hc : Positive cs) (hd : Positive ds) (u : Int) :
    |weigh cs' (only u) - weigh ds' (only u)| ≤
      |weigh cs (fun _ => 1) - weigh ds fun _ => 1| +
        Decimal.loss ps.length * (weigh cs (fun _ => 1) + weigh ds fun _ => 1) := by
  have hlost := h.lost (f := fun _ => 1) (g := fun _ => 1) hc hd (by simp) (by simp)
  obtain ⟨-, hc', hd'⟩ := h.positive hc hd
  have hflow : weigh (ps.map Payment.received) (fun _ => 1) =
      weigh (ps.map Payment.made) fun _ => 1 := by
    unfold weigh
    rw [List.map_map, List.map_map]
    rfl
  rw [hflow] at hlost
  -- both sides lose the same payments, so they still differ by what they differed by
  have hdiff : |weigh cs' (fun _ => 1) - weigh ds' fun _ => 1| ≤
      |weigh cs (fun _ => 1) - weigh ds fun _ => 1| +
        Decimal.loss ps.length * (weigh cs (fun _ => 1) + weigh ds fun _ => 1) := by
    generalize weigh (ps.map Payment.made) (fun _ => 1) = x at hlost
    generalize weigh cs (fun _ => 1) = y at *
    generalize weigh ds (fun _ => 1) = z at *
    generalize weigh cs' (fun _ => 1) = v at *
    generalize weigh ds' (fun _ => 1) = w at *
    calc |v - w| = |(y - z) - (y - x - v) + (z - x - w)| := by congr 1; ring
      _ ≤ |y - z| + |y - x - v| + |z - x - w| :=
        (abs_add_le _ _).trans (add_le_add (abs_sub _ _) le_rfl)
      _ ≤ |y - z| + Decimal.loss ps.length * (y + z) := by linarith
  refine le_trans ?_ hdiff
  rcases h.eq_nil_or with rfl | rfl
  · rw [weigh_nil, weigh_nil, zero_sub, zero_sub, abs_neg, abs_neg]
    exact (abs_weigh_le (fun a ha => (hd' a ha).le) (abs_only_le u)).trans (le_abs_self _)
  · rw [weigh_nil, weigh_nil, sub_zero, sub_zero]
    exact (abs_weigh_le (fun a ha => (hc' a ha).le) (abs_only_le u)).trans (le_abs_self _)

/-- The two sides differ by the sum of the entries, which was accepted as zero. -/
theorem abs_sides_sub_le (h : settle nets = .ok ps) (ht : merge nets = .ok t) :
    |weigh (credits t) (fun _ => 1) - weigh (debts t) fun _ => 1| ≤
      2 * (Decimal.loss nets.length * sizes (nets.map (·.amount))) := by
  have hall := approximates_merge ht (fun _ => 1) (by simp)
  have hsum := abs_sum_le_of_settle h
  rw [weigh_keyed] at hall
  rw [weigh_credits_sub_debts]
  calc |weigh t.toList fun _ => 1|
      = |(weigh t.toList (fun _ => 1) - (nets.map (·.amount.value)).sum) +
          (nets.map (·.amount.value)).sum| := by rw [sub_add_cancel]
    _ ≤ _ := (abs_add_le _ _).trans (by linarith)

/-- There are no more rounds than entries. -/
theorem loss_rounds_le (ht : merge nets = .ok t) (h : Pays (credits t) (debts t) ps cs ds) :
    Decimal.loss ps.length * (weigh (credits t) (fun _ => 1) + weigh (debts t) fun _ => 1) ≤
      Decimal.loss nets.length *
        ((1 + Decimal.loss nets.length) * sizes (nets.map (·.amount))) := by
  have hlength : ps.length ≤ nets.length := by
    have hps := h.length_le
    have hopen := length_open_le t
    have hmerge := length_merge_le ht
    omega
  have hcredits : 0 ≤ weigh (credits t) fun _ => 1 :=
    weigh_nonneg (fun a ha => (positive_credits t a ha).le) fun _ _ => zero_le_one
  have hdebts : 0 ≤ weigh (debts t) fun _ => 1 :=
    weigh_nonneg (fun a ha => (positive_debts t a ha).le) fun _ _ => zero_le_one
  exact mul_le_mul (Decimal.loss_le_of_le hlength) (weigh_open_le ht) (add_nonneg hcredits hdebts)
    (Decimal.loss_nonneg _)

/-- **Everybody ends at zero, but for what is rounded**: in merging, in the rounds,
and in the total that was accepted. -/
theorem abs_left_le_of_settle (h : settle nets = .ok ps) (u : Int) :
    |merged nets u + paidBy ps u - paidTo ps u| ≤
      3 * Decimal.loss (2 * nets.length) * sizes (nets.map (·.amount)) := by
  obtain ⟨c, t, -, -, ht, hpay⟩ := settle_eq_ok_iff.1 h
  obtain ⟨cs, ds, hloop⟩ := pay_eq_ok_iff.1 hpay
  have hc := positive_credits t
  have hd := positive_debts t
  have hmerged := approximates_merge ht (only u) (abs_only_le u)
  have hpaid := hloop.lost hc hd (abs_only_le u) (abs_only_le u)
  have hleft := hloop.left_le hc hd u
  have hsides := abs_sides_sub_le h ht
  have hrounds := loss_rounds_le ht hloop
  have hsplit : merged nets u + paidBy ps u - paidTo ps u =
      -(weigh t.toList (only u) - weigh (nets.map Net.keyed) (only u)) +
        (weigh (credits t) (only u) - weigh (ps.map Payment.received) (only u) -
          weigh cs (only u)) -
        (weigh (debts t) (only u) - weigh (ps.map Payment.made) (only u) - weigh ds (only u)) +
        (weigh cs (only u) - weigh ds (only u)) := by
    rw [merged_eq, paidBy_eq, paidTo_eq, ← weigh_credits_sub_debts]
    ring
  have hspare : 0 ≤ Decimal.loss nets.length * (1 + Decimal.loss nets.length) *
      sizes (nets.map (·.amount)) := by
    have hloss := Decimal.loss_nonneg nets.length
    have hsizes := sizes_nonneg (nets.map (·.amount))
    positivity
  rw [hsplit, Decimal.loss_two_mul]
  refine (abs_neg_add_sub_add_le _ _ _ _).trans ?_
  linarith

/-- **Money is kept but for what is rounded**: what is accepted sums to zero, and
the payments bring everybody to zero, up to one part in `10 ^ 28` for every sum;
and both are exact where the sizes can be added up without rounding. -/
theorem kept_up_to_rounding (h : settle nets = .ok ps) :
    (|(nets.map (·.amount.value)).sum| ≤ Decimal.loss nets.length * sizes (nets.map (·.amount)) ∧
      ∀ u, |merged nets u + paidBy ps u - paidTo ps u| ≤
        3 * Decimal.loss (2 * nets.length) * sizes (nets.map (·.amount))) ∧
    ∀ k, (∀ n ∈ nets, OnGrid k n.amount.value) → InRange k (sizes (nets.map (·.amount))) →
      (nets.map (·.amount.value)).sum = 0 ∧ ∀ u, merged nets u + paidBy ps u - paidTo ps u = 0 := by
  refine ⟨⟨abs_sum_le_of_settle h, abs_left_le_of_settle h⟩, fun k hgrid hrange => ?_⟩
  unfold sizes at hrange
  rw [List.map_map] at hrange
  obtain ⟨c, hc, hv⟩ := exists_total_nets hgrid hrange
  obtain ⟨c', -, hc', hz, -⟩ := settle_eq_ok_iff.1 h
  rw [hc] at hc'
  cases hc'
  have hzero : (nets.map (·.amount.value)).sum = 0 := hv.symm.trans (Decimal.isZero_iff.1 hz)
  obtain ⟨t, qs, -, -, hqs, -, hsettled⟩ := exists_settled hgrid hrange hzero
  rw [h] at hqs
  cases hqs
  exact ⟨hzero, hsettled.even⟩

/-- The evening is settled exactly. -/
theorem kept_up_to_rounding_evening :
    (settle Sample.evening = .ok Sample.transfers ∧
      (∀ n ∈ Sample.evening, OnGrid 2 n.amount.value) ∧
      InRange 2 (sizes (Sample.evening.map (·.amount)))) ∧
    (Sample.evening.map (·.amount.value)).sum = 0 ∧
      ∀ u, merged Sample.evening u + paidBy Sample.transfers u - paidTo Sample.transfers u = 0 := by
  have hrun : settle Sample.evening = .ok Sample.transfers := by decide +kernel
  have hgrid : ∀ n ∈ Sample.evening, OnGrid 2 n.amount.value := by
    have hunits : ∀ n ∈ Sample.evening, n.amount.value * 10 ^ 2 =
        ((n.amount.value * 10 ^ 2).num : ℚ) := by decide +kernel
    exact fun n hn => ⟨_, hunits n hn⟩
  have hsizes : sizes (Sample.evening.map (·.amount)) = 22 := by decide +kernel
  have hrange : InRange 2 (sizes (Sample.evening.map (·.amount))) := by
    rw [hsizes]
    norm_num [InRange]
  exact ⟨⟨hrun, hgrid, hrange⟩, (kept_up_to_rounding hrun).2 2 hgrid hrange⟩

end Settlement

/-! ## Where money is lost -/

/-- **Money can be lost**: nets that sum to `0.4` are accepted, and the user 2 never
sees it; of nets that sum to zero the user 3 still owes `0.2` when all is paid. -/
theorem Settlement.money_lost :
    (settle Sample.crumb = .ok [⟨3, 1, Sample.whole (5 * 10 ^ 28) (by decide)⟩] ∧
      (Sample.crumb.map (·.amount.value)).sum = 2 / 5) ∧
    settle Sample.syndicate = .ok Sample.instalments ∧
      (Sample.syndicate.map (·.amount.value)).sum = 0 ∧
      merged Sample.syndicate 3 + paidBy Sample.instalments 3 - paidTo Sample.instalments 3 =
        -1 / 5 := by
  decide +kernel

end SharedLedger
