import SharedLedger.Proofs.Rounding
import SharedLedger.Proofs.Settlement

/-!
# Round after round

The loop that settles open amounts is described without a bound on its passes:
`Settlement.Pays` says which payments are made until one of the two sides has
nothing open, and what is open then. It ends from whatever is open
(`Settlement.exists_pays`), and with it ends `pay` (`Settlement.pay_eq_ok_iff`).
Amounts may be rounded on the way, even so that nothing seems to have been paid,
so the total that is open is no measure of what is left to do. The number of open
amounts is: a round closes one of the two it takes, and what is left of the other
is rounded, but never to zero.
-/

namespace SharedLedger

namespace Settlement

variable {a credit debt : Int × Decimal} {rest l credits debts cs ds : List (Int × Decimal)}
  {paid : Decimal} {ps : List Payment} {fuel : ℕ}

/-! ## One amount -/

/-- **What becomes of an open amount**: it is closed, or the rest of it goes back
in its place. -/
theorem reopen_eq_ok_iff :
    reopen a paid rest = .ok l ↔ (a.2.value ≤ paid.value ∧ l = rest) ∨
      (paid.value < a.2.value ∧ ∃ c, a.2.sub paid = .ok c ∧ l = enqueue (a.1, c) rest) := by
  unfold reopen
  split
  · next hb =>
    have hlt := Decimal.below_iff.1 hb
    rw [or_iff_right fun h => absurd h.1 (not_le.2 hlt), and_iff_right hlt]
    cases hsub : a.2.sub paid with
    | error o =>
      constructor
      · intro h
        cases h
      · rintro ⟨c, hc, -⟩
        cases hc
    | ok c =>
      constructor
      · intro h
        cases h
        exact ⟨c, rfl, rfl⟩
      · rintro ⟨d, hd, rfl⟩
        cases hd
        rfl
  · next hb =>
    have hle : a.2.value ≤ paid.value := not_lt.1 fun hlt => hb (Decimal.below_iff.2 hlt)
    rw [or_iff_left fun h => absurd h.1 (not_lt.2 hle), and_iff_right hle]
    exact ⟨fun h => by cases h; rfl, fun h => h ▸ rfl⟩

/-- What is put back is put back for the same user. -/
theorem keys_reopen (h : reopen a paid rest = .ok l) :
    ∀ b ∈ l, b.1 ∈ (a :: rest).map Prod.fst := by
  intro b hb
  obtain ⟨-, rfl⟩ | ⟨-, c, -, rfl⟩ := reopen_eq_ok_iff.1 h
  · exact List.mem_cons_of_mem _ (List.mem_map_of_mem hb)
  · rcases List.mem_cons.1 ((enqueue_perm _ _).mem_iff.1 hb) with rfl | hb
    · exact List.mem_cons_self
    · exact List.mem_cons_of_mem _ (List.mem_map_of_mem hb)

/-- What is not put back is gone. -/
theorem keys_reopen_of_le (h : reopen a paid rest = .ok l) (hle : a.2.value ≤ paid.value) :
    l = rest := by
  obtain ⟨-, hl⟩ | ⟨hlt, -⟩ := reopen_eq_ok_iff.1 h
  · exact hl
  · exact absurd hlt (not_lt.2 hle)

/-- Nobody is listed twice afterwards who was not before. -/
theorem nodup_reopen (h : reopen a paid rest = .ok l) (hnodup : ((a :: rest).map Prod.fst).Nodup) :
    (l.map Prod.fst).Nodup := by
  obtain ⟨-, rfl⟩ | ⟨-, c, -, rfl⟩ := reopen_eq_ok_iff.1 h
  · exact (List.nodup_cons.1 hnodup).2
  · exact ((enqueue_perm (a.1, c) rest).map Prod.fst).nodup_iff.2 hnodup

/-- One amount at most is put back, and none where all of it was paid. -/
theorem length_reopen (h : reopen a paid rest = .ok l) :
    l.length = rest.length + if paid.value < a.2.value then 1 else 0 := by
  obtain ⟨hle, rfl⟩ | ⟨hlt, c, -, rfl⟩ := reopen_eq_ok_iff.1 h
  · rw [if_neg (not_lt.2 hle), Nat.add_zero]
  · rw [if_pos hlt, (enqueue_perm _ _).length_eq, List.length_cons]

/-- The smaller of two is all of one of them. -/
theorem closes_one (x y : Decimal) :
    x.value ≤ (x.least y).value ∨ y.value ≤ (x.least y).value := by
  rw [value_least]
  rcases min_choice x.value y.value with hmin | hmin
  · exact .inl hmin.ge
  · exact .inr hmin.ge

/-- Amounts that are open: all of them are above zero. -/
def Positive (l : List (Int × Decimal)) : Prop := ∀ a ∈ l, 0 < a.2.value

/-- **What is left of an open amount is never zero**, and never out of range. -/
theorem exists_reopen (ha : Positive (a :: rest)) (hpaid : 0 < paid.value) :
    ∃ l, reopen a paid rest = .ok l ∧ Positive l := by
  obtain ⟨hpos, hrest⟩ := List.forall_mem_cons.1 ha
  by_cases hlt : paid.value < a.2.value
  · obtain ⟨c, hc⟩ := Decimal.exists_sub hpos.le hpaid.le
    have hcpos : 0 < c.value := by
      -- a difference that was rounded is far above zero
      rcases Decimal.value_sub_or_large hc with hv | hv | hv <;> linarith [hv]
    refine ⟨enqueue (a.1, c) rest, reopen_eq_ok_iff.2 (.inr ⟨hlt, c, hc, rfl⟩), ?_⟩
    have hall : Positive ((a.1, c) :: rest) := List.forall_mem_cons.2 ⟨hcpos, hrest⟩
    exact fun b hb => hall b ((enqueue_perm (a.1, c) rest).mem_iff.1 hb)
  · exact ⟨rest, reopen_eq_ok_iff.2 (.inl ⟨not_lt.1 hlt, rfl⟩), hrest⟩

theorem positive_reopen (ha : Positive (a :: rest)) (hpaid : 0 < paid.value)
    (h : reopen a paid rest = .ok l) : Positive l := by
  obtain ⟨l', hl', hpos⟩ := exists_reopen ha hpaid
  rw [h] at hl'
  cases hl'
  exact hpos

theorem least_pos (hc : Positive (credit :: credits)) (hd : Positive (debt :: debts)) :
    0 < (credit.2.least debt.2).value := by
  rw [value_least]
  exact lt_min (hc credit List.mem_cons_self) (hd debt List.mem_cons_self)

/-! ## The loop -/

/-- **The rounds of the loop**: the front of each side is taken, the smaller of
the two amounts is paid and the rest of the other goes back. With nothing open on
one side it is over. -/
inductive Pays : List (Int × Decimal) → List (Int × Decimal) → List Payment →
    List (Int × Decimal) → List (Int × Decimal) → Prop
  /-- One side has nothing open. -/
  | settled {credits debts : List (Int × Decimal)} (h : credits = [] ∨ debts = []) :
    Pays credits debts [] credits debts
  /-- One more payment. -/
  | round {credit debt : Int × Decimal} {credits debts cs ds cs' ds' : List (Int × Decimal)}
      {ps : List Payment} (hc : reopen credit (credit.2.least debt.2) credits = .ok cs)
      (hd : reopen debt (credit.2.least debt.2) debts = .ok ds) (h : Pays cs ds ps cs' ds') :
    Pays (credit :: credits) (debt :: debts) (⟨debt.1, credit.1, credit.2.least debt.2⟩ :: ps)
      cs' ds'

/-- **A round closes one of the two amounts it takes.** -/
theorem length_lt_of_round (hc : reopen credit (credit.2.least debt.2) credits = .ok cs)
    (hd : reopen debt (credit.2.least debt.2) debts = .ok ds) :
    cs.length + ds.length < (credit :: credits).length + (debt :: debts).length := by
  have hone := closes_one credit.2 debt.2
  rw [length_reopen hc, length_reopen hd, List.length_cons, List.length_cons]
  rcases hone with hle | hle
  · rw [if_neg (not_lt.2 hle)]
    split <;> omega
  · rw [if_neg (not_lt.2 hle)]
    split <;> omega

namespace Pays

/-- Once the loop is over, one side has nothing open. -/
theorem eq_nil_or (h : Pays credits debts ps cs ds) : cs = [] ∨ ds = [] := by
  induction h with
  | settled h => exact h
  | round _ _ _ ih => exact ih

/-- With nothing open on one side nothing is paid. -/
theorem eq_nil (h : Pays credits debts ps cs ds) (hnone : credits = [] ∨ debts = []) : ps = [] := by
  cases h with
  | settled => rfl
  | round => simp at hnone

/-- The passes that are allowed for are enough. -/
theorem payUpto_eq (h : Pays credits debts ps cs ds)
    (hfuel : credits.length + debts.length ≤ fuel) : payUpto fuel credits debts = .ok ps := by
  induction h generalizing fuel with
  | settled h =>
    rcases h with rfl | rfl
    · cases fuel <;> rfl
    · rw [payUpto.eq_def]
      split
      · next h => cases h
      · rfl
  | round hc hd h ih =>
    have hless := length_lt_of_round hc hd
    obtain ⟨n, rfl⟩ : ∃ n, fuel = n + 1 := by
      simp only [List.length_cons] at hfuel
      exact ⟨fuel - 1, by omega⟩
    exact payUpto_cons_eq_ok.2 ⟨_, _, _, hc, hd, ih (by omega), rfl⟩

/-- **Payments are made by those with a debt to those with a credit.** -/
theorem parties (h : Pays credits debts ps cs ds) :
    ∀ p ∈ ps, p.payee ∈ credits.map Prod.fst ∧ p.payer ∈ debts.map Prod.fst := by
  induction h with
  | settled => simp
  | round hc hd _ ih =>
    refine List.forall_mem_cons.2 ⟨⟨List.mem_cons_self, List.mem_cons_self⟩, ?_⟩
    intro q hq
    obtain ⟨hpayee, hpayer⟩ := ih q hq
    -- the rest is among those who were there before
    obtain ⟨b, hb, hbe⟩ := List.mem_map.1 hpayee
    obtain ⟨e, he, hee⟩ := List.mem_map.1 hpayer
    exact ⟨hbe ▸ keys_reopen hc b hb, hee ▸ keys_reopen hd e he⟩

/-- **There are fewer payments than open amounts.** -/
theorem length_le (h : Pays credits debts ps cs ds) :
    ps.length ≤ credits.length + debts.length - 1 := by
  induction h with
  | settled => simp
  | round hc hd _ ih =>
    have hless := length_lt_of_round hc hd
    simp only [List.length_cons] at hless ⊢
    omega

/-- **Every payment is of something**, and so is all that stays open. -/
theorem positive (h : Pays credits debts ps cs ds) (hc : Positive credits) (hd : Positive debts) :
    (∀ p ∈ ps, 0 < p.amount.value) ∧ Positive cs ∧ Positive ds := by
  induction h with
  | settled => exact ⟨by simp, hc, hd⟩
  | @round credit debt _ _ _ _ _ _ _ hcs hds _ ih =>
    have hpaid : 0 < (credit.2.least debt.2).value := least_pos hc hd
    obtain ⟨hps, hleft⟩ := ih (positive_reopen hc hpaid hcs) (positive_reopen hd hpaid hds)
    exact ⟨List.forall_mem_cons.2 ⟨hpaid, hps⟩, hleft⟩

/-- **Nobody pays the same user twice**: after a payment one of the two has
nothing open any more. -/
theorem nodup_parties (h : Pays credits debts ps cs ds) (hc : (credits.map Prod.fst).Nodup)
    (hd : (debts.map Prod.fst).Nodup) : (ps.map fun p => (p.payer, p.payee)).Nodup := by
  induction h with
  | settled => simp
  | @round credit debt _ _ _ _ _ _ _ hcs hds h ih =>
    rw [List.map_cons, List.nodup_cons]
    refine ⟨fun hmem => ?_, ih (nodup_reopen hcs hc) (nodup_reopen hds hd)⟩
    obtain ⟨p, hp, hpe⟩ := List.mem_map.1 hmem
    obtain ⟨hpayer, hpayee⟩ := Prod.mk.inj hpe
    obtain ⟨hto, hfrom⟩ := h.parties p hp
    rcases closes_one credit.2 debt.2 with hle | hle
    · rw [hpayee, keys_reopen_of_le hcs hle] at hto
      exact (List.nodup_cons.1 hc).1 hto
    · rw [hpayer, keys_reopen_of_le hds hle] at hfrom
      exact (List.nodup_cons.1 hd).1 hfrom

end Pays

/-- **The loop ends**, whatever is open, without a sum out of range. -/
theorem exists_pays (hc : Positive credits) (hd : Positive debts) :
    ∃ ps cs ds, Pays credits debts ps cs ds := by
  -- the measure is the number of open amounts
  induction hn : credits.length + debts.length using Nat.strong_induction_on
    generalizing credits debts with
  | h n ih =>
    match credits, debts, hc, hd with
    | [], debts, _, _ => exact ⟨[], [], debts, .settled (.inl rfl)⟩
    | credits, [], _, _ => exact ⟨[], credits, [], .settled (.inr rfl)⟩
    | credit :: credits, debt :: debts, hc, hd =>
      have hpaid : 0 < (credit.2.least debt.2).value := least_pos hc hd
      obtain ⟨cs, hcs, hcpos⟩ := exists_reopen hc hpaid
      obtain ⟨ds, hds, hdpos⟩ := exists_reopen hd hpaid
      have hless := length_lt_of_round hcs hds
      obtain ⟨ps, cs', ds', h⟩ := ih _ (hn ▸ hless) hcpos hdpos rfl
      exact ⟨_, cs', ds', .round hcs hds h⟩

theorem pays_of_payUpto (h : payUpto fuel credits debts = .ok ps)
    (hfuel : credits.length + debts.length ≤ fuel) : ∃ cs ds, Pays credits debts ps cs ds := by
  induction fuel generalizing credits debts ps with
  | zero =>
    obtain rfl : credits = [] := List.length_eq_zero_iff.1 (by omega)
    cases h
    exact ⟨[], debts, .settled (.inl rfl)⟩
  | succ fuel ih =>
    match credits, debts with
    | [], debts =>
      cases h
      exact ⟨[], debts, .settled (.inl rfl)⟩
    | credit :: credits, [] =>
      cases h
      exact ⟨_, [], .settled (.inr rfl)⟩
    | credit :: credits, debt :: debts =>
      obtain ⟨cs, ds, qs, hcs, hds, hqs, rfl⟩ := payUpto_cons_eq_ok.1 h
      have hless := length_lt_of_round hcs hds
      obtain ⟨cs', ds', hpays⟩ := ih hqs (by omega)
      exact ⟨cs', ds', .round hcs hds hpays⟩

/-- **`pay` is the loop**: as many passes as there are open amounts are enough. -/
theorem pay_eq_ok_iff : pay credits debts = .ok ps ↔ ∃ cs ds, Pays credits debts ps cs ds :=
  ⟨fun h => pays_of_payUpto h le_rfl, fun ⟨_, _, h⟩ => h.payUpto_eq le_rfl⟩

end Settlement

end SharedLedger
