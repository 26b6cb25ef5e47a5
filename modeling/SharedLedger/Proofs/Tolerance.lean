import SharedLedger.Proofs.Range
import SharedLedger.Proofs.Rounding
import SharedLedger.Proofs.Sharing
import Mathlib.Data.Rat.Floor

/-!
# How exact the check of shares is

For an expense that is not negative the check of its shares reports the first
failure and says which (`Sharing.first_failure_reported`). Fractions are checked
exactly, however many there are and whatever their scales. Amounts are not: their
total is rounded where it does not fit, and may be out of range. The cent is kept
where the amounts can be added up without rounding, and missed by what rounding
costs otherwise (`Sharing.cent_kept`). That can be more than a cent, and sets of
shares that are right can be out of range (`Sharing.cent_missed`).
-/

namespace SharedLedger

namespace Sample

/-- The two who share the dinner. -/
def diners : List Member := [⟨4, 3, some 1, "Ada"⟩, ⟨5, 3, some 2, "Bea"⟩]

/-- How they share it. -/
def halves : List ShareDraft := dinner.shares.getD []

end Sample

namespace Sharing

variable {groupId : Int} {amount : Decimal} {members : List Member} {ss : List ShareDraft}

/-! ## The first failure -/

theorem validate_eq_invalidShare_iff {i : ℕ} {reason : String} :
    validate groupId amount members ss = .error (.refused (.invalidShare i reason)) ↔
      ∃ before s after f, ss = before ++ s :: after ∧ before.length = i ∧
        (∀ r ∈ before, InOrder groupId members r) ∧ Breaks groupId members s f ∧
        reason = f.reason := by
  rw [validate_eq_iff]
  constructor
  · intro h
    cases h with
    | broken hss hbefore hs => exact ⟨_, _, _, _, hss, rfl, hbefore, hs, rfl⟩
  · rintro ⟨before, s, after, f, hss, rfl, hbefore, hs, rfl⟩
    exact .broken hss hbefore hs

theorem validate_eq_fractionTotal_iff {c : Decimal} :
    validate groupId amount members ss = .error (.refused (.fractionTotal c)) ↔
      (∀ s ∈ ss, InOrder groupId members s) ∧ (ss.map (·.fraction.value)).sum ≠ 1 ∧
        Decimal.total (ss.map (·.fraction)) = .ok c := by
  rw [validate_eq_iff]
  constructor
  · intro h
    cases h with
    | fractionsOff h hsum hc => exact ⟨h, hsum, hc⟩
  · rintro ⟨h, hsum, hc⟩
    exact .fractionsOff h hsum hc

/-- A total of amounts that are in order can be compared with what is not
negative. -/
theorem exists_difference {c : Decimal} (hamount : 0 ≤ amount.value)
    (h : ∀ s ∈ ss, InOrder groupId members s) (hc : Decimal.total (ss.map (·.amount)) = .ok c) :
    ∃ d, c.sub amount = .ok d := by
  refine Decimal.exists_sub (Decimal.value_nonneg_of_total (fun x hx => ?_) hc) hamount
  obtain ⟨s, hs, rfl⟩ := List.mem_map.1 hx
  exact (h s hs).amount_pos.le

theorem validate_eq_amountTotal_iff {c e : Decimal} (hamount : 0 ≤ amount.value) :
    validate groupId amount members ss = .error (.refused (.amountTotal c e)) ↔
      (∀ s ∈ ss, InOrder groupId members s) ∧ (ss.map (·.fraction.value)).sum = 1 ∧
        Decimal.total (ss.map (·.amount)) = .ok c ∧ e = amount ∧
        1 / 100 < |c.value - amount.value| := by
  rw [validate_eq_iff]
  constructor
  · intro h
    cases h with
    | amountsOff h hsum hc hd hfar => exact ⟨h, hsum, hc, rfl, hfar⟩
  · rintro ⟨h, hsum, hc, rfl, hfar⟩
    obtain ⟨d, hd⟩ := exists_difference hamount h hc
    exact .amountsOff h hsum hc hd hfar

theorem validate_eq_ok_iff (hamount : 0 ≤ amount.value) :
    validate groupId amount members ss = .ok () ↔
      (∀ s ∈ ss, InOrder groupId members s) ∧ (ss.map (·.fraction.value)).sum = 1 ∧
        ∃ c, Decimal.total (ss.map (·.amount)) = .ok c ∧ |c.value - amount.value| ≤ 1 / 100 := by
  refine ⟨of_validate, fun ⟨h, hsum, c, hc, hnear⟩ => ?_⟩
  obtain ⟨d, hd⟩ := exists_difference hamount h hc
  exact validate_eq_iff.2 (.accepted h hsum hc hd hnear)

theorem validate_eq_overflow_iff {o : Overflow} (hamount : 0 ≤ amount.value) :
    validate groupId amount members ss = .error (.overflow o) ↔
      (∀ s ∈ ss, InOrder groupId members s) ∧
        ((ss.map (·.fraction.value)).sum ≠ 1 ∧ Decimal.total (ss.map (·.fraction)) = .error o ∨
          (ss.map (·.fraction.value)).sum = 1 ∧ Decimal.total (ss.map (·.amount)) = .error o) := by
  rw [validate_eq_iff]
  constructor
  · intro h
    cases h with
    | fractionsOutOfRange h hsum ho => exact ⟨h, .inl ⟨hsum, ho⟩⟩
    | amountsOutOfRange h hsum ho => exact ⟨h, .inr ⟨hsum, ho⟩⟩
    | differenceOutOfRange h hsum hc ho =>
      obtain ⟨d, hd⟩ := exists_difference hamount h hc
      rw [ho] at hd
      cases hd
  · rintro ⟨h, ⟨hsum, ho⟩ | ⟨hsum, ho⟩⟩
    · exact .fractionsOutOfRange h hsum ho
    · exact .amountsOutOfRange h hsum ho

/-- **The first failure is reported, and nothing else is.** A share is reported
where it breaks a rule and those before it do not, whatever comes after it. Then
the fractions pass exactly where their exact sum is one; and only where they do,
the amounts are reported, exactly where their total is more than a cent away. -/
theorem first_failure_reported (hamount : 0 ≤ amount.value) :
    (∀ i reason, validate groupId amount members ss = .error (.refused (.invalidShare i reason)) ↔
      ∃ before s after f, ss = before ++ s :: after ∧ before.length = i ∧
        (∀ r ∈ before, InOrder groupId members r) ∧ Breaks groupId members s f ∧
        reason = f.reason) ∧
    ((∀ s ∈ ss, InOrder groupId members s) →
      ((∃ c, Decimal.total (ss.map (·.fraction)) = .ok c ∧ c.sameAs Decimal.one = true) ↔
        (ss.map (·.fraction.value)).sum = 1)) ∧
    (∀ c, validate groupId amount members ss = .error (.refused (.fractionTotal c)) ↔
      (∀ s ∈ ss, InOrder groupId members s) ∧ (ss.map (·.fraction.value)).sum ≠ 1 ∧
        Decimal.total (ss.map (·.fraction)) = .ok c) ∧
    (∀ c e, validate groupId amount members ss = .error (.refused (.amountTotal c e)) ↔
      (∀ s ∈ ss, InOrder groupId members s) ∧ (ss.map (·.fraction.value)).sum = 1 ∧
        Decimal.total (ss.map (·.amount)) = .ok c ∧ e = amount ∧
        1 / 100 < |c.value - amount.value|) ∧
    (validate groupId amount members ss = .ok () ↔
      (∀ s ∈ ss, InOrder groupId members s) ∧ (ss.map (·.fraction.value)).sum = 1 ∧
        ∃ c, Decimal.total (ss.map (·.amount)) = .ok c ∧ |c.value - amount.value| ≤ 1 / 100) ∧
    ∀ o, validate groupId amount members ss = .error (.overflow o) ↔
      (∀ s ∈ ss, InOrder groupId members s) ∧
        ((ss.map (·.fraction.value)).sum ≠ 1 ∧ Decimal.total (ss.map (·.fraction)) = .error o ∨
          (ss.map (·.fraction.value)).sum = 1 ∧ Decimal.total (ss.map (·.amount)) = .error o) :=
  ⟨fun _ _ => validate_eq_invalidShare_iff, total_fractions_iff,
    fun _ => validate_eq_fractionTotal_iff, fun _ _ => validate_eq_amountTotal_iff hamount,
    validate_eq_ok_iff hamount, fun _ => validate_eq_overflow_iff hamount⟩

/-- The second share of the dinner is reported if nobody in the group owes it,
and the third one is not looked at. -/
theorem first_failure_reported_stranger :
    0 ≤ Sample.dinner.amount.value ∧
      validate 3 Sample.dinner.amount Sample.diners
        [Sample.half 4 (Sample.cents 1500 (by decide)), Sample.half 9 Decimal.zero,
          Sample.half 5 Decimal.zero] =
        .error (.refused (.invalidShare 1 "split_user 9 is not a member of group 3")) := by
  have hamount : 0 ≤ Sample.dinner.amount.value := by decide +kernel
  refine ⟨hamount, ((first_failure_reported hamount).1 1 _).2
    ⟨[Sample.half 4 (Sample.cents 1500 (by decide))], Sample.half 9 Decimal.zero,
      [Sample.half 5 Decimal.zero], .notAMember 9 3, rfl, rfl, fun r hr => ?_,
      .owedBy rfl rfl, by decide +kernel⟩⟩
  obtain rfl := List.mem_singleton.1 hr
  exact fault?_eq_none_iff.1 (by decide +kernel)

/-! ## The cent -/

/-- Amounts above zero that are whole numbers of one unit are at least one unit
each. -/
theorem length_le_of_onGrid {k : ℕ} {as : List Decimal} (hgrid : ∀ x ∈ as, OnGrid k x.value)
    (hpos : ∀ x ∈ as, 0 < x.value) : (as.length : ℚ) ≤ (as.map Decimal.value).sum * 10 ^ k := by
  induction as with
  | nil => simp
  | cons a as ih =>
    obtain ⟨z, hz⟩ := hgrid a List.mem_cons_self
    have hz0 : (0 : ℚ) < z := hz ▸ mul_pos (hpos a List.mem_cons_self) (by positivity)
    have hz1 : (1 : ℚ) ≤ z := by exact_mod_cast hz0
    have hrest := ih (fun x hx => hgrid x (List.mem_cons_of_mem a hx))
      fun x hx => hpos x (List.mem_cons_of_mem a hx)
    rw [List.length_cons, List.map_cons, List.sum_cons, add_mul, hz]
    push_cast
    linarith

/-- Shares in order, fewer than there are units, have a total of fractions. -/
theorem exists_total_fractions (h : ∀ s ∈ ss, InOrder groupId members s)
    (hlength : ss.length < 2 ^ 96) : ∃ c, Decimal.total (ss.map (·.fraction)) = .ok c := by
  refine Decimal.exists_total (fun _ => 1) (fun x hx => ?_) (fun x hx => ?_)
    (by simpa [Function.comp_def] using hlength)
  · obtain ⟨s, hs, rfl⟩ := List.mem_map.1 hx
    exact (h s hs).fraction_nonneg
  · obtain ⟨s, hs, rfl⟩ := List.mem_map.1 hx
    exact_mod_cast (h s hs).fraction_le_one

theorem values_amounts (ss : List ShareDraft) :
    (ss.map (·.amount)).map Decimal.value = ss.map (·.amount.value) := by
  rw [List.map_map]
  rfl

theorem amounts_pos (h : ∀ s ∈ ss, InOrder groupId members s) :
    ∀ x ∈ ss.map (·.amount), 0 < x.value := by
  intro x hx
  obtain ⟨s, hs, rfl⟩ := List.mem_map.1 hx
  exact (h s hs).amount_pos

/-- **The check is out of range** only where there are too many shares or their
amounts are too large together. -/
theorem large_of_overflow {o : Overflow} (hamount : 0 ≤ amount.value)
    (ho : validate groupId amount members ss = .error (.overflow o)) :
    2 ^ 96 ≤ ss.length ∨ 2 ^ 96 ≤ (ss.map fun s => ⌈s.amount.value⌉₊).sum := by
  obtain ⟨h, ⟨-, ho⟩ | ⟨-, ho⟩⟩ := (validate_eq_overflow_iff hamount).1 ho
  · refine .inl (not_lt.1 fun hlength => ?_)
    obtain ⟨c, hc⟩ := exists_total_fractions h hlength
    rw [ho] at hc
    cases hc
  · refine .inr (not_lt.1 fun hsmall => ?_)
    obtain ⟨c, hc⟩ := Decimal.exists_total (fun x => ⌈x.value⌉₊) (fun x hx => (amounts_pos h x hx).le)
      (fun x _ => Nat.le_ceil _) (by rw [List.map_map]; exact hsmall)
    rw [ho] at hc
    cases hc

/-- **What is accepted is within a cent** but for the rounding of the total. -/
theorem near_of_validate (hok : validate groupId amount members ss = .ok ()) :
    |(ss.map (·.amount.value)).sum - amount.value| ≤
      1 / 100 + Decimal.loss ss.length * (ss.map (·.amount.value)).sum := by
  obtain ⟨h, -, c, hc, hnear⟩ := of_validate hok
  have hlost := Decimal.abs_value_total_sub_le (fun x hx => (amounts_pos h x hx).le) hc
  rw [List.length_map, values_amounts] at hlost
  calc |(ss.map (·.amount.value)).sum - amount.value|
      ≤ |(ss.map (·.amount.value)).sum - c.value| + |c.value - amount.value| := abs_sub_le _ _ _
    _ ≤ 1 / 100 + Decimal.loss ss.length * (ss.map (·.amount.value)).sum := by
      rw [abs_sub_comm _ c.value]
      linarith

section Exact

variable {k : ℕ} (hgrid : ∀ s ∈ ss, OnGrid k s.amount.value)
  (hrange : InRange k (ss.map (·.amount.value)).sum)

include hgrid hrange

/-- Amounts in order that can be added up without rounding have their sum for a
total. -/
theorem total_amounts_exact (h : ∀ s ∈ ss, InOrder groupId members s) :
    ∃ c, Decimal.total (ss.map (·.amount)) = .ok c ∧
      c.value = (ss.map (·.amount.value)).sum := by
  rw [← values_amounts] at hrange ⊢
  exact Decimal.total_exact_of_nonneg (List.forall_mem_map.2 hgrid)
    (fun x hx => (amounts_pos h x hx).le) hrange

/-- There are fewer of them than there are units. -/
theorem length_lt_of_exact (h : ∀ s ∈ ss, InOrder groupId members s) : ss.length < 2 ^ 96 := by
  have hcount := length_le_of_onGrid (List.forall_mem_map.2 hgrid) (amounts_pos h)
  rw [List.length_map, values_amounts] at hcount
  have hsize : (ss.map (·.amount.value)).sum * 10 ^ k ≤ |(ss.map (·.amount.value)).sum| * 10 ^ k :=
    mul_le_mul_of_nonneg_right (le_abs_self _) (by positivity)
  have hlength : (ss.length : ℚ) < 2 ^ 96 := (hcount.trans hsize).trans_lt hrange
  exact_mod_cast hlength

/-- **Without rounding the check comes to a verdict.** -/
theorem not_overflow_of_exact (hamount : 0 ≤ amount.value) (o : Overflow) :
    validate groupId amount members ss ≠ .error (.overflow o) := by
  intro ho
  obtain ⟨h, ⟨-, ho⟩ | ⟨-, ho⟩⟩ := (validate_eq_overflow_iff hamount).1 ho
  · obtain ⟨c, hc⟩ := exists_total_fractions h (length_lt_of_exact hgrid hrange h)
    rw [ho] at hc
    cases hc
  · obtain ⟨c, hc, -⟩ := total_amounts_exact hgrid hrange h
    rw [ho] at hc
    cases hc

/-- **Without rounding the cent is kept**, and nothing else is asked for. -/
theorem validate_eq_ok_iff_of_exact (hamount : 0 ≤ amount.value) :
    validate groupId amount members ss = .ok () ↔
      (∀ s ∈ ss, InOrder groupId members s) ∧ (ss.map (·.fraction.value)).sum = 1 ∧
        |(ss.map (·.amount.value)).sum - amount.value| ≤ 1 / 100 := by
  rw [validate_eq_ok_iff hamount]
  refine and_congr_right fun h => and_congr_right fun _ => ?_
  obtain ⟨c, hc, hv⟩ := total_amounts_exact hgrid hrange h
  rw [← hv]
  constructor
  · rintro ⟨c', hc', hnear⟩
    rw [hc] at hc'
    cases hc'
    exact hnear
  · exact fun hnear => ⟨c, hc, hnear⟩

end Exact

/-- **The cent is kept, up to what rounding costs.** The check is out of range
only where there are too many shares or their amounts are too large together.
What it accepts is within a cent but for the rounding of the total. And where the
amounts can be added up without rounding, the check always comes to a verdict,
and accepts exactly what is in order, with fractions that sum to one, within a
cent. -/
theorem cent_kept (hamount : 0 ≤ amount.value) :
    (∀ o, validate groupId amount members ss = .error (.overflow o) →
      2 ^ 96 ≤ ss.length ∨ 2 ^ 96 ≤ (ss.map fun s => ⌈s.amount.value⌉₊).sum) ∧
    (validate groupId amount members ss = .ok () →
      |(ss.map (·.amount.value)).sum - amount.value| ≤
        1 / 100 + Decimal.loss ss.length * (ss.map (·.amount.value)).sum) ∧
    ∀ k, (∀ s ∈ ss, OnGrid k s.amount.value) → InRange k (ss.map (·.amount.value)).sum →
      (∀ o, validate groupId amount members ss ≠ .error (.overflow o)) ∧
      (validate groupId amount members ss = .ok () ↔
        (∀ s ∈ ss, InOrder groupId members s) ∧ (ss.map (·.fraction.value)).sum = 1 ∧
          |(ss.map (·.amount.value)).sum - amount.value| ≤ 1 / 100) :=
  ⟨fun _ => large_of_overflow hamount, near_of_validate, fun _ hgrid hrange =>
    ⟨not_overflow_of_exact hgrid hrange hamount, validate_eq_ok_iff_of_exact hgrid hrange hamount⟩⟩

/-- The cent is kept for the dinner, whose halves are written at two scales. -/
theorem cent_kept_dinner :
    (0 ≤ Sample.dinner.amount.value ∧ (∀ s ∈ Sample.halves, OnGrid 2 s.amount.value) ∧
      InRange 2 (Sample.halves.map (·.amount.value)).sum) ∧
    validate 3 Sample.dinner.amount Sample.diners Sample.halves = .ok () := by
  have hamount : 0 ≤ Sample.dinner.amount.value := by decide +kernel
  have hgrid : ∀ s ∈ Sample.halves, OnGrid 2 s.amount.value := by
    have hhalves : ∀ s ∈ Sample.halves, s.amount.value = 15 := by decide +kernel
    exact fun s hs => ⟨1500, by rw [hhalves s hs]; norm_num⟩
  have hsum : (Sample.halves.map (·.amount.value)).sum = 30 := by decide +kernel
  have hrange : InRange 2 (Sample.halves.map (·.amount.value)).sum := by
    rw [hsum]
    norm_num [InRange]
  have horder : ∀ s ∈ Sample.halves, fault? 3 Sample.diners s = none := by decide +kernel
  exact ⟨⟨hamount, hgrid, hrange⟩, ((cent_kept hamount).2.2 2 hgrid hrange).2.2
    ⟨fun s hs => fault?_eq_none_iff.1 (horder s hs), by decide +kernel, by decide +kernel⟩⟩

end Sharing

/-! ## Where the cent is missed -/

namespace Sample

/-- A share of everything or of nothing that the member 7 owes. -/
def portion (fraction amount : Decimal) : ShareDraft := ⟨some 7, fraction, amount⟩

/-- A large share, and two whole units in small ones. -/
def crumbs : List ShareDraft := portion .one large :: .replicate 5 (portion .zero small)

theorem portion_fits : 20 < Nat.pow 2 96 := by decide

/-- Shares of the largest amount, in an order in which they round up on the way. -/
def brimful : List ShareDraft :=
  portion .one { largest with mantissa := 2 ^ 96 - 3, mantissa_lt := by decide } ::
    portion .zero (cents 20 portion_fits) :: .replicate 3 (portion .zero (cents 60 (by decide)))

end Sample

/-- **Rounding can cost more than a cent, and the check itself**: shares that sum
to two units more than a large expense are accepted, and shares that are in order
and sum to exactly the largest amount are out of range. -/
theorem Sharing.cent_missed :
    (validate 5 Sample.large [⟨7, 5, some 2, "Bob"⟩] Sample.crumbs = .ok () ∧
      (Sample.crumbs.map (·.amount.value)).sum - Sample.large.value = 2) ∧
    (∀ s ∈ Sample.brimful, fault? 5 [⟨7, 5, some 2, "Bob"⟩] s = none) ∧
      (Sample.brimful.map (·.fraction.value)).sum = 1 ∧
      (Sample.brimful.map (·.amount.value)).sum = Sample.largest.value ∧
      validate 5 Sample.largest [⟨7, 5, some 2, "Bob"⟩] Sample.brimful =
        .error (.overflow .addition) := by
  decide +kernel

end SharedLedger
