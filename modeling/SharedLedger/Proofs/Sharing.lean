import SharedLedger.Ledger.Expense
import SharedLedger.Proofs.Consistency
import SharedLedger.Proofs.Exact

/-!
# What a check of shares comes to

`Sharing.validate` reports the first share that breaks a rule, then fractions
that do not sum to one, then amounts whose total is not within a cent of the
expense. `Verdict` says this with exact sums, and the check comes to a verdict
exactly where there are grounds for it (`validate_eq_iff`): a total of fractions
is rounded only far above one, so it comes out as one where the exact sum does
(`total_fractions_iff`). Of the members of the group the check reads only who
they are (`validate_congr`).
-/

namespace SharedLedger

namespace Sharing

variable {groupId : Int} {amount : Decimal} {members members' : List Member}
  {ss : List ShareDraft}

/-! ## Single shares -/

/-- A share as it is proposed breaks no rule. -/
structure InOrder (groupId : Int) (members : List Member) (s : ShareDraft) : Prop where
  owedBy : ∀ m, s.owedBy = some m → isMemberRow members groupId m = true
  fraction_nonneg : 0 ≤ s.fraction.value
  fraction_le_one : s.fraction.value ≤ 1
  amount_pos : 0 < s.amount.value

/-- The rule a share breaks: the first of the three that it does not meet. -/
inductive Breaks (groupId : Int) (members : List Member) (s : ShareDraft) : ShareFault → Prop where
  | owedBy {m : Int} (hm : s.owedBy = some m) (hrow : isMemberRow members groupId m = false) :
    Breaks groupId members s (.notAMember m groupId)
  | fraction (hrow : ∀ m, s.owedBy = some m → isMemberRow members groupId m = true)
      (hf : ¬(0 ≤ s.fraction.value ∧ s.fraction.value ≤ 1)) :
    Breaks groupId members s (.fractionOutside s.fraction)
  | amount (hrow : ∀ m, s.owedBy = some m → isMemberRow members groupId m = true)
      (hf : 0 ≤ s.fraction.value ∧ s.fraction.value ≤ 1) (ha : s.amount.value ≤ 0) :
    Breaks groupId members s (.amountNotPositive s.amount)

variable {s : ShareDraft}

/-- Nobody is named who is not a member. -/
theorem owedBy_filter_eq_none_iff :
    (s.owedBy.filter fun m => !isMemberRow members groupId m) = none ↔
      ∀ m, s.owedBy = some m → isMemberRow members groupId m = true := by
  rw [Option.filter_eq_none_iff]
  simp

theorem fault?_eq_some_iff {f : ShareFault} :
    fault? groupId members s = some f ↔ Breaks groupId members s f := by
  constructor
  · intro h
    unfold fault? at h
    split at h
    · next m hm =>
      cases h
      rw [Option.filter_eq_some_iff] at hm
      exact .owedBy hm.1 (by simpa using hm.2)
    · next hm =>
      rw [owedBy_filter_eq_none_iff] at hm
      split at h
      · next hf =>
        cases h
        rw [Bool.not_eq_true', ← Bool.not_eq_true, Money.isRatio_iff] at hf
        exact .fraction hm hf
      · next hf =>
        rw [Bool.not_eq_true', Bool.not_eq_false, Money.isRatio_iff] at hf
        split at h
        · next ha =>
          cases h
          rw [Decimal.atMost_iff, Decimal.value_zero] at ha
          exact .amount hm hf ha
        · cases h
  · intro h
    unfold fault?
    cases h with
    | @owedBy m hm hrow =>
      have hfilter : (s.owedBy.filter fun m => !isMemberRow members groupId m) = some m := by
        rw [Option.filter_eq_some_iff]
        exact ⟨hm, by simp [hrow]⟩
      rw [hfilter]
    | fraction hrow hf =>
      rw [← Money.isRatio_iff, Bool.not_eq_true] at hf
      rw [owedBy_filter_eq_none_iff.2 hrow]
      simp [hf]
    | amount hrow hf ha =>
      rw [← Decimal.value_zero, ← Decimal.atMost_iff] at ha
      rw [owedBy_filter_eq_none_iff.2 hrow]
      simp [Money.isRatio_iff.2 hf, ha]

theorem fault?_eq_none_iff : fault? groupId members s = none ↔ InOrder groupId members s := by
  constructor
  · intro h
    have hnone : ∀ f, ¬ Breaks groupId members s f := fun f hf => by
      rw [← fault?_eq_some_iff, h] at hf
      cases hf
    -- were a rule not met, the share would break the first such one
    have hrow : ∀ m, s.owedBy = some m → isMemberRow members groupId m = true := by
      intro m hm
      by_contra hrow
      exact hnone _ (.owedBy hm (by simpa using hrow))
    have hf : 0 ≤ s.fraction.value ∧ s.fraction.value ≤ 1 := by
      by_contra hf
      exact hnone _ (.fraction hrow hf)
    refine ⟨hrow, hf.1, hf.2, ?_⟩
    by_contra ha
    exact hnone _ (.amount hrow hf (not_lt.1 ha))
  · intro h
    rw [Option.eq_none_iff_forall_ne_some]
    intro f hf
    rw [fault?_eq_some_iff] at hf
    cases hf with
    | owedBy hm hrow =>
      rw [h.owedBy _ hm] at hrow
      cases hrow
    | fraction hrow hf => exact hf ⟨h.fraction_nonneg, h.fraction_le_one⟩
    | amount hrow hf ha => exact absurd h.amount_pos (not_lt.2 ha)

/-- **The first share that breaks a rule**: those before it are in order, and
what comes after it does not matter. -/
theorem firstFault?_eq_some_iff {start i : Nat} {f : ShareFault} :
    firstFault? groupId members start ss = some (i, f) ↔
      ∃ before s after, ss = before ++ s :: after ∧ i = start + before.length ∧
        (∀ r ∈ before, InOrder groupId members r) ∧ Breaks groupId members s f := by
  induction ss generalizing start with
  | nil => simp [firstFault?]
  | cons r ss ih =>
    unfold firstFault?
    split
    · next f' hf' =>
      have hbreaks := fault?_eq_some_iff.1 hf'
      constructor
      · rintro ⟨⟩
        exact ⟨[], r, ss, rfl, rfl, by simp, hbreaks⟩
      · rintro ⟨before, s, after, hss, rfl, hbefore, hs⟩
        cases before with
        | nil =>
          cases hss
          rw [fault?_eq_some_iff.2 hs] at hf'
          cases hf'
          rfl
        | cons b before =>
          cases hss
          have hnone := fault?_eq_none_iff.2 (hbefore r List.mem_cons_self)
          rw [hnone] at hf'
          cases hf'
    · next hr =>
      have hr' := fault?_eq_none_iff.1 hr
      rw [ih]
      constructor
      · rintro ⟨before, s, after, rfl, rfl, hbefore, hs⟩
        exact ⟨r :: before, s, after, rfl, by rw [List.length_cons]; omega,
          List.forall_mem_cons.2 ⟨hr', hbefore⟩, hs⟩
      · rintro ⟨before, s, after, hss, rfl, hbefore, hs⟩
        cases before with
        | nil =>
          cases hss
          rw [fault?_eq_some_iff.2 hs] at hr
          cases hr
        | cons b before =>
          cases hss
          exact ⟨before, s, after, rfl, by rw [List.length_cons]; omega,
            fun q hq => hbefore q (List.mem_cons_of_mem r hq), hs⟩

theorem firstFault?_eq_none_iff {start : Nat} :
    firstFault? groupId members start ss = none ↔ ∀ s ∈ ss, InOrder groupId members s := by
  induction ss generalizing start with
  | nil => simp [firstFault?]
  | cons r ss ih =>
    rw [firstFault?, List.forall_mem_cons, ← fault?_eq_none_iff]
    split
    · next f hf => simp [hf]
    · next hr => rw [ih, and_iff_right hr]

/-! ## Sums -/

/-- **The fractions pass exactly where their exact sum is one**, although their
total may be rounded, or out of range. -/
theorem total_fractions_iff (h : ∀ s ∈ ss, InOrder groupId members s) :
    (∃ c, Decimal.total (ss.map (·.fraction)) = .ok c ∧ c.sameAs Decimal.one = true) ↔
      (ss.map (·.fraction.value)).sum = 1 := by
  have hnonneg : ∀ a ∈ ss.map (·.fraction), 0 ≤ a.value := by
    intro a ha
    obtain ⟨s, hs, rfl⟩ := List.mem_map.1 ha
    exact (h s hs).fraction_nonneg
  have hmap : ss.map (·.fraction.value) = (ss.map (·.fraction)).map Decimal.value := by
    rw [List.map_map]
    rfl
  rw [hmap]
  constructor
  · rintro ⟨c, hc, hone⟩
    rw [Decimal.sameAs_iff, Decimal.value_one] at hone
    -- a total of one is not large, so it was not rounded
    rcases Decimal.value_total_or_large hnonneg hc with hsum | ⟨hlarge, -⟩
    · exact hsum.symm.trans hone
    · rw [hone] at hlarge
      norm_num at hlarge
  · intro hsum
    -- sums on the way to one are not large either
    have hrange : InRange 28 ((ss.map (·.fraction)).map Decimal.value).sum := by
      rw [hsum]
      norm_num [InRange]
    obtain ⟨c, hc, hv⟩ :=
      Decimal.total_exact_of_nonneg (fun a _ => a.onGrid_value) hnonneg hrange
    refine ⟨c, hc, ?_⟩
    rw [Decimal.sameAs_iff, Decimal.value_one, hv, hsum]

/-! ## The verdict -/

/-- **What a check of shares may come to, and on what grounds.** All sums but the
totals themselves are exact. -/
inductive Verdict (groupId : Int) (amount : Decimal) (members : List Member)
    (ss : List ShareDraft) : Except Failure Unit → Prop where
  /-- A share breaks a rule, and those before it do not. -/
  | broken {before after : List ShareDraft} {s : ShareDraft} {f : ShareFault}
      (hss : ss = before ++ s :: after) (hbefore : ∀ r ∈ before, InOrder groupId members r)
      (hs : Breaks groupId members s f) :
    Verdict groupId amount members ss (.error (.refused (.invalidShare before.length f.reason)))
  /-- The fractions do not sum to one. -/
  | fractionsOff {c : Decimal} (h : ∀ s ∈ ss, InOrder groupId members s)
      (hsum : (ss.map (·.fraction.value)).sum ≠ 1)
      (hc : Decimal.total (ss.map (·.fraction)) = .ok c) :
    Verdict groupId amount members ss (.error (.refused (.fractionTotal c)))
  /-- They do not, and have no total either. -/
  | fractionsOutOfRange {o : Overflow} (h : ∀ s ∈ ss, InOrder groupId members s)
      (hsum : (ss.map (·.fraction.value)).sum ≠ 1)
      (ho : Decimal.total (ss.map (·.fraction)) = .error o) :
    Verdict groupId amount members ss (.error (.overflow o))
  /-- The amounts have no total. -/
  | amountsOutOfRange {o : Overflow} (h : ∀ s ∈ ss, InOrder groupId members s)
      (hsum : (ss.map (·.fraction.value)).sum = 1)
      (ho : Decimal.total (ss.map (·.amount)) = .error o) :
    Verdict groupId amount members ss (.error (.overflow o))
  /-- The total cannot be compared with the amount of the expense. -/
  | differenceOutOfRange {c : Decimal} {o : Overflow} (h : ∀ s ∈ ss, InOrder groupId members s)
      (hsum : (ss.map (·.fraction.value)).sum = 1)
      (hc : Decimal.total (ss.map (·.amount)) = .ok c) (ho : c.sub amount = .error o) :
    Verdict groupId amount members ss (.error (.overflow o))
  /-- The total is more than a cent away from the amount of the expense. -/
  | amountsOff {c d : Decimal} (h : ∀ s ∈ ss, InOrder groupId members s)
      (hsum : (ss.map (·.fraction.value)).sum = 1)
      (hc : Decimal.total (ss.map (·.amount)) = .ok c) (hd : c.sub amount = .ok d)
      (hfar : 1 / 100 < |c.value - amount.value|) :
    Verdict groupId amount members ss (.error (.refused (.amountTotal c amount)))
  /-- It is not. -/
  | accepted {c d : Decimal} (h : ∀ s ∈ ss, InOrder groupId members s)
      (hsum : (ss.map (·.fraction.value)).sum = 1)
      (hc : Decimal.total (ss.map (·.amount)) = .ok c) (hd : c.sub amount = .ok d)
      (hnear : |c.value - amount.value| ≤ 1 / 100) :
    Verdict groupId amount members ss (.ok ())

/-- A share that breaks a rule ends the check. -/
theorem validate_of_fault {i : Nat} {f : ShareFault}
    (h : firstFault? groupId members 0 ss = some (i, f)) :
    validate groupId amount members ss = .error (.refused (.invalidShare i f.reason)) := by
  unfold validate
  rw [h]
  rfl

/-- Where every share is in order, the fractions are added up. -/
theorem validate_of_inOrder (h : ∀ s ∈ ss, InOrder groupId members s) :
    validate groupId amount members ss =
      (Failure.ofSum (Decimal.total (ss.map (·.fraction)))).bind fun fractions =>
        if fractions.sameAs Decimal.one then
          (Failure.ofSum (Decimal.total (ss.map (·.amount)))).bind fun total =>
            (Failure.ofSum (total.sub amount)).bind fun d =>
              if d.magnitude.atMost Money.oneCent then .ok ()
              else .error (.refused (.amountTotal total amount))
        else .error (.refused (.fractionTotal fractions)) := by
  unfold validate
  rw [firstFault?_eq_none_iff.2 h]
  cases Decimal.total (ss.map (·.fraction)) with
  | error o => rfl
  | ok fractions =>
  cases hone : fractions.sameAs Decimal.one with
  | false => simp [Failure.ofSum, bind, Except.bind, hone, throw, throwThe, MonadExceptOf.throw]
  | true =>
  cases htotal : Decimal.total (ss.map (·.amount)) with
  | error o => simp [Failure.ofSum, bind, Except.bind, hone]
  | ok total =>
  cases hd : total.sub amount with
  | error o => simp [Failure.ofSum, bind, Except.bind, hone, Money.withinOneCent, hd]
  | ok d =>
  cases hcent : d.magnitude.atMost Money.oneCent <;>
    simp [Failure.ofSum, bind, Except.bind, hone, Money.withinOneCent, hd, hcent, pure,
      Except.pure, throw, throwThe, MonadExceptOf.throw]

/-- Where the fractions sum to one as well, the amounts are added up. -/
theorem validate_of_sum_eq_one (h : ∀ s ∈ ss, InOrder groupId members s)
    (hsum : (ss.map (·.fraction.value)).sum = 1) :
    validate groupId amount members ss =
      (Failure.ofSum (Decimal.total (ss.map (·.amount)))).bind fun total =>
        (Failure.ofSum (total.sub amount)).bind fun d =>
          if d.magnitude.atMost Money.oneCent then .ok ()
          else .error (.refused (.amountTotal total amount)) := by
  obtain ⟨c, hc, hone⟩ := (total_fractions_iff h).2 hsum
  rw [validate_of_inOrder h, hc]
  exact if_pos hone

theorem verdict_validate :
    Verdict groupId amount members ss (validate groupId amount members ss) := by
  cases hfault : firstFault? groupId members 0 ss with
  | some p =>
    obtain ⟨before, s, after, hss, hi, hbefore, hs⟩ := firstFault?_eq_some_iff.1 hfault
    rw [validate_of_fault hfault, hi, Nat.zero_add]
    exact .broken hss hbefore hs
  | none =>
  have h := firstFault?_eq_none_iff.1 hfault
  have hpass := total_fractions_iff h
  by_cases hsum : (ss.map (·.fraction.value)).sum = 1
  · rw [validate_of_sum_eq_one h hsum]
    cases htotal : Decimal.total (ss.map (·.amount)) with
    | error o => exact .amountsOutOfRange h hsum htotal
    | ok total =>
    change Verdict _ _ _ _ ((Failure.ofSum (total.sub amount)).bind _)
    cases hd : total.sub amount with
    | error o => exact .differenceOutOfRange h hsum htotal hd
    | ok d =>
    change Verdict _ _ _ _ (if d.magnitude.atMost Money.oneCent then _ else _)
    split
    · next hcent => exact .accepted h hsum htotal hd ((Money.atMost_oneCent_iff hd).1 hcent)
    · next hcent =>
      rw [Money.atMost_oneCent_iff hd, not_le] at hcent
      exact .amountsOff h hsum htotal hd hcent
  · rw [validate_of_inOrder h]
    cases hfractions : Decimal.total (ss.map (·.fraction)) with
    | error o => exact .fractionsOutOfRange h hsum hfractions
    | ok c =>
    have hone : ¬c.sameAs Decimal.one = true := fun hone => hsum (hpass.1 ⟨c, hfractions, hone⟩)
    change Verdict _ _ _ _ (if c.sameAs Decimal.one then _ else _)
    rw [if_neg hone]
    exact .fractionsOff h hsum hfractions

/-- **The check comes to a verdict exactly where there are grounds for it.** -/
theorem validate_eq_iff {r : Except Failure Unit} :
    validate groupId amount members ss = r ↔ Verdict groupId amount members ss r := by
  refine ⟨fun h => h ▸ verdict_validate, fun hv => ?_⟩
  cases hv with
  | broken hss hbefore hs =>
    exact validate_of_fault
      (firstFault?_eq_some_iff.2 ⟨_, _, _, hss, (Nat.zero_add _).symm, hbefore, hs⟩)
  | fractionsOutOfRange h hsum ho =>
    rw [validate_of_inOrder h, ho]
    rfl
  | fractionsOff h hsum hc =>
    rw [validate_of_inOrder h, hc]
    exact if_neg fun hone => hsum ((total_fractions_iff h).1 ⟨_, hc, hone⟩)
  | amountsOutOfRange h hsum ho =>
    rw [validate_of_sum_eq_one h hsum, ho]
    rfl
  | differenceOutOfRange h hsum hc ho =>
    rw [validate_of_sum_eq_one h hsum, hc]
    change (Failure.ofSum (Decimal.sub _ amount)).bind _ = _
    rw [ho]
    rfl
  | amountsOff h hsum hc hd hfar =>
    rw [validate_of_sum_eq_one h hsum, hc]
    change (Failure.ofSum (Decimal.sub _ amount)).bind _ = _
    rw [hd]
    refine if_neg fun hcent => ?_
    exact absurd ((Money.atMost_oneCent_iff hd).1 hcent) (not_le.2 hfar)
  | accepted h hsum hc hd hnear =>
    rw [validate_of_sum_eq_one h hsum, hc]
    change (Failure.ofSum (Decimal.sub _ amount)).bind _ = _
    rw [hd]
    exact if_pos ((Money.atMost_oneCent_iff hd).2 hnear)

/-- **What a check of shares is worth**: every share is in order, the fractions
sum to exactly one, and the total of the amounts is within one cent. -/
theorem of_validate (h : validate groupId amount members ss = .ok ()) :
    (∀ s ∈ ss, InOrder groupId members s) ∧ (ss.map fun s => s.fraction.value).sum = 1 ∧
      ∃ total, Decimal.total (ss.map (·.amount)) = .ok total ∧
        |total.value - amount.value| ≤ 1 / 100 := by
  cases validate_eq_iff.1 h with
  | accepted h hsum hc hd hnear => exact ⟨h, hsum, _, hc, hnear⟩

/-- The check reads nothing of the members but who belongs to the group. -/
theorem validate_congr
    (h : ∀ m, isMemberRow members groupId m = isMemberRow members' groupId m) :
    validate groupId amount members ss = validate groupId amount members' ss := by
  have hfault : ∀ s, fault? groupId members s = fault? groupId members' s := by
    intro s
    unfold fault?
    simp only [h]
  have hfirst : ∀ n ss, firstFault? groupId members n ss = firstFault? groupId members' n ss := by
    intro n ss
    induction ss generalizing n with
    | nil => rfl
    | cons s ss ih =>
      unfold firstFault?
      rw [hfault, ih]
  unfold validate
  rw [hfirst]

theorem isMemberRow_membersOf {t : Tables} {m : Int} :
    isMemberRow (t.membersOf groupId) groupId m = true ↔ t.HasMember groupId m := by
  unfold isMemberRow
  rw [List.any_eq_true]
  constructor
  · rintro ⟨o, ho, hid⟩
    rw [Bool.and_eq_true, beq_iff_eq, beq_iff_eq] at hid
    obtain ⟨rfl, rfl⟩ := hid
    exact ⟨o, Index.find?_of_mem (Tables.mem_membersOf.1 ho).1, rfl⟩
  · rintro ⟨o, ho, hg⟩
    refine ⟨o, Tables.mem_membersOf.2 ⟨Index.mem_of_find? ho, hg⟩, ?_⟩
    simp [Index.key_of_find? ho, hg]

end Sharing

end SharedLedger
