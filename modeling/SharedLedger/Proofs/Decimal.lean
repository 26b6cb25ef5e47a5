import SharedLedger.Money
import Mathlib.Data.Rat.Cast.Order
import Mathlib.Tactic.FieldSimp
import Mathlib.Tactic.Linarith
import Mathlib.Tactic.Positivity
import Mathlib.Tactic.Ring

/-!
# The numbers amounts stand for

Comparisons of amounts are comparisons of their values, whatever the scales
(`atMost_iff`, `below_iff`, `sameAs_iff`). A sum is the exact sum as long as
the exact sum is small (`value_sum?_or_large`): digits are given up only
where a mantissa would not fit, and that takes a number above seven. So a
sum that comes out small has lost nothing, which is what the checks on
fractions and on cents rest on.
-/

namespace SharedLedger

namespace Decimal

variable {a b c : Decimal}

/-! ## Values -/

theorem value_eq (a : Decimal) : a.value = (a.units : ℚ) / (10 : ℚ) ^ a.scale := by
  rw [value, Rat.mkRat_eq_div, Nat.pow_eq]
  push_cast
  rfl

theorem units_eq_zero_iff : a.units = 0 ↔ a.mantissa = 0 := by
  unfold units
  split <;> omega

/-- The units of two amounts differ, at a common scale, as their values do. -/
theorem difference_eq (a b : Decimal) :
    (a.difference b : ℚ) = (a.value - b.value) * ((10 : ℚ) ^ a.scale * (10 : ℚ) ^ b.scale) := by
  rw [difference, value_eq, value_eq, Nat.pow_eq, Nat.pow_eq]
  push_cast
  field_simp

private theorem scales_pos (a b : Decimal) : (0 : ℚ) < (10 : ℚ) ^ a.scale * (10 : ℚ) ^ b.scale := by
  positivity

theorem below_iff : a.below b = true ↔ a.value < b.value := by
  have hp := scales_pos a b
  rw [below, decide_eq_true_eq, ← Int.cast_lt (R := ℚ), difference_eq, Int.cast_zero,
    ← sub_neg (a := a.value)]
  exact ⟨fun h => neg_of_mul_neg_left h hp.le, fun h => mul_neg_of_neg_of_pos h hp⟩

theorem atMost_iff : a.atMost b = true ↔ a.value ≤ b.value := by
  have hp := scales_pos a b
  rw [atMost, decide_eq_true_eq, ← Int.cast_le (R := ℚ), difference_eq, Int.cast_zero,
    ← sub_nonpos (a := a.value)]
  exact ⟨fun h => nonpos_of_mul_nonpos_left h hp, fun h => mul_nonpos_of_nonpos_of_nonneg h hp.le⟩

theorem sameAs_iff : a.sameAs b = true ↔ a.value = b.value := by
  rw [sameAs, decide_eq_true_eq, ← Int.cast_inj (α := ℚ), difference_eq, Int.cast_zero,
    mul_eq_zero_iff_right (scales_pos a b).ne', sub_eq_zero]

@[simp] theorem value_zero : zero.value = 0 := by
  rw [value_eq]
  norm_num [zero, units]

@[simp] theorem value_one : one.value = 1 := by
  rw [value_eq]
  norm_num [one, units]

theorem isZero_iff : a.isZero = true ↔ a.value = 0 := by
  rw [isZero, beq_iff_eq, value_eq, ← units_eq_zero_iff]
  simp

theorem units_neg (a : Decimal) : a.neg.units = -a.units := by
  unfold neg units
  cases a.negative <;> simp

@[simp] theorem value_neg (a : Decimal) : a.neg.value = -a.value := by
  rw [value_eq, value_eq, units_neg]
  push_cast
  exact neg_div _ _

/-- Without a sign an amount is not below zero. -/
theorem value_nonneg_of_not_negative (h : a.negative = false) : 0 ≤ a.value := by
  rw [value_eq, units, h]
  simp only [Bool.false_eq_true, if_false]
  positivity

theorem value_nonpos_of_negative (h : a.negative = true) : a.value ≤ 0 := by
  have hneg := value_nonneg_of_not_negative (a := a.neg) (by simp [neg, h])
  rw [value_neg] at hneg
  linarith

theorem isNegative_iff : a.isNegative = true ↔ a.value < 0 := by
  rw [isNegative, Bool.and_eq_true, Bool.not_eq_true', ← Bool.not_eq_true, isZero_iff]
  constructor
  · rintro ⟨hn, h0⟩
    exact lt_of_le_of_ne (value_nonpos_of_negative hn) h0
  · intro h
    refine ⟨?_, h.ne⟩
    by_contra hn
    have := value_nonneg_of_not_negative (a := a) (by simpa using hn)
    linarith

theorem isNegative_neg (a : Decimal) : a.neg.isNegative = a.isPositive := rfl

theorem isPositive_neg (a : Decimal) : a.neg.isPositive = a.isNegative := by
  simp [isPositive, isNegative, neg, isZero]

theorem isPositive_iff : a.isPositive = true ↔ 0 < a.value := by
  rw [← isNegative_neg, isNegative_iff, value_neg, neg_lt_zero]

theorem value_magnitude (a : Decimal) : a.magnitude.value = |a.value| := by
  cases hn : a.negative with
  | false =>
    have hm : a.magnitude = a := by
      cases a
      simp only at hn
      subst hn
      rfl
    rw [hm, abs_of_nonneg (value_nonneg_of_not_negative hn)]
  | true =>
    have hm : a.magnitude = a.neg := by
      cases a
      simp only at hn
      subst hn
      rfl
    rw [hm, value_neg, abs_of_nonpos (value_nonpos_of_negative hn)]

/-! ## Rounding -/

/-- Rounding does not go below an integer the quotient has reached. -/
theorem le_roundHalfEven {n d k : ℕ} (hd : 0 < d) (h : k * d ≤ n) : k ≤ roundHalfEven n d := by
  have hq : k ≤ n / d := (Nat.le_div_iff_mul_le hd).2 h
  unfold roundHalfEven
  simp only
  split
  · exact hq
  · split <;> omega

/-- Nor above one it has not passed. -/
theorem roundHalfEven_le {n d k : ℕ} (hd : 0 < d) (h : n ≤ k * d) : roundHalfEven n d ≤ k := by
  rcases h.lt_or_eq with h | rfl
  · have hq : n / d < k := (Nat.div_lt_iff_lt_mul hd).2 h
    unfold roundHalfEven
    simp only
    split
    · omega
    · split <;> omega
  · have hq : k * d / d = k := Nat.mul_div_cancel k hd
    have hr : k * d % d = 0 := Nat.mul_mod_left k d
    unfold roundHalfEven
    simp [hq, hr, hd]

/-- A whole quotient is not rounded. -/
theorem roundHalfEven_mul {d : ℕ} (k : ℕ) (hd : 0 < d) : roundHalfEven (k * d) d = k :=
  le_antisymm (roundHalfEven_le hd le_rfl) (le_roundHalfEven hd le_rfl)

@[simp] theorem roundHalfEven_one (n : ℕ) : roundHalfEven n 1 = n := by
  simpa using roundHalfEven_mul n (d := 1) Nat.one_pos

/-- What `fitUpto` answers with: the sign it was given, and the units
rounded at some scale, which is the given one unless the next finer one did
not fit. -/
theorem fitUpto_eq_some {negative : Bool} {n scale dropped : ℕ} {h : scale ≤ 28}
    (hc : fitUpto negative n scale dropped h = some c) :
    c.negative = negative ∧ ∃ d, c.scale + d = scale + dropped ∧
      c.mantissa = roundHalfEven n (10 ^ d) ∧
      (d = dropped ∨ (c.scale < 28 ∧ dropped < d ∧ 2 ^ 96 ≤ roundHalfEven n (10 ^ (d - 1)))) := by
  induction scale generalizing dropped with
  | zero =>
    rw [fitUpto] at hc
    split at hc
    · cases hc
      exact ⟨rfl, dropped, rfl, rfl, .inl rfl⟩
    · cases hc
  | succ s ih =>
    rw [fitUpto] at hc
    split at hc
    · cases hc
      exact ⟨rfl, dropped, rfl, rfl, .inl rfl⟩
    -- the units did not fit at this scale, which the next coarser one has to remember
    · next hbig =>
      obtain ⟨hn, d, hd, hm, hcase⟩ := ih hc
      refine ⟨hn, d, by omega, hm, .inr ?_⟩
      rcases hcase with rfl | ⟨hs, hlt, hbig'⟩
      · exact ⟨by omega, by omega, by simpa using hbig⟩
      · exact ⟨hs, by omega, hbig'⟩

/-- Rounded units stand for a number above seven: a mantissa that does not
fit is that large at any scale, and rounding does not lose it. -/
theorem seven_le_of_rounded {n d s : ℕ} (hs : s < 28)
    (hbig : 2 ^ 96 ≤ roundHalfEven n (10 ^ d)) :
    7 * 10 ^ (s + 1 + d) ≤ n ∧ 7 * 10 ^ s ≤ roundHalfEven n (10 ^ (d + 1)) := by
  have hn : 7 * 10 ^ 28 * 10 ^ d ≤ n := by
    by_contra hlt
    have hle := roundHalfEven_le (n := n) (d := 10 ^ d) (k := 7 * 10 ^ 28) (by positivity) (by omega)
    have : 7 * 10 ^ 28 < 2 ^ 96 := by norm_num
    omega
  have hpow : 10 ^ (s + 1) ≤ 10 ^ 28 := Nat.pow_le_pow_right (by norm_num) hs
  have hfirst : 7 * 10 ^ (s + 1 + d) ≤ n := by
    calc 7 * 10 ^ (s + 1 + d) = 7 * 10 ^ (s + 1) * 10 ^ d := by rw [pow_add]; ring
      _ ≤ 7 * 10 ^ 28 * 10 ^ d := by gcongr
      _ ≤ n := hn
  refine ⟨hfirst, le_roundHalfEven (by positivity) ?_⟩
  calc 7 * 10 ^ s * 10 ^ (d + 1) = 7 * 10 ^ (s + 1 + d) := by rw [pow_add, pow_add, pow_add]; ring
    _ ≤ n := hfirst

/-! ## Sums -/

/-- The numbers `x` and `y` are equal, or both are far from zero on the same
side. -/
def SameOrLarge (x y : ℚ) : Prop := x = y ∨ (7 ≤ x ∧ 7 ≤ y) ∨ (x ≤ -7 ∧ y ≤ -7)

/-- Units read at a scale, with the sign they were given. -/
theorem value_of_parts (a : Decimal) :
    a.value = (if a.negative then -1 else 1) * ((a.mantissa : ℚ) / (10 : ℚ) ^ a.scale) := by
  rw [value_eq, units]
  cases a.negative <;> simp [neg_div]

/-- Units are their sign times their size. -/
theorem cast_eq_sign_mul (n : ℤ) : (n : ℚ) = (if n < 0 then -1 else 1) * (n.natAbs : ℚ) := by
  rw [Nat.cast_natAbs]
  split
  · next hn => rw [abs_of_neg hn]; push_cast; ring
  · next hn => rw [abs_of_nonneg (not_lt.1 hn)]; ring

theorem ofUnits?_sameOrLarge {n : ℤ} {scale : ℕ} {h : scale ≤ 28}
    (hc : ofUnits? n scale h = some c) : SameOrLarge c.value ((n : ℚ) / (10 : ℚ) ^ scale) := by
  obtain ⟨hsign, d, hd, hm, hcase⟩ := fitUpto_eq_some hc
  rw [value_of_parts, hsign, cast_eq_sign_mul n, mul_div_assoc]
  simp only [decide_eq_true_eq]
  rcases hcase with rfl | ⟨hs, hpos, hbig⟩
  · -- the units fit as they are
    rw [pow_zero, roundHalfEven_one] at hm
    rw [hm, show c.scale = scale from hd]
    exact .inl rfl
  · obtain ⟨e, rfl⟩ : ∃ e, d = e + 1 := ⟨d - 1, by omega⟩
    rw [Nat.add_sub_cancel] at hbig
    obtain ⟨h1, h2⟩ := seven_le_of_rounded hs hbig
    rw [show c.scale + 1 + e = scale by omega] at h1
    rw [← hm] at h2
    have hc7 : (7 : ℚ) ≤ (c.mantissa : ℚ) / 10 ^ c.scale := by
      rw [le_div_iff₀ (by positivity)]
      exact_mod_cast h2
    have hn7 : (7 : ℚ) ≤ (n.natAbs : ℚ) / 10 ^ scale := by
      rw [le_div_iff₀ (by positivity)]
      exact_mod_cast h1
    refine .inr ?_
    split
    · exact .inr ⟨by linarith, by linarith⟩
    · exact .inl ⟨by linarith, by linarith⟩

/-- The exact sum of two amounts, in units of the larger scale. -/
theorem value_add_eq (a b : Decimal) :
    a.value + b.value =
      ((a.units * 10 ^ (max a.scale b.scale - a.scale)
        + b.units * 10 ^ (max a.scale b.scale - b.scale) : ℤ) : ℚ)
        / (10 : ℚ) ^ max a.scale b.scale := by
  have ha : (10 : ℚ) ^ max a.scale b.scale
      = 10 ^ a.scale * 10 ^ (max a.scale b.scale - a.scale) := by
    rw [← pow_add, Nat.add_sub_cancel' (le_max_left _ _)]
  have hb : (10 : ℚ) ^ max a.scale b.scale
      = 10 ^ b.scale * 10 ^ (max a.scale b.scale - b.scale) := by
    rw [← pow_add, Nat.add_sub_cancel' (le_max_right _ _)]
  rw [value_eq, value_eq]
  push_cast
  rw [add_div]
  congr 1
  · rw [ha]; field_simp
  · rw [hb]; field_simp

/-- **A sum is exact unless it is large.** -/
theorem value_sum?_or_large (h : a.sum? b = some c) : SameOrLarge c.value (a.value + b.value) := by
  unfold sum? at h
  split at h
  · next ha =>
    cases h
    rw [isZero_iff.1 ha, zero_add]
    exact .inl rfl
  · split at h
    · next hb =>
      cases h
      rw [isZero_iff.1 hb, add_zero]
      exact .inl rfl
    · rw [value_add_eq]
      exact ofUnits?_sameOrLarge h

theorem value_add_or_large (h : a.add b = .ok c) : SameOrLarge c.value (a.value + b.value) := by
  unfold add at h
  split at h
  · next hs =>
    cases h
    exact value_sum?_or_large hs
  · cases h

theorem value_sub_or_large (h : a.sub b = .ok c) : SameOrLarge c.value (a.value - b.value) := by
  unfold sub at h
  split at h
  · next hz =>
    cases h
    rw [Bool.and_eq_true, isZero_iff, isZero_iff] at hz
    exact .inl (by rw [hz.1, hz.2, sub_zero])
  · split at h
    · next hs =>
      cases h
      have := value_sum?_or_large hs
      rwa [value_neg, ← sub_eq_add_neg] at this
    · cases h

/-- A sum of amounts that are not negative, added up from the left, is exact
unless it is large. -/
theorem value_foldlM_add {as : List Decimal} (hpos : ∀ x ∈ as, 0 ≤ x.value)
    (hzero : 0 ≤ a.value) {x : ℚ} (hx : a.value = x ∨ 7 ≤ a.value ∧ 7 ≤ x)
    (h : as.foldlM add a = .ok c) :
    c.value = x + (as.map value).sum ∨ 7 ≤ c.value ∧ 7 ≤ x + (as.map value).sum := by
  -- the exact sum so far is carried along: once both are large they stay so
  induction as generalizing a x with
  | nil =>
    cases h
    simpa using hx
  | cons b bs ih =>
    have hb : 0 ≤ b.value := hpos b (List.mem_cons_self ..)
    rw [List.foldlM_cons] at h
    cases hab : a.add b with
    | error o => rw [hab] at h; cases h
    | ok d =>
      rw [hab] at h
      have hd := value_add_or_large hab
      rw [List.map_cons, List.sum_cons, ← add_assoc]
      refine ih (fun y hy => hpos y (List.mem_cons_of_mem _ hy)) ?_ ?_ h
      · rcases hd with hd | ⟨hd, -⟩ | ⟨-, hd⟩ <;> linarith
      · rcases hx with hx | ⟨hx, hx'⟩
        · rcases hd with hd | hd | hd
          · exact .inl (by rw [hd, hx])
          · exact .inr ⟨hd.1, by linarith [hd.2]⟩
          · linarith [hd.2]
        · rcases hd with hd | hd | hd
          · exact .inr ⟨by linarith, by linarith⟩
          · exact .inr ⟨hd.1, by linarith⟩
          · linarith [hd.2]

/-- **Rounding cannot fake a small total.** The total of amounts that are not
negative is their exact sum, or both are large. -/
theorem value_total_or_large {as : List Decimal} (hpos : ∀ x ∈ as, 0 ≤ x.value)
    (h : total as = .ok c) :
    c.value = (as.map value).sum ∨ 7 ≤ c.value ∧ 7 ≤ (as.map value).sum := by
  have := value_foldlM_add (a := zero) hpos (by simp) (x := 0) (.inl value_zero) h
  simpa using this

end Decimal

namespace Money

/-- A fraction of a whole lies between zero and one. -/
theorem isRatio_iff {a : Decimal} : isRatio a = true ↔ 0 ≤ a.value ∧ a.value ≤ 1 := by
  rw [isRatio, Bool.and_eq_true, Decimal.atMost_iff, Decimal.atMost_iff, Decimal.value_zero,
    Decimal.value_one]

theorem value_oneCent : oneCent.value = 1 / 100 := by
  rw [Decimal.value_eq]
  norm_num [oneCent, Decimal.one, Decimal.units]

/-- **The tolerance of one cent is exact**, however large the amounts. -/
theorem atMost_oneCent_iff {a b d : Decimal} (h : a.sub b = .ok d) :
    d.magnitude.atMost oneCent = true ↔ |a.value - b.value| ≤ 1 / 100 := by
  rw [Decimal.atMost_iff, Decimal.value_magnitude, value_oneCent]
  -- a difference that was rounded is far more than a cent
  rcases Decimal.value_sub_or_large h with hd | hd | hd
  · rw [hd]
  · rw [abs_le, abs_le]
    constructor <;> intro hle <;> linarith [hd.1, hd.2, hle.2]
  · rw [abs_le, abs_le]
    constructor <;> intro hle <;> linarith [hd.1, hd.2, hle.1]

theorem value_nonneg_of_requireNonNegative {field : String} {a : Decimal}
    (h : requireNonNegative field a = .ok ()) : 0 ≤ a.value := by
  unfold requireNonNegative at h
  split at h
  · cases h
  · next hn =>
    rw [Decimal.isNegative_iff] at hn
    exact not_lt.1 hn

end Money

end SharedLedger
