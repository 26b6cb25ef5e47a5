import SharedLedger.Proofs.Exact

/-!
# What rounding costs

A sum that does not fit is rounded, and a sum that is out of range is none. How
far this goes is said of all sums at once. A sum whose exact value does not pass
a whole number that fits exists and does not pass it either (`exists_sum?`), so
only amounts that are large together go out of range. And rounding changes a sum
by one part in `10 ^ 28` at most (`abs_value_sum?_sub_le`); over a list of
amounts this adds up like interest on their sizes (`abs_value_total_sub_le_sizes`).
-/

namespace SharedLedger

namespace Decimal

variable {a b c : Decimal} {as : List Decimal} {k : ℕ}

/-! ## Whole numbers that are not passed -/

/-- Units that do not pass a whole number are written down, and do not pass it
as they are written. -/
theorem exists_fitUpto {negative : Bool} {n scale dropped : ℕ} (h : scale ≤ 28) (hk : k < 2 ^ 96)
    (hn : n ≤ k * 10 ^ (scale + dropped)) :
    ∃ c, fitUpto negative n scale dropped h = some c ∧ c.mantissa ≤ k * 10 ^ c.scale := by
  induction scale generalizing dropped with
  | zero =>
    -- no digits are left, and the whole number itself fits
    have hround : roundHalfEven n (10 ^ dropped) ≤ k :=
      roundHalfEven_le (by positivity) (by simpa using hn)
    refine ⟨⟨negative, _, 0, lt_of_le_of_lt hround hk, h⟩, ?_, by simpa using hround⟩
    rw [fitUpto]
    exact dif_pos (lt_of_le_of_lt hround hk)
  | succ s ih =>
    by_cases hfits : roundHalfEven n (10 ^ dropped) < 2 ^ 96
    · refine ⟨⟨negative, _, s + 1, hfits, h⟩, ?_, ?_⟩
      · rw [fitUpto]
        exact dif_pos hfits
      · refine roundHalfEven_le (by positivity) ?_
        rwa [pow_add, ← mul_assoc] at hn
    · rw [show s + 1 + dropped = s + (dropped + 1) by omega] at hn
      obtain ⟨c, hc, hle⟩ := ih (Nat.le_of_succ_le h) hn
      refine ⟨c, ?_, hle⟩
      rw [fitUpto]
      exact (dif_neg hfits).trans hc

/-- The size of an amount, read off its parts. -/
theorem abs_value (a : Decimal) : |a.value| = (a.mantissa : ℚ) / 10 ^ a.scale := by
  have hsize : (0 : ℚ) ≤ (a.mantissa : ℚ) / 10 ^ a.scale := by positivity
  rw [value_of_parts]
  split
  · rw [neg_one_mul, abs_neg, abs_of_nonneg hsize]
  · rw [one_mul, abs_of_nonneg hsize]

/-- **A sum that does not pass a whole number exists**, and as it is written it
does not pass that number either. -/
theorem exists_sum? (hk : k < 2 ^ 96) (h : |a.value + b.value| ≤ k) :
    ∃ c, a.sum? b = some c ∧ |c.value| ≤ k := by
  unfold sum?
  split
  · next hz => exact ⟨b, rfl, by rwa [isZero_iff.1 hz, zero_add] at h⟩
  · split
    · next hz => exact ⟨a, rfl, by rwa [isZero_iff.1 hz, add_zero] at h⟩
    · rw [value_add_eq, abs_div, abs_of_pos (by positivity : (0 : ℚ) < 10 ^ max a.scale b.scale),
        div_le_iff₀ (by positivity), ← Int.cast_abs] at h
      have hn : (a.units * 10 ^ (max a.scale b.scale - a.scale)
          + b.units * 10 ^ (max a.scale b.scale - b.scale)).natAbs
          ≤ k * 10 ^ (max a.scale b.scale + 0) := by
        rw [add_zero]
        zify
        exact_mod_cast h
      obtain ⟨c, hc, hle⟩ := exists_fitUpto (Nat.max_le.2 ⟨a.scale_le, b.scale_le⟩) hk hn
      refine ⟨c, hc, ?_⟩
      rw [abs_value, div_le_iff₀ (by positivity)]
      exact_mod_cast hle

/-- An amount does not pass the largest one. -/
theorem abs_value_le (a : Decimal) : |a.value| ≤ (2 ^ 96 - 1 : ℕ) := by
  have hm : a.mantissa ≤ 2 ^ 96 - 1 := Nat.le_sub_one_of_lt a.mantissa_lt
  rw [abs_value, div_le_iff₀ (by positivity)]
  calc (a.mantissa : ℚ) ≤ ((2 ^ 96 - 1 : ℕ) : ℚ) := by exact_mod_cast hm
    _ ≤ ((2 ^ 96 - 1 : ℕ) : ℚ) * 10 ^ a.scale :=
      le_mul_of_one_le_right (by positivity) (one_le_pow₀ (by norm_num))

theorem value_nonneg_of_add (ha : 0 ≤ a.value) (hb : 0 ≤ b.value) (h : a.add b = .ok c) :
    0 ≤ c.value := by
  rcases value_add_or_large h with hv | hv | hv
  · exact hv ▸ add_nonneg ha hb
  · linarith [hv.1]
  · linarith [hv.2]

theorem value_nonneg_of_total (hpos : ∀ x ∈ as, 0 ≤ x.value) (h : total as = .ok c) :
    0 ≤ c.value := by
  rcases value_total_or_large hpos h with hv | ⟨hv, -⟩
  · rw [hv]
    refine List.sum_nonneg fun x hx => ?_
    obtain ⟨y, hy, rfl⟩ := List.mem_map.1 hx
    exact hpos y hy
  · linarith

/-- Amounts that are not negative have a difference: it does not pass the larger
of the two. -/
theorem exists_sub (ha : 0 ≤ a.value) (hb : 0 ≤ b.value) : ∃ c, a.sub b = .ok c := by
  unfold sub
  split
  · exact ⟨b, rfl⟩
  · have hsize : |a.value + b.neg.value| ≤ (2 ^ 96 - 1 : ℕ) := by
      have ha' := (abs_le.1 (abs_value_le a)).2
      have hb' := (abs_le.1 (abs_value_le b)).2
      rw [value_neg, abs_le]
      constructor <;> linarith
    obtain ⟨c, hc, -⟩ := exists_sum? (by norm_num) hsize
    exact ⟨c, by rw [hc]⟩

/-- **Only a list that is large together is out of range**: amounts from zero up
to given whole numbers have a total if these numbers add up to one that fits. -/
theorem exists_total (ceiling : Decimal → ℕ) (hpos : ∀ x ∈ as, 0 ≤ x.value)
    (hle : ∀ x ∈ as, x.value ≤ ceiling x) (hfits : (as.map ceiling).sum < 2 ^ 96) :
    ∃ c, total as = .ok c := by
  have run : ∀ (bs : List Decimal) (a : Decimal) (j : ℕ), (∀ x ∈ bs, x ∈ as) → 0 ≤ a.value →
      a.value ≤ j → j + (bs.map ceiling).sum < 2 ^ 96 → ∃ c, bs.foldlM add a = .ok c := by
    intro bs
    induction bs with
    | nil => exact fun a _ _ _ _ _ => ⟨a, rfl⟩
    | cons b bs ih =>
      intro a j hbs ha haj hj
      have hb := hpos b (hbs b List.mem_cons_self)
      have hbk := hle b (hbs b List.mem_cons_self)
      rw [List.map_cons, List.sum_cons] at hj
      have hsum : |a.value + b.value| ≤ (j + ceiling b : ℕ) := by
        rw [abs_of_nonneg (add_nonneg ha hb)]
        push_cast
        exact add_le_add haj hbk
      obtain ⟨c, hc, hcle⟩ := exists_sum? (by omega) hsum
      have hadd : a.add b = .ok c := by rw [add, hc]
      rw [List.foldlM_cons, hadd]
      exact ih c (j + ceiling b) (fun x hx => hbs x (List.mem_cons_of_mem b hx))
        (value_nonneg_of_add ha hb hadd) (le_of_abs_le hcle) (by omega)
  exact run as zero 0 (fun _ hx => hx) (by simp) (by simp) (by simpa using hfits)

/-! ## One part in `10 ^ 28` -/

/-- Rounding moves a quotient by a half at most. -/
theorem abs_roundHalfEven_sub_le {n d : ℕ} (hd : 0 < d) :
    |(roundHalfEven n d : ℚ) * d - n| ≤ d / 2 := by
  have hdiv : (n : ℚ) = d * (n / d : ℕ) + (n % d : ℕ) := by
    exact_mod_cast (Nat.div_add_mod n d).symm
  have hmod : ((n % d : ℕ) : ℚ) < d := by exact_mod_cast Nat.mod_lt n hd
  have hmod0 : (0 : ℚ) ≤ (n % d : ℕ) := Nat.cast_nonneg _
  have down : 2 * (n % d) ≤ d → |((n / d : ℕ) : ℚ) * d - n| ≤ d / 2 := by
    intro hle
    have hle' : 2 * ((n % d : ℕ) : ℚ) ≤ d := by exact_mod_cast hle
    rw [hdiv, abs_le]
    constructor <;> linarith
  have up : d ≤ 2 * (n % d) → |((n / d + 1 : ℕ) : ℚ) * d - n| ≤ d / 2 := by
    intro hle
    have hle' : (d : ℚ) ≤ 2 * (n % d : ℕ) := by exact_mod_cast hle
    push_cast
    rw [hdiv, abs_le]
    constructor <;> linarith
  unfold roundHalfEven
  simp only
  split
  · next h => exact down h.le
  · split
    · next h => exact up h.le
    · -- a half goes to the even neighbour
      rcases Nat.mod_two_eq_zero_or_one (n / d) with he | ho
      · rw [he, add_zero]
        exact down (by omega)
      · rw [ho]
        exact up (by omega)

/-- Units are rounded only where there are many. -/
theorem many_of_rounded {n d : ℕ} (h : 2 ^ 96 ≤ roundHalfEven n (10 ^ d)) :
    5 * 10 ^ 28 * 10 ^ d ≤ n := by
  by_contra hlt
  have hle := roundHalfEven_le (n := n) (d := 10 ^ d) (k := 5 * 10 ^ 28) (by positivity) (by omega)
  have : 5 * 10 ^ 28 < 2 ^ 96 := by norm_num
  omega

theorem abs_value_ofUnits?_sub_le {n : ℤ} {scale : ℕ} {h : scale ≤ 28}
    (hc : ofUnits? n scale h = some c) :
    |c.value - (n : ℚ) / 10 ^ scale| ≤ |(n : ℚ) / 10 ^ scale| / 10 ^ 28 := by
  obtain ⟨hsign, d, hd, hm, hcase⟩ := fitUpto_eq_some hc
  rw [add_zero] at hd
  have hscale : (10 : ℚ) ^ scale = 10 ^ c.scale * 10 ^ d := by rw [← pow_add, hd]
  have hmant : (c.mantissa : ℚ) / 10 ^ c.scale - n.natAbs / 10 ^ scale
      = (c.mantissa * 10 ^ d - n.natAbs) / 10 ^ scale := by
    rw [hscale]
    field_simp
  have hone : |(if n < 0 then -1 else 1 : ℚ)| = 1 := by split <;> simp
  -- both numbers have one sign, so they differ as their sizes do
  rw [value_of_parts, hsign, cast_eq_sign_mul n, mul_div_assoc]
  simp only [decide_eq_true_eq]
  rw [← mul_sub, abs_mul, abs_mul, hone, one_mul, one_mul, hmant, abs_div, abs_div,
    abs_of_pos (by positivity : (0 : ℚ) < 10 ^ scale), Nat.abs_cast, div_right_comm]
  refine div_le_div_of_nonneg_right ?_ (by positivity)
  rcases hcase with rfl | ⟨-, hpos, hbig⟩
  · -- the units fit as they are
    rw [pow_zero, roundHalfEven_one] at hm
    rw [hm, pow_zero, mul_one, sub_self, abs_zero]
    positivity
  · obtain ⟨e, rfl⟩ : ∃ e, d = e + 1 := ⟨d - 1, by omega⟩
    have hmany : (5 * 10 ^ 28 * 10 ^ e : ℚ) ≤ n.natAbs := by
      exact_mod_cast many_of_rounded hbig
    have hround := abs_roundHalfEven_sub_le (n := n.natAbs) (d := 10 ^ (e + 1)) (by positivity)
    rw [← hm] at hround
    push_cast at hround
    calc |(c.mantissa : ℚ) * 10 ^ (e + 1) - n.natAbs|
        ≤ 10 ^ (e + 1) / 2 := hround
      _ = 5 * 10 ^ e := by rw [pow_succ]; ring
      _ ≤ n.natAbs / 10 ^ 28 := by rw [le_div_iff₀ (by positivity)]; linarith

/-- **Rounding changes a sum by one part in `10 ^ 28` at most.** -/
theorem abs_value_sum?_sub_le (h : a.sum? b = some c) :
    |c.value - (a.value + b.value)| ≤ |a.value + b.value| / 10 ^ 28 := by
  unfold sum? at h
  split at h
  · next hz =>
    cases h
    rw [isZero_iff.1 hz, zero_add, sub_self, abs_zero]
    positivity
  · split at h
    · next hz =>
      cases h
      rw [isZero_iff.1 hz, add_zero, sub_self, abs_zero]
      positivity
    · rw [value_add_eq]
      exact abs_value_ofUnits?_sub_le h

theorem abs_value_add_sub_le (h : a.add b = .ok c) :
    |c.value - (a.value + b.value)| ≤ |a.value + b.value| / 10 ^ 28 := by
  unfold add at h
  split at h
  · next hs =>
    cases h
    exact abs_value_sum?_sub_le hs
  · cases h

theorem abs_value_sub_sub_le (h : a.sub b = .ok c) :
    |c.value - (a.value - b.value)| ≤ |a.value - b.value| / 10 ^ 28 := by
  unfold sub at h
  split at h
  · next hz =>
    cases h
    rw [Bool.and_eq_true, isZero_iff, isZero_iff] at hz
    rw [hz.1, hz.2, sub_self, sub_self, abs_zero, zero_div]
  · split at h
    · next hs =>
      cases h
      have hlost := abs_value_sum?_sub_le hs
      rwa [value_neg, ← sub_eq_add_neg] at hlost
    · cases h

/-- What rounding may have cost after so many sums, as a part of the whole. -/
def loss (n : ℕ) : ℚ := (1 + 1 / 10 ^ 28) ^ n - 1

@[simp] theorem loss_zero : loss 0 = 0 := by norm_num [loss]

theorem loss_succ (n : ℕ) : loss (n + 1) = loss n + (1 + loss n) / 10 ^ 28 := by
  unfold loss
  rw [pow_succ]
  ring

theorem loss_nonneg (n : ℕ) : 0 ≤ loss n := by
  induction n with
  | zero => rw [loss_zero]
  | succ n ih =>
    rw [loss_succ]
    positivity

/-- Interest on interest. -/
theorem one_add_loss_add (m n : ℕ) : 1 + loss (m + n) = (1 + loss m) * (1 + loss n) := by
  unfold loss
  rw [pow_add]
  ring

theorem loss_two_mul (n : ℕ) : loss (2 * n) = 2 * loss n + loss n * loss n := by
  have hadd := one_add_loss_add n n
  rw [← two_mul] at hadd
  linarith

theorem loss_le_of_le {m n : ℕ} (h : m ≤ n) : loss m ≤ loss n := by
  obtain ⟨k, rfl⟩ := Nat.exists_eq_add_of_le h
  have hm := loss_nonneg m
  have hk := loss_nonneg k
  have hadd := one_add_loss_add m k
  have hmul : 0 ≤ loss m * loss k := mul_nonneg hm hk
  linarith

/-- What was lost before is lost, and one more sum is rounded. -/
theorem loss_succ_mul_le {s y : ℚ} (n : ℕ) (hy : 0 ≤ y) :
    loss n * s + ((1 + loss n) * s + y) / 10 ^ 28 ≤ loss (n + 1) * (s + y) := by
  have hlost : 0 ≤ loss n * y := mul_nonneg (loss_nonneg n) hy
  rw [loss_succ]
  linarith

/-- A sum is not larger than what it is made of and what was lost before. -/
theorem abs_add_le_of_loss {x s : ℚ} {n : ℕ} (hx : |x| ≤ s) (hax : |a.value - x| ≤ loss n * s) :
    |a.value + b.value| ≤ (1 + loss n) * s + |b.value| := by
  calc |a.value + b.value| = |(a.value - x) + x + b.value| := by rw [sub_add_cancel]
    _ ≤ |a.value - x| + |x| + |b.value| := abs_add_three _ _ _
    _ ≤ (1 + loss n) * s + |b.value| := by linarith

/-- One more amount. -/
theorem abs_value_sub_le_loss_succ {x s : ℚ} {n : ℕ} (hx : |x| ≤ s)
    (hax : |a.value - x| ≤ loss n * s) (h : a.add b = .ok c) :
    |c.value - (x + b.value)| ≤ loss (n + 1) * (s + |b.value|) := by
  have hsum := abs_add_le_of_loss (b := b) hx hax
  calc |c.value - (x + b.value)|
      = |(c.value - (a.value + b.value)) + (a.value - x)| := by congr 1; ring
    _ ≤ |c.value - (a.value + b.value)| + |a.value - x| := abs_add_le _ _
    _ ≤ |a.value + b.value| / 10 ^ 28 + loss n * s := add_le_add (abs_value_add_sub_le h) hax
    _ ≤ loss n * s + ((1 + loss n) * s + |b.value|) / 10 ^ 28 := by linarith
    _ ≤ loss (n + 1) * (s + |b.value|) := loss_succ_mul_le n (abs_nonneg _)

/-- **The cost of rounding adds up like interest** on the sizes of the amounts. -/
theorem abs_value_total_sub_le_sizes (h : total as = .ok c) :
    |c.value - (as.map value).sum| ≤ loss as.length * sizes as := by
  -- the sum so far may have lost as much as there were amounts
  refine foldlM_inv (fun done (b : Decimal) =>
    |b.value - (done.map value).sum| ≤ loss done.length * sizes done) (by simp) ?_ h
  intro done b a c ha hc
  have hstep := abs_value_sub_le_loss_succ (abs_sum_le_sizes done) ha hc
  simpa [sizes] using hstep

/-- Amounts that are not negative cost a part of their sum. -/
theorem abs_value_total_sub_le (hpos : ∀ x ∈ as, 0 ≤ x.value) (h : total as = .ok c) :
    |c.value - (as.map value).sum| ≤ loss as.length * (as.map value).sum := by
  have hlost := abs_value_total_sub_le_sizes h
  rwa [sizes_eq_of_nonneg hpos] at hlost

end Decimal

end SharedLedger
