import SharedLedger.Proofs.Decimal
import Mathlib.Algebra.Order.BigOperators.Group.List

/-!
# Exact sums

Amounts that are whole numbers of the same small unit add up exactly as long
as the sum fits into a mantissa at that unit, whatever the scales they are
written at (`add_exact`, `sub_exact`): a digit is given up only where it is a
zero.
-/

namespace SharedLedger

/-- A whole number of units at `k` digits behind the point. -/
def OnGrid (k : ℕ) (x : ℚ) : Prop := ∃ z : ℤ, x * 10 ^ k = z

/-- Small enough for a mantissa at `k` digits behind the point. -/
def InRange (k : ℕ) (x : ℚ) : Prop := |x| * 10 ^ k < 2 ^ 96

namespace OnGrid

variable {k : ℕ} {x y : ℚ}

theorem zero (k : ℕ) : OnGrid k 0 := ⟨0, by simp⟩

theorem add (hx : OnGrid k x) (hy : OnGrid k y) : OnGrid k (x + y) := by
  obtain ⟨m, hm⟩ := hx
  obtain ⟨n, hn⟩ := hy
  exact ⟨m + n, by push_cast; rw [add_mul, hm, hn]⟩

theorem neg (hx : OnGrid k x) : OnGrid k (-x) := by
  obtain ⟨m, hm⟩ := hx
  exact ⟨-m, by push_cast; rw [neg_mul, hm]⟩

theorem sub (hx : OnGrid k x) (hy : OnGrid k y) : OnGrid k (x - y) :=
  sub_eq_add_neg x y ▸ hx.add hy.neg

theorem intCast_mul (z : ℤ) (hx : OnGrid k x) : OnGrid k (z * x) := by
  obtain ⟨m, hm⟩ := hx
  exact ⟨z * m, by push_cast; rw [mul_assoc, hm]⟩

theorem sum {l : List ℚ} (h : ∀ x ∈ l, OnGrid k x) : OnGrid k l.sum := by
  induction l with
  | nil => exact zero k
  | cons x l ih =>
    rw [List.sum_cons]
    exact (h x List.mem_cons_self).add (ih fun y hy => h y (List.mem_cons_of_mem x hy))

end OnGrid

theorem InRange.mono {k : ℕ} {x y : ℚ} (h : InRange k y) (hle : |x| ≤ |y|) : InRange k x :=
  lt_of_le_of_lt (mul_le_mul_of_nonneg_right hle (by positivity)) h

/-! ## Loops -/

/-- A loop succeeds and keeps an invariant if every pass does; the invariant
speaks of the items done so far. -/
theorem foldlM_ok {ε σ β : Type} {step : σ → β → Except ε σ} {all : List β} {s : σ}
    (inv : List β → σ → Prop) (hs : inv [] s)
    (hstep : ∀ done b rest s, all = done ++ b :: rest → inv done s →
      ∃ s', step s b = .ok s' ∧ inv (done ++ [b]) s') :
    ∃ s', all.foldlM step s = .ok s' ∧ inv all s' := by
  have run : ∀ rest done s, all = done ++ rest → inv done s →
      ∃ s', rest.foldlM step s = .ok s' ∧ inv all s' := by
    intro rest
    induction rest with
    | nil =>
      intro done s hall hs
      rw [List.append_nil] at hall
      exact ⟨s, rfl, hall ▸ hs⟩
    | cons b rest ih =>
      intro done s hall hs
      obtain ⟨s', hs', hinv⟩ := hstep done b rest s hall hs
      rw [List.foldlM_cons, hs']
      exact ih (done ++ [b]) s' (by rw [hall, List.append_assoc]; rfl) hinv
  exact run all [] s rfl hs

/-- An invariant that every pass keeps holds after a loop that has succeeded. -/
theorem foldlM_inv {ε σ β : Type} {step : σ → β → Except ε σ} {all : List β} {s s' : σ}
    (inv : List β → σ → Prop) (hs : inv [] s)
    (hstep : ∀ done b s s', inv done s → step s b = .ok s' → inv (done ++ [b]) s')
    (h : all.foldlM step s = .ok s') : inv all s' := by
  have run : ∀ rest done s, inv done s → rest.foldlM step s = .ok s' → inv (done ++ rest) s' := by
    intro rest
    induction rest with
    | nil =>
      intro done s hs h
      cases h
      rwa [List.append_nil]
    | cons b rest ih =>
      intro done s hs h
      rw [List.foldlM_cons] at h
      cases hb : step s b with
      | error e =>
        rw [hb] at h
        cases h
      | ok s₁ =>
        rw [hb] at h
        have hall := ih (done ++ [b]) s₁ (hstep done b s s₁ hs hb) h
        rwa [List.append_assoc] at hall
  exact run all [] s hs h

/-! ## Sizes -/

/-- The amounts without their signs, added up. -/
def sizes (ds : List Decimal) : ℚ := (ds.map fun d => |d.value|).sum

section Sizes

variable {ds ds' : List Decimal}

@[simp] theorem sizes_nil : sizes [] = 0 := rfl

@[simp] theorem sizes_cons (d : Decimal) (ds : List Decimal) :
    sizes (d :: ds) = |d.value| + sizes ds := by
  simp [sizes]

theorem sizes_nonneg (ds : List Decimal) : 0 ≤ sizes ds :=
  List.sum_nonneg fun x hx => by
    obtain ⟨d, -, rfl⟩ := List.mem_map.1 hx
    exact abs_nonneg _

theorem sizes_le_of_sublist (h : ds.Sublist ds') : sizes ds ≤ sizes ds' := by
  unfold sizes
  refine (h.map _).sum_le_sum fun x hx => ?_
  obtain ⟨d, -, rfl⟩ := List.mem_map.1 hx
  exact abs_nonneg _

/-- Amounts of a smaller size are in range where the others are. -/
theorem inRange_sizes_mono {n : ℕ} (h : InRange n (sizes ds')) (hle : sizes ds ≤ sizes ds') :
    InRange n (sizes ds) := by
  refine h.mono ?_
  rw [abs_of_nonneg (sizes_nonneg _), abs_of_nonneg (sizes_nonneg _)]
  exact hle

theorem abs_sum_le_sizes (ds : List Decimal) : |(ds.map Decimal.value).sum| ≤ sizes ds := by
  induction ds with
  | nil => simp
  | cons d ds ih =>
    rw [List.map_cons, List.sum_cons, sizes_cons]
    exact (abs_add_le _ _).trans (add_le_add le_rfl ih)

/-- Without signs there is nothing to leave out. -/
theorem sizes_eq_of_nonneg (h : ∀ d ∈ ds, 0 ≤ d.value) : sizes ds = (ds.map Decimal.value).sum := by
  unfold sizes
  congr 1
  exact List.map_congr_left fun d hd => abs_of_nonneg (h d hd)

end Sizes

/-! ## Sums -/

namespace Decimal

variable {a b : Decimal} {k : ℕ}

/-- No amount has more than 28 digits behind the point. -/
theorem onGrid_value (a : Decimal) : OnGrid 28 a.value := by
  refine ⟨a.units * 10 ^ (28 - a.scale), ?_⟩
  have hscale : (10 : ℚ) ^ 28 = 10 ^ a.scale * 10 ^ (28 - a.scale) := by
    rw [← pow_add, Nat.add_sub_cancel' a.scale_le]
  rw [value_eq, hscale]
  push_cast
  field_simp

/-- Zeros that are given up are not missed. -/
theorem fitUpto_mul_of_lt {negative : Bool} {q scale dropped : ℕ} (h : scale ≤ 28)
    (hq : q < 2 ^ 96) :
    fitUpto negative (10 ^ dropped * q) scale dropped h = some ⟨negative, q, scale, hq, h⟩ := by
  have hround : roundHalfEven (10 ^ dropped * q) (Nat.pow 10 dropped) = q := by
    rw [Nat.mul_comm]
    exact roundHalfEven_mul q (by positivity)
  have hfits : q < Nat.pow 2 96 := hq
  rw [fitUpto.eq_def]
  simp only [hround]
  exact dif_pos hfits

/-- Units that are a small whole number at some digit lose nothing but zeros
behind it. -/
theorem fitUpto_exact {negative : Bool} {n m scale dropped : ℕ} {h : scale ≤ 28} (hm : m < 2 ^ 96)
    (hn : n * 10 ^ k = m * 10 ^ (scale + dropped)) (hd : 10 ^ dropped ∣ n) :
    ∃ c, fitUpto negative n scale dropped h = some c ∧ c.negative = negative ∧
      c.mantissa * 10 ^ (scale + dropped) = n * 10 ^ c.scale := by
  -- down the scales: what was dropped so far were zeros
  induction scale generalizing dropped with
  | zero =>
    obtain ⟨q, rfl⟩ := hd
    have hq : q * 10 ^ k = m := by
      rw [Nat.zero_add, Nat.mul_comm (10 ^ dropped), Nat.mul_right_comm] at hn
      exact Nat.eq_of_mul_eq_mul_right (by positivity) hn
    have hlt : q < 2 ^ 96 := lt_of_le_of_lt (Nat.le_mul_of_pos_right q (by positivity)) (hq ▸ hm)
    exact ⟨_, fitUpto_mul_of_lt h hlt, rfl, by simp [Nat.mul_comm]⟩
  | succ s ih =>
    obtain ⟨q, rfl⟩ := hd
    by_cases hlt : q < 2 ^ 96
    · refine ⟨_, fitUpto_mul_of_lt h hlt, rfl, ?_⟩
      change q * 10 ^ (s + 1 + dropped) = 10 ^ dropped * q * 10 ^ (s + 1)
      rw [pow_add]
      ring
    · have hq : q * 10 ^ k = m * 10 ^ (s + 1) := by
        rw [Nat.mul_comm (10 ^ dropped), Nat.mul_right_comm, pow_add, ← Nat.mul_assoc] at hn
        exact Nat.eq_of_mul_eq_mul_right (by positivity) hn
      -- so many units at more than `k` digits end in a zero
      have hks : k < s + 1 := by
        by_contra hle
        have hpow : 10 ^ (s + 1) ≤ 10 ^ k := Nat.pow_le_pow_right (by norm_num) (not_lt.1 hle)
        have hqm : m < q := lt_of_lt_of_le hm (not_lt.1 hlt)
        have hstrict : m * 10 ^ (s + 1) < q * 10 ^ k :=
          Nat.mul_lt_mul_of_lt_of_le hqm hpow (by positivity)
        omega
      have hten : 10 ∣ q := by
        refine ⟨m * 10 ^ (s - k), Nat.eq_of_mul_eq_mul_right (show 0 < 10 ^ k by positivity) ?_⟩
        rw [hq, show s + 1 = 1 + (s - k) + k by omega, pow_add, pow_add]
        ring
      obtain ⟨r, rfl⟩ := hten
      have hdvd : 10 ^ (dropped + 1) ∣ 10 ^ dropped * (10 * r) := ⟨r, by ring⟩
      have hsum : s + (dropped + 1) = s + 1 + dropped := by omega
      obtain ⟨c, hc, hneg, hval⟩ :=
        @ih (dropped + 1) (Nat.le_of_succ_le h) (by rw [hn, hsum]) hdvd
      refine ⟨c, ?_, hneg, by rw [← hval, hsum]⟩
      have hround : roundHalfEven (10 ^ dropped * (10 * r)) (Nat.pow 10 dropped) = 10 * r := by
        rw [Nat.mul_comm]
        exact roundHalfEven_mul _ (by positivity)
      have hlarge : ¬ 10 * r < Nat.pow 2 96 := hlt
      rw [fitUpto]
      simp only [hround]
      rw [dif_neg hlarge]
      exact hc

/-- A small whole number of units is written down exactly. -/
theorem ofUnits?_exact {n : ℤ} {scale : ℕ} {h : scale ≤ 28}
    (hgrid : OnGrid k ((n : ℚ) / 10 ^ scale)) (hrange : InRange k ((n : ℚ) / 10 ^ scale)) :
    ∃ c, ofUnits? n scale h = some c ∧ c.value = (n : ℚ) / 10 ^ scale := by
  obtain ⟨z, hz⟩ := hgrid
  have hnz : n * 10 ^ k = z * 10 ^ scale := by
    have hscale : (10 : ℚ) ^ scale ≠ 0 := by positivity
    have hq : (n : ℚ) * 10 ^ k = z * 10 ^ scale := by
      rw [← hz]
      field_simp
    exact_mod_cast hq
  have habs : n.natAbs * 10 ^ k = z.natAbs * 10 ^ (scale + 0) := by
    have := congrArg Int.natAbs hnz
    simpa [Int.natAbs_mul, Int.natAbs_pow] using this
  have hlt : z.natAbs < 2 ^ 96 := by
    have hp : (0 : ℚ) ≤ 10 ^ k := by positivity
    unfold InRange at hrange
    rw [← abs_of_nonneg hp, ← abs_mul, hz] at hrange
    have hz' : ((z.natAbs : ℤ) : ℚ) < 2 ^ 96 := by
      rw [Int.natCast_natAbs]
      exact_mod_cast hrange
    exact_mod_cast hz'
  obtain ⟨c, hc, hneg, hval⟩ := fitUpto_exact hlt habs (h := h) (one_dvd _)
  refine ⟨c, hc, ?_⟩
  have hmant : (c.mantissa : ℚ) / 10 ^ c.scale = (n.natAbs : ℚ) / 10 ^ scale := by
    rw [div_eq_div_iff (by positivity) (by positivity)]
    exact_mod_cast hval
  rw [value_of_parts, hneg, hmant, cast_eq_sign_mul n, mul_div_assoc]
  simp

/-- **A sum in range is exact.** -/
theorem sum?_exact (ha : OnGrid k a.value) (hb : OnGrid k b.value)
    (hr : InRange k (a.value + b.value)) :
    ∃ c, a.sum? b = some c ∧ c.value = a.value + b.value := by
  unfold sum?
  split
  · next hz => exact ⟨b, rfl, by rw [isZero_iff.1 hz, zero_add]⟩
  · split
    · next hz => exact ⟨a, rfl, by rw [isZero_iff.1 hz, add_zero]⟩
    · have hgrid := ha.add hb
      rw [value_add_eq] at hgrid hr ⊢
      exact ofUnits?_exact hgrid hr

theorem add_exact (ha : OnGrid k a.value) (hb : OnGrid k b.value)
    (hr : InRange k (a.value + b.value)) :
    ∃ c, a.add b = .ok c ∧ c.value = a.value + b.value := by
  obtain ⟨c, hc, hv⟩ := sum?_exact ha hb hr
  exact ⟨c, by rw [add, hc], hv⟩

theorem sub_exact (ha : OnGrid k a.value) (hb : OnGrid k b.value)
    (hr : InRange k (a.value - b.value)) :
    ∃ c, a.sub b = .ok c ∧ c.value = a.value - b.value := by
  unfold sub
  split
  · next hz =>
    rw [Bool.and_eq_true, isZero_iff, isZero_iff] at hz
    exact ⟨b, rfl, by rw [hz.1, hz.2, sub_zero]⟩
  · rw [sub_eq_add_neg, ← value_neg] at hr
    have hb' : OnGrid k b.neg.value := by
      rw [value_neg]
      exact hb.neg
    obtain ⟨c, hc, hv⟩ := sum?_exact ha hb' hr
    exact ⟨c, by rw [hc], by rw [hv, value_neg, sub_eq_add_neg]⟩

/-- **A total is exact** if all the sums on the way are in range. -/
theorem total_exact {as : List Decimal} (hgrid : ∀ x ∈ as, OnGrid k x.value)
    (hr : ∀ bs, bs <+: as → InRange k (bs.map value).sum) :
    ∃ c, total as = .ok c ∧ c.value = (as.map value).sum := by
  -- the sum so far is that of a prefix, and these are in range
  refine foldlM_ok (fun bs (b : Decimal) => b.value = (bs.map value).sum) (by simp) fun bs d ds b hbs hb => ?_
  have hb' : OnGrid k b.value := by
    rw [hb]
    refine .sum fun x hx => ?_
    obtain ⟨y, hy, rfl⟩ := List.mem_map.1 hx
    exact hgrid y (hbs ▸ List.mem_append_left _ hy)
  have hd : OnGrid k d.value := hgrid d (hbs ▸ List.mem_append_right _ List.mem_cons_self)
  have hsum : ((bs ++ [d]).map value).sum = b.value + d.value := by simp [hb]
  have hpre : bs ++ [d] <+: as := ⟨ds, by rw [List.append_assoc]; exact hbs.symm⟩
  obtain ⟨c, hc, hv⟩ := add_exact hb' hd (hsum ▸ hr _ hpre)
  exact ⟨c, hc, hv.trans hsum.symm⟩

/-- Amounts that are not negative only have to be in range together. -/
theorem total_exact_of_nonneg {as : List Decimal} (hgrid : ∀ x ∈ as, OnGrid k x.value)
    (hpos : ∀ x ∈ as, 0 ≤ x.value) (hr : InRange k (as.map value).sum) :
    ∃ c, total as = .ok c ∧ c.value = (as.map value).sum := by
  have hsum : ∀ bs : List Decimal, (∀ x ∈ bs, x ∈ as) → 0 ≤ (bs.map value).sum := by
    refine fun bs hbs => List.sum_nonneg fun x hx => ?_
    obtain ⟨b, hb, rfl⟩ := List.mem_map.1 hx
    exact hpos b (hbs b hb)
  refine total_exact hgrid fun bs ⟨ds, hds⟩ => hr.mono ?_
  have hbs := hsum bs fun x hx => hds ▸ List.mem_append_left ds hx
  have hrest := hsum ds fun x hx => hds ▸ List.mem_append_right bs hx
  rw [← hds, List.map_append, List.sum_append, abs_of_nonneg hbs, abs_of_nonneg (add_nonneg hbs hrest)]
  exact le_add_of_nonneg_right hrest

end Decimal

end SharedLedger
