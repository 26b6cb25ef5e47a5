import SharedLedger.Proofs.Tally

/-!
# Amounts of either sign

Amounts that count for somebody and amounts that count against can cancel on
the way, so their sum says nothing about the sums in between. Their sizes do: if
these can be added up in range (`SignedRange`), so can any of the amounts, in
any order and with any of them turned round. Posting such amounts to a tally is
exact (`Tally.add_signed`, `Tally.sub_signed`), and so are the tally of a tally
under other keys (`UserTally.addAll_exact`) and totals (`Decimal.total_signed`).
-/

namespace SharedLedger

variable {κ : Type} {n : ℕ}

/-- Amounts of either sign whose sizes can be added up exactly. -/
structure SignedRange (n : ℕ) (l : List (κ × Decimal)) : Prop where
  grid : ∀ a ∈ l, OnGrid n a.2.value
  total : InRange n (sizes (l.map Prod.snd))

namespace SignedRange

variable {l l' : List (κ × Decimal)} {f : κ → ℚ}

theorem abs_weigh_le (l : List (κ × Decimal)) (hf : ∀ j, |f j| ≤ 1) :
    |weigh l f| ≤ sizes (l.map Prod.snd) := by
  induction l with
  | nil => simp
  | cons a l ih =>
    have hterm : |f a.1 * a.2.value| ≤ |a.2.value| := by
      rw [abs_mul]
      exact mul_le_of_le_one_left (abs_nonneg _) (hf a.1)
    rw [weigh_cons, List.map_cons, sizes_cons]
    exact (abs_add_le _ _).trans (add_le_add hterm ih)

theorem inRange (h : SignedRange n l) (hf : ∀ j, |f j| ≤ 1) : InRange n (weigh l f) :=
  h.total.mono ((abs_weigh_le l hf).trans (le_abs_self _))

theorem onGrid (h : SignedRange n l) (hf : ∀ j, ∃ z : ℤ, f j = z) : OnGrid n (weigh l f) :=
  onGrid_weigh h.grid hf

/-- A part of the amounts is in range as well. -/
theorem left (h : SignedRange n (l ++ l')) : SignedRange n l where
  grid a ha := h.grid a (List.mem_append_left _ ha)
  total :=
    inRange_sizes_mono h.total (sizes_le_of_sublist ((List.sublist_append_left l l').map Prod.snd))

/-- Amounts that are listed with something else are in range as they are. -/
theorem of_map {α : Type} {xs : List α} (φ : α → κ × Decimal)
    (hgrid : ∀ x ∈ xs, OnGrid n (φ x).2.value)
    (hrange : InRange n (xs.map fun x => |(φ x).2.value|).sum) : SignedRange n (xs.map φ) where
  grid := List.forall_mem_map.2 hgrid
  total := by
    unfold sizes
    rw [List.map_map, List.map_map]
    exact hrange

/-- The keys do not matter. -/
theorem rekey {ι : Type} (h : SignedRange n l) (φ : κ → ι) :
    SignedRange n (l.map fun a => (φ a.1, a.2)) where
  grid b hb := by
    obtain ⟨a, ha, rfl⟩ := List.mem_map.1 hb
    exact h.grid a ha
  total := by
    rw [List.map_map]
    exact h.total

end SignedRange

/-- Amounts that are not negative are their own sizes. -/
theorem ExactRange.signed {l : List (κ × Decimal)} (h : ExactRange n l) : SignedRange n l where
  grid := h.grid
  total := by
    rw [sizes_eq_of_nonneg (List.forall_mem_map.2 h.nonneg), List.map_map]
    have htotal := h.total
    simp only [weigh, one_mul] at htotal
    exact htotal

/-- Amounts under other keys weigh what they weigh under their own. -/
theorem weigh_rekey {ι : Type} (l : List (κ × Decimal)) (φ : κ → ι) (f : ι → ℚ) :
    weigh (l.map fun a => (φ a.1, a.2)) f = weigh l fun j => f (φ j) := by
  simp [weigh, Function.comp_def]

/-! ## Tallies -/

namespace Tally

variable [KeyOrder κ] [DecidableEq κ] {t : Tally κ} {j : κ}
  {d : Decimal} {l : List (κ × Decimal)}

/-- A tally of amounts in range is in range as well. -/
theorem signedRange_of_weigh (h : SignedRange n l) (hw : ∀ f, weigh t.toList f = weigh l f) :
    SignedRange n t.toList where
  grid a ha := by
    rw [value_of_mem ha, hw]
    exact h.onGrid (whole_only a.1)
  total := by
    -- the sizes are the amounts, each turned round where it is negative
    have hsizes : sizes (t.toList.map Prod.snd) =
        weigh t.toList fun j => if 0 ≤ (held t j).value then 1 else -1 := by
      unfold sizes weigh
      rw [List.map_map]
      congr 1
      refine List.map_congr_left fun a ha => ?_
      change |a.2.value| = (if 0 ≤ (held t a.1).value then 1 else -1) * a.2.value
      rw [held_of_mem ha]
      split
      · next hpos => rw [abs_of_nonneg hpos, one_mul]
      · next hneg => rw [abs_of_neg (not_le.1 hneg), neg_one_mul]
    rw [hsizes, hw]
    refine h.inRange fun j => ?_
    split <;> simp

/-- What a key has is on the grid, and stays in range with the next amount. -/
theorem held_signed (h : SignedRange n (l ++ [(j, d)])) (hw : ∀ f, weigh t.toList f = weigh l f) :
    OnGrid n (held t j).value ∧ InRange n ((held t j).value + d.value) := by
  have hheld : (held t j).value = weigh l (only j) := by rw [← weigh_only, hw]
  have hall := h.inRange (abs_only_le j)
  rw [weigh_append, weigh_cons, weigh_nil, only_self, one_mul, add_zero, ← hheld] at hall
  exact ⟨hheld ▸ h.left.onGrid (whole_only j), hall⟩

/-- **Adding an amount is exact.** -/
theorem add_signed (h : SignedRange n (l ++ [(j, d)])) (hw : ∀ f, weigh t.toList f = weigh l f) :
    ∃ c, (held t j).add d = .ok c ∧ Posted t (t.put (j, c)) j d.value := by
  obtain ⟨hgrid, hrange⟩ := held_signed h hw
  obtain ⟨c, hc, hv⟩ := Decimal.add_exact hgrid (h.grid (j, d) (by simp)) hrange
  exact ⟨c, hc, posted_put hv⟩

/-- **Taking an amount away is exact.** -/
theorem sub_signed (h : SignedRange n (l ++ [(j, d.neg)]))
    (hw : ∀ f, weigh t.toList f = weigh l f) :
    ∃ c, (held t j).sub d = .ok c ∧ Posted t (t.put (j, c)) j d.neg.value := by
  obtain ⟨hgrid, hrange⟩ := held_signed h hw
  have hamount : OnGrid n d.value := by
    have hneg := (h.grid (j, d.neg) (by simp)).neg
    rwa [Decimal.value_neg, neg_neg] at hneg
  rw [Decimal.value_neg, ← sub_eq_add_neg] at hrange
  obtain ⟨c, hc, hv⟩ := Decimal.sub_exact hgrid hamount hrange
  exact ⟨c, hc, posted_put (by rw [hv, Decimal.value_neg, sub_eq_add_neg])⟩

end Tally

/-- **Amounts are added up exactly by user**, and every user who occurs is kept. -/
theorem UserTally.addAll_exact {l : List (Int × Decimal)} (h : SignedRange n l) :
    ∃ t : UserTally, l.foldlM (fun (t : UserTally) a => t.add a.1 a.2) Index.empty = .ok t ∧
      (∀ f, weigh t.toList f = weigh l f) ∧ ∀ u, t.contains u = true ↔ ∃ a ∈ l, a.1 = u := by
  -- after any number of amounts the tally weighs what those weigh
  refine foldlM_ok (fun done (t : UserTally) => (∀ f, weigh t.toList f = weigh done f) ∧
      ∀ u, t.contains u = true ↔ ∃ a ∈ done, a.1 = u)
    ⟨fun _ => rfl, fun u => by simp [Index.contains]⟩ fun done a rest t hall hdone => ?_
  obtain ⟨hw, hc⟩ := hdone
  have hdone : SignedRange n (done ++ [(a.1, a.2)]) := by
    rw [hall, List.append_cons] at h
    exact h.left
  obtain ⟨c, hadd, hpost⟩ := Tally.add_signed hdone hw
  refine ⟨t.put (a.1, c), ?_, fun f => ?_, fun u => ?_⟩
  · change ((Tally.held t a.1).add a.2 >>= _) = _
    rw [hadd]
    rfl
  · rw [hpost.weigh, hw, weigh_append, weigh_cons, weigh_nil, add_zero]
  · rw [hpost.contains, hc]
    simp [or_and_right, exists_or, eq_comm]

/-! ## Totals -/

namespace Decimal

variable {ds : List Decimal}

/-- **A total of amounts of either sign is exact.** -/
theorem total_signed (hgrid : ∀ d ∈ ds, OnGrid n d.value) (hr : InRange n (sizes ds)) :
    ∃ c, total ds = .ok c ∧ c.value = (ds.map value).sum := by
  refine total_exact hgrid fun bs hbs => hr.mono ?_
  rw [abs_of_nonneg (sizes_nonneg ds)]
  exact (abs_sum_le_sizes bs).trans (sizes_le_of_sublist hbs.sublist)

/-- What has no minus counts for somebody, if it is anything. -/
theorem sum_not_negative (ds : List Decimal) :
    ((ds.filter fun d => !d.negative).map value).sum = (ds.map fun d => max d.value 0).sum := by
  induction ds with
  | nil => rfl
  | cons d ds ih =>
    rw [List.map_cons, List.sum_cons, ← ih]
    cases hd : d.negative with
    | false => simp [hd, max_eq_left (value_nonneg_of_not_negative hd)]
    | true => simp [hd, max_eq_right (value_nonpos_of_negative hd)]

/-- What has a minus counts against somebody, if it is anything. -/
theorem sum_negative (ds : List Decimal) :
    ((ds.filter fun d => d.negative).map value).sum = -(ds.map fun d => max (-d.value) 0).sum := by
  induction ds with
  | nil => simp
  | cons d ds ih =>
    rw [List.map_cons, List.sum_cons, neg_add, ← ih]
    cases hd : d.negative with
    | false => simp [hd, max_eq_right (neg_nonpos.2 (value_nonneg_of_not_negative hd))]
    | true => simp [hd, max_eq_left (neg_nonneg.2 (value_nonpos_of_negative hd))]

/-- **What counts for somebody and what counts against are totalled apart**, by
their signs; the two together are all of it. -/
theorem exists_totals (hgrid : ∀ d ∈ ds, OnGrid n d.value) (hr : InRange n (sizes ds)) :
    ∃ a b c, total (ds.filter fun d => !d.negative) = .ok a ∧
      total (ds.filter fun d => d.negative) = .ok b ∧ a.sub b.neg = .ok c ∧
      a.value = (ds.map fun d => max d.value 0).sum ∧
      b.neg.value = (ds.map fun d => max (-d.value) 0).sum ∧ c.value = (ds.map value).sum := by
  have hpart : ∀ q : Decimal → Bool, ∃ c, total (ds.filter q) = .ok c ∧
      c.value = ((ds.filter q).map value).sum ∧ OnGrid n c.value := by
    intro q
    have hq : ∀ d ∈ ds.filter q, OnGrid n d.value := fun d hd => hgrid d (List.mem_filter.1 hd).1
    obtain ⟨c, hc, hv⟩ :=
      total_signed hq (inRange_sizes_mono hr (sizes_le_of_sublist List.filter_sublist))
    refine ⟨c, hc, hv, hv ▸ .sum fun x hx => ?_⟩
    obtain ⟨d, hd, rfl⟩ := List.mem_map.1 hx
    exact hq d hd
  obtain ⟨a, ha, hav, hagrid⟩ := hpart fun d => !d.negative
  obtain ⟨b, hb, hbv, hbgrid⟩ := hpart fun d => d.negative
  have hsum : a.value - b.neg.value = (ds.map value).sum := by
    have hperm := ((List.filter_append_perm (fun d => d.negative) ds).map value).sum_eq
    rw [List.map_append, List.sum_append] at hperm
    rw [hav, value_neg, hbv, ← hperm]
    ring
  have hrange : InRange n (a.value - b.neg.value) := by
    rw [hsum]
    exact hr.mono ((abs_sum_le_sizes ds).trans (le_abs_self _))
  obtain ⟨c, hc, hv⟩ := sub_exact hagrid (by rw [value_neg]; exact hbgrid.neg) hrange
  refine ⟨a, b, c, ha, hb, hc, hav.trans (sum_not_negative ds), ?_, hv.trans hsum⟩
  rw [value_neg, hbv, sum_negative, neg_neg]

end Decimal

end SharedLedger
