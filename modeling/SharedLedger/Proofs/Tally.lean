import SharedLedger.Balance
import SharedLedger.Proofs.Exact
import SharedLedger.Proofs.Index
import Mathlib.Algebra.BigOperators.Group.Finset.Piecewise

/-!
# Tallies

A tally keeps an amount for every key. What has been posted to it is measured
by weighted sums: `weigh l f` counts every amount of `l` as often as the
weight of its key says, so a single key, a set of keys and all of them are
three choices of `f`. Posting an amount adds its weighted value and nothing
else (`Posted`), as long as it stays in range.
-/

namespace SharedLedger

variable {κ : Type}

/-- The amounts of a list, each counted with the weight of its key. -/
def weigh (l : List (κ × Decimal)) (f : κ → ℚ) : ℚ := (l.map fun a => f a.1 * a.2.value).sum

section Weigh

variable {l l' : List (κ × Decimal)} {f g : κ → ℚ} {a : κ × Decimal}

@[simp] theorem weigh_nil (f : κ → ℚ) : weigh [] f = 0 := rfl

@[simp] theorem weigh_cons (a : κ × Decimal) (l : List (κ × Decimal)) (f : κ → ℚ) :
    weigh (a :: l) f = f a.1 * a.2.value + weigh l f := by
  simp [weigh]

@[simp] theorem weigh_append (l l' : List (κ × Decimal)) (f : κ → ℚ) :
    weigh (l ++ l') f = weigh l f + weigh l' f := by
  simp [weigh]

theorem weigh_perm (h : l.Perm l') (f : κ → ℚ) : weigh l f = weigh l' f :=
  (h.map _).sum_eq

theorem weigh_congr (h : ∀ a ∈ l, f a.1 = g a.1) : weigh l f = weigh l g := by
  unfold weigh
  congr 1
  exact List.map_congr_left fun a ha => by rw [h a ha]

theorem weigh_eq_zero (h : ∀ a ∈ l, f a.1 = 0) : weigh l f = 0 := by
  induction l with
  | nil => rfl
  | cons a l ih =>
    rw [weigh_cons, h a List.mem_cons_self, zero_mul, zero_add]
    exact ih fun b hb => h b (List.mem_cons_of_mem a hb)

theorem weigh_sub (l : List (κ × Decimal)) (f g : κ → ℚ) :
    weigh l (fun k => f k - g k) = weigh l f - weigh l g := by
  induction l with
  | nil => simp
  | cons a l ih =>
    rw [weigh_cons, weigh_cons, weigh_cons, ih]
    ring

/-- Amounts sorted by something that depends on their keys weigh together what
they weigh unsorted. -/
theorem sum_weigh_filter {ι : Type} [DecidableEq ι] (sort : κ → ι) {is : List ι} (his : is.Nodup)
    (h : ∀ a ∈ l, f a.1 ≠ 0 → sort a.1 ∈ is) :
    (is.map fun i => weigh (l.filter fun a => sort a.1 = i) f).sum = weigh l f := by
  rw [← List.sum_toFinset _ his]
  induction l with
  | nil => simp
  | cons a l ih =>
    have hstep : ∀ i, weigh ((a :: l).filter fun a => sort a.1 = i) f =
        (if sort a.1 = i then f a.1 * a.2.value else 0) + weigh (l.filter fun a => sort a.1 = i) f := by
      intro i
      by_cases hi : sort a.1 = i <;> simp [hi]
    have hone : (if sort a.1 ∈ is.toFinset then f a.1 * a.2.value else 0) = f a.1 * a.2.value := by
      by_cases hz : f a.1 = 0
      · simp [hz]
      · rw [if_pos (List.mem_toFinset.2 (h a List.mem_cons_self hz))]
    simp only [hstep, Finset.sum_add_distrib, Finset.sum_ite_eq, hone, weigh_cons]
    rw [ih fun b hb => h b (List.mem_cons_of_mem a hb)]

/-- The weight of a single key. -/
def only [DecidableEq κ] (k : κ) : κ → ℚ := fun j => if j = k then 1 else 0

@[simp] theorem only_self [DecidableEq κ] (k : κ) : only k k = 1 := if_pos rfl

theorem only_of_ne [DecidableEq κ] {j k : κ} (h : j ≠ k) : only k j = 0 := if_neg h

/-- The amounts whose keys pass a test, added up. -/
theorem weigh_ite_eq_sum (l : List (κ × Decimal)) (p : κ → Bool) :
    weigh l (fun k => if p k then 1 else 0) = ((l.filter fun a => p a.1).map (·.2.value)).sum := by
  induction l with
  | nil => rfl
  | cons a l ih => by_cases h : p a.1 = true <;> simp [h, ih]

/-- The amounts of one key, added up. -/
theorem weigh_only_eq_sum [DecidableEq κ] (l : List (κ × Decimal)) (k : κ) :
    weigh l (only k) = ((l.filter (·.1 = k)).map (·.2.value)).sum := by
  rw [← weigh_ite_eq_sum l fun j => j = k]
  refine weigh_congr fun a _ => ?_
  simp only [only, decide_eq_true_eq]

/-- A key that does not occur has nothing. -/
theorem weigh_only_of_notMem [DecidableEq κ] {k : κ} (h : k ∉ l.map Prod.fst) :
    weigh l (only k) = 0 :=
  weigh_eq_zero fun _ ha => only_of_ne fun he => h (he ▸ List.mem_map_of_mem ha)

/-- Of keys that occur once, one that occurs has its amount. -/
theorem weigh_only_of_mem [DecidableEq κ] (hl : (l.map Prod.fst).Nodup) (ha : a ∈ l) :
    weigh l (only a.1) = a.2.value := by
  induction l with
  | nil => cases ha
  | cons b l ih =>
    obtain ⟨hb, hl⟩ := List.nodup_cons.1 hl
    rw [weigh_cons]
    rcases List.mem_cons.1 ha with rfl | ha
    · rw [only_self, one_mul, weigh_only_of_notMem hb, add_zero]
    · have hne : b.1 ≠ a.1 := fun he => hb (he ▸ List.mem_map_of_mem ha)
      rw [only_of_ne hne, zero_mul, zero_add, ih hl ha]

end Weigh

/-! ## In range -/

/-- Amounts that are not negative and can be added up exactly, in any order. -/
structure ExactRange (k : ℕ) (l : List (κ × Decimal)) : Prop where
  grid : ∀ a ∈ l, OnGrid k a.2.value
  nonneg : ∀ a ∈ l, 0 ≤ a.2.value
  total : InRange k (weigh l fun _ => 1)

section Range

variable {n : ℕ} {l l' : List (κ × Decimal)} {f : κ → ℚ}

theorem weigh_nonneg (hl : ∀ a ∈ l, 0 ≤ a.2.value) (hf : ∀ a ∈ l, 0 ≤ f a.1) : 0 ≤ weigh l f := by
  induction l with
  | nil => rfl
  | cons a l ih =>
    rw [weigh_cons]
    have ha := mul_nonneg (hf a List.mem_cons_self) (hl a List.mem_cons_self)
    have hrest := ih (fun b hb => hl b (List.mem_cons_of_mem a hb))
      (fun b hb => hf b (List.mem_cons_of_mem a hb))
    exact add_nonneg ha hrest

/-- Weights up to one do not count more than there is. -/
theorem abs_weigh_le (hl : ∀ a ∈ l, 0 ≤ a.2.value) (hf : ∀ j, |f j| ≤ 1) :
    |weigh l f| ≤ weigh l fun _ => 1 := by
  induction l with
  | nil => simp
  | cons a l ih =>
    have ha := hl a List.mem_cons_self
    have hterm : |f a.1 * a.2.value| ≤ 1 * a.2.value := by
      rw [abs_mul, abs_of_nonneg ha]
      exact mul_le_mul_of_nonneg_right (hf a.1) ha
    rw [weigh_cons, weigh_cons]
    exact (abs_add_le _ _).trans (add_le_add hterm (ih fun b hb => hl b (List.mem_cons_of_mem a hb)))

/-- Whole numbers of amounts on a grid are on the grid. -/
theorem onGrid_weigh (hl : ∀ a ∈ l, OnGrid n a.2.value) (hf : ∀ j, ∃ z : ℤ, f j = z) :
    OnGrid n (weigh l f) := by
  refine .sum fun x hx => ?_
  obtain ⟨a, ha, rfl⟩ := List.mem_map.1 hx
  obtain ⟨z, hz⟩ := hf a.1
  rw [hz]
  exact (hl a ha).intCast_mul z

theorem ExactRange.inRange (h : ExactRange n l) (hf : ∀ j, |f j| ≤ 1) : InRange n (weigh l f) :=
  h.total.mono ((abs_weigh_le h.nonneg hf).trans (le_abs_self _))

theorem ExactRange.onGrid (h : ExactRange n l) (hf : ∀ j, ∃ z : ℤ, f j = z) : OnGrid n (weigh l f) :=
  onGrid_weigh h.grid hf

theorem abs_only_le [DecidableEq κ] (k j : κ) : |only k j| ≤ 1 := by
  unfold only
  split <;> simp

theorem whole_only [DecidableEq κ] (k j : κ) : ∃ z : ℤ, only k j = z := by
  unfold only
  split
  · exact ⟨1, by simp⟩
  · exact ⟨0, by simp⟩

end Range

/-! ## One key -/

namespace Tally

variable [KeyOrder κ] [DecidableEq κ] {t t' : Tally κ} {k j : κ}
  {c : Decimal} {f : κ → ℚ}

/-- The amount of one key, and those of all others. -/
theorem weigh_erase (t : Tally κ) (k : κ) (f : κ → ℚ) :
    weigh t.toList f = f k * (held t k).value + weigh (t.erase k).toList f := by
  have hasc := t.ascending
  unfold held Index.find? Index.erase
  rw [Index.toList_filter]
  generalize t.toList = l at hasc
  induction l with
  | nil => simp
  | cons b l ih =>
    obtain ⟨hb, hl⟩ := List.pairwise_cons.1 hasc
    by_cases hbk : b.1 = k
    · have hrest : l.filter (fun a => decide (a.1 ≠ k)) = l := by
        refine List.filter_eq_self.2 fun a ha => ?_
        have hba := hb a ha
        rw [decide_eq_true_eq]
        rintro rfl
        rw [hbk, KeyOrder.irrefl] at hba
        cases hba
      -- no other entry has this key, as they ascend
      rw [weigh_cons, List.filter_cons_of_neg (by simp [hbk]), hrest, hbk]
      simp [hbk]
    · rw [weigh_cons, ih hl, List.filter_cons_of_pos (by simp [hbk]), weigh_cons]
      simp [hbk]
      ring

/-- What is put in under a key takes the place of what the key had. -/
theorem weigh_put (t : Tally κ) (k : κ) (c : Decimal) (f : κ → ℚ) :
    weigh (t.put (k, c)).toList f = weigh t.toList f + f k * (c.value - (held t k).value) := by
  have hfind : held (t.put (k, c)) k = c := by
    unfold held
    rw [Index.find?_put, if_pos rfl]
    rfl
  have herase : (t.put (k, c)).erase k = t.erase k := by
    refine Index.ext_find? fun j => ?_
    rw [Index.find?_erase, Index.find?_erase, Index.find?_put]
    split <;> rfl
  rw [weigh_erase t k, weigh_erase _ k, hfind, herase]
  ring

theorem weigh_only (t : Tally κ) (k : κ) :
    weigh t.toList (only k) = (held t k).value := by
  rw [weigh_erase t k, only_self, one_mul, weigh_eq_zero, add_zero]
  exact fun a ha => only_of_ne ((Index.mem_erase _ _ _).1 ha).2

theorem held_of_new (h : t.contains k = false) : held t k = Decimal.zero := by
  unfold held
  rw [Index.contains_eq_false_iff.1 h]
  rfl

theorem held_of_mem {a : κ × Decimal} (h : a ∈ t.toList) : held t a.1 = a.2 := by
  unfold held
  rw [Index.find?_of_mem h]
  rfl

theorem value_of_mem {a : κ × Decimal} (h : a ∈ t.toList) : a.2.value = weigh t.toList (only a.1) := by
  rw [weigh_only, held_of_mem h]

/-- A tally of amounts that can be added up exactly is in range as well. -/
theorem exactRange_of_weigh {n : ℕ} {l : List (κ × Decimal)} (h : ExactRange n l)
    (hw : ∀ f, weigh t.toList f = weigh l f) : ExactRange n t.toList where
  grid a ha := by
    rw [value_of_mem ha, hw]
    exact h.onGrid (whole_only a.1)
  nonneg a ha := by
    rw [value_of_mem ha, hw]
    exact weigh_nonneg h.nonneg fun b _ => by unfold only; split <;> simp
  total := by
    rw [hw]
    exact h.total

/-- **What posting `x` under a key does.** -/
structure Posted (t t' : Tally κ) (k : κ) (x : ℚ) : Prop where
  weigh : ∀ f, SharedLedger.weigh t'.toList f = SharedLedger.weigh t.toList f + f k * x
  contains : ∀ j, t'.contains j = true ↔ t.contains j = true ∨ j = k

theorem posted_put {x : ℚ} (hc : c.value = (held t k).value + x) : Posted t (t.put (k, c)) k x where
  weigh f := by
    rw [weigh_put, hc]
    ring
  contains j := by
    unfold Index.contains
    rw [Index.find?_put]
    split
    · next h =>
      obtain rfl : k = j := h
      simp
    · next h => simp [Ne.symm h]

end Tally

end SharedLedger
