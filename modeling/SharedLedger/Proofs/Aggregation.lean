import SharedLedger.Proofs.Signed

/-!
# Adding up what is owed

In range, the amounts owed between two users are added up exactly
(`Balance.pairs_exact`), and so are the nets of the users
(`Balance.nets_exact`): a weighted sum of nets is the same sum over the pairs,
in which creditors count for and debtors against. Amounts may have either sign,
and a user may occur on both sides of a pair.
-/

namespace SharedLedger

/-- Owed amounts by creditor and debtor. -/
def Owed.keyed (r : Owed) : (Int × Int) × Decimal := ((r.creditor, r.debtor), r.amount)

namespace Balance

open Tally

variable {n : ℕ} {rows : List Owed} {ps : List Owed} {members : List Member}

/-- Counts a pair for its creditor and against its debtor. -/
def balance (f : Int → ℚ) (k : Int × Int) : ℚ := f k.1 - f k.2

/-- What one side of a pair is owed the other side owes. -/
theorem weigh_balance_one (l : List ((Int × Int) × Decimal)) : weigh l (balance fun _ => 1) = 0 :=
  weigh_eq_zero fun _ _ => sub_self 1

/-! ## Pairs -/

/-- Pairs are in order by creditor, then by debtor. -/
theorem before_pair_iff {a b : Int × Int} :
    KeyOrder.before a b = true ↔ a.1 < b.1 ∨ a.1 = b.1 ∧ a.2 < b.2 := by
  simp [KeyOrder.before]

/-- The pairs of a tally. -/
def listed (pairs : PairTally) : List Owed := pairs.toList.map fun a => ⟨a.1.1, a.1.2, a.2⟩

section Listed

variable {pairs : PairTally} {c d : Int}

theorem keyed_listed (pairs : PairTally) : (listed pairs).map Owed.keyed = pairs.toList := by
  unfold listed
  rw [List.map_map]
  exact List.map_id _

theorem exists_mem_listed :
    (∃ p ∈ listed pairs, p.creditor = c ∧ p.debtor = d) ↔ pairs.contains (c, d) = true := by
  rw [Index.contains_iff]
  simp only [listed, List.mem_map, exists_exists_and_eq_and, Prod.ext_iff]

theorem ascending_listed (pairs : PairTally) : (listed pairs).Pairwise fun p q =>
    p.creditor < q.creditor ∨ p.creditor = q.creditor ∧ p.debtor < q.debtor :=
  List.pairwise_map.2 (pairs.ascending.imp before_pair_iff.1)

/-- The amount of a pair is the tally weighed by that pair alone. -/
theorem value_of_mem_listed {p : Owed} (hp : p ∈ listed pairs) :
    p.amount.value = weigh pairs.toList (only (p.creditor, p.debtor)) := by
  obtain ⟨a, ha, rfl⟩ := List.mem_map.1 hp
  exact value_of_mem ha

end Listed

/-- **Pairs are exact sums**, and every pair that occurs is listed. -/
theorem pairs_exact (h : SignedRange n (rows.map Owed.keyed)) :
    ∃ t : PairTally, pairs rows = .ok (listed t) ∧
      (∀ f, weigh t.toList f = weigh (rows.map Owed.keyed) f) ∧
      ∀ k, t.contains k = true ↔ ∃ r ∈ rows, (r.creditor, r.debtor) = k := by
  have hloop : ∃ t : PairTally,
      rows.foldlM (fun (t : PairTally) r => do
        return t.put ((r.creditor, r.debtor), ← (t.held (r.creditor, r.debtor)).add r.amount))
        Index.empty = .ok t ∧
      (∀ f, weigh t.toList f = weigh (rows.map Owed.keyed) f) ∧
      ∀ k, t.contains k = true ↔ ∃ r ∈ rows, (r.creditor, r.debtor) = k := by
    -- after any number of rows the tally weighs what those rows weigh
    refine foldlM_ok (fun done (t : PairTally) =>
      (∀ f, weigh t.toList f = weigh (done.map Owed.keyed) f) ∧
      ∀ k, t.contains k = true ↔ ∃ r ∈ done, (r.creditor, r.debtor) = k)
      ⟨fun f => rfl, fun k => ⟨fun h => (by cases h), fun ⟨_, h, _⟩ => (by cases h)⟩⟩ ?_
    rintro done r rest t rfl ⟨hw, hc⟩
    have hall : SignedRange n ((done.map Owed.keyed ++ [r.keyed]) ++ rest.map Owed.keyed) := by
      simpa using h
    obtain ⟨c, hadd, hpost⟩ := add_signed hall.left hw
    refine ⟨t.put ((r.creditor, r.debtor), c), ?_, fun f => ?_, fun k => ?_⟩
    · change ((t.held (r.creditor, r.debtor)).add r.amount >>= _) = _
      rw [hadd]
      rfl
    · rw [hpost.weigh, hw]
      simp [Owed.keyed]
    · rw [hpost.contains, hc]
      simp [or_and_right, exists_or, eq_comm]
  obtain ⟨t, ht, hw, hc⟩ := hloop
  refine ⟨t, ?_, hw, hc⟩
  unfold pairs
  rw [ht]
  rfl

/-! ## Nets -/

/-- The nets of a tally. -/
def listedNets (nets : UserTally) : List Net := nets.toList.map fun a => ⟨a.1, a.2⟩

section ListedNets

variable {nets : UserTally} {u : Int}

theorem exists_mem_listedNets :
    (∃ n ∈ listedNets nets, n.userId = u) ↔ nets.contains u = true := by
  rw [Index.contains_iff]
  simp only [listedNets, List.mem_map, exists_exists_and_eq_and]

theorem ascending_listedNets (nets : UserTally) :
    (listedNets nets).Pairwise fun m n => m.userId < n.userId := by
  refine List.pairwise_map.2 (nets.ascending.imp fun hab => ?_)
  simpa [KeyOrder.before] using hab

/-- The net of a user is the tally weighed by that user alone. -/
theorem value_of_mem_listedNets {n : Net} (hn : n ∈ listedNets nets) :
    n.amount.value = weigh nets.toList (only n.userId) := by
  obtain ⟨a, ha, rfl⟩ := List.mem_map.1 hn
  exact value_of_mem ha

/-- All nets together. -/
theorem sum_listedNets (nets : UserTally) :
    ((listedNets nets).map fun n => n.amount.value).sum = weigh nets.toList fun _ => 1 := by
  simp [listedNets, weigh, Function.comp_def]

end ListedNets

theorem abs_balance_only_le (u : Int) (k : Int × Int) : |balance (only u) k| ≤ 1 := by
  unfold balance only
  split <;> split <;> simp

theorem whole_balance_only (u : Int) (k : Int × Int) : ∃ z : ℤ, balance (only u) k = z := by
  obtain ⟨y, hy⟩ := whole_only u k.1
  obtain ⟨z, hz⟩ := whole_only u k.2
  exact ⟨y - z, by unfold balance; push_cast; rw [hy, hz]⟩

/-- Everybody who is linked starts with zero. -/
theorem startingNets_eq (members : List Member) :
    (∀ f, weigh (startingNets members).toList f = 0) ∧
      ∀ u, (startingNets members).contains u = true ↔ ∃ m ∈ members, m.userId = some u := by
  have run : ∀ (us : List Int) (t : UserTally), (∀ f, weigh t.toList f = 0) →
      (∀ f, weigh (us.foldl (fun (t : UserTally) u => t.put (u, Decimal.zero)) t).toList f = 0) ∧
        ∀ u, (us.foldl (fun (t : UserTally) u => t.put (u, Decimal.zero)) t).contains u = true ↔
          t.contains u = true ∨ u ∈ us := by
    intro us
    induction us with
    | nil => exact fun t hw => ⟨hw, fun u => by simp⟩
    | cons v us ih =>
      intro t hw
      have hzero : (t.held v).value = 0 := by rw [← weigh_only, hw]
      have hpost : Posted t (t.put (v, Decimal.zero)) v 0 := posted_put (by simp [hzero])
      obtain ⟨hw', hc'⟩ := ih (t.put (v, Decimal.zero)) fun f => by rw [hpost.weigh, hw]; simp
      refine ⟨hw', fun u => ?_⟩
      rw [List.foldl_cons, hc', hpost.contains]
      simp [or_assoc]
  obtain ⟨hw, hc⟩ := run (members.filterMap (·.userId)) Index.empty fun _ => rfl
  refine ⟨hw, fun u => ?_⟩
  rw [startingNets, hc]
  simp [Index.contains]

/-- The net of a user stays in range with a pair that counts for or against the
user. -/
theorem inRange_balance_add {l : List ((Int × Int) × Decimal)} {p : Owed} {w : ℚ}
    (h : SignedRange n (l ++ [p.keyed])) (u : Int) (hw : |w| ≤ 1) :
    InRange n (weigh l (balance (only u)) + w * p.amount.value) := by
  have hsizes : sizes ((l ++ [p.keyed]).map Prod.snd) =
      sizes (l.map Prod.snd) + |p.amount.value| := by
    simp [sizes, Owed.keyed]
  have hpair : |w * p.amount.value| ≤ |p.amount.value| := by
    rw [abs_mul]
    exact mul_le_of_le_one_left (abs_nonneg _) hw
  refine h.total.mono ?_
  rw [abs_of_nonneg (sizes_nonneg _), hsizes]
  exact (abs_add_le _ _).trans
    (add_le_add (SignedRange.abs_weigh_le l (abs_balance_only_le u)) hpair)

/-- Crediting one side of a pair and charging the other. -/
theorem add_sub_exact {l : List ((Int × Int) × Decimal)} {t : UserTally} {p : Owed}
    (h : SignedRange n (l ++ [p.keyed])) (hw : ∀ f, weigh t.toList f = weigh l (balance f)) :
    ∃ t₁ t₂ : UserTally, t.add p.creditor p.amount = .ok t₁ ∧ t₁.sub p.debtor p.amount = .ok t₂ ∧
      Posted t t₁ p.creditor p.amount.value ∧ Posted t₁ t₂ p.debtor (-p.amount.value) := by
  have hamount : OnGrid n p.amount.value := h.grid p.keyed (by simp)
  have hgrid : ∀ u, OnGrid n (weigh l (balance (only u))) :=
    fun u => h.left.onGrid (whole_balance_only u)
  have hheld : (t.held p.creditor).value = weigh l (balance (only p.creditor)) := by
    rw [← weigh_only, hw]
  have hrange : InRange n ((t.held p.creditor).value + p.amount.value) := by
    have hadd := inRange_balance_add (w := 1) h p.creditor (by simp)
    rwa [one_mul, ← hheld] at hadd
  obtain ⟨c, hc, hcv⟩ := Decimal.add_exact (hheld ▸ hgrid p.creditor) hamount hrange
  have hpost : Posted t (t.put (p.creditor, c)) p.creditor p.amount.value := posted_put hcv
  -- where creditor and debtor are one user, that user has just been credited
  have hheld' : (Tally.held (t.put (p.creditor, c)) p.debtor).value =
      weigh l (balance (only p.debtor)) + only p.debtor p.creditor * p.amount.value := by
    rw [← weigh_only, hpost.weigh, hw]
  have hgrid' : OnGrid n (Tally.held (t.put (p.creditor, c)) p.debtor).value := by
    obtain ⟨z, hz⟩ := whole_only p.debtor p.creditor
    rw [hheld', hz]
    exact (hgrid p.debtor).add (hamount.intCast_mul z)
  have hrange' :
      InRange n ((Tally.held (t.put (p.creditor, c)) p.debtor).value - p.amount.value) := by
    have hone : |only p.debtor p.creditor - 1| ≤ 1 := by
      unfold only
      split <;> simp
    have hsub := inRange_balance_add h p.debtor hone
    rwa [sub_mul, one_mul, ← add_sub_assoc, ← hheld'] at hsub
  obtain ⟨d, hd, hdv⟩ := Decimal.sub_exact hgrid' hamount hrange'
  refine ⟨t.put (p.creditor, c), (t.put (p.creditor, c)).put (p.debtor, d), ?_, ?_, hpost,
    posted_put (hdv.trans (sub_eq_add_neg _ _))⟩
  · change ((t.held p.creditor).add p.amount >>= _) = _
    rw [hc]
    rfl
  · change ((Tally.held (t.put (p.creditor, c)) p.debtor).sub p.amount >>= _) = _
    rw [hd]
    rfl

/-- **Nets are exact**: every linked user and everybody who occurs in a pair has
the credits less the debts. -/
theorem nets_exact (members : List Member) (h : SignedRange n (ps.map Owed.keyed)) :
    ∃ t : UserTally, nets members ps = .ok (listedNets t) ∧
      (∀ f, weigh t.toList f = weigh (ps.map Owed.keyed) (balance f)) ∧
      ∀ u, t.contains u = true ↔
        (∃ m ∈ members, m.userId = some u) ∨ ∃ p ∈ ps, p.creditor = u ∨ p.debtor = u := by
  obtain ⟨hstart, hlinked⟩ := startingNets_eq members
  have hloop : ∃ t : UserTally,
      ps.foldlM (fun (t : UserTally) p => do (← t.add p.creditor p.amount).sub p.debtor p.amount)
        (startingNets members) = .ok t ∧
      (∀ f, weigh t.toList f = weigh (ps.map Owed.keyed) (balance f)) ∧
      ∀ u, t.contains u = true ↔
        (∃ m ∈ members, m.userId = some u) ∨ ∃ p ∈ ps, p.creditor = u ∨ p.debtor = u := by
    -- after any number of pairs the nets weigh the balances of those pairs
    refine foldlM_ok (fun done (t : UserTally) =>
      (∀ f, weigh t.toList f = weigh (done.map Owed.keyed) (balance f)) ∧
      ∀ u, t.contains u = true ↔
        (∃ m ∈ members, m.userId = some u) ∨ ∃ p ∈ done, p.creditor = u ∨ p.debtor = u)
      ⟨hstart, fun u => by simp [hlinked]⟩ ?_
    rintro done p rest t rfl ⟨hw, hc⟩
    have hall : SignedRange n ((done.map Owed.keyed ++ [p.keyed]) ++ rest.map Owed.keyed) := by
      simpa using h
    obtain ⟨t₁, t₂, hadd, hsub, hpost₁, hpost₂⟩ := add_sub_exact hall.left hw
    refine ⟨t₂, ?_, fun f => ?_, fun u => ?_⟩
    · rw [hadd]
      exact hsub
    · rw [hpost₂.weigh, hpost₁.weigh, hw]
      simp [Owed.keyed, balance]
      ring
    · rw [hpost₂.contains, hpost₁.contains, hc]
      simp [or_and_right, exists_or, or_assoc, eq_comm]
  obtain ⟨t, ht, hw, hc⟩ := hloop
  refine ⟨t, ?_, hw, hc⟩
  unfold nets
  rw [ht]
  rfl

end Balance

end SharedLedger
