import SharedLedger.Proofs.Agreement

/-!
# How much a ledger can hold

Each expense is checked on its own, and its amount may be as large as a decimal
can be. The balances add up many of them, in an order that follows the ids of
users. Nothing but these sums can keep a member from the balances, and where the
shares can be added up without rounding there are always balances
(`System.balances_answered`). Without that, what some members of a group owe each
other can leave everybody in it without an answer, although all pairs and nets
are small enough to be written down: a sum on the way is out of range, or rounded
so that the nets do not sum to zero (`System.balances_out_of_range`).
-/

namespace SharedLedger

/-! ## What can go wrong -/

/-- An amount went out of range. -/
def Failure.IsOverflow (e : Failure) : Prop := ∃ o, e = .overflow o

/-- The nets of a group did not sum to zero. -/
def Failure.IsUnbalanced (e : Failure) : Prop := ∃ sum, e = .refused (.unbalanced sum)

/-- Where it fails, it fails in a certain way. -/
def FailsOnly {α : Type} (P : Failure → Prop) (r : Except Failure α) : Prop :=
  ∀ e, r = .error e → P e

namespace FailsOnly

variable {α β : Type} {P Q : Failure → Prop} {r : Except Failure α}

theorem ok (a : α) : FailsOnly P (.ok a : Except Failure α) := fun _ he => nomatch he

theorem error {e : Failure} (he : P e) : FailsOnly P (.error e : Except Failure α) := by
  rintro _ ⟨⟩
  exact he

theorem mono (h : FailsOnly P r) (hpq : ∀ e, P e → Q e) : FailsOnly Q r :=
  fun e he => hpq e (h e he)

theorem bind {f : α → Except Failure β} (h : FailsOnly P r) (hf : ∀ a, FailsOnly P (f a)) :
    FailsOnly P (r.bind f) := by
  cases r with
  | error e => exact error (h e rfl)
  | ok a => exact hf a

theorem map (h : FailsOnly P r) (f : α → β) : FailsOnly P (r.map f) := by
  cases r with
  | error e => exact error (h e rfl)
  | ok a => exact ok (f a)

/-- Sums only go out of range. -/
theorem ofSum (x : Except Overflow α) : FailsOnly Failure.IsOverflow (Failure.ofSum x) := by
  cases x with
  | error o => exact error ⟨o, rfl⟩
  | ok a => exact ok a

end FailsOnly

/-- A settlement fails on a sum, or on nets that do not sum to zero. -/
theorem Settlement.failsOnly_settle (nets : List Net) :
    FailsOnly (fun e => e.IsOverflow ∨ e.IsUnbalanced) (settle nets) := by
  have hsum : ∀ {α : Type} (x : Except Overflow α),
      FailsOnly (fun e => e.IsOverflow ∨ e.IsUnbalanced) (Failure.ofSum x) :=
    fun x => (FailsOnly.ofSum x).mono fun _ => Or.inl
  unfold settle
  refine (hsum _).bind fun sum => ?_
  dsimp only
  split
  · exact FailsOnly.error (Or.inr ⟨sum, rfl⟩)
  · exact (hsum _).bind fun _ => hsum _

namespace Statement

theorem failsOnly_pairs (t : Tables) (g : Int) :
    FailsOnly Failure.IsOverflow ((pairs g).read t) := by
  rw [read_pairs]
  exact FailsOnly.ofSum _

theorem failsOnly_pairsOf (t : Tables) (ms : List Member) :
    FailsOnly Failure.IsOverflow ((pairsOf ms).read t) := by
  induction ms with
  | nil => exact FailsOnly.ok _
  | cons m ms ih =>
    rw [read_pairsOf_cons]
    exact (failsOnly_pairs t m.groupId).bind fun p => ih.map _

/-- Nothing but a sum keeps a user from the balances. -/
theorem failsOnly_viewOf (t : Tables) (u : Int) : FailsOnly Failure.IsOverflow (viewOf t u) :=
  (failsOnly_pairsOf t _).bind fun _ => FailsOnly.ofSum _

/-- Nothing but a sum keeps a member from the balances of a group. -/
theorem failsOnly_balancesOf (t : Tables) (g : Int) :
    FailsOnly (fun e => e.IsOverflow ∨ e.IsUnbalanced) (balancesOf t g) := by
  have hread : FailsOnly Failure.IsOverflow ((pairsAndNets g).read t) := by
    rw [read_pairsAndNets]
    exact (FailsOnly.ofSum _).bind fun ps => (FailsOnly.ofSum _).map _
  exact (hread.mono fun _ => Or.inl).bind fun b => (Settlement.failsOnly_settle b.2).map _

end Statement

namespace System

variable {service : Service} {sys : System} {client : Client}

/-- **Balances are always answered**, in every system that can come about: asking
for them changes nothing, only a sum can leave a member or a user without them,
and no sum does where the shares can be added up without rounding. -/
theorem balances_answered (h : Reachable service sys) (hclient : sys.store.Serves client)
    (now : ℕ) (caller : ℤ) :
    (∀ g, (∃ m ∈ sys.store.tables.membersOf g, m.userId = some caller) →
      ∃ s r, (service.operation now (.act caller (.groupBalances g))).run client sys.store =
          (s, some r) ∧ sys.store.Unchanged client s ∧
        FailsOnly (fun e => e.IsOverflow ∨ e.IsUnbalanced) r ∧
        ∀ k, sys.store.tables.ExactShares g k → ∃ b, r = .ok b) ∧
    ∃ s r, (service.operation now (.myBalances caller)).run client sys.store = (s, some r) ∧
      sys.store.Unchanged client s ∧ FailsOnly Failure.IsOverflow r ∧
      ∀ k, sys.store.tables.ExactUser caller k → ∃ v, r = .ok v := by
  have hcons : sys.store.tables.Consistent := h.sound.consistent
  constructor
  · intro g hlinked
    obtain ⟨s, hs, hrun⟩ := Action.run_groupBalances hcons hlinked hclient
    refine ⟨s, _, hrun, hs, Statement.failsOnly_balancesOf _ g, fun k hshares => ?_⟩
    obtain ⟨b, hb, -⟩ := Statement.exists_balancesOf hcons hshares
    exact ⟨b, hb⟩
  · obtain ⟨s, hs, hrun⟩ := Statement.run_ofUser hclient caller
    refine ⟨s, _, hrun, hs, Statement.failsOnly_viewOf _ caller, fun k hshares => ?_⟩
    obtain ⟨v, hv, -⟩ := Statement.exists_viewOf hcons hshares
    exact ⟨v, hv⟩

/-- Ada gets the balances of the trip and her own. -/
theorem balances_answered_trip :
    ((∃ m ∈ Sample.trip.store.tables.membersOf 3, m.userId = some 1) ∧
      Sample.trip.store.tables.ExactStore 2 ∧ Sample.trip.store.Serves Sample.client) ∧
    (∃ s b, (Sample.service.operation 0 (.act 1 (.groupBalances 3))).run Sample.client
      Sample.trip.store = (s, some (.ok b))) ∧
    ∃ s v, (Sample.service.operation 0 (.myBalances 1)).run Sample.client
      Sample.trip.store = (s, some (.ok v)) := by
  have hlinked : ∃ m ∈ Sample.trip.store.tables.membersOf 3, m.userId = some 1 := by
    decide +kernel
  have hshares := Sample.exactStore_trip
  have hclient := Sample.serves_client Sample.trip.store
  have hcons : Sample.trip.store.tables.Consistent := Sample.reachable_trip.sound.consistent
  obtain ⟨hgroup, s', r', hrun', -, -, hview⟩ :=
    balances_answered Sample.reachable_trip hclient 0 1
  obtain ⟨s, r, hrun, -, -, hbalances⟩ := hgroup 3 hlinked
  obtain ⟨b, rfl⟩ := hbalances 2 (hcons.exactShares_of_store hshares 3)
  obtain ⟨v, rfl⟩ := hview 2 (hcons.exactUser_of_store hshares 1)
  exact ⟨⟨hlinked, hshares, hclient⟩, ⟨s, b, hrun⟩, s', v, hrun'⟩

end System

/-! ## Sums that go out of range -/

namespace Sample

/-- Commands given one after the other, each with time to finish. -/
def ledger (cs : List Command) : System :=
  cs.zipIdx.foldl (fun system c =>
    (system.given service c.2 client c.1).turns (.replicate 24 c.2)) .initial

theorem reachable_ledger (cs : List Command) : System.Reachable service (ledger cs) := by
  unfold ledger
  have hstart : System.Reachable service .initial := .initial
  generalize System.initial = system at hstart
  induction cs.zipIdx generalizing system with
  | nil => exact hstart
  | cons c cs ih => exact ih _ ((hstart.given c.2 client c.1).turns _)

/-- What one member paid for another. -/
def loan (paidBy owedBy : Int) (amount : Decimal) : ExpenseDraft :=
  { dinner with
    name := "Loan"
    amount
    paidBy
    shares := some [⟨some owedBy, .one, amount⟩] }

/-- Four accounts with ids from one, linked to the members six to nine of the
group five, and loans between these. -/
def loans (drafts : List ExpenseDraft) : System :=
  ledger ([register "alice", register "bob", register "carol", register "eve",
    .createGroup 1 ⟨"Loans", some "Alice"⟩, .act 1 (.addMember 5 ⟨"Bob", some 2⟩),
    .act 1 (.addMember 5 ⟨"Carol", some 3⟩), .act 1 (.addMember 5 ⟨"Eve", some 4⟩)] ++
    drafts.map fun d => .act 1 (.createExpense 5 d))

/-- A new group of Alice and Bob, who are its two next rows, and a loan. -/
def pair (groupId : Int) (draft : ExpenseDraft) : List Command :=
  [.createGroup 1 ⟨"Loans", some "Alice"⟩, .act 1 (.addMember groupId ⟨"Bob", some 2⟩),
    .act 1 (.createExpense groupId draft)]

/-- The largest amount. -/
def largest : Decimal := { Decimal.one with mantissa := 2 ^ 96 - 1, mantissa_lt := by decide }

theorem large_fits : 5 * 10 ^ 28 < Nat.pow 2 96 := by decide

/-- An amount next to which there is no room for a digit after the point. -/
def large : Decimal := { Decimal.one with mantissa := 5 * 10 ^ 28, mantissa_lt := large_fits }

theorem small_fits : 40 < Nat.pow 2 96 := by decide

/-- Forty cents. -/
def small : Decimal := cents 40 small_fits

/-- Alice and Carol owe Bob the largest amount each, and Bob owes it to Eve. -/
def chain : System := loans [loan 7 6 largest, loan 7 8 largest, loan 9 7 largest]

/-- Alice owes Bob a large amount, Eve owes him a small one, and he owes the large
one to Carol. -/
def remainder : System := loans [loan 7 6 large, loan 7 9 small, loan 8 7 large]

/-- Bob owes Alice the largest amount in two groups, and she owes it to him in a
third. -/
def detour : System :=
  ledger ([register "alice", register "bob"] ++ pair 3 (loan 4 5 largest) ++
    pair 8 (loan 9 10 largest) ++ pair 13 (loan 15 14 largest))

end Sample

namespace System

/-- **Sums on the way can leave a member without balances**: with Alice asking for
those of a group of hers or for her own, a sum is too large, the nets of the
group do not sum to zero, or the sum over her groups is too large. -/
theorem balances_out_of_range :
    (Reachable Sample.service Sample.chain ∧ Sample.chain.store.Serves Sample.client ∧
      (∃ m ∈ Sample.chain.store.tables.membersOf 5, m.userId = some 1) ∧
      ((Sample.service.operation 0 (.act 1 (.groupBalances 5))).run Sample.client
        Sample.chain.store).2 = some (.error (.overflow .addition))) ∧
    (Reachable Sample.service Sample.remainder ∧ Sample.remainder.store.Serves Sample.client ∧
      (∃ m ∈ Sample.remainder.store.tables.membersOf 5, m.userId = some 1) ∧
      ((Sample.service.operation 0 (.act 1 (.groupBalances 5))).run Sample.client
        Sample.remainder.store).2 = some (.error (.refused (.unbalanced Sample.small.neg)))) ∧
    Reachable Sample.service Sample.detour ∧ Sample.detour.store.Serves Sample.client ∧
      ((Sample.service.operation 0 (.myBalances 1)).run Sample.client
        Sample.detour.store).2 = some (.error (.overflow .addition)) := by
  refine ⟨⟨Sample.reachable_ledger _, Sample.serves_client _, ?_, ?_⟩,
    ⟨Sample.reachable_ledger _, Sample.serves_client _, ?_, ?_⟩,
    Sample.reachable_ledger _, Sample.serves_client _, ?_⟩ <;> decide +kernel

end System

end SharedLedger
