import SharedLedger.Proofs.Isolation
import SharedLedger.Proofs.Serving

/-!
# Outsiders

Who is not linked to a member of a group gets nothing out of it: whatever is
asked for is refused and nothing changes, and the refusal only tells whether
the thing that was named exists (`System.outsider_learns_nothing`). The four
ways to the group of a thing are one look-up in the tables
(`Access.read_owningGroup`); that the group of a share is found at all rests on
the invariant of the tables, as no share is left without its expense. Accounts
of others do not even tell that much.
-/

namespace SharedLedger

/-- Where a thing is kept. -/
def Resource.key : Resource → RowKey
  | group id => ⟨.groups, id⟩
  | member id => ⟨.members, id⟩
  | expense id => ⟨.expenses, id⟩
  | share id => ⟨.shares, id⟩

namespace Tables

variable {t : Tables} {caller : Int} {r : Resource}

/-- Whether a thing exists. -/
def has (t : Tables) (r : Resource) : Bool := t.contains r.key.table r.key.id

/-- The group a thing belongs to. -/
def owner? (t : Tables) : Resource → Option Int
  | .group id => (t.groups.find? id).map (·.id)
  | .member id => (t.members.find? id).map (·.groupId)
  | .expense id => (t.expenses.find? id).map (·.groupId)
  | .share id => (t.shares.find? id).bind fun s => (t.expenses.find? s.expenseId).map (·.groupId)

/-- The caller is not linked to a member of the group a thing belongs to. -/
def Outside (t : Tables) (caller : Int) (r : Resource) : Prop :=
  ∀ g ∈ t.owner? r, ∀ m ∈ t.membersOf g, m.userId ≠ some caller

instance : Decidable (t.Outside caller r) :=
  inferInstanceAs (Decidable (∀ g ∈ t.owner? r, ∀ m ∈ t.membersOf g, m.userId ≠ some caller))

/-- Whatever exists belongs to a group. -/
theorem Consistent.isSome_owner? (h : t.Consistent) (r : Resource) :
    (t.owner? r).isSome = t.has r := by
  cases r with
  | group id | member id | expense id =>
    simp [owner?, has, Resource.key, contains, Index.contains]
  | share id =>
    simp only [owner?, has, Resource.key, contains, Index.contains]
    cases hs : t.shares.find? id with
    | none => rfl
    | some s =>
      obtain ⟨e, he, -⟩ := h.share_expense s (Index.mem_of_find? hs)
      simp [he]

end Tables

namespace Access

variable {t : Tables} {caller : Int} {r : Resource}

/-- **The four ways to the group of a thing are one look-up.** -/
theorem read_owningGroup (h : t.Consistent) (r : Resource) :
    (owningGroup r).read t =
      ((t.owner? r).elim (.error (.refused (.notFound r.key.table r.key.id))) .ok) := by
  cases r with
  | group id =>
    change ((Plan.orRefuse _ (t.groups.find? id)).bind fun row => .done row.id).read t = _
    simp only [Tables.owner?]
    cases t.groups.find? id <;> rfl
  | member id =>
    change ((Plan.orRefuse _ (t.members.find? id)).bind fun row => .done row.groupId).read t = _
    simp only [Tables.owner?]
    cases t.members.find? id <;> rfl
  | expense id =>
    change ((Plan.orRefuse _ (t.expenses.find? id)).bind fun row => .done row.groupId).read t = _
    simp only [Tables.owner?]
    cases t.expenses.find? id <;> rfl
  | share id =>
    change ((Plan.orRefuse _ (t.shares.find? id)).bind fun s =>
      (Plan.expense s.expenseId).bind fun e => .done e.groupId).read t = _
    simp only [Tables.owner?]
    cases hs : t.shares.find? id with
    | none => rfl
    | some s =>
      -- the expense of a share that exists is there
      obtain ⟨e, he, -⟩ := h.share_expense s (Index.mem_of_find? hs)
      change ((Plan.orRefuse _ (t.expenses.find? s.expenseId)).bind fun e =>
        .done e.groupId).read t = _
      simp only [Option.bind_some, he]
      rfl

/-- **Who is outside is not authorized.** -/
theorem permit_of_outside (h : t.Consistent) (ho : t.Outside caller r) :
    permit t caller r =
      .error (.refused (if t.has r then .forbidden else .notFound r.key.table r.key.id)) := by
  unfold permit
  rw [read_owningGroup h, ← h.isSome_owner? r]
  cases hg : t.owner? r with
  | none => rfl
  | some g =>
    have hnobody : ¬ ((t.membersOf g).any fun m => m.isLinkedTo caller) = true := by
      rw [any_isLinkedTo]
      rintro ⟨m, hm, hlinked⟩
      exact ho g hg m hm hlinked
    exact if_neg hnobody

end Access

/-! ## What is refused -/

/-- The operation is refused and leaves the ledger as it is. -/
def Operation.Refused {α : Type} (op : Operation α) (client : Client) (s : Store)
    (e : LedgerError) : Prop :=
  ∃ s', op.run client s = (s', some (.error (.refused e))) ∧ s'.tables = s.tables ∧
    s'.committed = s.committed

theorem Operation.Refused.result_eq {α : Type} {op : Operation α} {client : Client} {s : Store}
    {e : LedgerError} (h : op.Refused client s e) :
    (op.run client s).2 = some (.error (.refused e)) := by
  obtain ⟨s', hrun, -, -⟩ := h
  rw [hrun]

namespace Action

variable {a : Action} {s : Store} {client : Client} {caller : Int}

/-- Whether arguments are looked at before it is known whether the caller has
access. -/
def checksArguments : Action → Bool
  | renameGroup .. | createExpense .. | updateExpense .. => true
  | _ => false

theorem checksArguments_of_checkFirst {e : LedgerError} (h : a.checkFirst = .error e) :
    a.checksArguments = true := by
  cases a <;> first | rfl | cases h

/-- What an outsider is told. -/
def refusal (a : Action) (known : Bool) : LedgerError :=
  match a.checkFirst with
  | .error e => e
  | .ok () => if known then .forbidden else .notFound a.resource.key.table a.resource.key.id

/-- A refusal is about the arguments or about access. -/
theorem refusal_cases (a : Action) (known : Bool) :
    (a.checksArguments = true ∧ a.checkFirst = .error (a.refusal known)) ∨
      (a.checkFirst = .ok () ∧ a.refusal known =
        if known then .forbidden else .notFound a.resource.key.table a.resource.key.id) := by
  unfold refusal
  cases hcheck : a.checkFirst with
  | error e => exact .inl ⟨checksArguments_of_checkFirst hcheck, rfl⟩
  | ok => exact .inr ⟨rfl, rfl⟩

/-- **An outsider is refused**, and told what the arguments say and whether
the thing exists. -/
theorem refused_of_outside (h : s.tables.Consistent) (hs : s.Serves client)
    (ho : s.tables.Outside caller a.resource) :
    (a.on caller).Refused client s (a.refusal (s.tables.has a.resource)) := by
  have hon : a.on caller = (Operation.ofCheck a.checkFirst).bind fun _ =>
      (Access.authorize caller a.resource).bind fun _ => a.operation := rfl
  unfold Operation.Refused Operation.run
  rw [hon]
  cases hcheck : a.checkFirst with
  | error e =>
    refine ⟨s, ?_, rfl, rfl⟩
    simp only [refusal, hcheck]
    rfl
  | ok =>
    obtain ⟨s', hs', hdrive⟩ :=
      Access.drive_authorize_bind (α := a.Reply) hs caller a.resource
    have hrun : ((Operation.ofCheck (.ok ())).bind fun _ =>
        (Access.authorize caller a.resource).bind fun _ => a.operation).drive client s =
          (s', .outside (.done (.error (.refused (a.refusal (s.tables.has a.resource)))))) := by
      refine (hdrive _).trans ?_
      rw [Access.permit_of_outside h ho]
      simp only [refusal, hcheck]
    refine ⟨s', ?_, hs'.tables_eq, hs'.committed_eq⟩
    rw [hrun]
    rfl

end Action

namespace Account

variable {client : Client} {s : Store} {caller userId : Int}

/-- **Accounts of others are out of reach**, whether or not they exist. -/
theorem run_of_ne (h : userId ≠ caller) (hashCost : ℕ) (u : UserUpdate) :
    (get caller userId).run client s = (s, some (.error (.refused .forbidden))) ∧
      (update hashCost caller userId u).run client s = (s, some (.error (.refused .forbidden))) ∧
      (delete caller userId).run client s = (s, some (.error (.refused .forbidden))) := by
  have hself : requireSelf caller userId = .error .forbidden := if_neg h.symm
  unfold get update delete
  rw [hself]
  exact ⟨rfl, rfl, rfl⟩

end Account

namespace System

/-- Somebody from outside is served by a system that can come about, and asks
for an action. -/
structure Outsider (service : Service) (sys : System) (client : Client) (caller : Int)
    (a : Action) : Prop where
  reachable : Reachable service sys
  served : sys.store.Serves client
  outside : sys.store.tables.Outside caller a.resource

variable {service : Service} {sys : System} {client : Client} {caller : ℤ} {a : Action}

theorem Outsider.refused (h : Outsider service sys client caller a) (now : ℕ) :
    (service.operation now (.act caller a)).Refused client sys.store
      (a.refusal (sys.store.tables.has a.resource)) :=
  Action.refused_of_outside h.reachable.sound.consistent h.served h.outside

/-- **Outsiders learn nothing.** An action on a thing of a group the caller is
not linked in is refused and changes nothing, and the caller is told that the
arguments of the action are not in order or whether the thing exists. Systems
that agree on that give equal answers. Whoever asks for the account of somebody
else is told the same in any case. -/
theorem outsider_learns_nothing (service : Service) (now : ℕ) (caller : ℤ) :
    (∀ (a : Action) (sys : System) (client : Client), Outsider service sys client caller a →
      ∃ e, (service.operation now (.act caller a)).Refused client sys.store e ∧
        ((a.checksArguments = true ∧ a.checkFirst = .error e) ∨
          (a.checkFirst = .ok () ∧ e = if sys.store.tables.has a.resource then .forbidden
            else .notFound a.resource.key.table a.resource.key.id))) ∧
    (∀ (a : Action) (sys₁ sys₂ : System) (client₁ client₂ : Client),
      Outsider service sys₁ client₁ caller a → Outsider service sys₂ client₂ caller a →
      sys₁.store.tables.has a.resource = sys₂.store.tables.has a.resource →
      ((service.operation now (.act caller a)).run client₁ sys₁.store).2 =
        ((service.operation now (.act caller a)).run client₂ sys₂.store).2) ∧
    (∀ userId, userId ≠ caller → ∀ (s : Store) (client : Client) (u : UserUpdate),
      (service.operation now (.getUser caller userId)).run client s =
          (s, some (.error (.refused .forbidden))) ∧
        (service.operation now (.updateUser caller userId u)).run client s =
          (s, some (.error (.refused .forbidden))) ∧
        (service.operation now (.deleteUser caller userId)).run client s =
          (s, some (.error (.refused .forbidden)))) := by
  refine ⟨fun a sys client h => ?_, fun a sys₁ sys₂ client₁ client₂ h₁ h₂ hsame => ?_,
    fun userId hne s client u => Account.run_of_ne hne service.hashCost u⟩
  · exact ⟨_, h.refused now, a.refusal_cases _⟩
  · rw [(h₁.refused now).result_eq, (h₂.refused now).result_eq, hsame]

end System

namespace Sample

/-- The small ledger after its group got another name. -/
def renamed : System :=
  (trip.given service 5 client (.act 1 (.renameGroup 3 "Holiday"))).turns (.replicate 12 5)

theorem reachable_renamed : System.Reachable service renamed :=
  reachable_trip |>.given 5 _ _ |>.turns _

end Sample

namespace System

/-- A stranger asks for a share of the dinner, before and after the group got
another name, and for an account. -/
theorem outsider_learns_nothing_of_dinner :
    (Outsider Sample.service Sample.trip Sample.client 7 (.getShare 7) ∧
      Outsider Sample.service Sample.renamed Sample.client 7 (.getShare 7) ∧
      Sample.trip.store.tables ≠ Sample.renamed.store.tables ∧
      Sample.trip.store.tables.has (.share 7) = true) ∧
    ((Sample.service.operation 0 (.act 7 (.getShare 7))).Refused Sample.client
        Sample.trip.store .forbidden ∧
      ((Sample.service.operation 0 (.act 7 (.getShare 7))).run Sample.client
          Sample.trip.store).2 =
        ((Sample.service.operation 0 (.act 7 (.getShare 7))).run Sample.client
          Sample.renamed.store).2 ∧
      (Sample.service.operation 0 (.getUser 7 1)).run Sample.client Sample.trip.store =
        (Sample.trip.store, some (.error (.refused .forbidden)))) := by
  have htrip : Outsider Sample.service Sample.trip Sample.client 7 (.getShare 7) :=
    ⟨Sample.reachable_trip, ⟨by decide +kernel, fun _ => by decide +kernel⟩, by decide +kernel⟩
  have hrenamed : Outsider Sample.service Sample.renamed Sample.client 7 (.getShare 7) :=
    ⟨Sample.reachable_renamed, ⟨by decide +kernel, fun _ => by decide +kernel⟩, by decide +kernel⟩
  have hknown : Sample.trip.store.tables.has (Action.getShare 7).resource = true := by
    decide +kernel
  have hstill : Sample.renamed.store.tables.has (Action.getShare 7).resource = true := by
    decide +kernel
  obtain ⟨hrefused, hequal, hself⟩ := outsider_learns_nothing Sample.service 0 7
  obtain ⟨e, he, ⟨harguments, -⟩ | ⟨-, rfl⟩⟩ := hrefused _ _ _ htrip
  · cases harguments
  refine ⟨⟨htrip, hrenamed, by decide +kernel, hknown⟩, ?_, ?_, ?_⟩
  · rwa [if_pos hknown] at he
  · exact hequal _ _ _ _ _ htrip hrenamed (hknown.trans hstill.symm)
  · exact (hself 1 (by decide) _ _ ⟨none, none, none⟩).1

end System

end SharedLedger
