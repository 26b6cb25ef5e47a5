import SharedLedger.Proofs.Deleted
import SharedLedger.Proofs.Driven
import SharedLedger.Proofs.Waiting

/-!
# Deletions

What is deleted takes with it what belongs to it: a group its members, its expenses
and their shares, an expense its shares. An account takes nothing with it, but the
members linked to it are linked to it no more. The rows are deleted one after the
other, and the store refuses to delete a member who has paid for something; but the
expenses of a group go before its members, and nobody has paid for an expense of
another group. So a deletion never fails midway, and it is complete
(`System.deletion_comesTo`).
-/

namespace SharedLedger

open Tables Plan

/-! ## What is left -/

namespace Tables

variable {t t' : Tables} {id : Int}

/-- Of the group and of all that belongs to it nothing is left, and all else is. -/
structure GroupGone (t t' : Tables) (id : Int) : Prop where
  group : ∀ g, g ∈ t'.groups.toList ↔ g ∈ t.groups.toList ∧ g.id ≠ id
  member : ∀ m, m ∈ t'.members.toList ↔ m ∈ t.members.toList ∧ m.groupId ≠ id
  expense : ∀ e, e ∈ t'.expenses.toList ↔ e ∈ t.expenses.toList ∧ e.groupId ≠ id
  share : ∀ s, s ∈ t'.shares.toList ↔
    s ∈ t.shares.toList ∧ ∀ e ∈ t.expenses.toList, e.groupId = id → e.id ≠ s.expenseId
  users_eq : t'.users = t.users

/-- Of the expense and of its shares nothing is left, and all else is. -/
structure ExpenseGone (t t' : Tables) (id : Int) : Prop where
  expense : ∀ e, e ∈ t'.expenses.toList ↔ e ∈ t.expenses.toList ∧ e.id ≠ id
  share : ∀ s, s ∈ t'.shares.toList ↔ s ∈ t.shares.toList ∧ s.expenseId ≠ id
  users_eq : t'.users = t.users
  groups_eq : t'.groups = t.groups
  members_eq : t'.members = t.members

/-- The account is gone, who was linked to it is linked to none, and all else is what
it was. -/
structure AccountGone (t t' : Tables) (id : Int) : Prop where
  user : ∀ u, u ∈ t'.users.toList ↔ u ∈ t.users.toList ∧ u.id ≠ id
  members_eq : t'.members.toList =
    t.members.toList.map fun m => if m.userId = some id then m.unlinked else m
  groups_eq : t'.groups = t.groups
  expenses_eq : t'.expenses = t.expenses
  shares_eq : t'.shares = t.shares

theorem groupGone_dropGroup (t : Tables) (id : Int) : t.GroupGone (dropGroup t id) id where
  group g := Index.mem_erase ..
  member m := by simp [dropGroup]
  expense e := by simp [dropGroup]
  share s := mem_shares_dropGroup
  users_eq := rfl

theorem expenseGone_drop (t : Tables) (id : Int) :
    t.ExpenseGone ((t.dropShares fun s => s.expenseId == id).enact (.delete .expenses id)) id where
  expense e := Index.mem_erase ..
  share s := by simp [dropShares, enact]
  users_eq := rfl
  groups_eq := rfl
  members_eq := rfl

theorem accountGone_dropUser (t : Tables) (id : Int) : t.AccountGone (dropUser t id) id where
  user u := Index.mem_erase ..
  members_eq := by simp [dropUser, enact, Member.isLinkedTo]
  groups_eq := rfl
  expenses_eq := rfl
  shares_eq := rfl

end Tables

/-! ## What the plans come to -/

section Plans

variable {t : Tables} {ids : Stream' Int} {id : Int}

/-- **The deletion of a group is never refused**: once its expenses are gone, none of
its members has paid for anything. -/
theorem Group.alone_deletion_of_contains (ht : t.Consistent) (hin : t.groups.contains id = true) :
    (Group.deletion id).alone t ids =
      .ok ⟨(), [⟨.groups, id⟩], t.deletionOfGroup id, dropGroup t id, ids⟩ := by
  have hb : Base [⟨.groups, id⟩] t t := .refl_singleton ht hin
  exact Group.alone_deletion.2
    ⟨hin, _, Group.replay_deletionOfGroup hb ht (List.mem_singleton_self _), rfl⟩

/-- Deleting one's own account. -/
theorem Account.delete_comesTo {s : Store} {client : Client} (h : s.Ready client)
    (hin : s.tables.users.contains id = true) :
    (Account.delete id id).ComesTo client s ⟨.users, id⟩ fun s' r =>
      r = .ok () ∧ s'.tables = dropUser s.tables id := by
  rw [Account.delete_eq]
  refine Operation.comesTo h (Operation.locksOnly_single
    (locksOnly_hold_bind rfl fun _ => unlocked_ask _)) fun s' r hrun => ?_
  obtain ⟨hl, rfl⟩ := Operation.of_run_single h hrun
  obtain ⟨htables, hr⟩ := hl.of_alone (Account.alone_deletion.2 ⟨hin, rfl⟩)
  exact ⟨hr, htables⟩

end Plans

namespace System

variable {service : Service} {sys : System} {client : Client}

/-- **Deletions always succeed, and are complete.** Whatever has happened before:
whoever is linked to a member of a group may delete it, and nothing of it is left;
may delete an expense of it, and the answer is how many shares went with it; and who
has an account may delete it, and nobody is linked to it any more. Nothing else
changes. They are kept waiting only by who has asked for the row of the group, of the
expense or of the account, and if no transaction is open nobody has. -/
theorem deletion_comesTo (h : Reachable service sys) (hserves : sys.store.Serves client)
    (hinserts : sys.store.failingInsert = none) (now : Nat) :
    (∀ caller g, (∃ m ∈ sys.store.tables.membersOf g, m.userId = some caller) →
      (service.operation now (.act caller (.deleteGroup g))).ComesTo client sys.store ⟨.groups, g⟩
        fun s' r => r = .ok () ∧ sys.store.tables.GroupGone s'.tables g) ∧
    (∀ caller id e, sys.store.tables.expenses.find? id = some e →
      (∃ m ∈ sys.store.tables.membersOf e.groupId, m.userId = some caller) →
      (service.operation now (.act caller (.deleteExpense id))).ComesTo client sys.store
        ⟨.expenses, id⟩ fun s' r => r = .ok (sys.store.tables.sharesOf id).length ∧
          sys.store.tables.ExpenseGone s'.tables id) ∧
    (∀ id, sys.store.tables.users.contains id = true →
      (service.operation now (.deleteUser id id)).ComesTo client sys.store ⟨.users, id⟩
        fun s' r => r = .ok () ∧ sys.store.tables.AccountGone s'.tables id) ∧
    ((∀ X, ¬ sys.Open X) → sys.store.lockQueue = []) := by
  have hsound := h.sound
  have hcons := hsound.consistent
  have hready : sys.store.Ready client := ⟨hserves, hinserts, hsound.request_lt⟩
  refine ⟨fun caller g hlinked => ?_, fun caller id e he hlinked => ?_, fun id hin => ?_,
    h.queued.lockQueue_eq_nil⟩
  · have hg : sys.store.tables.groups.contains g = true := hcons.contains_of_linked hlinked
    refine Action.comesTo_on (a := .deleteGroup g) rfl rfl
      (locksOnly_hold_bind rfl fun _ => unlocked_ask _) hready (Access.permit_eq_ok hg hlinked)
      fun s' hl => ?_
    obtain ⟨htables, hr⟩ := hl.of_alone (Group.alone_deletion_of_contains hcons hg)
    exact ⟨hr, htables ▸ groupGone_dropGroup ..⟩
  · refine Action.comesTo_on (a := .deleteExpense id) rfl rfl
      (locksOnly_hold_bind rfl fun _ => (unlocked_ask _).bind fun _ =>
        (unlocked_ask _).bind fun _ => .done _)
      hready (Access.permit_expense he hlinked) fun s' hl => ?_
    obtain ⟨htables, hr⟩ := hl.of_alone (Expense.alone_deletion.2
      ⟨Index.contains_eq_true_iff.2 ⟨e, he⟩, rfl⟩)
    exact ⟨hr, htables ▸ expenseGone_drop ..⟩
  · exact (Account.delete_comesTo hready hin).mono fun s' r hr =>
      ⟨hr.1, hr.2 ▸ accountGone_dropUser ..⟩

/-- Ada deletes the group, or the dinner, or her account. -/
theorem deletion_comesTo_trip :
    (∃ s', (Sample.service.operation 0 (.act 1 (.deleteGroup 3))).run Sample.client
        Sample.trip.store = (s', some (.ok ())) ∧
      Sample.trip.store.tables.GroupGone s'.tables 3) ∧
    (∃ s', (Sample.service.operation 0 (.act 1 (.deleteExpense 6))).run Sample.client
        Sample.trip.store = (s', some (.ok 2)) ∧
      Sample.trip.store.tables.ExpenseGone s'.tables 6) ∧
    ∃ s', (Sample.service.operation 0 (.deleteUser 1 1)).run Sample.client
        Sample.trip.store = (s', some (.ok ())) ∧
      Sample.trip.store.tables.AccountGone s'.tables 1 := by
  have hserves : Sample.trip.store.Serves Sample.client := ⟨rfl, nofun⟩
  obtain ⟨hgroup, hexpense, haccount, -⟩ :=
    deletion_comesTo Sample.reachable_trip hserves (by decide +kernel) 0
  have hidle : ∀ key X, (key, X) ∉ Sample.trip.store.lockQueue := by
    have hqueue : Sample.trip.store.lockQueue = [] := by decide +kernel
    simp [hqueue]
  refine ⟨?_, ?_, ?_⟩
  · have h := hgroup 1 3 (by decide +kernel)
    obtain ⟨s', r, hrun⟩ := h.answered (hidle _)
    obtain ⟨rfl, hgone⟩ := h.outcome s' r hrun
    exact ⟨s', hrun, hgone⟩
  · obtain ⟨e, he⟩ : ∃ e, Sample.trip.store.tables.expenses.find? 6 = some e :=
      Index.contains_eq_true_iff.1 (by decide +kernel)
    have hlinked : ∀ e ∈ Sample.trip.store.tables.expenses.find? 6,
        ∃ m ∈ Sample.trip.store.tables.membersOf e.groupId, m.userId = some 1 := by decide +kernel
    have hshares : (Sample.trip.store.tables.sharesOf 6).length = 2 := by decide +kernel
    have h := hexpense 1 6 e he (hlinked e he)
    obtain ⟨s', r, hrun⟩ := h.answered (hidle _)
    obtain ⟨rfl, hgone⟩ := h.outcome s' r hrun
    rw [hshares] at hrun
    exact ⟨s', hrun, hgone⟩
  · have h := haccount 1 (by decide +kernel)
    obtain ⟨s', r, hrun⟩ := h.answered (hidle _)
    obtain ⟨rfl, hgone⟩ := h.outcome s' r hrun
    exact ⟨s', hrun, hgone⟩

end System

end SharedLedger
