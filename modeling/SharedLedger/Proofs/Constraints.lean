import SharedLedger.Proofs.Atomicity
import SharedLedger.Proofs.Lawful

/-!
# Constraints that need no locks

Part of what holds of the committed tables does not depend on the care of those
who write (`Tables.Constrained`): the tables refuse what would break it. This is
so however many transactions are open at the same time, whatever they call and
whether or not they lock anything (`Pool.constrained_of_moves`), although each
of them checks its writes against a snapshot of its own and its journal is
replayed on tables that have moved on.

The one mutation that nothing checks is the deletion of an account. A journal
has it only right after the account was taken off all members that are linked
to it at that time (`Orderly`), also where a call failed half-way.
-/

namespace SharedLedger

/-- Deletes no account. -/
def Mutation.Plain : Mutation → Prop
  | .delete .users _ => False
  | _ => True

/-- A journal in which an account is deleted only right after it was taken off
all members. -/
inductive Orderly : List Mutation → Prop
  | nil : Orderly []
  | plain {m : Mutation} {js : List Mutation} (hm : m.Plain) (h : Orderly js) : Orderly (m :: js)
  | dropUser (id : Int) {js : List Mutation} (h : Orderly js) :
      Orderly (.unlinkUser id :: .delete .users id :: js)

namespace Orderly

variable {js ks : List Mutation}

theorem append (h : Orderly js) (h' : Orderly ks) : Orderly (js ++ ks) := by
  induction h with
  | nil => exact h'
  | plain hm _ ih => exact ih.plain hm
  | dropUser id _ ih => exact ih.dropUser id

theorem of_plain (h : ∀ m ∈ js, m.Plain) : Orderly js := by
  induction js with
  | nil => exact .nil
  | cons m js ih =>
    obtain ⟨hm, hjs⟩ := List.forall_mem_cons.1 h
    exact (ih hjs).plain hm

end Orderly

namespace Tables

/-! ## Each mutation -/

/-- **What the tables enforce on their own.** -/
structure Constrained (t : Tables) : Prop where
  /-- Addresses are unique. -/
  email_unique : ∀ u ∈ t.users.toList, ∀ v ∈ t.users.toList, u.email = v.email → u = v
  /-- An account is linked to one member of a group at most. -/
  link_unique : ∀ m ∈ t.members.toList, ∀ o ∈ t.members.toList, m.groupId = o.groupId →
    ∀ u, m.userId = some u → o.userId = some u → m = o
  /-- The account a member is linked to exists. -/
  member_user : ∀ m ∈ t.members.toList, ∀ u, m.userId = some u → t.users.contains u = true
  /-- The member who paid an expense exists. -/
  expense_payer : ∀ e ∈ t.expenses.toList, t.members.contains e.paidBy = true

variable {t t' : Tables}

theorem constrained_empty : empty.Constrained where
  email_unique _ h := by cases h
  link_unique _ h := by cases h
  member_user _ h := by cases h
  expense_payer _ h := by cases h

namespace Constrained

theorem put_user (h : t.Constrained) {u : User} (hc : t.check (.put (.user u)) = .ok ()) :
    (t.enact (.put (.user u))).Constrained where
  email_unique v hv w hw he := by
    have hfree := check_put_user.1 hc
    rcases (Index.mem_put ..).1 hv with rfl | ⟨hv', hvu⟩ <;>
      rcases (Index.mem_put ..).1 hw with rfl | ⟨hw', hwu⟩
    · rfl
    · exact absurd (hfree w hw' he.symm) hwu
    · exact absurd (hfree v hv' he) hvu
    · exact h.email_unique v hv' w hw' he
  link_unique := h.link_unique
  member_user m hm v hv := contains_put_of_contains (h.member_user m hm v hv)
  expense_payer := h.expense_payer

theorem put_member (h : t.Constrained) {m : Member} (hc : t.check (.put (.member m)) = .ok ()) :
    (t.enact (.put (.member m))).Constrained where
  email_unique := h.email_unique
  link_unique o ho p hp hg u hou hpu := by
    have hlink := (check_put_member.1 hc).2
    rcases (Index.mem_put ..).1 ho with rfl | ⟨ho', hom⟩ <;>
      rcases (Index.mem_put ..).1 hp with rfl | ⟨hp', hpm⟩
    · rfl
    · exact absurd ((hlink u hou).2 p hp' hg.symm hpu) hpm
    · exact absurd ((hlink u hpu).2 o ho' hg hou) hom
    · exact h.link_unique o ho' p hp' hg u hou hpu
  member_user o ho u hu := by
    rcases (Index.mem_put ..).1 ho with rfl | ⟨ho, -⟩
    · exact ((check_put_member.1 hc).2 u hu).1
    · exact h.member_user o ho u hu
  expense_payer e he := contains_put_of_contains (h.expense_payer e he)

theorem put_expense (h : t.Constrained) {e : Expense} (hc : t.check (.put (.expense e)) = .ok ()) :
    (t.enact (.put (.expense e))).Constrained where
  email_unique := h.email_unique
  link_unique := h.link_unique
  member_user := h.member_user
  expense_payer x hx := by
    rcases (Index.mem_put ..).1 hx with rfl | ⟨hx, -⟩
    · exact (check_put_expense.1 hc).2
    · exact h.expense_payer x hx

theorem delete_member (h : t.Constrained) {id : Int} (hc : t.check (.delete .members id) = .ok ()) :
    (t.enact (.delete .members id)).Constrained where
  email_unique := h.email_unique
  link_unique m hm o ho :=
    h.link_unique m ((Index.mem_erase ..).1 hm).1 o ((Index.mem_erase ..).1 ho).1
  member_user m hm := h.member_user m ((Index.mem_erase ..).1 hm).1
  expense_payer e he := by
    have hne := check_delete_member.1 hc e he
    refine (Index.contains_congr ?_).trans (h.expense_payer e he)
    exact (Index.find?_erase ..).trans (if_neg hne.symm)

theorem delete_expense (h : t.Constrained) (id : Int) :
    (t.enact (.delete .expenses id)).Constrained where
  email_unique := h.email_unique
  link_unique := h.link_unique
  member_user := h.member_user
  expense_payer e he := h.expense_payer e ((Index.mem_erase ..).1 he).1

theorem mem_members_unlinkUser {id : Int} {m : Member} :
    m ∈ (t.enact (.unlinkUser id)).members.toList ↔
      ∃ o ∈ t.members.toList, (if o.isLinkedTo id then o.unlinked else o) = m := by
  rw [enact, Index.mem_map]

theorem unlinkUser (h : t.Constrained) (id : Int) : (t.enact (.unlinkUser id)).Constrained where
  email_unique := h.email_unique
  link_unique m hm o ho hg u hmu hou := by
    obtain ⟨m', hm', rfl⟩ := mem_members_unlinkUser.1 hm
    obtain ⟨o', ho', rfl⟩ := mem_members_unlinkUser.1 ho
    -- a member that still has an account is the row it was
    split at hmu <;> split at hou
    · cases hmu
    · cases hmu
    · cases hou
    · next hmid hoid =>
      simp only [hmid, hoid, Bool.false_eq_true, ↓reduceIte] at hg ⊢
      exact h.link_unique m' hm' o' ho' hg u hmu hou
  member_user m hm u hu := by
    obtain ⟨m', hm', rfl⟩ := mem_members_unlinkUser.1 hm
    split at hu
    · cases hu
    · exact h.member_user m' hm' u hu
  expense_payer e he := by
    obtain ⟨m, hm⟩ := Index.contains_eq_true_iff.1 (h.expense_payer e he)
    rw [Index.contains_eq_true_iff]
    simp only [Tables.enact, Index.find?_map, hm, Option.map_some]
    exact ⟨_, rfl⟩

/-- Nobody is linked to an account that is deleted right after it was taken off
all members. -/
theorem dropUser (h : t.Constrained) (id : Int) : (t.dropUser id).Constrained where
  email_unique u hu v hv :=
    h.email_unique u ((Index.mem_erase ..).1 hu).1 v ((Index.mem_erase ..).1 hv).1
  link_unique := (h.unlinkUser id).link_unique
  member_user m hm u hu := by
    have hexists : t.users.contains u = true := (h.unlinkUser id).member_user m hm u hu
    obtain ⟨o, -, rfl⟩ := mem_members_dropUser.1 hm
    have hne : id ≠ u := by
      rintro rfl
      split at hu
      · cases hu
      · next hne => exact hne hu
    exact (Index.contains_congr ((Index.find?_erase ..).trans (if_neg hne))).trans hexists
  expense_payer := (h.unlinkUser id).expense_payer

/-- **Every mutation but the deletion of an account keeps the constraints** if
the tables accept it. -/
theorem enact (h : t.Constrained) {m : Mutation} (hm : m.Plain) (hc : t.check m = .ok ()) :
    (t.enact m).Constrained := by
  cases m with
  | put row =>
    cases row with
    | user u => exact h.put_user hc
    | member m => exact h.put_member hc
    | expense e => exact h.put_expense hc
    | group g | share s => exact ⟨h.email_unique, h.link_unique, h.member_user, h.expense_payer⟩
  | delete table id =>
    cases table with
    | users => exact hm.elim
    | members => exact h.delete_member hc
    | expenses => exact h.delete_expense id
    | groups | shares => exact ⟨h.email_unique, h.link_unique, h.member_user, h.expense_payer⟩
  | unlinkUser id => exact h.unlinkUser id

/-- **An orderly journal keeps the constraints**, whatever tables it was made
for. -/
theorem replay (h : t.Constrained) {js : List Mutation} (ho : Orderly js)
    (hr : t.replay js = .ok t') : t'.Constrained := by
  induction ho generalizing t with
  | nil =>
    cases hr
    exact h
  | plain hm _ ih =>
    obtain ⟨hc, hr⟩ := replay_cons.1 hr
    exact ih (h.enact hm hc) hr
  | dropUser id _ ih =>
    obtain ⟨-, hr⟩ := replay_cons.1 hr
    obtain ⟨-, hr⟩ := replay_cons.1 hr
    exact ih (h.dropUser id) hr

end Constrained

end Tables

/-! ## Each call -/

namespace Tables

variable {t : Tables} {id : Int} {m : Mutation}

theorem mem_deletionOfShares (h : m ∈ t.deletionOfShares id) :
    ∃ table k, table ≠ .users ∧ m = .delete table k := by
  obtain ⟨s, -, rfl⟩ := List.mem_map.1 h
  exact ⟨.shares, s.id, nofun, rfl⟩

theorem mem_deletionOfMembers (h : m ∈ t.deletionOfMembers id) :
    ∃ table k, table ≠ .users ∧ m = .delete table k := by
  obtain ⟨o, -, rfl⟩ := List.mem_map.1 h
  exact ⟨.members, o.id, nofun, rfl⟩

theorem mem_deletionOfExpense (h : m ∈ t.deletionOfExpense id) :
    ∃ table k, table ≠ .users ∧ m = .delete table k := by
  rcases List.mem_append.1 h with h | h
  · exact mem_deletionOfShares h
  · exact ⟨.expenses, id, nofun, List.mem_singleton.1 h⟩

theorem mem_deletionOfGroup (h : m ∈ t.deletionOfGroup id) :
    ∃ table k, table ≠ .users ∧ m = .delete table k := by
  rcases List.mem_append.1 h with h | h
  · rcases List.mem_append.1 h with h | h
    · obtain ⟨e, -, h⟩ := List.mem_flatMap.1 h
      exact mem_deletionOfExpense h
    · exact mem_deletionOfMembers h
  · exact ⟨.groups, id, nofun, List.mem_singleton.1 h⟩

end Tables

namespace Call

open Plan (require_bind_eq_ok)

/-- The row that a call puts in, under the id it is offered if the row is new. -/
def row? (freshId : Int) : Call → Option Row
  | insertUser name email credential => some (.user ⟨freshId, name, email, credential⟩)
  | updateUser u => some (.user u)
  | insertGroup name => some (.group ⟨freshId, name⟩)
  | updateGroup g => some (.group g)
  | insertMember groupId m => some (.member ⟨freshId, groupId, m.userId, m.name⟩)
  | updateMember m => some (.member m)
  | insertExpense groupId e => some (.expense (e.row freshId groupId))
  | updateExpense e => some (.expense e)
  | insertShare expenseId expenseAmount s => some (.share (s.row freshId expenseId expenseAmount))
  | _ => none

variable {c : Call} {view : Tables} {n : Int} {ms : List Mutation} {r : c.Reply} {m : Mutation}

/-- Such a call writes nothing else. -/
theorem effect_of_row {row : Row} (hrow : c.row? n = some row)
    (he : c.effect view n = .ok (ms, r)) : ms = [.put row] := by
  cases c with
  | updateUser | updateGroup | updateMember | updateExpense =>
    obtain ⟨-, hms⟩ := require_bind_eq_ok.1 he
    cases hms
    cases hrow
    rfl
  | insertUser | insertGroup | insertMember | insertExpense | insertShare =>
    cases he
    cases hrow
    rfl
  | _ => cases hrow

/-- **What a call can write**: the row it puts in, deletions of rows that are
no accounts, or what it takes to delete an account. -/
theorem mem_effect (he : c.effect view n = .ok (ms, r)) (hm : m ∈ ms) :
    (∃ row, c.row? n = some row ∧ m = .put row) ∨
    (∃ table id, table ≠ .users ∧ m = .delete table id) ∨
    ∃ id, c = .deleteUser id ∧ (m = .unlinkUser id ∨ m = .delete .users id) := by
  cases c with
  | deleteUser id =>
    obtain ⟨-, hms⟩ := require_bind_eq_ok.1 he
    cases hms
    exact .inr (.inr ⟨id, rfl, by simpa using hm⟩)
  | deleteGroup id =>
    obtain ⟨-, hms⟩ := require_bind_eq_ok.1 he
    cases hms
    exact .inr (.inl (Tables.mem_deletionOfGroup hm))
  | deleteExpense id =>
    obtain ⟨-, hms⟩ := require_bind_eq_ok.1 he
    cases hms
    exact .inr (.inl (Tables.mem_deletionOfExpense hm))
  | deleteMembers id =>
    simp only [effect] at he
    split at he
    · cases he
    · cases he
      exact .inr (.inl (Tables.mem_deletionOfMembers hm))
  | deleteShares id =>
    cases he
    exact .inr (.inl (Tables.mem_deletionOfShares hm))
  | updateUser | updateGroup | updateMember | updateExpense | insertUser | insertGroup
  | insertMember | insertExpense | insertShare =>
    rw [effect_of_row rfl he] at hm
    exact .inl ⟨_, rfl, List.mem_singleton.1 hm⟩
  | _ =>
    cases he
    cases hm

/-- Only the deletion of an account writes one. -/
theorem plain_of_effect (hc : ∀ id, c ≠ .deleteUser id) (he : c.effect view n = .ok (ms, r)) :
    ∀ m ∈ ms, m.Plain := by
  intro m hm
  obtain ⟨row, -, rfl⟩ | ⟨table, k, hne, rfl⟩ | ⟨id, hdelete, -⟩ := mem_effect he hm
  · exact trivial
  · cases table with
    | users => exact absurd rfl hne
    | groups | members | expenses | shares => exact trivial
  · exact absurd hdelete (hc id)

/-- **What a call has written is orderly**, also where it stopped half-way. -/
theorem orderly_of_prefix (he : c.effect view n = .ok (ms, r)) {js : List Mutation}
    (hjs : js <+: ms) : Orderly js := by
  by_cases hc : ∃ id, c = .deleteUser id
  · obtain ⟨id, rfl⟩ := hc
    obtain ⟨-, hms⟩ := require_bind_eq_ok.1 he
    cases hms
    match js with
    | [] => exact .nil
    | [m] =>
      obtain ⟨hm, -⟩ := List.cons_prefix_cons.1 hjs
      rw [hm]
      exact .plain trivial .nil
    | m :: m' :: rest =>
      obtain ⟨hm, hrest⟩ := List.cons_prefix_cons.1 hjs
      obtain ⟨hm', hrest⟩ := List.cons_prefix_cons.1 hrest
      rw [hm, hm', List.prefix_nil.1 hrest]
      exact .dropUser id .nil
  · have hplain := plain_of_effect (not_exists.1 hc) he
    exact .of_plain fun m hm => hplain m (hjs.subset hm)

end Call

/-- Writing adds a part of the mutations, up to the one that is refused. -/
theorem Txn.journal_write (t : Txn) (ms : List Mutation) :
    ∃ js, js <+: ms ∧ (t.write ms).2.journal = t.journal ++ js := by
  induction ms generalizing t with
  | nil => exact ⟨[], List.prefix_rfl, (List.append_nil _).symm⟩
  | cons m ms ih =>
    simp only [write]
    split
    · exact ⟨[], List.nil_prefix, (List.append_nil _).symm⟩
    · next view hv =>
      obtain ⟨js, hjs, hwrite⟩ := ih { t with view, journal := t.journal ++ [m] }
      refine ⟨m :: js, List.cons_prefix_cons.2 ⟨rfl, hjs⟩, ?_⟩
      rw [hwrite, List.append_assoc]
      rfl

namespace Store

variable {s : Store} {t : Txn}

theorem orderly_perform (ho : Orderly t.journal) (n : Int) (c : Call) :
    Orderly (perform t n c).2.journal := by
  unfold perform
  split
  · exact ho
  · next ms r he =>
    obtain ⟨js, hjs, hwrite⟩ := t.journal_write ms
    have hafter : Orderly (t.write ms).2.journal := by
      rw [hwrite]
      exact ho.append (Call.orderly_of_prefix he hjs)
    split <;> next hw => rw [hw] at hafter; exact hafter

/-- A call keeps the journal of its transaction orderly, whatever comes of
it. -/
theorem orderly_call (ho : Orderly t.journal) (c : Call) : Orderly (s.call t c).2.1.journal := by
  unfold call
  split
  · exact ho
  split
  · exact orderly_perform ho ..
  split
  · exact ho
  · exact orderly_perform ho ..

theorem tables_call (s : Store) (t : Txn) (c : Call) : (s.call t c).2.2.tables = s.tables := by
  cases h : s.call t c with
  | mk r ts =>
    cases r with
    | ok r => exact congrArg Books.tables (call_eq_ok h).2
    | error e =>
      rcases (call_eq_error h).2 with hb | hb
      · exact congrArg Books.tables hb
      · exact congrArg Books.tables hb

theorem journal_acquire (s : Store) (t : Txn) (key : RowKey) :
    (s.acquire t key).2.journal = t.journal := by
  unfold acquire
  split <;> rfl

/-- Waiting for a lock writes nothing. -/
theorem journal_awaitLock (s : Store) (t : Txn) (key : RowKey) :
    (s.awaitLock t key).2.1.journal = t.journal ∧ (s.awaitLock t key).2.2.tables = s.tables := by
  unfold awaitLock
  split
  · exact ⟨rfl, rfl⟩
  split
  · exact ⟨s.journal_acquire t key, rfl⟩
  · exact ⟨rfl, rfl⟩

theorem journal_requestLock (s : Store) (t : Txn) (key : RowKey) :
    (s.requestLock t key).2.1.journal = t.journal ∧ (s.requestLock t key).2.2.tables = s.tables := by
  unfold requestLock
  split
  · next ha => exact ⟨rfl, congrArg Books.tables (books_allow ha)⟩
  next s₁ ha =>
  have htables : s₁.tables = s.tables := congrArg Books.tables (books_allow ha)
  split
  · exact ⟨rfl, htables⟩
  · obtain ⟨hj, ht⟩ := journal_awaitLock { s₁ with lockQueue := s₁.lockQueue ++ [(key, t.id)] } t key
    exact ⟨hj, ht.trans htables⟩

/-- **A commit keeps the constraints** if its journal is orderly. -/
theorem constrained_commit (h : s.tables.Constrained) (ho : Orderly t.journal) :
    (s.commit t).2.tables.Constrained := by
  unfold commit
  rcases publish_cases (Prod.eta (s.publish t)).symm with ⟨-, tables, hv, hb⟩ | ⟨-, hb⟩
  · have htables : (s.publish t).2.tables = tables := congrArg Books.tables hb
    exact (htables ▸ h.replay ho hv : (s.publish t).2.tables.Constrained)
  · have htables : (s.publish t).2.tables = s.tables := congrArg Books.tables hb
    exact (htables ▸ h : (s.publish t).2.tables.Constrained)

end Store

/-! ## Any number of transactions -/

/-- What can be done in an open transaction. -/
inductive Deed where
  | call (c : Call)
  | requestLock (key : RowKey)
  /-- Asks for a lock and waits for it even where it is free. -/
  | queueUp (key : RowKey)
  | awaitLock (key : RowKey)
  /-- Gives up waiting for a lock, but not the transaction. -/
  | leaveQueue (key : RowKey)
  | commit
  | rollback
  /-- Gives up the transaction. -/
  | drop

/-- The store and the transaction after something was done in it, if that did
not end it. -/
def Deed.on (s : Store) (t : Txn) : Deed → Store × Option Txn
  | call c => ((s.call t c).2.2, some (s.call t c).2.1)
  | requestLock key => ((s.requestLock t key).2.2, some (s.requestLock t key).2.1)
  | queueUp key => ({ s with lockQueue := s.lockQueue ++ [(key, t.id)] }, some t)
  | awaitLock key => ((s.awaitLock t key).2.2, some (s.awaitLock t key).2.1)
  | leaveQueue key => (s.leaveQueue t key, some t)
  | commit => ((s.commit t).2, none)
  | rollback => ((s.rollback t).2, none)
  | drop => (s.release t, none)

/-- What can happen next where transactions are open side by side. -/
inductive Move where
  /-- A transaction is opened in a place that is free. -/
  | begin (i : Nat) (client : Client)
  /-- Something is done in an open transaction. -/
  | deed (i : Nat) (d : Deed)
  /-- A client goes away or a fault is set up. -/
  | disturb (d : Disturbance)
  /-- The supply of ids goes on somewhere else. -/
  | renumber (nextId : Int)

/-- A store and the transactions that are open on it. -/
structure Pool where
  store : Store
  txns : Nat → Option Txn

namespace Pool

/-- A new store without transactions. -/
def initial : Pool := ⟨.empty, fun _ => none⟩

/-- The pool with one transaction exchanged, and the store after that. -/
def set (p : Pool) (i : Nat) (st : Store × Option Txn) : Pool :=
  ⟨st.1, Function.update p.txns i st.2⟩

/-- The pool after a move. One that cannot be made changes nothing. -/
def after (p : Pool) : Move → Pool
  | .begin i client =>
    match p.txns i with
    | none => p.set i ((p.store.begin client).2, (p.store.begin client).1.toOption)
    | some _ => p
  | .deed i d =>
    match p.txns i with
    | none => p
    | some t => p.set i (d.on p.store t)
  | .disturb d => { p with store := p.store.disturb d }
  | .renumber nextId => { p with store := { p.store with nextId } }

/-- The constraints hold of the committed tables, and all journals are
orderly. -/
structure Safe (p : Pool) : Prop where
  constrained : p.store.tables.Constrained
  orderly : ∀ i t, p.txns i = some t → Orderly t.journal

variable {p : Pool}

theorem safe_initial : initial.Safe where
  constrained := Tables.constrained_empty
  orderly _ _ ht := by cases ht

theorem Safe.set (h : p.Safe) {i : Nat} {st : Store × Option Txn} (hs : st.1.tables.Constrained)
    (ht : ∀ t ∈ st.2, Orderly t.journal) : (p.set i st).Safe where
  constrained := hs
  orderly j t hj := by
    by_cases hij : j = i
    · subst hij
      exact ht t (by simpa [Pool.set] using hj)
    · exact h.orderly j t (by simpa [Pool.set, hij] using hj)

/-- A transaction that goes on with its journal as it was, on the tables as they
were. -/
theorem Safe.keep (h : p.Safe) {i : Nat} {t t' : Txn} {s : Store} (ht : p.txns i = some t)
    (hj : t'.journal = t.journal) (hs : s.tables = p.store.tables) :
    (p.set i (s, some t')).Safe :=
  h.set (hs.symm ▸ h.constrained) fun _ ht' => Option.some.inj ht' ▸ hj.symm ▸ h.orderly i t ht

/-- A transaction that is over. -/
theorem Safe.conclude (h : p.Safe) (i : Nat) {s : Store} (hs : s.tables.Constrained) :
    (p.set i (s, none)).Safe :=
  h.set hs fun _ ht => by cases ht

/-- Nothing that is done in a transaction whose journal is orderly breaks the
constraints. -/
theorem Safe.deed (h : p.Safe) {i : Nat} {t : Txn} (ht : p.txns i = some t) (d : Deed) :
    (p.set i (d.on p.store t)).Safe := by
  have ho := h.orderly i t ht
  cases d with
  | call c =>
    refine h.set ?_ fun t' ht' => ?_
    · rw [Deed.on, Store.tables_call]
      exact h.constrained
    · cases ht'
      exact Store.orderly_call ho c
  | requestLock key =>
    obtain ⟨hj, hs⟩ := p.store.journal_requestLock t key
    exact h.keep ht hj hs
  | awaitLock key =>
    obtain ⟨hj, hs⟩ := p.store.journal_awaitLock t key
    exact h.keep ht hj hs
  | queueUp key | leaveQueue key => exact h.keep ht rfl rfl
  | commit => exact h.conclude i (Store.constrained_commit h.constrained ho)
  | rollback =>
    have hs : (p.store.rollback t).2.tables = p.store.tables :=
      congrArg Books.tables (Store.books_rollback p.store t)
    exact h.conclude i (hs.symm ▸ h.constrained)
  | drop => exact h.conclude i h.constrained

/-- **Every move keeps the constraints.** -/
theorem Safe.after (h : p.Safe) (m : Move) : (p.after m).Safe := by
  cases m with
  | begin i client =>
    cases hi : p.txns i with
    | some t => simpa only [Pool.after, hi] using h
    | none =>
      simp only [Pool.after, hi]
      -- a transaction starts with an empty journal, and opening it changes no row
      rcases Store.begin_cases (Prod.eta (p.store.begin client)).symm with ⟨hr, hb⟩ | ⟨⟨e, hr⟩, hb⟩
      all_goals
        have hsame : (p.store.begin client).2.tables = p.store.tables := congrArg Books.tables hb
        refine h.set (by rw [hsame]; exact h.constrained) fun t ht => ?_
        rw [hr] at ht
        cases ht
      exact .nil
  | deed i d =>
    cases hi : p.txns i with
    | none => simpa only [Pool.after, hi] using h
    | some t =>
      simp only [Pool.after, hi]
      exact h.deed hi d
  | disturb d => exact ⟨(p.store.tables_disturb d).symm ▸ h.constrained, h.orderly⟩
  | renumber n => exact ⟨h.constrained, h.orderly⟩

theorem Safe.moves (h : p.Safe) (moves : List Move) : (moves.foldl Pool.after p).Safe := by
  induction moves generalizing p with
  | nil => exact h
  | cons m moves ih => exact ih (h.after m)

/-- **The tables enforce their constraints without any locks.** However many
transactions are open, whatever calls they make, and in whatever order all this
happens: addresses are unique, an account is linked to one member of a group at
most and exists, and so does the member who paid an expense. -/
theorem constrained_of_moves (moves : List Move) :
    (moves.foldl after initial).store.tables.Constrained :=
  (safe_initial.moves moves).constrained

/-- An account is deleted by a transaction that does not know the member who
was linked to it meanwhile: the member stays, without the account. -/
example :
    let client : Client := ⟨none, false⟩
    let setUp := [.begin 0 client,
      .deed 0 (.call (.insertUser "Ada" "ada@example.org" (.opaqueText ""))),
      .deed 0 (.call (.insertGroup "Trip")), .deed 0 .commit]
    let race := [.begin 0 client, .deed 0 (.call (.deleteUser 1)), .begin 1 client,
      .deed 1 (.call (.insertMember 2 ⟨"Ada", some 1⟩)), .deed 1 .commit, .deed 0 .commit]
    let tables := ((setUp ++ race).foldl after initial).store.tables
    tables.users.toList = [] ∧ tables.members.toList = [⟨3, 2, none, "Ada"⟩] := by
  decide +kernel

end Pool

end SharedLedger
