import SharedLedger.Proofs.Constraints
import SharedLedger.Proofs.Isolation
import SharedLedger.Proofs.Replacement

/-!
# Texts that are kept

Names, addresses, categories and notes are checked where a request comes in and
not where a row is written. Rows that are rewritten keep texts they had, and the
first member of a new group may be called what an account is called. All the
same, every text that is stored at any time is a proper one
(`System.proper_of_reachable`): a plan writes proper rows as long as those it
reads are proper (`Plan.Careful`).
-/

namespace SharedLedger

/-! ## Proper texts -/

namespace Naming

variable {field name : String} {value note : Option String}

/-- A name that is accepted in every field. -/
def ProperName (name : String) : Prop := ∀ field, validateName field name = .ok ()

/-- A note or a category that is accepted in every field. -/
def ProperNote (note : Option String) : Prop := ∀ field, validateNote field note = .ok ()

theorem validateName_eq_ok_iff : validateName field name = .ok () ↔
    isBlank name = false ∧ name.length ≤ maxName ∧ name.toList.any Text.isControl = false := by
  unfold validateName
  split
  · next h => simp [h]
  split
  · next h => simp [Nat.not_le_of_lt h]
  split
  · next h => simp [h]
  · next hblank hlong hcontrol => simp_all

/-- **A proper name** has a character that is no blank, is not too long and has
no control characters. -/
theorem properName_iff : ProperName name ↔
    (∃ c ∈ name.toList, Text.isBlank c = false) ∧ name.length ≤ maxName ∧
      ∀ c ∈ name.toList, Text.isControl c = false := by
  have hblank : isBlank name = false ↔ ∃ c ∈ name.toList, Text.isBlank c = false := by
    simp [isBlank, List.all_eq_false]
  have hcontrol : name.toList.any Text.isControl = false ↔
      ∀ c ∈ name.toList, Text.isControl c = false := by
    simp [List.any_eq_false]
  rw [← hblank, ← hcontrol]
  exact ⟨fun h => validateName_eq_ok_iff.1 (h "name"), fun h _ => validateName_eq_ok_iff.2 h⟩

/-- It does not matter in which field a name was checked. -/
theorem properName_of_validate (h : validateName field name = .ok ()) : ProperName name :=
  fun _ => validateName_eq_ok_iff.2 (validateName_eq_ok_iff.1 h)

theorem properName_of_validate? (h : validateName? field value = .ok ()) :
    ∀ v, value = some v → ProperName v := by
  rintro v rfl
  exact properName_of_validate h

/-- **A proper note** is not too long, if there is one. -/
theorem properNote_iff : ProperNote note ↔ ∀ v, note = some v → v.length ≤ maxNote := by
  unfold ProperNote validateNote
  cases note with
  | none => simp
  | some v => simp

theorem properNote_of_validate (h : validateNote field note = .ok ()) : ProperNote note := by
  refine properNote_iff.2 ?_
  rintro v rfl
  by_contra hlong
  simp [validateNote, Nat.lt_of_not_le hlong] at h

end Naming

open Naming

/-- **A row with proper texts.** -/
def Row.Proper : Row → Prop
  | .user u => ProperName u.name ∧ validateEmail u.email = .ok ()
  | .group g => ProperName g.name
  | .member m => ProperName m.name
  | .expense e => ProperName e.name ∧ ProperNote e.category ∧ ProperNote e.note
  | .share _ => True

/-- A mutation that puts no other rows in. -/
def Mutation.Proper : Mutation → Prop
  | .put row => row.Proper
  | .delete .. | .unlinkUser _ => True

namespace Tables

/-- **All texts are proper**: names and addresses of accounts, names of groups and
members, and names, categories and notes of expenses. -/
structure Proper (t : Tables) : Prop where
  user : ∀ u ∈ t.users.toList, ProperName u.name ∧ validateEmail u.email = .ok ()
  group : ∀ g ∈ t.groups.toList, ProperName g.name
  member : ∀ m ∈ t.members.toList, ProperName m.name
  expense : ∀ e ∈ t.expenses.toList, ProperName e.name ∧ ProperNote e.category ∧ ProperNote e.note

variable {t t' : Tables} {m : Mutation} {ms : List Mutation}

theorem proper_empty : empty.Proper where
  user _ h := by cases h
  group _ h := by cases h
  member _ h := by cases h
  expense _ h := by cases h

/-- A row that is put in, and those that were there. -/
private theorem forall_mem_put {α : Type} {key : α → Int} {x : Index key} {a : α} {P : α → Prop}
    (h : ∀ b ∈ x.toList, P b) (ha : P a) : ∀ b ∈ (x.put a).toList, P b := by
  intro b hb
  obtain rfl | ⟨hb, -⟩ := (x.mem_put a b).1 hb
  · exact ha
  · exact h b hb

private theorem forall_mem_erase {α : Type} {key : α → Int} {x : Index key} {k : Int} {P : α → Prop}
    (h : ∀ b ∈ x.toList, P b) : ∀ b ∈ (x.erase k).toList, P b :=
  fun b hb => h b ((x.mem_erase k b).1 hb).1

theorem Proper.enact (h : t.Proper) (hm : m.Proper) : (t.enact m).Proper := by
  cases m with
  | put row =>
    cases row with
    | user u => exact { h with user := forall_mem_put h.user hm }
    | group g => exact { h with group := forall_mem_put h.group hm }
    | member o => exact { h with member := forall_mem_put h.member hm }
    | expense e => exact { h with expense := forall_mem_put h.expense hm }
    | share s => exact { h with }
  | delete table id =>
    cases table with
    | users => exact { h with user := forall_mem_erase h.user }
    | groups => exact { h with group := forall_mem_erase h.group }
    | members => exact { h with member := forall_mem_erase h.member }
    | expenses => exact { h with expense := forall_mem_erase h.expense }
    | shares => exact { h with }
  | unlinkUser id =>
    refine { h with member := fun o ho => ?_ }
    obtain ⟨m, hm, rfl⟩ : ∃ m ∈ t.members.toList,
        (if m.isLinkedTo id then m.unlinked else m) = o := by simpa [Tables.enact] using ho
    -- whoever loses a link keeps the name
    split <;> exact h.member m hm

theorem Proper.replay (h : t.Proper) (hms : ∀ m ∈ ms, m.Proper) (hr : t.replay ms = .ok t') :
    t'.Proper := by
  induction ms generalizing t with
  | nil =>
    cases hr
    exact h
  | cons m ms ih =>
    obtain ⟨hm, hms⟩ := List.forall_mem_cons.1 hms
    exact ih (h.enact hm) hms (replay_cons.1 hr).2

end Tables

/-! ## Calls and plans -/

/-- A call that puts proper rows in, if any. -/
def Call.Proper (c : Call) : Prop :=
  ∀ view n ms r, c.effect view n = .ok (ms, r) → ∀ m ∈ ms, m.Proper

theorem Call.proper_of_row {c : Call} (h : ∀ n row, c.row? n = some row → row.Proper) : c.Proper := by
  intro view n ms r he m hm
  obtain ⟨row, hrow, rfl⟩ | ⟨table, id, -, rfl⟩ | ⟨id, -, rfl | rfl⟩ := mem_effect he hm
  · exact h n row hrow
  · exact trivial
  · exact trivial
  · exact trivial

theorem Call.Reads.proper {c : Call} (h : c.Reads) : c.Proper := by
  intro view n ms r he m hm
  rw [h view n ms r he] at hm
  cases hm

namespace Plan

variable {α β : Type} {Q : α → Prop} {R : β → Prop} {p : Plan α}

/-- **A plan that takes care of its texts**: as long as all it reads is proper, it
writes proper rows and comes to something with the property `Q`. -/
inductive Careful (Q : α → Prop) : Plan α → Prop
  | done {a : α} (h : Q a) : Careful Q (.done a)
  | fail (e : Failure) : Careful Q (.fail e)
  | lock {key : RowKey} {next : Plan α} (h : next.Careful Q) : Careful Q (.lock key next)
  | call {c : Call} {next : c.Reply → Plan α} (hc : c.Proper)
      (h : ∀ view n ms r, view.Proper → c.effect view n = .ok (ms, r) → (next r).Careful Q) :
      Careful Q (.call c next)

theorem Careful.bind {f : α → Plan β} (hp : p.Careful Q) (hf : ∀ a, Q a → (f a).Careful R) :
    (p.bind f).Careful R := by
  induction hp with
  | done h => exact hf _ h
  | fail e => exact .fail e
  | lock _ ih => exact .lock ih
  | call hc _ ih => exact .call hc fun view n ms r hview he => ih view n ms r hview he

theorem ReadOnly.careful (h : p.ReadOnly) : p.Careful fun _ => True := by
  induction h with
  | done a => exact .done trivial
  | fail e => exact .fail e
  | call hc _ ih => exact .call hc.proper fun _ _ _ r _ _ => ih r

theorem careful_ask {c : Call} {Q : c.Reply → Prop} (hc : c.Proper)
    (hQ : ∀ view n ms r, view.Proper → c.effect view n = .ok (ms, r) → Q r) : (ask c).Careful Q :=
  .call hc fun view n ms r hview he => .done (hQ view n ms r hview he)

/-- A call that puts in a row. -/
theorem careful_row (c : Call) (h : ∀ n row, c.row? n = some row → row.Proper) :
    (ask c).Careful fun _ => True :=
  careful_ask (Call.proper_of_row h) fun _ _ _ _ _ _ => trivial

/-- A call that puts in none. -/
theorem careful_no_row (c : Call) (h : ∀ n, c.row? n = none) : (ask c).Careful fun _ => True :=
  careful_row c fun n row hrow => by rw [h n] at hrow; cases hrow

theorem careful_orRefuse {e : LedgerError} {x : Option α} (h : ∀ a, x = some a → Q a) :
    (orRefuse e x).Careful Q := by
  cases x with
  | none => exact .fail _
  | some a => exact .done (h a rfl)

/-- A row that is looked up has the texts it was stored with. -/
theorem careful_find {c : Call} {e : LedgerError} {x : c.Reply → Option α} (hc : c.Reads)
    (h : ∀ view n ms r, view.Proper → c.effect view n = .ok (ms, r) → ∀ a, x r = some a → Q a) :
    ((ask c).bind fun r => orRefuse e (x r)).Careful Q :=
  (careful_ask hc.proper h).bind fun _ => careful_orRefuse

theorem careful_user (id : Int) : (user id).Careful fun u => (Row.user u).Proper := by
  refine careful_find (c := .findUser id) (Call.reads_of_effect fun _ _ => ⟨_, rfl⟩) ?_
  intro view n ms r hview he u hu
  cases he
  exact hview.user u (Index.mem_of_find? hu)

theorem careful_group (id : Int) : (group id).Careful fun g => (Row.group g).Proper := by
  refine careful_find (c := .findGroup id) (Call.reads_of_effect fun _ _ => ⟨_, rfl⟩) ?_
  intro view n ms r hview he g hg
  cases he
  exact hview.group g (Index.mem_of_find? hg)

theorem careful_member (id : Int) : (member id).Careful fun m => (Row.member m).Proper := by
  refine careful_find (c := .findMember id) (Call.reads_of_effect fun _ _ => ⟨_, rfl⟩) ?_
  intro view n ms r hview he m hm
  cases he
  exact hview.member m (Index.mem_of_find? hm)

theorem careful_expense (id : Int) : (expense id).Careful fun e => (Row.expense e).Proper := by
  refine careful_find (c := .findExpense id) (Call.reads_of_effect fun _ _ => ⟨_, rfl⟩) ?_
  intro view n ms r hview he e he'
  cases he
  exact hview.expense e (Index.mem_of_find? he')

end Plan

open Plan

/-! ## What the plans write -/

namespace Account

theorem careful_registration {name email : String} {credential : Credential}
    (hname : ProperName name) (hemail : validateEmail email = .ok ()) :
    (registration name email credential).Careful fun _ => True := by
  refine (readOnly_ask (c := .findUserByEmail email) fun _ _ => ⟨_, rfl⟩).careful.bind fun u _ => ?_
  split
  · exact .fail _
  · refine careful_row (.insertUser name email credential) fun n row hrow => ?_
    cases hrow
    exact ⟨hname, hemail⟩

/-- The address of an account stays, or is a new one that was checked. -/
theorem careful_address {u : User} {email : Option String}
    (hu : (Row.user u).Proper) (hemail : ∀ a, email = some a → validateEmail a = .ok ()) :
    (address u email).Careful fun a => validateEmail a = .ok () := by
  cases email with
  | none => exact .done hu.2
  | some a =>
    refine (readOnly_ask (c := .findUserByEmail a) fun _ _ => ⟨_, rfl⟩).careful.bind fun v _ => ?_
    split
    · exact .fail _
    · exact .done (hemail a rfl)

theorem careful_change {userId : Int} {u : UserUpdate} (credential : Option Credential)
    (hname : ∀ v, u.name = some v → ProperName v)
    (hemail : ∀ a, u.email = some a → validateEmail a = .ok ()) :
    (change userId u credential).Careful fun _ => True := by
  refine .lock ((careful_user userId).bind fun v hv => ?_)
  refine (careful_address hv hemail).bind fun a ha => careful_row (.updateUser _) fun n row hrow => ?_
  cases hrow
  refine ⟨?_, ha⟩
  cases h : u.name with
  | none => exact hv.1
  | some name => exact hname name h

theorem careful_deletion (userId : Int) : (deletion userId).Careful fun _ => True :=
  .lock (careful_no_row (.deleteUser userId) fun _ => rfl)

end Account

namespace Group

/-- The creator of a group is called what was asked for, or what the account is
called. -/
theorem careful_creation {userId : Int} {draft : GroupDraft} (hname : ProperName draft.name)
    (hmember : ∀ v, draft.memberName = some v → ProperName v) :
    (creation userId draft).Careful fun _ => True := by
  have hgroup : (ask (.insertGroup draft.name)).Careful fun _ => True :=
    careful_row (.insertGroup draft.name) fun n row hrow => by cases hrow; exact hname
  refine (careful_user userId).bind fun u hu => hgroup.bind fun g _ => ?_
  refine (careful_row (.insertMember g.id _) fun n row hrow => ?_).bind fun _ _ => .done trivial
  cases hrow
  cases h : draft.memberName with
  | none => exact hu.1
  | some name => exact hmember name h

theorem careful_nameChange (id : Int) {name : String} (hname : ProperName name) :
    (nameChange id name).Careful fun _ => True := by
  refine .lock ((careful_group id).bind fun g _ => careful_row (.updateGroup _) fun n row hrow => ?_)
  cases hrow
  exact hname

theorem careful_deletion (id : Int) : (deletion id).Careful fun _ => True :=
  .lock (careful_no_row (.deleteGroup id) fun _ => rfl)

theorem careful_insertMember (id : Int) {m : MemberDraft} (hm : ProperName m.name) :
    (ask (.insertMember id m)).Careful fun _ => True :=
  careful_row (.insertMember id m) fun n row hrow => by cases hrow; exact hm

theorem careful_addition (id : Int) {m : MemberDraft} (hm : ProperName m.name) :
    (addition id m).Careful fun _ => True :=
  .lock (careful_insertMember id hm)

theorem careful_insertMembers (id : Int) {ms : List MemberDraft} (hms : ∀ m ∈ ms, ProperName m.name) :
    (insertMembers id ms).Careful fun _ => True := by
  induction ms with
  | nil => exact .done trivial
  | cons m ms ih =>
    obtain ⟨hm, hms⟩ := List.forall_mem_cons.1 hms
    exact (careful_insertMember id hm).bind fun _ _ => (ih hms).bind fun _ _ => .done trivial

theorem careful_replacement (id : Int) {ms : List MemberDraft} (hms : ∀ m ∈ ms, ProperName m.name) :
    (replacement id ms).Careful fun _ => True :=
  .lock ((careful_no_row (.deleteMembers id) fun _ => rfl).bind fun _ _ =>
    (careful_insertMembers id hms).bind fun _ _ => .done trivial)

theorem careful_lockedMember (id : Int) :
    (lockedMember id).Careful fun m => (Row.member m).Proper :=
  (careful_member id).bind fun _ _ => .lock (careful_member id)

theorem careful_memberChange (id : Int) {u : MemberUpdate}
    (hname : ∀ v, u.name = some v → ProperName v) :
    (memberChange id u).Careful fun _ => True := by
  refine (careful_lockedMember id).bind fun m hm => careful_row (.updateMember _) fun n row hrow => ?_
  cases hrow
  cases h : u.name with
  | none => exact hm
  | some name => exact hname name h

theorem careful_unlinking (id : Int) : (unlinking id).Careful fun _ => True :=
  (careful_lockedMember id).bind fun m hm => careful_row (.updateMember m.unlinked)
    fun n row hrow => by cases hrow; exact hm

end Group

namespace Expense

theorem careful_insertShares (e : SharedLedger.Expense) (ss : List ShareDraft) :
    (insertShares e ss).Careful fun _ => True := by
  induction ss with
  | nil => exact .done trivial
  | cons s ss ih =>
    refine (careful_row (.insertShare e.id e.amount s) fun n row hrow => ?_).bind
      fun _ _ => ih.bind fun _ _ => .done trivial
    cases hrow
    exact trivial

theorem careful_writeShares (e : SharedLedger.Expense) (ss : List ShareDraft) :
    (writeShares e ss).Careful fun _ => True :=
  (readOnly_ask (c := .listMembers e.groupId) fun _ _ => ⟨_, rfl⟩).careful.bind fun _ _ =>
    (readOnly_ofExcept _).careful.bind fun _ _ =>
      (careful_no_row (.deleteShares e.id) fun _ => rfl).bind fun _ _ =>
        (careful_insertShares e ss).bind fun _ _ => .done trivial

theorem careful_writeGiven (e : SharedLedger.Expense) {otherwise : Plan SharedExpense}
    (h : otherwise.Careful fun _ => True) (shares : Option (List ShareDraft)) :
    (writeGiven e otherwise shares).Careful fun _ => True := by
  cases shares with
  | none => exact h
  | some ss => exact (careful_writeShares e ss).bind fun _ _ => .done trivial

theorem careful_creation (groupId : Int) {draft : ExpenseDraft} (hname : ProperName draft.name)
    (hcategory : ProperNote draft.category) (hnote : ProperNote draft.note) :
    (creation groupId draft).Careful fun _ => True := by
  rw [creation_eq]
  refine .lock ((readOnly_requirePayer groupId draft.paidBy).careful.bind fun _ _ => ?_)
  refine (careful_row (.insertExpense groupId draft) fun n row hrow => ?_).bind
    fun e _ => careful_writeGiven e (.done trivial) draft.shares
  cases hrow
  exact ⟨hname, hcategory, hnote⟩

theorem careful_locked (id : Int) : (locked id).Careful fun e => (Row.expense e).Proper :=
  .lock ((careful_expense id).bind fun _ he => .lock (.done he))

/-- A note is replaced by a new one or stays. -/
theorem properNote_orElse {new old : Option String} (hnew : ProperNote new) (hold : ProperNote old) :
    ProperNote (new <|> old) := by
  cases new with
  | none => exact hold
  | some v => exact hnew

theorem careful_change (id : Int) {u : ExpenseUpdate} (hname : ∀ v, u.name = some v → ProperName v)
    (hcategory : ProperNote u.category) (hnote : ProperNote u.note) :
    (change id u).Careful fun _ => True := by
  rw [change_eq]
  refine (careful_locked id).bind fun e he => ?_
  refine (readOnly_requireNoShares e u id).careful.bind fun _ _ => ?_
  refine (readOnly_requireNewPayer e u).careful.bind fun _ _ => ?_
  refine (careful_row (.updateExpense (changed e u)) fun n row hrow => ?_).bind fun e' _ =>
    careful_writeGiven e' ((readOnly_ask (c := .listShares id) fun _ _ => ⟨_, rfl⟩).careful.bind
      fun _ _ => .done trivial) u.shares
  cases hrow
  refine ⟨?_, properNote_orElse hcategory he.2.1, properNote_orElse hnote he.2.2⟩
  cases h : u.name with
  | none => simpa [changed, h] using he.1
  | some name => simpa [changed, h] using hname name h

theorem careful_deletion (id : Int) : (deletion id).Careful fun _ => True :=
  .lock ((careful_no_row (.deleteShares id) fun _ => rfl).bind fun _ _ =>
    (careful_no_row (.deleteExpense id) fun _ => rfl).bind fun _ _ => .done trivial)

theorem careful_sharing (id : Int) (ss : List ShareDraft) : (sharing id ss).Careful fun _ => True := by
  refine (careful_locked id).bind fun e _ => ?_
  refine (readOnly_ask (c := .listShares e.id) fun _ _ => ⟨_, rfl⟩).careful.bind fun old _ => ?_
  split
  · exact careful_writeShares e ss
  · exact .fail _

theorem careful_resharing (id : Int) (ss : List ShareDraft) :
    (resharing id ss).Careful fun _ => True :=
  (careful_locked id).bind fun e _ => careful_writeShares e ss

theorem careful_unsharing (id : Int) : (unsharing id).Careful fun _ => True :=
  .lock (careful_no_row (.deleteShares id) fun _ => rfl)

end Expense

/-! ## Operations -/

namespace Operation

variable {α β : Type} {op : Operation α}

/-- An operation whose transactions take care of their texts. -/
inductive Careful : Operation α → Prop
  | done (r : Except Failure α) : Careful (.done r)
  | transaction {β : Type} {body : Plan β} {next : Except LedgerError β → Operation α}
      (hb : body.Careful fun _ => True) (hn : ∀ r, (next r).Careful) :
      Careful (.transaction body next)

theorem Careful.bind {f : α → Operation β} (h : op.Careful) (hf : ∀ a, (f a).Careful) :
    (op.bind f).Careful := by
  induction h with
  | done r =>
    cases r with
    | ok a => exact hf a
    | error e => exact .done _
  | transaction hb _ ih => exact .transaction hb ih

theorem careful_single {body : Plan α} (h : body.Careful fun _ => True) : (single body).Careful :=
  .transaction h fun _ => .done _

theorem careful_single_of_readOnly {body : Plan α} (h : body.ReadOnly) : (single body).Careful :=
  careful_single h.careful

/-- **What comes after a check may rely on it.** -/
theorem careful_ofCheck_bind {x : Except LedgerError α} {f : α → Operation β}
    (hf : ∀ a, x = .ok a → (f a).Careful) : ((ofCheck x).bind f).Careful := by
  cases x with
  | ok a => exact hf a rfl
  | error e => exact .done _

end Operation

open Operation Failure

/-- The texts of a registration are checked. -/
theorem Account.proper_of_checkRegistration {r : Registration} (h : checkRegistration r = .ok ()) :
    ProperName r.name ∧ validateEmail r.email = .ok () := by
  obtain ⟨hemail, h⟩ := check_bind_eq_ok_iff.1 h
  obtain ⟨hname, -⟩ := check_bind_eq_ok_iff.1 h
  exact ⟨properName_of_validate hname, hemail⟩

theorem Account.proper_of_checkUpdate {u : UserUpdate} (h : checkUpdate u = .ok ()) :
    (∀ v, u.name = some v → ProperName v) ∧ ∀ a, u.email = some a → validateEmail a = .ok () := by
  obtain ⟨hname, h⟩ := check_bind_eq_ok_iff.1 h
  refine ⟨properName_of_validate? hname, fun a ha => ?_⟩
  rw [ha] at h
  exact h

theorem Group.proper_of_checkDraft {draft : GroupDraft} (h : checkDraft draft = .ok ()) :
    ProperName draft.name ∧ ∀ v, draft.memberName = some v → ProperName v := by
  obtain ⟨hname, hmember⟩ := check_bind_eq_ok_iff.1 h
  exact ⟨properName_of_validate hname, properName_of_validate? hmember⟩

theorem Expense.proper_of_checkDraft {draft : ExpenseDraft} (h : checkDraft draft = .ok ()) :
    ProperName draft.name ∧ ProperNote draft.category ∧ ProperNote draft.note := by
  obtain ⟨hname, h⟩ := check_bind_eq_ok_iff.1 h
  obtain ⟨-, h⟩ := check_bind_eq_ok_iff.1 h
  obtain ⟨hcategory, hnote⟩ := check_bind_eq_ok_iff.1 h
  exact ⟨properName_of_validate hname, properNote_of_validate hcategory,
    properNote_of_validate hnote⟩

theorem Expense.proper_of_checkUpdate {u : ExpenseUpdate} (h : checkUpdate u = .ok ()) :
    (∀ v, u.name = some v → ProperName v) ∧ ProperNote u.category ∧ ProperNote u.note := by
  obtain ⟨hname, h⟩ := check_bind_eq_ok_iff.1 h
  have hnotes : (do validateNote "category" u.category; validateNote "note" u.note) = .ok () := by
    cases ha : u.amount with
    | none =>
      rw [ha] at h
      exact h
    | some a =>
      rw [ha] at h
      exact (check_bind_eq_ok_iff.1 h).2
  obtain ⟨hcategory, hnote⟩ := check_bind_eq_ok_iff.1 hnotes
  exact ⟨properName_of_validate? hname, properNote_of_validate hcategory,
    properNote_of_validate hnote⟩

theorem Access.careful_authorize (caller : Int) (resource : Resource) :
    (authorize caller resource).Careful :=
  (careful_single_of_readOnly (readOnly_owningGroup resource)).bind fun groupId =>
    .transaction (readOnly_isMember groupId caller).careful fun _ => .done _

theorem Action.careful_operation (a : Action) (hcheck : a.checkFirst = .ok ()) :
    a.operation.Careful := by
  cases a with
  | getGroup id => exact careful_single_of_readOnly (readOnly_group id)
  | renameGroup id name =>
    exact careful_single (Group.careful_nameChange id (properName_of_validate hcheck))
  | deleteGroup id => exact careful_single (Group.careful_deletion id)
  | listMembers id | listExpenses id | listShares id =>
    exact careful_single_of_readOnly (readOnly_ask fun _ _ => ⟨_, rfl⟩)
  | addMember id m =>
    exact careful_ofCheck_bind fun _ h =>
      careful_single (Group.careful_addition id (properName_of_validate h))
  | replaceMembers id ms =>
    refine careful_ofCheck_bind fun _ h => careful_single (Group.careful_replacement id fun m hm => ?_)
    exact properName_of_validate ((validateMembers_eq_ok_iff.1 h).2.1 m hm)
  | updateMember id u =>
    exact careful_ofCheck_bind fun _ h =>
      careful_single (Group.careful_memberChange id (properName_of_validate? h))
  | unlinkMember id => exact careful_single (Group.careful_unlinking id)
  | createExpense id draft =>
    obtain ⟨hname, hcategory, hnote⟩ := Expense.proper_of_checkDraft hcheck
    exact careful_single (Expense.careful_creation id hname hcategory hnote)
  | getExpense id => exact careful_single_of_readOnly (readOnly_expense id)
  | updateExpense id u =>
    obtain ⟨hname, hcategory, hnote⟩ := Expense.proper_of_checkUpdate hcheck
    exact careful_single (Expense.careful_change id hname hcategory hnote)
  | deleteExpense id => exact careful_single (Expense.careful_deletion id)
  | getShare id => exact careful_single_of_readOnly (readOnly_share id)
  | createShares id ss => exact careful_single (Expense.careful_sharing id ss)
  | replaceShares id ss => exact careful_single (Expense.careful_resharing id ss)
  | clearShares id => exact careful_single (Expense.careful_unsharing id)
  | groupBalances id =>
    exact (careful_single_of_readOnly (Statement.readOnly_pairsAndNets id)).bind fun _ =>
      Operation.Careful.bind (.done _) fun _ => .done _

/-- **Every command takes care of its texts**, whatever texts it is given. -/
theorem Service.careful_operation (service : Service) (now : Nat) (c : Command) :
    (service.operation now c).Careful := by
  cases c with
  | register r =>
    refine careful_ofCheck_bind fun _ h => careful_ofCheck_bind fun _ _ => ?_
    obtain ⟨hname, hemail⟩ := Account.proper_of_checkRegistration h
    exact careful_single (Account.careful_registration hname hemail)
  | authenticate login =>
    refine (careful_single_of_readOnly (readOnly_ask fun _ _ => ⟨_, rfl⟩)).bind fun u => ?_
    cases u with
    | none => exact .done _
    | some u =>
      refine careful_ofCheck_bind fun b _ => ?_
      cases b <;> exact .done _
  | refresh token =>
    exact careful_ofCheck_bind fun _ _ => careful_ofCheck_bind fun id _ =>
      .transaction (readOnly_user id).careful fun _ => .done _
  | getUser caller userId =>
    exact careful_ofCheck_bind fun _ _ => careful_single_of_readOnly (readOnly_user userId)
  | updateUser caller userId u =>
    refine careful_ofCheck_bind fun _ _ => careful_ofCheck_bind fun _ h =>
      careful_ofCheck_bind fun credential _ => ?_
    obtain ⟨hname, hemail⟩ := Account.proper_of_checkUpdate h
    exact careful_single (Account.careful_change credential hname hemail)
  | deleteUser caller userId =>
    exact careful_ofCheck_bind fun _ _ => careful_single (Account.careful_deletion userId)
  | createGroup caller draft =>
    refine careful_ofCheck_bind fun _ h => ?_
    obtain ⟨hname, hmember⟩ := Group.proper_of_checkDraft h
    exact careful_single (Group.careful_creation hname hmember)
  | listGroups caller =>
    exact careful_single_of_readOnly
      (.bind (readOnly_ask fun _ _ => ⟨_, rfl⟩) Group.readOnly_groupsOf)
  | myBalances caller =>
    exact careful_single_of_readOnly (.bind (readOnly_ask fun _ _ => ⟨_, rfl⟩) fun ms =>
      .bind (Statement.readOnly_pairsOf ms) fun _ => readOnly_ofExcept _)
  | myExpenses caller =>
    exact careful_single_of_readOnly
      (.bind (readOnly_ask fun _ _ => ⟨_, rfl⟩) Statement.readOnly_paidBy)
  | myShares caller =>
    exact careful_single_of_readOnly
      (.bind (readOnly_ask fun _ _ => ⟨_, rfl⟩) Statement.readOnly_owedBy)
  | act caller a =>
    exact careful_ofCheck_bind fun _ hcheck =>
      (Access.careful_authorize caller a.resource).bind fun _ => a.careful_operation hcheck

/-! ## Whatever happens -/

namespace Run

variable {α : Type} {client : Client} {s s' : Store} {run run' : Run α}

/-- A run that has written proper rows so far and goes on with care. Where a call or
a lock was refused, nothing is written any more. -/
inductive Proper : Run α → Prop
  | outside {op : Operation α} (h : op.Careful) : Proper (.outside op)
  | inside {β : Type} {t : Txn} {plan : Plan β} {next : Except LedgerError β → Operation α}
      (hview : t.view.Proper) (hjournal : ∀ m ∈ t.journal, m.Proper)
      (hp : plan.Careful fun _ => True) (hn : ∀ r, (next r).Careful) : Proper (.inside t plan next)
  | waiting {β : Type} {t : Txn} {key : RowKey} {plan : Plan β}
      {next : Except LedgerError β → Operation α} (hjournal : ∀ m ∈ t.journal, m.Proper)
      (hp : plan.Careful fun _ => True) (hn : ∀ r, (next r).Careful) :
      Proper (.waiting t key plan next)
  | failed {β : Type} {t : Txn} {e : LedgerError} {next : Except LedgerError β → Operation α}
      (hn : ∀ r, (next r).Careful) : Proper (.inside t (.fail (.refused e)) next)

/-- **A step that commits keeps the tables proper**, and no other step changes them. -/
theorem Proper.tables (h : run.Proper) (hs : s.tables.Proper) (ht : Turn client s run s' run') :
    s'.tables.Proper := by
  obtain ⟨htables, -⟩ | ⟨β, t, a, next, rfl, -, hv, -⟩ := ht.tables_eq_or
  · rw [htables]
    exact hs
  · obtain _ | ⟨-, hjournal, -, -⟩ := h
    exact hs.replay hjournal hv

/-- **A step goes on with care.** The view of a transaction is proper as long as it
goes on: it is a snapshot, or is brought up to date, or has just been written to. -/
theorem Proper.turn (h : run.Proper) (hs : s.tables.Proper) (ht : Turn client s run s' run') :
    run'.Proper := by
  cases ht with
  | finished r => exact h
  | refused =>
    obtain ⟨_ | ⟨-, hn⟩⟩ := h
    exact .outside (hn _)
  | opened =>
    obtain ⟨_ | ⟨hb, hn⟩⟩ := h
    exact .inside hs (List.forall_mem_nil _) hb hn
  | committed | lost =>
    obtain _ | ⟨-, -, -, hn⟩ := h
    exact .outside (hn _)
  | rolledBack =>
    obtain _ | ⟨-, -, -, hn⟩ | _ | hn := h
    · exact .outside (hn _)
    · exact .outside (hn _)
  | overflowed => exact .outside (.done _)
  | held =>
    obtain _ | ⟨hview, hjournal, _ | _ | hp, hn⟩ := h
    exact .inside hview hjournal hp hn
  | asked =>
    obtain _ | ⟨-, hjournal, _ | _ | hp, hn⟩ := h
    exact .waiting hjournal hp hn
  | locked _ _ _ hv =>
    obtain _ | ⟨-, hjournal, _ | _ | hp, hn⟩ := h
    exact .inside (hs.replay hjournal hv) hjournal hp hn
  | granted _ hv =>
    obtain _ | _ | ⟨hjournal, hp, hn⟩ := h
    exact .inside (hs.replay hjournal hv) hjournal hp hn
  | still => exact h
  | denied hrun =>
    obtain rfl | rfl := hrun
    · obtain _ | ⟨-, -, -, hn⟩ := h
      exact .failed hn
    · obtain _ | _ | ⟨-, -, hn⟩ := h
      exact .failed hn
  | called he hv =>
    obtain _ | ⟨hview, hjournal, _ | _ | _ | ⟨hc, hp⟩, hn⟩ := h
    have hms := hc _ _ _ _ he
    exact .inside (hview.replay hms hv) (List.forall_mem_append.2 ⟨hjournal, hms⟩)
      (hp _ _ _ _ hview he) hn
  | failed =>
    obtain _ | ⟨-, -, -, hn⟩ := h
    exact .failed hn

end Run

namespace System

variable {service : Service} {sys : System}

/-- The committed tables and all that runs on them are proper. -/
structure Proper (sys : System) : Prop where
  tables : sys.store.tables.Proper
  run : ∀ i x, sys.sessions i = some x → x.run.Proper

/-- One session is exchanged, with the store. -/
theorem Proper.set (h : sys.Proper) {s : Store} (hs : s.tables.Proper) (i : Nat) {ox : Option Session}
    (hx : ∀ x, ox = some x → x.run.Proper) : (sys.set s i ox).Proper where
  tables := hs
  run j y hy := by
    by_cases hj : j = i
    · subst hj
      rw [set_sessions_self] at hy
      exact hx y hy
    · rw [set_sessions_of_ne hj] at hy
      exact h.run j y hy

theorem Proper.turn (h : sys.Proper) {i : Nat} {x : Session} (hx : sys.sessions i = some x)
    {s' : Store} {run' : Run x.command.Reply} (ht : Run.Turn x.client sys.store x.run s' run') :
    (sys.set s' i (some (x.moved sys.store s' run'))).Proper := by
  have hrun := h.run i x hx
  refine h.set (hrun.tables h.tables ht) i ?_
  rintro _ ⟨⟩
  exact hrun.turn h.tables ht

theorem Reachable.proper (h : Reachable service sys) : sys.Proper := by
  induction h with
  | initial => exact ⟨Tables.proper_empty, fun i x hx => by cases hx⟩
  | @step sys _ _ hs ih =>
    cases hs with
    | start i client now c _ =>
      refine ih.set ih.tables i ?_
      rintro _ ⟨⟩
      exact .outside (service.careful_operation now c)
    | turn i x hx => exact ih.turn hx (Run.step_turn (Prod.eta _).symm)
    | request i x hx hrun hallow hq => exact ih.turn hx (hrun ▸ turn_request hallow hq)
    | leave i x hx =>
      refine ih.set ?_ i fun y hy => by cases hy
      rw [Run.tables_abandon]
      exact ih.tables
    | disturb d =>
      exact ⟨(sys.store.tables_disturb d).symm ▸ ih.tables, ih.run⟩

/-- **All texts that are stored are proper at all times**, whatever texts the commands
were given, in whatever order their steps were taken, and wherever clients went away
or faults struck. -/
theorem proper_of_reachable (h : Reachable service sys) : sys.store.tables.Proper :=
  h.proper.tables

end System

namespace Sample

/-- A second group, whose first member is called what the account is called. -/
def namesake : System :=
  (trip.given service 5 client (.createGroup 2 ⟨"Club", none⟩)).turns (.replicate 8 5)

theorem reachable_namesake : System.Reachable service namesake := reachable_trip.given 5 _ _ |>.turns _

end Sample

/-- The name that nobody checked when the member was written. -/
theorem proper_namesake :
    Sample.namesake.store.tables.members.toList.map (·.name) = ["Ada", "Bea", "bea"] ∧
      Sample.namesake.store.tables.Proper :=
  ⟨by decide +kernel, System.proper_of_reachable Sample.reachable_namesake⟩

end SharedLedger
