import SharedLedger.Ledger.Command
import SharedLedger.Proofs.Effects.Account
import SharedLedger.Proofs.Effects.Expense
import SharedLedger.Proofs.Effects.Group
import SharedLedger.Proofs.Guarded

/-!
# What commands commit

Every transaction of every command locks before it writes and may be committed
late (`Service.lawful_operation`). It then does what it would do alone at that
moment, with one exception: a new group whose creator is called what the
account is called gets the name the account had when the transaction began.
-/

namespace SharedLedger

namespace Plan

open Tables

variable {α β : Type} {exact : Prop} {p : Plan α}

/-- A plan that only asks changes nothing. -/
theorem ReadOnly.alone_eq (h : p.ReadOnly) {t : Tables} {ids : Stream' Int} {o : Outcome α}
    (ho : p.alone t ids = .ok o) : o.journal = [] ∧ o.tables = t := by
  induction h generalizing o ids with
  | done a =>
    rw [alone_done.1 ho]
    exact ⟨rfl, rfl⟩
  | fail e => exact absurd ho alone_fail
  | call hc _ ih =>
    obtain ⟨ms, r, t', o', he, ht, ho', rfl⟩ := alone_call.1 ho
    obtain rfl := hc _ _ _ _ he
    cases ht
    exact ih r ho'

theorem ReadOnly.lawful (h : p.ReadOnly) : p.Lawful exact where
  commit {V T T' ids o} _ _ _ _ ho hr := by
    rw [(h.alone_eq ho).1] at hr
    cases hr
    refine ⟨.refl, fun _ => ?_⟩
    unfold tablesAfter
    split
    · next o' ho' => exact (h.alone_eq ho').2
    · rfl

/-! ## Plans without locks -/

theorem unlocked_ofExcept (x : Except Failure α) : (ofExcept x).Unlocked :=
  (readOnly_ofExcept x).unlocked

theorem unlocked_refuse (e : LedgerError) : (refuse e : Plan α).Unlocked := .fail _

end Plan

open Plan

namespace Account

theorem unlocked_address (u : User) (email : Option String) : (address u email).Unlocked := by
  cases email with
  | none => exact .done _
  | some email =>
    refine (unlocked_ask _).bind fun v => ?_
    split
    · exact unlocked_refuse _
    · exact .done _

theorem unlocked_registration (name email : String) (c : Credential) :
    (registration name email c).Unlocked := by
  refine (unlocked_ask _).bind fun u => ?_
  split
  · exact unlocked_refuse _
  · exact unlocked_ask _

theorem guarded_change (id : Int) (u : UserUpdate) (c : Option Credential) :
    (change id u c).Guarded :=
  guarded_hold_bind fun _ => (readOnly_user id).unlocked.bind fun v =>
    (unlocked_address v u.email).bind fun _ => unlocked_ask _

theorem guarded_deletion (id : Int) : (deletion id).Guarded :=
  guarded_hold_bind fun _ => unlocked_ask _

end Account

namespace Group

theorem unlocked_creation (userId : Int) (draft : GroupDraft) : (creation userId draft).Unlocked :=
  (readOnly_user userId).unlocked.bind fun _ => (unlocked_ask _).bind fun _ =>
    (unlocked_ask _).bind fun _ => .done _

theorem guarded_nameChange (id : Int) (name : String) : (nameChange id name).Guarded :=
  guarded_hold_bind fun _ => (readOnly_group id).unlocked.bind fun _ => unlocked_ask _

theorem guarded_deletion (id : Int) : (deletion id).Guarded :=
  guarded_hold_bind fun _ => unlocked_ask _

theorem guarded_addition (id : Int) (m : MemberDraft) : (addition id m).Guarded :=
  guarded_hold_bind fun _ => unlocked_ask _

theorem unlocked_insertMembers (id : Int) (ms : List MemberDraft) :
    (insertMembers id ms).Unlocked := by
  induction ms with
  | nil => exact .done _
  | cons m ms ih => exact (unlocked_ask _).bind fun _ => ih.bind fun _ => .done _

theorem guarded_replacement (id : Int) (ms : List MemberDraft) : (replacement id ms).Guarded :=
  guarded_hold_bind fun _ => (unlocked_ask _).bind fun _ =>
    (unlocked_insertMembers id ms).bind fun _ => .done _

theorem guarded_memberChange (id : Int) (u : MemberUpdate) : (memberChange id u).Guarded :=
  guarded_lockedMember_bind fun _ => unlocked_ask _

theorem guarded_unlinking (id : Int) : (unlinking id).Guarded :=
  guarded_lockedMember_bind fun _ => unlocked_ask _

end Group

namespace Expense

theorem unlocked_insertShares (e : Expense) (ss : List ShareDraft) :
    (insertShares e ss).Unlocked := by
  induction ss with
  | nil => exact .done _
  | cons s ss ih => exact (unlocked_ask _).bind fun _ => ih.bind fun _ => .done _

theorem unlocked_writeShares (e : Expense) (ss : List ShareDraft) : (writeShares e ss).Unlocked :=
  (unlocked_ask _).bind fun _ => (unlocked_ofExcept _).bind fun _ => (unlocked_ask _).bind fun _ =>
    (unlocked_insertShares e ss).bind fun _ => .done _

theorem guarded_creation (id : Int) (draft : ExpenseDraft) : (creation id draft).Guarded := by
  refine guarded_hold_bind fun _ => (readOnly_requirePayer id draft.paidBy).unlocked.bind fun _ =>
    (unlocked_ask _).bind fun e => ?_
  cases draft.shares with
  | none => exact .done _
  | some ss => exact (unlocked_writeShares e ss).bind fun _ => .done _

theorem readOnly_requireNewPayer (e : Expense) (u : ExpenseUpdate) :
    (requireNewPayer e u).ReadOnly := by
  unfold requireNewPayer
  cases u.paidBy with
  | none => exact .done _
  | some m => exact readOnly_requirePayer e.groupId m

theorem readOnly_requireNoShares (e : Expense) (u : ExpenseUpdate) (id : Int) :
    (requireNoShares e u id).ReadOnly := by
  unfold requireNoShares
  split
  · refine .bind (readOnly_ask fun _ _ => ⟨_, rfl⟩) fun ss => ?_
    split
    · exact .fail _
    · exact .done _
  · exact .done _

theorem guarded_change (id : Int) (u : ExpenseUpdate) : (change id u).Guarded := by
  rw [change_eq]
  refine guarded_locked_bind fun e => (readOnly_requireNoShares e u id).unlocked.bind fun _ =>
    (readOnly_requireNewPayer e u).unlocked.bind fun _ => (unlocked_ask _).bind fun e' => ?_
  cases u.shares with
  | none => exact (unlocked_ask _).bind fun _ => .done _
  | some ss => exact (unlocked_writeShares e' ss).bind fun _ => .done _

theorem guarded_deletion (id : Int) : (deletion id).Guarded :=
  guarded_hold_bind fun _ => (unlocked_ask _).bind fun _ => (unlocked_ask _).bind fun _ => .done _

theorem guarded_sharing (id : Int) (ss : List ShareDraft) : (sharing id ss).Guarded := by
  refine guarded_locked_bind fun e => (unlocked_ask _).bind fun shares => ?_
  split
  · exact unlocked_writeShares e ss
  · exact unlocked_refuse _

theorem guarded_resharing (id : Int) (ss : List ShareDraft) : (resharing id ss).Guarded :=
  guarded_locked_bind fun e => unlocked_writeShares e ss

theorem guarded_unsharing (id : Int) : (unsharing id).Guarded :=
  guarded_hold_bind fun _ => unlocked_ask _

end Expense

/-! ## Operations -/

namespace Operation

variable {α β : Type} {exact : Prop}

/-- An operation whose transactions may be committed late. -/
inductive Lawful (exact : Prop) : Operation α → Prop
  | done (r : Except Failure α) : Lawful exact (.done r)
  | transaction {β : Type} {body : Plan β} {next : Except LedgerError β → Operation α}
      (hg : body.Guarded) (hl : body.Lawful exact) (hn : ∀ r, (next r).Lawful exact) :
      Lawful exact (.transaction body next)

theorem lawful_ofCheck (x : Except LedgerError α) : (ofCheck x).Lawful exact := .done _

theorem Lawful.bind {op : Operation α} {f : α → Operation β} (h : op.Lawful exact)
    (hf : ∀ a, (f a).Lawful exact) : (op.bind f).Lawful exact := by
  induction h with
  | done r =>
    cases r with
    | ok a => exact hf a
    | error e => exact .done _
  | transaction hg hl _ ih => exact .transaction hg hl ih

/-- What comes after a check may rely on it. -/
theorem lawful_ofCheck_bind {x : Except LedgerError α} {f : α → Operation β}
    (hf : ∀ a, x = .ok a → (f a).Lawful exact) : ((ofCheck x).bind f).Lawful exact := by
  cases x with
  | ok a => exact hf a rfl
  | error e => exact .done _

theorem lawful_single {body : Plan α} (hg : body.Guarded) (hl : body.Lawful exact) :
    (single body).Lawful exact :=
  .transaction hg hl lawful_ofCheck

theorem lawful_single_of_readOnly {body : Plan α} (h : body.ReadOnly) :
    (single body).Lawful exact :=
  lawful_single h.guarded h.lawful

end Operation

namespace Expense

/-- A draft that was checked has an amount that is not negative. -/
theorem amount_nonneg_of_checkDraft {draft : ExpenseDraft} (h : checkDraft draft = .ok ()) :
    0 ≤ draft.amount.value := by
  obtain ⟨⟨⟩, -, h⟩ := Failure.bind_eq_ok_iff.1 h
  obtain ⟨⟨⟩, hamount, -⟩ := Failure.bind_eq_ok_iff.1 h
  exact Money.value_nonneg_of_requireNonNegative hamount

theorem amount_nonneg_of_checkUpdate {u : ExpenseUpdate} (h : checkUpdate u = .ok ()) :
    ∀ a, u.amount = some a → 0 ≤ a.value := by
  intro a ha
  obtain ⟨⟨⟩, -, h⟩ := Failure.bind_eq_ok_iff.1 h
  rw [ha] at h
  obtain ⟨⟨⟩, hamount, -⟩ := Failure.bind_eq_ok_iff.1 h
  exact Money.value_nonneg_of_requireNonNegative hamount

end Expense

section

variable {exact : Prop}

open Operation

theorem Access.lawful_authorize (caller : Int) (resource : Resource) :
    (authorize caller resource).Lawful exact :=
  (lawful_single_of_readOnly (readOnly_owningGroup resource)).bind fun groupId =>
    .transaction (readOnly_isMember groupId caller).guarded (readOnly_isMember groupId caller).lawful
      fun _ => lawful_ofCheck _

theorem Statement.lawful_ofGroup (id : Int) : (ofGroup id).Lawful exact := by
  refine (lawful_single_of_readOnly (readOnly_pairsAndNets id)).bind fun x => ?_
  exact .bind (.done _) fun _ => .done _

/-- An action that went through its first checks. -/
theorem Action.lawful_operation (a : Action) (hcheck : a.checkFirst = .ok ()) :
    a.operation.Lawful True := by
  cases a with
  | getGroup id => exact lawful_single_of_readOnly (readOnly_group id)
  | renameGroup id name => exact lawful_single (Group.guarded_nameChange ..) (Group.lawful_nameChange ..)
  | deleteGroup id => exact lawful_single (Group.guarded_deletion id) (Group.lawful_deletion id)
  | listMembers id => exact lawful_single_of_readOnly (readOnly_ask fun _ _ => ⟨_, rfl⟩)
  | addMember id m =>
    exact lawful_ofCheck_bind fun _ _ =>
      lawful_single (Group.guarded_addition id m) (Group.lawful_addition id m)
  | replaceMembers id ms =>
    exact lawful_ofCheck_bind fun _ _ =>
      lawful_single (Group.guarded_replacement id ms) (Group.lawful_replacement id ms)
  | updateMember id u =>
    exact lawful_ofCheck_bind fun _ _ =>
      lawful_single (Group.guarded_memberChange id u) (Group.lawful_memberChange id u)
  | unlinkMember id => exact lawful_single (Group.guarded_unlinking id) (Group.lawful_unlinking id)
  | listExpenses id => exact lawful_single_of_readOnly (readOnly_ask fun _ _ => ⟨_, rfl⟩)
  | createExpense id draft =>
    exact lawful_single (Expense.guarded_creation id draft)
      (Expense.lawful_creation id (Expense.amount_nonneg_of_checkDraft hcheck))
  | getExpense id => exact lawful_single_of_readOnly (readOnly_expense id)
  | updateExpense id u =>
    exact lawful_single (Expense.guarded_change id u)
      (Expense.lawful_change id (Expense.amount_nonneg_of_checkUpdate hcheck))
  | deleteExpense id => exact lawful_single (Expense.guarded_deletion id) (Expense.lawful_deletion id)
  | listShares id => exact lawful_single_of_readOnly (readOnly_ask fun _ _ => ⟨_, rfl⟩)
  | getShare id => exact lawful_single_of_readOnly (readOnly_share id)
  | createShares id ss => exact lawful_single (Expense.guarded_sharing id ss) (Expense.lawful_sharing id ss)
  | replaceShares id ss =>
    exact lawful_single (Expense.guarded_resharing id ss) (Expense.lawful_resharing id ss)
  | clearShares id => exact lawful_single (Expense.guarded_unsharing id) (Expense.lawful_unsharing id)
  | groupBalances id => exact Statement.lawful_ofGroup id

/-- Whether a command says itself how everybody is called. -/
def Command.Explicit : Command → Prop
  | .createGroup _ draft => draft.memberName ≠ none
  | _ => True

/-- **Every transaction of every command may be committed late.** -/
theorem Service.lawful_operation (service : Service) (now : Nat) (c : Command) :
    (service.operation now c).Lawful c.Explicit := by
  cases c with
  | register r =>
    exact lawful_ofCheck_bind fun _ _ => lawful_ofCheck_bind fun _ _ =>
      lawful_single (guarded_of_unlocked (Account.unlocked_registration ..))
        (Account.lawful_registration ..)
  | authenticate login =>
    refine (lawful_single_of_readOnly (readOnly_ask fun _ _ => ⟨_, rfl⟩)).bind fun u => ?_
    cases u with
    | none => exact .done _
    | some u =>
      refine lawful_ofCheck_bind fun b _ => ?_
      cases b <;> exact .done _
  | refresh token =>
    refine lawful_ofCheck_bind fun _ _ => lawful_ofCheck_bind fun id _ => ?_
    exact .transaction (readOnly_user id).guarded (readOnly_user id).lawful fun _ => lawful_ofCheck _
  | getUser caller userId =>
    exact lawful_ofCheck_bind fun _ _ => lawful_single_of_readOnly (readOnly_user userId)
  | updateUser caller userId u =>
    exact lawful_ofCheck_bind fun _ _ => lawful_ofCheck_bind fun _ _ => lawful_ofCheck_bind fun c _ =>
      lawful_single (Account.guarded_change userId u c) (Account.lawful_change userId u c)
  | deleteUser caller userId =>
    exact lawful_ofCheck_bind fun _ _ =>
      lawful_single (Account.guarded_deletion userId) (Account.lawful_deletion userId)
  | createGroup caller draft =>
    exact lawful_ofCheck_bind fun _ _ =>
      lawful_single (guarded_of_unlocked (Group.unlocked_creation caller draft))
        (Group.lawful_creation caller draft)
  | listGroups caller =>
    exact lawful_single_of_readOnly
      (.bind (readOnly_ask fun _ _ => ⟨_, rfl⟩) Group.readOnly_groupsOf)
  | myBalances caller =>
    exact lawful_single_of_readOnly (.bind (readOnly_ask fun _ _ => ⟨_, rfl⟩) fun ms =>
      .bind (Statement.readOnly_pairsOf ms) fun _ => readOnly_ofExcept _)
  | myExpenses caller =>
    exact lawful_single_of_readOnly
      (.bind (readOnly_ask fun _ _ => ⟨_, rfl⟩) Statement.readOnly_paidBy)
  | myShares caller =>
    exact lawful_single_of_readOnly
      (.bind (readOnly_ask fun _ _ => ⟨_, rfl⟩) Statement.readOnly_owedBy)
  | act caller a =>
    exact lawful_ofCheck_bind fun _ hcheck =>
      (Access.lawful_authorize caller a.resource).bind fun _ => a.lawful_operation hcheck

end

end SharedLedger
