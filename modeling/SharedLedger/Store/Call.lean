import SharedLedger.Balance
import SharedLedger.Request
import SharedLedger.Tables

/-!
# Calls

What can be asked of the store inside a transaction. Every call reads the
transaction's view of the tables; `Call.effect` says what is answered and
which mutations are to be written, in order. Calls that insert a row use a
fresh id. A call is one step, also where it deletes rows of several tables: a
cancellation is looked at when it begins, and not again for each expense of a
group or for the shares of an expense.
-/

namespace SharedLedger

/-- A question to the store, or a change. -/
inductive Call where
  | insertUser (name email : String) (credential : Credential)
  | findUser (id : Int)
  | findUserByEmail (email : String)
  | updateUser (u : User)
  | deleteUser (id : Int)
  | insertGroup (name : String)
  | findGroup (id : Int)
  | updateGroup (g : Group)
  | deleteGroup (id : Int)
  | insertMember (groupId : Int) (m : MemberDraft)
  | findMember (id : Int)
  | updateMember (m : Member)
  | listMembers (groupId : Int)
  | listMemberships (userId : Int)
  | deleteMembers (groupId : Int)
  | insertExpense (groupId : Int) (e : ExpenseDraft)
  | findExpense (id : Int)
  | updateExpense (e : Expense)
  | listExpenses (groupId : Int)
  | deleteExpense (id : Int)
  | insertShare (expenseId : Int) (expenseAmount : Decimal) (s : ShareDraft)
  | findShare (id : Int)
  | listShares (expenseId : Int)
  | deleteShares (expenseId : Int)
  | owedRows (groupId : Int)

/-- The row of a proposed expense. -/
def ExpenseDraft.row (e : ExpenseDraft) (id groupId : Int) : Expense :=
  ⟨id, groupId, e.name, e.date, e.amount, e.category, e.note, e.paidBy⟩

/-- The row of a proposed share. -/
def ShareDraft.row (s : ShareDraft) (id expenseId : Int) (expenseAmount : Decimal) : Share :=
  ⟨id, expenseId, expenseAmount, s.fraction, s.amount, s.owedBy⟩

/-- What the shares of an expense make its payer's account be owed. Shares
owed by the payer, by nobody or by a member without account count for
nothing, and so does an expense whose payer has no account. -/
def Tables.owedFor (t : Tables) (e : Expense) : List Owed :=
  match t.linkedUser? e.paidBy with
  | none => []
  | some creditor => (t.sharesOf e.id).filterMap fun s =>
    ((s.owedBy.filter fun m => m != e.paidBy).bind t.linkedUser?).map fun debtor =>
      ⟨creditor, debtor, s.amount⟩

/-- What is owed between the accounts of a group, share by share. -/
def Tables.owedRows (t : Tables) (groupId : Int) : List Owed :=
  (t.expensesOf groupId).flatMap t.owedFor

/-- The mutations that delete the shares of an expense. -/
def Tables.deletionOfShares (t : Tables) (expenseId : Int) : List Mutation :=
  (t.sharesOf expenseId).map fun s => .delete .shares s.id

/-- The mutations that delete an expense and its shares. -/
def Tables.deletionOfExpense (t : Tables) (expenseId : Int) : List Mutation :=
  t.deletionOfShares expenseId ++ [.delete .expenses expenseId]

/-- The mutations that delete the members of a group. -/
def Tables.deletionOfMembers (t : Tables) (groupId : Int) : List Mutation :=
  (t.membersOf groupId).map fun m => .delete .members m.id

/-- The mutations that delete a group and everything in it. -/
def Tables.deletionOfGroup (t : Tables) (groupId : Int) : List Mutation :=
  (t.expensesOf groupId).flatMap (fun e => t.deletionOfExpense e.id)
    ++ t.deletionOfMembers groupId ++ [.delete .groups groupId]

/-- The first expense, of any group, that was paid by a member of the given
one. -/
def Tables.expensePaidIn? (t : Tables) (groupId : Int) : Option Expense :=
  t.expenses.toList.find? fun e => (t.membersOf groupId).any fun m => m.id == e.paidBy

namespace Call

/-- The type of the answer to a call. -/
abbrev Reply : Call → Type
  | insertUser .. | updateUser _ => User
  | findUser _ | findUserByEmail _ => Option User
  | insertGroup _ | updateGroup _ => Group
  | findGroup _ => Option Group
  | insertMember .. | updateMember _ => Member
  | findMember _ => Option Member
  | listMembers _ | listMemberships _ => List Member
  | insertExpense .. | updateExpense _ => Expense
  | findExpense _ => Option Expense
  | listExpenses _ => List Expense
  | insertShare .. => Share
  | findShare _ => Option Share
  | listShares _ => List Share
  | deleteMembers _ | deleteShares _ => Nat
  | owedRows _ => List Owed
  | deleteUser _ | deleteGroup _ | deleteExpense _ => Unit

/-- The name of a call. -/
def method : Call → String
  | insertUser .. => "insert_user"
  | findUser _ => "get_user"
  | findUserByEmail _ => "get_user_by_email"
  | updateUser _ => "update_user"
  | deleteUser _ => "delete_user"
  | insertGroup _ => "insert_group"
  | findGroup _ => "get_group"
  | updateGroup _ => "update_group"
  | deleteGroup _ => "delete_group"
  | insertMember .. => "insert_member"
  | findMember _ => "get_member"
  | updateMember _ => "update_member"
  | listMembers _ => "list_members"
  | listMemberships _ => "list_memberships"
  | deleteMembers _ => "delete_members"
  | insertExpense .. => "insert_transaction"
  | findExpense _ => "get_transaction"
  | updateExpense _ => "update_transaction"
  | listExpenses _ => "list_transactions"
  | deleteExpense _ => "delete_transaction"
  | insertShare .. => "insert_split"
  | findShare _ => "get_split"
  | listShares _ => "list_splits"
  | deleteShares _ => "delete_splits"
  | owedRows _ => "owed_rows"

/-- The table a call inserts a row into. -/
def insertsInto? : Call → Option Table
  | insertUser .. => some .users
  | insertGroup _ => some .groups
  | insertMember .. => some .members
  | insertExpense .. => some .expenses
  | insertShare .. => some .shares
  | _ => none

/-- What is to be written and what is answered. -/
def effect (view : Tables) (freshId : Int) : (c : Call) → Except LedgerError (List Mutation × c.Reply)
  | insertUser name email credential =>
    let u : User := ⟨freshId, name, email, credential⟩
    .ok ([.put (.user u)], u)
  | findUser id => .ok ([], view.users.find? id)
  | findUserByEmail email => .ok ([], view.userByEmail? email)
  | updateUser u => do
    view.require .users u.id
    return ([.put (.user u)], u)
  | deleteUser id => do
    view.require .users id
    return ([.unlinkUser id, .delete .users id], ())
  | insertGroup name =>
    let g : Group := ⟨freshId, name⟩
    .ok ([.put (.group g)], g)
  | findGroup id => .ok ([], view.groups.find? id)
  | updateGroup g => do
    view.require .groups g.id
    return ([.put (.group g)], g)
  | deleteGroup id => do
    view.require .groups id
    return (view.deletionOfGroup id, ())
  | insertMember groupId m =>
    let m : Member := ⟨freshId, groupId, m.userId, m.name⟩
    .ok ([.put (.member m)], m)
  | findMember id => .ok ([], view.members.find? id)
  | updateMember m => do
    view.require .members m.id
    return ([.put (.member m)], m)
  | listMembers groupId => .ok ([], view.membersOf groupId)
  | listMemberships userId => .ok ([], view.membershipsOf userId)
  | deleteMembers groupId =>
    match view.expensePaidIn? groupId with
    | some e => .error (.memberInUse e.paidBy)
    | none => .ok (view.deletionOfMembers groupId, (view.membersOf groupId).length)
  | insertExpense groupId e =>
    let e := e.row freshId groupId
    .ok ([.put (.expense e)], e)
  | findExpense id => .ok ([], view.expenses.find? id)
  | updateExpense e => do
    view.require .expenses e.id
    return ([.put (.expense e)], e)
  | listExpenses groupId => .ok ([], view.expensesOf groupId)
  | deleteExpense id => do
    view.require .expenses id
    return (view.deletionOfExpense id, ())
  | insertShare expenseId expenseAmount s =>
    let s := s.row freshId expenseId expenseAmount
    .ok ([.put (.share s)], s)
  | findShare id => .ok ([], view.shares.find? id)
  | listShares expenseId => .ok ([], view.sharesOf expenseId)
  | deleteShares expenseId =>
    .ok (view.deletionOfShares expenseId, (view.sharesOf expenseId).length)
  | owedRows groupId => .ok ([], view.owedRows groupId)

end Call

end SharedLedger
