import SharedLedger.Ledger.Access
import SharedLedger.Ledger.Expense
import SharedLedger.Ledger.Group
import SharedLedger.Ledger.Statement

/-!
# Actions of members

Everything the members of a group may do with the group and with what
belongs to it. An action names the thing it is about, its `resource`. Carried
out for a caller, the arguments some actions check beforehand are looked at
first, then the caller has to be a member of the group that owns the
resource, and only then the action itself takes place.
-/

namespace SharedLedger

/-- What a member may do. -/
inductive Action where
  | getGroup (groupId : Int)
  | renameGroup (groupId : Int) (name : String)
  | deleteGroup (groupId : Int)
  | listMembers (groupId : Int)
  | addMember (groupId : Int) (m : MemberDraft)
  | replaceMembers (groupId : Int) (ms : List MemberDraft)
  | updateMember (memberId : Int) (u : MemberUpdate)
  | unlinkMember (memberId : Int)
  | listExpenses (groupId : Int)
  | createExpense (groupId : Int) (draft : ExpenseDraft)
  | getExpense (expenseId : Int)
  | updateExpense (expenseId : Int) (u : ExpenseUpdate)
  | deleteExpense (expenseId : Int)
  | listShares (expenseId : Int)
  | getShare (shareId : Int)
  | createShares (expenseId : Int) (shares : List ShareDraft)
  | replaceShares (expenseId : Int) (shares : List ShareDraft)
  | clearShares (expenseId : Int)
  | groupBalances (groupId : Int)
  deriving DecidableEq

namespace Action

/-- The type of the result of an action. -/
abbrev Reply : Action → Type
  | getGroup _ | renameGroup .. => Group
  | deleteGroup _ => Unit
  | listMembers _ => List Member
  | addMember .. | updateMember .. | unlinkMember _ => Member
  | replaceMembers .. => MembersReplaced
  | listExpenses _ => List Expense
  | createExpense .. | updateExpense .. => SharedExpense
  | getExpense _ => Expense
  | deleteExpense _ | clearShares _ => Nat
  | listShares _ => List Share
  | getShare _ => Share
  | createShares .. | replaceShares .. => SharesReplaced
  | groupBalances _ => GroupBalances

/-- What an action is about. -/
def resource : Action → Resource
  | getGroup id | renameGroup id _ | deleteGroup id | listMembers id | addMember id _
  | replaceMembers id _ | listExpenses id | createExpense id _ | groupBalances id => .group id
  | updateMember id _ | unlinkMember id => .member id
  | getExpense id | updateExpense id _ | deleteExpense id | listShares id | createShares id _
  | replaceShares id _ | clearShares id => .expense id
  | getShare id => .share id

/-- The checks made before it is known whether the caller has access. -/
def checkFirst : Action → Except LedgerError Unit
  | renameGroup _ name => Naming.validateName "name" name
  | createExpense _ draft => Expense.checkDraft draft
  | updateExpense _ u => Expense.checkUpdate u
  | _ => .ok ()

/-- The action itself, whoever asks for it. -/
def operation : (a : Action) → Operation a.Reply
  | getGroup id => .single (Plan.group id)
  | renameGroup id name => .single (Group.nameChange id name)
  | deleteGroup id => .single (Group.deletion id)
  | listMembers id => .single (Plan.ask (.listMembers id))
  | addMember id m => Group.addMember id m
  | replaceMembers id ms => Group.replaceMembers id ms
  | updateMember id u => Group.updateMember id u
  | unlinkMember id => .single (Group.unlinking id)
  | listExpenses id => .single (Plan.ask (.listExpenses id))
  | createExpense id draft => .single (Expense.creation id draft)
  | getExpense id => .single (Plan.expense id)
  | updateExpense id u => .single (Expense.change id u)
  | deleteExpense id => .single (Expense.deletion id)
  | listShares id => .single (Plan.ask (.listShares id))
  | getShare id => .single (Plan.share id)
  | createShares id shares => .single (Expense.sharing id shares)
  | replaceShares id shares => .single (Expense.resharing id shares)
  | clearShares id => .single (Expense.unsharing id)
  | groupBalances id => Statement.ofGroup id

/-- The action as far as the caller may do it. -/
def on (a : Action) (caller : Int) : Operation a.Reply := do
  Operation.ofCheck a.checkFirst
  Access.authorize caller a.resource
  a.operation

end Action

end SharedLedger
