import SharedLedger.Naming
import SharedLedger.Operation
import SharedLedger.Sharing

/-!
# Expenses and their shares

An expense is paid by a member of its group. It has no shares or a full set
of them, and a set is only ever written as a whole. What changes the shares
of an expense or the expense itself locks the expense and then its group, so
that the members the shares are checked against stay what they are; what
takes shares away locks the expense alone.
-/

namespace SharedLedger

/-- An expense and its shares. -/
structure SharedExpense where
  expense : Expense
  shares : List Share
  deriving DecidableEq

/-- How many shares went, and those that came. -/
structure SharesReplaced where
  deleted : Nat
  created : List Share
  deriving DecidableEq

namespace Expense

/-! ## Inside a transaction -/

/-- Refuses a payer who is not a member of the group. -/
def requirePayer (groupId memberId : Int) : Plan Unit := do
  let wrong := LedgerError.field "by_user" "Invalid payer"
    ("by_user " ++ toString memberId ++ " is not a member of group " ++ toString groupId)
  match ← Plan.ask (.findMember memberId) with
  | some m => if m.groupId = groupId then pure () else Plan.refuse wrong
  | none => Plan.refuse wrong

/-- Locks an expense and then its group. -/
def locked (expenseId : Int) : Plan Expense := do
  Plan.hold .expenses expenseId
  let e ← Plan.expense expenseId
  Plan.hold .groups e.groupId
  return e

/-- Inserts shares one after the other. -/
def insertShares (e : Expense) : List ShareDraft → Plan (List Share)
  | [] => pure []
  | s :: ss => do
    let created ← Plan.ask (.insertShare e.id e.amount s)
    return created :: (← insertShares e ss)

/-- Gives an expense a new set of shares, if the set is in order. -/
def writeShares (e : Expense) (shares : List ShareDraft) : Plan SharesReplaced := do
  let members ← Plan.ask (.listMembers e.groupId)
  Plan.ofExcept (Sharing.validate e.groupId e.amount members shares)
  let deleted ← Plan.ask (.deleteShares e.id)
  return ⟨deleted, ← insertShares e shares⟩

/-- Writes an expense, with its shares where they are given. -/
def creation (groupId : Int) (draft : ExpenseDraft) : Plan SharedExpense := do
  Plan.hold .groups groupId
  requirePayer groupId draft.paidBy
  let e ← Plan.ask (.insertExpense groupId draft)
  match draft.shares with
  | none => return ⟨e, []⟩
  | some shares => return ⟨e, (← writeShares e shares).created⟩

/-- The expense after a change. -/
def changed (e : Expense) (u : ExpenseUpdate) : Expense :=
  { e with
    name := u.name.getD e.name
    date := u.date.getD e.date
    amount := u.amount.getD e.amount
    category := u.category <|> e.category
    note := u.note <|> e.note
    paidBy := u.paidBy.getD e.paidBy }

/-- Whether a change gives an expense another amount and no shares for it. -/
def leavesSharesBehind (e : Expense) (u : ExpenseUpdate) : Bool :=
  (u.amount.any fun a => !a.sameAs e.amount) && u.shares.isNone

/-- Changes an expense, and its shares where they are given. The amount of a
shared expense changes only together with its shares. -/
def change (expenseId : Int) (u : ExpenseUpdate) : Plan SharedExpense := do
  let e ← locked expenseId
  if leavesSharesBehind e u then
    if !(← Plan.ask (.listShares expenseId)).isEmpty then
      Plan.refuse (.field "splits" "Splits required"
        "changing the amount of a transaction with splits requires a replacement split set")
  match u.paidBy with
  | some payer => requirePayer e.groupId payer
  | none => pure ()
  let e ← Plan.ask (.updateExpense (changed e u))
  match u.shares with
  | some shares => return ⟨e, (← writeShares e shares).created⟩
  | none => return ⟨e, ← Plan.ask (.listShares expenseId)⟩

/-- Deletes an expense and its shares, and says how many shares went. -/
def deletion (expenseId : Int) : Plan Nat := do
  Plan.hold .expenses expenseId
  let deleted ← Plan.ask (.deleteShares expenseId)
  Plan.ask (.deleteExpense expenseId)
  return deleted

/-- Gives shares to an expense that has none. -/
def sharing (expenseId : Int) (shares : List ShareDraft) : Plan SharesReplaced := do
  let e ← locked expenseId
  if (← Plan.ask (.listShares e.id)).isEmpty then writeShares e shares
  else Plan.refuse (.alreadyShared e.id)

/-- Replaces the shares of an expense. -/
def resharing (expenseId : Int) (shares : List ShareDraft) : Plan SharesReplaced := do
  writeShares (← locked expenseId) shares

/-- Takes all shares of an expense away, and says how many went. -/
def unsharing (expenseId : Int) : Plan Nat := do
  Plan.hold .expenses expenseId
  Plan.ask (.deleteShares expenseId)

/-! ## Checks of the arguments -/

/-- Checks a new expense. -/
def checkDraft (draft : ExpenseDraft) : Except LedgerError Unit := do
  Naming.validateName "name" draft.name
  Money.requireNonNegative "amount" draft.amount
  Naming.validateNote "category" draft.category
  Naming.validateNote "note" draft.note

/-- Checks a change of an expense. -/
def checkUpdate (u : ExpenseUpdate) : Except LedgerError Unit := do
  Naming.validateName? "name" u.name
  match u.amount with
  | some amount => Money.requireNonNegative "amount" amount
  | none => pure ()
  Naming.validateNote "category" u.category
  Naming.validateNote "note" u.note

end Expense

end SharedLedger
