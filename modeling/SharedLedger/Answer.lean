import SharedLedger.Balance
import SharedLedger.Json.Value

/-!
# Answers in JSON

What the ledger answers, as JSON: rows, balances and errors under the names
they have outside. Amounts and dates are strings, so that no digit is lost;
credentials are never part of an answer.
-/

namespace SharedLedger

/-- An amount, as a string. -/
def Decimal.toJson (a : Decimal) : Json := .str a.text

/-- A date, as a string. -/
def Date.toJson (d : Date) : Json := .str d.text

/-- A list of values. -/
def Json.ofList {α : Type} (f : α → Json) (as : List α) : Json := .arr (as.map f)

/-! ## Rows -/

/-- An account, as everybody may see it. -/
def User.toJson (u : User) : Json :=
  .obj [("id", .ofInt u.id), ("name", .str u.name), ("email", .str u.email)]

/-- A group. -/
def Group.toJson (g : Group) : Json := .obj [("id", .ofInt g.id), ("name", .str g.name)]

/-- A member. -/
def Member.toJson (m : Member) : Json :=
  .obj [("id", .ofInt m.id), ("group_id", .ofInt m.groupId), ("user_id", .ofOption .ofInt m.userId),
    ("name", .str m.name)]

/-- An expense. -/
def Expense.toJson (e : Expense) : Json :=
  .obj [("id", .ofInt e.id), ("group_id", .ofInt e.groupId), ("name", .str e.name),
    ("transaction_date", e.date.toJson), ("amount", e.amount.toJson),
    ("category", .ofOption .str e.category), ("note", .ofOption .str e.note),
    ("by_user", .ofInt e.paidBy)]

/-- A share. -/
def Share.toJson (s : Share) : Json :=
  .obj [("id", .ofInt s.id), ("transaction_id", .ofInt s.expenseId),
    ("tx_amount", s.expenseAmount.toJson), ("split_percent", s.fraction.toJson),
    ("split_amount", s.amount.toJson), ("split_user", .ofOption .ofInt s.owedBy)]

/-! ## Balances -/

/-- A row of a debt. -/
def Owed.toJson (p : Owed) : Json :=
  .obj [("creditor_user_id", .ofInt p.creditor), ("debtor_user_id", .ofInt p.debtor),
    ("amount", p.amount.toJson)]

/-- The net of a user. -/
def Net.toJson (n : Net) : Json := .obj [("user_id", .ofInt n.userId), ("net", n.amount.toJson)]

/-- A payment. -/
def Payment.toJson (p : Payment) : Json :=
  .obj [("from_user_id", .ofInt p.payer), ("to_user_id", .ofInt p.payee),
    ("amount", p.amount.toJson)]

/-- The balances of a group. -/
def GroupBalances.toJson (b : GroupBalances) : Json :=
  .obj [("group_id", .ofInt b.groupId), ("pairs", .ofList Owed.toJson b.pairs),
    ("nets", .ofList Net.toJson b.nets), ("payments", .ofList Payment.toJson b.payments)]

/-- A position in one group. -/
def GroupPosition.toJson (p : GroupPosition) : Json :=
  .obj [("group_id", .ofInt p.groupId), ("other_user_id", .ofInt p.otherId),
    ("net", p.net.toJson)]

/-- A position over all groups. -/
def UserPosition.toJson (p : UserPosition) : Json :=
  .obj [("other_user_id", .ofInt p.otherId), ("net", p.net.toJson)]

/-- The balances of a user. -/
def UserBalances.toJson (b : UserBalances) : Json :=
  .obj [("user_id", .ofInt b.userId), ("by_group", .ofList GroupPosition.toJson b.byGroup),
    ("by_user", .ofList UserPosition.toJson b.byUser),
    ("total_owed_to_user", b.owedToUser.toJson), ("total_user_owes", b.owedByUser.toJson),
    ("net", b.net.toJson)]

/-! ## Errors -/

/-- The name of a kind of error. -/
def ErrorKind.label : ErrorKind → String
  | .validation => "Validation"
  | .unauthenticated => "Unauthenticated"
  | .forbidden => "Forbidden"
  | .notFound => "NotFound"
  | .conflict => "Conflict"
  | .internal => "Internal"

/-- A faulty field. -/
def FieldFault.toJson (f : FieldFault) : Json :=
  .obj [("field", .str f.field), ("title", .str f.title), ("description", .str f.description)]

namespace LedgerError

/-- The name of an error. -/
def label : LedgerError → String
  | missingEmail => "MissingEmail"
  | invalidEmail _ => "InvalidEmail"
  | emailTaken _ => "EmailAlreadyRegistered"
  | invalidCredentials => "InvalidCredentials"
  | unauthenticated _ => "Unauthenticated"
  | forbidden => "Forbidden"
  | membershipUnknown => "MembershipCheckFailed"
  | notFound _ _ => "NotFound"
  | alreadyMember _ _ => "AlreadyGroupMember"
  | memberInUse _ => "MemberInUse"
  | invalidInput _ _ => "InvalidInput"
  | invalidShare _ _ => "InvalidSplit"
  | fractionTotal _ => "SplitPercentTotal"
  | amountTotal _ _ => "SplitAmountTotal"
  | alreadyShared _ => "SplitsAlreadyExist"
  | unbalanced _ => "Unbalanced"
  | cancelled => "Cancelled"
  | storage _ => "Storage"
  | settings _ => "Config"
  | internal _ => "InternalServerError"

/-- What an error carries, if anything. -/
def payload? : LedgerError → Option Json
  | missingEmail | invalidCredentials | forbidden | membershipUnknown | cancelled => none
  | invalidEmail s | emailTaken s | unauthenticated s | storage s | settings s | internal s =>
    some (.str s)
  | notFound table id => some (.arr [.str table.label, .ofInt id])
  | alreadyMember u g => some (.arr [.ofInt u, .ofInt g])
  | memberInUse id | alreadyShared id => some (.ofInt id)
  | invalidInput field fault => some (.arr [.str field, fault.toJson])
  | invalidShare i reason => some (.obj [("index", .ofNat i), ("reason", .str reason)])
  | fractionTotal d | unbalanced d => some d.toJson
  | amountTotal total expected =>
    some (.obj [("total", total.toJson), ("expected", expected.toJson)])

/-- An error: its name alone, or an object with what it carries under its
name. -/
def toJson (e : LedgerError) : Json :=
  match e.payload? with
  | none => .str e.label
  | some v => .obj [(e.label, v)]

/-- Errors whose cause is nobody's business. -/
def isInternal (e : LedgerError) : Bool := e.kind == .internal

/-- What is said of an error that is not internal. -/
def publicText : LedgerError → String
  | invalidInput _ fault => fault.title ++ ": " ++ fault.description
  | e => e.message

/-- The body of an answer that reports an error. An internal error is not
told; the answer refers to it by a name. -/
def body (e : LedgerError) (reference : String) : Json :=
  if e.isInternal then .obj [("error", .str "internal error"), ("reference", .str reference)]
  else .obj [("error", .str e.publicText)]

end LedgerError

/-- The status of an answer that reports an error of this kind. -/
def ErrorKind.status : ErrorKind → Nat
  | .validation => 400
  | .unauthenticated => 401
  | .forbidden => 403
  | .notFound => 404
  | .conflict => 409
  | .internal => 500

end SharedLedger
