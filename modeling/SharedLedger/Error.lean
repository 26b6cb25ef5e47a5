import SharedLedger.Decimal.Printer
import SharedLedger.Row
import SharedLedger.Text.Quoted

/-!
# Errors

Every reason for which the ledger refuses a request, the words it is
reported in, and the kind of error it counts as. A `Failure` is either such
an error or an amount that grew out of range, which ends the request without
an answer.
-/

namespace SharedLedger

/-- What is wrong with a named field. -/
structure FieldFault where
  field : String
  title : String
  description : String
  deriving DecidableEq, Repr

/-- The fault with its parts named. -/
def FieldFault.inspect (f : FieldFault) : String :=
  "FieldError \x7b field: " ++ Text.quoted f.field ++ ", title: " ++ Text.quoted f.title
    ++ ", description: " ++ Text.quoted f.description ++ " \x7d"

/-- A reason to refuse a request. -/
inductive LedgerError where
  | missingEmail
  | invalidEmail (email : String)
  | emailTaken (email : String)
  | invalidCredentials
  | unauthenticated (reason : String)
  | forbidden
  | membershipUnknown
  | notFound (table : Table) (id : Int)
  | alreadyMember (userId groupId : Int)
  | memberInUse (memberId : Int)
  | invalidInput (field : String) (fault : FieldFault)
  | invalidShare (position : Nat) (reason : String)
  | fractionTotal (total : Decimal)
  | amountTotal (total expected : Decimal)
  | alreadyShared (expenseId : Int)
  | unbalanced (sum : Decimal)
  | cancelled
  | storage (reason : String)
  | settings (reason : String)
  | internal (reason : String)
  deriving DecidableEq

/-- The kinds of errors. -/
inductive ErrorKind where
  | validation
  | unauthenticated
  | forbidden
  | notFound
  | conflict
  | internal
  deriving DecidableEq, Repr

namespace LedgerError

/-- The kind an error counts as. -/
def kind : LedgerError → ErrorKind
  | missingEmail | invalidEmail _ | invalidInput _ _ | invalidShare _ _ | fractionTotal _
  | amountTotal _ _ => .validation
  | invalidCredentials | unauthenticated _ => .unauthenticated
  | forbidden | membershipUnknown => .forbidden
  | notFound _ _ => .notFound
  | emailTaken _ | alreadyMember _ _ | memberInUse _ | alreadyShared _ => .conflict
  | unbalanced _ | cancelled | storage _ | settings _ | internal _ => .internal

/-- The words an error is reported in. -/
def message : LedgerError → String
  | missingEmail => "Email is required"
  | invalidEmail email => "Invalid email format: " ++ email
  | emailTaken email => "Email " ++ email ++ " already registered"
  | invalidCredentials => "Invalid credentials"
  | unauthenticated reason => "Authentication required: " ++ reason
  | forbidden => "Access denied"
  | membershipUnknown => "Failed to verify membership"
  | notFound table id => table.rowName ++ " " ++ toString id ++ " not found"
  | alreadyMember u g =>
    "User " ++ toString u ++ " is already linked to a member of group " ++ toString g
  | memberInUse m => "Member " ++ toString m ++ " is the payer of existing transactions"
  | invalidInput field fault => "Invalid input for field \x60" ++ field ++ "\x60: " ++ fault.inspect
  | invalidShare i reason => "Invalid split at index " ++ toString i ++ ": " ++ reason
  | fractionTotal total => "Split percentages sum to " ++ total.text ++ ", expected exactly 1"
  | amountTotal total expected =>
    "Split amounts sum to " ++ total.text ++ ", expected " ++ expected.text ++ " within 0.01"
  | alreadyShared id => "Transaction " ++ toString id ++ " already has splits"
  | unbalanced sum => "Net balances sum to " ++ sum.text ++ ", expected 0"
  | cancelled => "Operation cancelled"
  | storage reason => "Storage error: " ++ reason
  | settings reason => "Configuration error: " ++ reason
  | internal reason => "Internal server error: " ++ reason

/-- An invalid field with the title and description of its fault. -/
def field (name title description : String) : LedgerError :=
  .invalidInput name ⟨name, title, description⟩

end LedgerError

/-- Why a request ended without the answer it asked for. -/
inductive Failure where
  | refused (e : LedgerError)
  | overflow (o : Overflow)
  deriving DecidableEq

namespace Failure

/-- Arithmetic as part of a request. -/
def ofSum {α : Type} : Except Overflow α → Except Failure α
  | .ok a => .ok a
  | .error o => .error (.overflow o)

/-- A check as part of a request. -/
def ofCheck {α : Type} : Except LedgerError α → Except Failure α
  | .ok a => .ok a
  | .error e => .error (.refused e)

end Failure

end SharedLedger
