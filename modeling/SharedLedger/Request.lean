import SharedLedger.Row
import SharedLedger.Text.Quoted

/-!
# Requests

What callers send: new accounts, drafts of expenses, and changes. In a change
an absent field leaves what is there as it is. Reports of a request never
show a password.
-/

namespace SharedLedger

/-- A new account. -/
structure Registration where
  name : String
  email : String
  password : String
  deriving DecidableEq

/-- A change of an account. -/
structure UserUpdate where
  name : Option String
  email : Option String
  password : Option String
  deriving DecidableEq

/-- A change of a member. -/
structure MemberUpdate where
  name : Option String
  userId : Option Int
  deriving DecidableEq

/-- A new expense. Where `shares` are given they are written with it. -/
structure ExpenseDraft where
  name : String
  date : Date
  amount : Decimal
  category : Option String
  note : Option String
  paidBy : Int
  shares : Option (List ShareDraft)
  deriving DecidableEq

/-- A change of an expense. -/
structure ExpenseUpdate where
  name : Option String
  date : Option Date
  amount : Option Decimal
  category : Option String
  note : Option String
  paidBy : Option Int
  shares : Option (List ShareDraft)
  deriving DecidableEq

/-- The credentials of a login. -/
structure Login where
  email : String
  password : String
  deriving DecidableEq

/-- A new group; the name of its first member may differ from the account's. -/
structure GroupDraft where
  name : String
  memberName : Option String
  deriving DecidableEq

/-! ## Reports -/

/-- A value that may be absent. -/
def inspectOption (s : Option String) : String :=
  match s with
  | some s => "Some(" ++ Text.quoted s ++ ")"
  | none => "None"

/-- The request with its parts named and the password left out. -/
def Registration.inspect (r : Registration) : String :=
  "Registration \x7b name: " ++ Text.quoted r.name ++ ", email: " ++ Text.quoted r.email
    ++ ", password: \"<redacted>\" \x7d"

/-- The request with its parts named and the password left out. -/
def UserUpdate.inspect (u : UserUpdate) : String :=
  "UserUpdate \x7b name: " ++ inspectOption u.name ++ ", email: " ++ inspectOption u.email
    ++ ", password: " ++ inspectOption (u.password.map fun _ => "<redacted>") ++ " \x7d"

/-- An account with its parts named and the credential left out. Accounts made
outside time carry the first moment of 1970. -/
def User.inspect (u : User) : String :=
  "User \x7b id: " ++ toString u.id ++ ", name: " ++ Text.quoted u.name ++ ", email: "
    ++ Text.quoted u.email ++ ", password_hash: \"<redacted>\", created_at: "
    ++ Date.epoch.text ++ "T00:00:00Z, modified_at: " ++ Date.epoch.text ++ "T00:00:00Z \x7d"

end SharedLedger
