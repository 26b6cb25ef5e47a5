import SharedLedger.Decimal
import SharedLedger.Date
import SharedLedger.Index

/-!
# Rows

What the ledger keeps, in five tables. A *group* has *members*. A member is a
row of its own: it may be linked to the account of a *user*, and it outlives
the link, because expenses and shares name members and not users. An
*expense* is paid by one member of its group and may be shared out: every
*share* is owed by a member, or by nobody in particular. The times at which rows
are made and changed are left out, because nothing looks at them.
-/

namespace SharedLedger

/-- The tables. -/
inductive Table where
  | users
  | groups
  | members
  | expenses
  | shares
  deriving DecidableEq, Repr

namespace Table

/-- What one row of the table is called. -/
def rowName : Table → String
  | .users => "User"
  | .groups => "Group"
  | .members => "Member"
  | .expenses => "Transaction"
  | .shares => "Split"

/-- What the table is called. -/
def label : Table → String
  | .users => "Users"
  | .groups => "Groups"
  | .members => "GroupMembers"
  | .expenses => "Transactions"
  | .shares => "Splits"

/-- The table of a label. -/
def ofLabel? (s : String) : Option Table :=
  [Table.users, .groups, .members, .expenses, .shares].find? fun t => t.label == s

end Table

/-- What is kept of a password: the octets it is recognised by, or a text
that no password was ever turned into. -/
inductive Credential where
  | hashed (key : List UInt8)
  | opaqueText (s : String)
  deriving DecidableEq, Repr

/-- An account. -/
structure User where
  id : Int
  name : String
  email : String
  credential : Credential
  deriving DecidableEq

/-- A group of people who share expenses. -/
structure Group where
  id : Int
  name : String
  deriving DecidableEq

/-- A member of a group, linked to an account or not. -/
structure Member where
  id : Int
  groupId : Int
  userId : Option Int
  name : String
  deriving DecidableEq

/-- Whether the member is linked to the given account. -/
def Member.isLinkedTo (m : Member) (userId : Int) : Bool := m.userId == some userId

/-- An expense of a group; `paidBy` is the id of a member. -/
structure Expense where
  id : Int
  groupId : Int
  name : String
  date : Date
  amount : Decimal
  category : Option String
  note : Option String
  paidBy : Int
  deriving DecidableEq

/-- A share of an expense: a fraction of it and an amount. `owedBy` is the id
of a member, `expenseAmount` the amount of the expense when the share was
written. -/
structure Share where
  id : Int
  expenseId : Int
  expenseAmount : Decimal
  fraction : Decimal
  amount : Decimal
  owedBy : Option Int
  deriving DecidableEq

/-- A share as it is proposed. -/
structure ShareDraft where
  owedBy : Option Int
  fraction : Decimal
  amount : Decimal
  deriving DecidableEq

/-- A member as it is proposed. -/
structure MemberDraft where
  name : String
  userId : Option Int
  deriving DecidableEq

end SharedLedger
