import SharedLedger.Error

/-!
# Tables

The state of the ledger is five tables of rows. It changes by mutations: a
row is put in or replaced, a row is deleted, or an account is taken off every
member linked to it. A mutation has to respect the tables: addresses are
unique, rows refer to rows that exist, an account is linked to one member of
a group at most, and a member who paid for something stays. `replay` applies
mutations one after the other and stops at the first one that is refused.
-/

namespace SharedLedger

/-- A row of any table. -/
inductive Row where
  | user (u : User)
  | group (g : Group)
  | member (m : Member)
  | expense (e : Expense)
  | share (s : Share)
  deriving DecidableEq

/-- A change of the tables. The members an account is taken off are those
found when the mutation is applied. -/
inductive Mutation where
  | put (row : Row)
  | delete (table : Table) (id : Int)
  | unlinkUser (userId : Int)
  deriving DecidableEq

/-- Names a row. -/
structure RowKey where
  table : Table
  id : Int
  deriving DecidableEq, Repr

/-- The rows of the ledger. -/
structure Tables where
  users : Index User.id
  groups : Index Group.id
  members : Index Member.id
  expenses : Index Expense.id
  shares : Index Share.id
  deriving DecidableEq, Inhabited

/-- The member without an account. -/
def Member.unlinked (m : Member) : Member := { m with userId := none }

namespace Tables

/-- No rows. -/
def empty : Tables := ⟨.empty, .empty, .empty, .empty, .empty⟩

/-! ## Questions -/

/-- Whether there is a row of the given id. -/
def contains (t : Tables) (table : Table) (id : Int) : Bool :=
  match table with
  | .users => t.users.contains id
  | .groups => t.groups.contains id
  | .members => t.members.contains id
  | .expenses => t.expenses.contains id
  | .shares => t.shares.contains id

/-- Refuses where there is no row of the given id. -/
def require (t : Tables) (table : Table) (id : Int) : Except LedgerError Unit :=
  if t.contains table id then .ok () else .error (.notFound table id)

/-- The account with the given address. -/
def userByEmail? (t : Tables) (email : String) : Option User :=
  t.users.toList.find? fun u => u.email == email

/-- The members of a group. -/
def membersOf (t : Tables) (groupId : Int) : List Member :=
  t.members.toList.filter fun m => m.groupId == groupId

/-- The members an account is linked to, in all groups. -/
def membershipsOf (t : Tables) (userId : Int) : List Member :=
  t.members.toList.filter fun m => m.isLinkedTo userId

/-- The expenses of a group. -/
def expensesOf (t : Tables) (groupId : Int) : List Expense :=
  t.expenses.toList.filter fun e => e.groupId == groupId

/-- The shares of an expense. -/
def sharesOf (t : Tables) (expenseId : Int) : List Share :=
  t.shares.toList.filter fun s => s.expenseId == expenseId

/-- The account a member is linked to. -/
def linkedUser? (t : Tables) (memberId : Int) : Option Int :=
  (t.members.find? memberId).bind (·.userId)

/-! ## Changes -/

/-- Whether a mutation respects the tables; if not, why. -/
def check (t : Tables) : Mutation → Except LedgerError Unit
  | .put (.user u) =>
    if t.users.toList.any fun v => v.id != u.id && v.email == u.email then
      .error (.emailTaken u.email)
    else .ok ()
  | .put (.group _) => .ok ()
  | .put (.member m) => do
    t.require .groups m.groupId
    match m.userId with
    | none => return
    | some u =>
      t.require .users u
      if t.members.toList.any fun o => o.id != m.id && o.groupId == m.groupId && o.isLinkedTo u then
        throw (.alreadyMember u m.groupId)
  | .put (.expense e) => do
    t.require .groups e.groupId
    t.require .members e.paidBy
  | .put (.share s) => do
    t.require .expenses s.expenseId
    match s.owedBy with
    | none => return
    | some m => t.require .members m
  | .delete .members id =>
    if t.expenses.toList.any fun e => e.paidBy == id then .error (.memberInUse id) else .ok ()
  | .delete _ _ | .unlinkUser _ => .ok ()

/-- What a mutation makes of the tables. -/
def enact (t : Tables) : Mutation → Tables
  | .put (.user u) => { t with users := t.users.put u }
  | .put (.group g) => { t with groups := t.groups.put g }
  | .put (.member m) => { t with members := t.members.put m }
  | .put (.expense e) => { t with expenses := t.expenses.put e }
  | .put (.share s) => { t with shares := t.shares.put s }
  | .delete .users id => { t with users := t.users.erase id }
  | .delete .groups id => { t with groups := t.groups.erase id }
  | .delete .members id => { t with members := t.members.erase id }
  | .delete .expenses id => { t with expenses := t.expenses.erase id }
  | .delete .shares id => { t with shares := t.shares.erase id }
  | .unlinkUser u =>
    { t with
      members := t.members.map (fun m => if m.isLinkedTo u then m.unlinked else m)
        (fun m => by split <;> rfl) }

/-- Applies a mutation that respects the tables. -/
def apply (t : Tables) (m : Mutation) : Except LedgerError Tables := do
  t.check m
  return t.enact m

/-- Applies mutations in order. -/
def replay (t : Tables) (journal : List Mutation) : Except LedgerError Tables :=
  journal.foldlM apply t

end Tables

end SharedLedger
