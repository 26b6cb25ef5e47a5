import SharedLedger.Operation

/-!
# Statements

What a group or a user can look up without changing anything: balances, and
the expenses and shares of one's own memberships. Each statement reads a
single snapshot.
-/

namespace SharedLedger

namespace Statement

/-! ## Inside a transaction -/

/-- What is owed between the accounts of a group. -/
def pairs (groupId : Int) : Plan (List Owed) := do
  let rows ← Plan.ask (.owedRows groupId)
  Plan.ofExcept (Failure.ofSum (Balance.pairs rows))

/-- What is owed between the accounts of a group, and their nets. -/
def pairsAndNets (groupId : Int) : Plan (List Owed × List Net) := do
  let ps ← pairs groupId
  let members ← Plan.ask (.listMembers groupId)
  let nets ← Plan.ofExcept (Failure.ofSum (Balance.nets members ps))
  return (ps, nets)

/-- The nets of a group. -/
def nets (groupId : Int) : Plan (List Net) := do return (← pairsAndNets groupId).2

/-- What is owed in each group of the given members. -/
def pairsOf : List Member → Plan (List (Int × List Owed))
  | [] => pure []
  | m :: ms => do
    let ps ← pairs m.groupId
    return (m.groupId, ps) :: (← pairsOf ms)

/-- The expenses the given members paid. -/
def paidBy : List Member → Plan (List Expense)
  | [] => pure []
  | m :: ms => do
    let expenses ← Plan.ask (.listExpenses m.groupId)
    return expenses.filter (fun e => e.paidBy == m.id) ++ (← paidBy ms)

/-- The shares of the given expenses that a member owes. -/
def owedIn (memberId : Int) : List Expense → Plan (List Share)
  | [] => pure []
  | e :: es => do
    let shares ← Plan.ask (.listShares e.id)
    return shares.filter (fun s => s.owedBy == some memberId) ++ (← owedIn memberId es)

/-- The shares the given members owe. -/
def owedBy : List Member → Plan (List Share)
  | [] => pure []
  | m :: ms => do
    let expenses ← Plan.ask (.listExpenses m.groupId)
    let shares ← owedIn m.id expenses
    return shares ++ (← owedBy ms)

/-! ## Operations -/

/-- The balances of a group, and the payments that settle them. -/
def ofGroup (groupId : Int) : Operation GroupBalances := do
  let (pairs, nets) ← Operation.single (pairsAndNets groupId)
  let payments ← Operation.done (Settlement.settle nets)
  return { groupId, pairs, nets, payments }

/-- The balances of a user over all groups. -/
def ofUser (userId : Int) : Operation UserBalances := .single do
  let groups ← pairsOf (← Plan.ask (.listMemberships userId))
  Plan.ofExcept (Failure.ofSum (Balance.userView userId groups))

/-- The expenses a user paid. -/
def expensesOf (userId : Int) : Operation (List Expense) :=
  .single do paidBy (← Plan.ask (.listMemberships userId))

/-- The shares a user owes. -/
def sharesOf (userId : Int) : Operation (List Share) :=
  .single do owedBy (← Plan.ask (.listMemberships userId))

end Statement

end SharedLedger
