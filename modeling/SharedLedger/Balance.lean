import SharedLedger.Settlement

/-!
# Balances

Every share that is owed to the payer of its expense by another member makes
an `Owed` row between two users. Rows of the same creditor and debtor are
added up; the net of a user is what the user is owed less what the user
owes. The view of one user lists, for every other user, what is open between
the two in each group and over all groups.
-/

namespace SharedLedger

/-- `debtor` owes `creditor` an amount. -/
structure Owed where
  creditor : Int
  debtor : Int
  amount : Decimal
  deriving DecidableEq

/-- The balances of a group. -/
structure GroupBalances where
  groupId : Int
  pairs : List Owed
  nets : List Net
  payments : List Payment
  deriving DecidableEq

/-- What is open in one group between the user in question and another. -/
structure GroupPosition where
  groupId : Int
  otherId : Int
  net : Decimal
  deriving DecidableEq

/-- What is open between the user in question and another. -/
structure UserPosition where
  otherId : Int
  net : Decimal
  deriving DecidableEq

/-- The balances of a user. -/
structure UserBalances where
  userId : Int
  byGroup : List GroupPosition
  byUser : List UserPosition
  owedToUser : Decimal
  owedByUser : Decimal
  net : Decimal
  deriving DecidableEq

namespace Balance

/-- Amounts by a pair of numbers. -/
abbrev PairTally := Tally (Int × Int)

/-- Rows added up by creditor and debtor, in ascending order. -/
def pairs (rows : List Owed) : Except Overflow (List Owed) := do
  let t : PairTally ← rows.foldlM
    (fun t r => do return t.put ((r.creditor, r.debtor), ← (t.held (r.creditor, r.debtor)).add r.amount))
    Index.empty
  return t.toList.map fun a => ⟨a.1.1, a.1.2, a.2⟩

/-- The linked users of a group, each with zero. -/
def startingNets (members : List Member) : UserTally :=
  (members.filterMap (·.userId)).foldl (fun t u => t.put (u, Decimal.zero)) Index.empty

/-- The net of every linked user and of everybody who occurs in a pair. -/
def nets (members : List Member) (ps : List Owed) : Except Overflow (List Net) := do
  let t ← ps.foldlM (fun t p => do (← t.add p.creditor p.amount).sub p.debtor p.amount)
    (startingNets members)
  return t.toList.map fun a => ⟨a.1, a.2⟩

/-! ## One user's view -/

/-- Counts one pair of a group for or against the user. -/
def countPair (userId groupId : Int) (t : PairTally) (p : Owed) : Except Overflow PairTally :=
  if p.creditor = userId then do
    return t.put ((groupId, p.debtor), ← (t.held (groupId, p.debtor)).add p.amount)
  else if p.debtor = userId then do
    return t.put ((groupId, p.creditor), ← (t.held (groupId, p.creditor)).sub p.amount)
  else .ok t

/-- What is open in each group with each other user. -/
def positions (userId : Int) (groups : List (Int × List Owed)) : Except Overflow PairTally :=
  groups.foldlM (fun t g => g.2.foldlM (countPair userId g.1) t) Index.empty

/-- The balances of a user, from the pairs of each group. -/
def userView (userId : Int) (groups : List (Int × List Owed)) : Except Overflow UserBalances := do
  let byGroup ← positions userId groups
  let byUser ← byGroup.toList.foldlM (fun (t : UserTally) a => t.add a.1.2 a.2) Index.empty
  let amounts := byUser.toList.map Prod.snd
  let owed ← Decimal.total (amounts.filter fun a => !a.negative)
  let owes ← Decimal.total (amounts.filter fun a => a.negative)
  return {
    userId
    byGroup := byGroup.toList.map fun a => ⟨a.1.1, a.1.2, a.2⟩
    byUser := byUser.toList.map fun a => ⟨a.1, a.2⟩
    owedToUser := owed
    owedByUser := owes.neg
    net := ← owed.sub owes.neg }

end Balance

end SharedLedger
