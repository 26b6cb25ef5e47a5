import SharedLedger.Error

/-!
# Settling debts

A `Net` says what a user is owed, or owes where it is negative. Nets that sum
to zero can be settled by payments: again and again the largest debtor pays
the largest creditor as much as one of them still has open. On equal amounts
the lower user id goes first. `settle` answers with the payments in the
order they are found, or with the sum when it is not zero.
-/

namespace SharedLedger

/-- What a user is owed in total; negative when the user owes. -/
structure Net where
  userId : Int
  amount : Decimal
  deriving DecidableEq

/-- A payment between two users. -/
structure Payment where
  payer : Int
  payee : Int
  amount : Decimal
  deriving DecidableEq

/-- Amounts by key. -/
abbrev Tally (κ : Type) [KeyOrder κ] := Index (Prod.fst : κ × Decimal → κ)

/-- What a key has; nothing where it does not occur. -/
def Tally.held {κ : Type} [KeyOrder κ] [DecidableEq κ] (t : Tally κ) (k : κ) : Decimal :=
  ((t.find? k).map Prod.snd).getD Decimal.zero

/-- Amounts by user. -/
abbrev UserTally := Tally Int

/-- Adds an amount to what a user has. -/
def UserTally.add (t : UserTally) (userId : Int) (amount : Decimal) : Except Overflow UserTally := do
  return t.put (userId, ← (t.held userId).add amount)

/-- Takes an amount from what a user has. -/
def UserTally.sub (t : UserTally) (userId : Int) (amount : Decimal) : Except Overflow UserTally := do
  return t.put (userId, ← (t.held userId).sub amount)

namespace Settlement

/-- One net for each user. -/
def merge (nets : List Net) : Except Overflow UserTally :=
  nets.foldlM (fun t n => t.add n.userId n.amount) Index.empty

/-! ## Open amounts -/

/-- Goes first: the larger amount, and of equal ones the lower user id. -/
def goesBefore (a b : Int × Decimal) : Bool :=
  b.2.below a.2 || (a.2.sameAs b.2 && a.1 < b.1)

/-- Puts an open amount in its place among others. -/
def enqueue (a : Int × Decimal) : List (Int × Decimal) → List (Int × Decimal)
  | [] => [a]
  | b :: bs => if goesBefore a b then a :: b :: bs else b :: enqueue a bs

/-- Open amounts in the order they are settled in. -/
def queue (as : List (Int × Decimal)) : List (Int × Decimal) := as.foldr enqueue []

/-- What is open to be received. -/
def credits (t : UserTally) : List (Int × Decimal) :=
  queue (t.toList.filter fun a => a.2.isPositive)

/-- What is open to be paid. -/
def debts (t : UserTally) : List (Int × Decimal) :=
  queue ((t.toList.filter fun a => a.2.isNegative).map fun a => (a.1, a.2.neg))

/-! ## The payments -/

/-- What is left open of `a` after a payment, put back among the others. -/
def reopen (a : Int × Decimal) (paid : Decimal) (rest : List (Int × Decimal)) :
    Except Overflow (List (Int × Decimal)) :=
  if paid.below a.2 then do return enqueue (a.1, ← a.2.sub paid) rest else return rest

/-- At most `fuel` payments. Every payment closes a debt or a credit, so
there are never more of them than open amounts. -/
def payUpto : Nat → List (Int × Decimal) → List (Int × Decimal) → Except Overflow (List Payment)
  | fuel + 1, credit :: credits, debt :: debts => do
    let amount := credit.2.least debt.2
    let credits ← reopen credit amount credits
    let debts ← reopen debt amount debts
    return ⟨debt.1, credit.1, amount⟩ :: (← payUpto fuel credits debts)
  | _, _, _ => .ok []

/-- The payments that close the given credits and debts. -/
def pay (credits debts : List (Int × Decimal)) : Except Overflow (List Payment) :=
  payUpto (credits.length + debts.length) credits debts

/-- The payments that bring every net to zero. -/
def settle (nets : List Net) : Except Failure (List Payment) := do
  let sum ← Failure.ofSum (Decimal.total (nets.map (·.amount)))
  if !sum.isZero then throw (.refused (.unbalanced sum))
  let merged ← Failure.ofSum (merge nets)
  Failure.ofSum (pay (credits merged) (debts merged))

end Settlement

end SharedLedger
