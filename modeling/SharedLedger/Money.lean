import SharedLedger.Error

/-!
# Checks on amounts

The three checks every amount of the ledger goes through: fractions lie
between zero and one, sums agree within one cent, and the amount of an
expense is not negative.
-/

namespace SharedLedger

namespace Money

/-- One cent. -/
def oneCent : Decimal := { Decimal.one with scale := 2, scale_le := by decide }

/-- Whether two amounts differ by one cent at most. -/
def withinOneCent (a b : Decimal) : Except Overflow Bool := do
  return (← a.sub b).magnitude.atMost oneCent

/-- Whether an amount is a fraction of a whole. -/
def isRatio (a : Decimal) : Bool := Decimal.zero.atMost a && a.atMost Decimal.one

/-- Refuses a negative amount in the given field. -/
def requireNonNegative (field : String) (amount : Decimal) : Except LedgerError Unit :=
  if amount.isNegative then
    .error (.field field "Invalid Amount" (field ++ " must not be negative, got " ++ amount.text))
  else .ok ()

end Money

end SharedLedger
