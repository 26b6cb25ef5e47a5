import SharedLedger.Decimal

/-!
# Decimal text

An amount is written with all its digits: the sign if it is set, at least
one digit before the point, and exactly `scale` digits behind it.
-/

namespace SharedLedger

namespace Decimal

/-- Digits with a point before the last `scale` of them. -/
def placed (digits : List Char) (scale : Nat) : List Char :=
  if scale = 0 then digits
  else
    let padded := List.replicate (scale + 1 - digits.length) '0' ++ digits
    padded.take (padded.length - scale) ++ '.' :: padded.drop (padded.length - scale)

/-- The characters of an amount. -/
def chars (a : Decimal) : List Char :=
  (if a.negative then ['-'] else []) ++ placed (Nat.toDigits 10 a.mantissa) a.scale

/-- The text of an amount. -/
def text (a : Decimal) : String := String.ofList a.chars

end Decimal

end SharedLedger
