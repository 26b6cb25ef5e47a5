/-!
# Numerals

Whole numbers as settings, paths and token subjects write them: ASCII digits
with an optional sign, and nothing else. A numeral outside the wanted range
is no numeral of that kind.
-/

namespace SharedLedger

namespace Numeral

/-- The value of a non-empty list of ASCII digits. -/
def magnitude? : List Char → Option Nat
  | [] => none
  | cs => cs.foldlM (fun n c =>
      if '0' ≤ c ∧ c ≤ '9' then some (10 * n + (c.toNat - '0'.toNat)) else none) 0

/-- A numeral that may carry either sign. -/
def signed? : List Char → Option Int
  | '-' :: cs => (magnitude? cs).map fun n => -(n : Int)
  | '+' :: cs => (magnitude? cs).map fun n => (n : Int)
  | cs => (magnitude? cs).map fun n => (n : Int)

/-- A numeral that may carry a plus sign only. -/
def unsigned? : List Char → Option Nat
  | '+' :: cs => magnitude? cs
  | cs => magnitude? cs

/-- The range of identifiers and of signed settings. -/
def inInt64 (n : Int) : Bool := -(Nat.pow 2 63 : Int) ≤ n && n < Nat.pow 2 63

/-- A signed numeral of 64 bits. -/
def int64? (cs : List Char) : Option Int :=
  (signed? cs).filter inInt64

/-- An unsigned numeral of the given number of bits. -/
def natOfBits? (bits : Nat) (cs : List Char) : Option Nat :=
  (unsigned? cs).filter (· < Nat.pow 2 bits)

end Numeral

end SharedLedger
