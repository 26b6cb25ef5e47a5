/-!
# Decimal amounts

An amount of money is a `Decimal`: a sign, a mantissa below `2 ^ 96` and a
number of digits behind the point, at most 28. The number of digits is part
of the value, so `5.0` and `5.00` are two amounts of one `value`, and zero
has a sign. `value` is the view through which amounts are compared.

`sum?` adds exactly and gives up digits behind the point only when the
mantissa would not fit; when there are none left to give up, there is no
sum, and `add` and `sub` answer with the `Overflow` that says so.
-/

namespace SharedLedger

/-- A signed number of `mantissa` units of `10 ^ -scale`. -/
structure Decimal where
  negative : Bool
  mantissa : Nat
  scale : Nat
  mantissa_lt : mantissa < Nat.pow 2 96
  scale_le : scale ≤ 28
  deriving DecidableEq

/-- An operation whose result is too large for any scale. -/
inductive Overflow where
  | addition
  | subtraction
  deriving DecidableEq, Repr

/-- What is reported of an overflow. -/
def Overflow.message : Overflow → String
  | .addition => "Addition overflowed"
  | .subtraction => "Subtraction overflowed"

namespace Decimal

/-- Zero, without digits behind the point. -/
def zero : Decimal := ⟨false, 0, 0, by decide, by decide⟩

/-- One, without digits behind the point. -/
def one : Decimal := ⟨false, 1, 0, by decide, by decide⟩

instance : Inhabited Decimal := ⟨zero⟩

/-- The units counted with their sign. -/
def units (a : Decimal) : Int := if a.negative then -(a.mantissa : Int) else a.mantissa

/-- The rational number an amount stands for. -/
def value (a : Decimal) : Rat := mkRat a.units (Nat.pow 10 a.scale)

/-- Zero of either sign and any scale. -/
def isZero (a : Decimal) : Bool := a.mantissa == 0

/-- The sign flips, also that of zero. -/
def neg (a : Decimal) : Decimal := { a with negative := !a.negative }

instance : Neg Decimal := ⟨neg⟩

/-! ## Comparison -/

/-- The units of `a` at a common scale of `a` and `b`, less those of `b`. -/
def difference (a b : Decimal) : Int := a.units * Nat.pow 10 b.scale - b.units * Nat.pow 10 a.scale

/-- Below, as numbers: scale and the sign of zero are ignored. -/
def below (a b : Decimal) : Bool := a.difference b < 0

/-- At most, as numbers. -/
def atMost (a b : Decimal) : Bool := a.difference b ≤ 0

/-- The same number, whatever the scales. -/
def sameAs (a b : Decimal) : Bool := a.difference b = 0

/-- The smaller of two amounts, the first of two equal ones. -/
def least (a b : Decimal) : Decimal := if a.atMost b then a else b

/-- Above zero. -/
def isPositive (a : Decimal) : Bool := !a.negative && !a.isZero

/-- Below zero. -/
def isNegative (a : Decimal) : Bool := a.negative && !a.isZero

/-- The amount without its sign. -/
def magnitude (a : Decimal) : Decimal := { a with negative := false }

/-! ## Sums -/

/-- The integer nearest to `n / d`; a half goes to the even neighbour. -/
def roundHalfEven (n d : Nat) : Nat :=
  let q := n / d
  let twice := 2 * (n % d)
  if twice < d then q else if d < twice then q + 1 else q + q % 2

/-- `n` units at `scale + dropped` digits behind the point, written with
`scale` digits or with as many fewer as it takes to fit. -/
def fitUpto (negative : Bool) (n : Nat) (scale dropped : Nat) (h : scale ≤ 28) : Option Decimal :=
  let m := roundHalfEven n (Nat.pow 10 dropped)
  if hm : m < Nat.pow 2 96 then some ⟨negative, m, scale, hm, h⟩
  else match scale, h with
    | 0, _ => none
    | s + 1, h => fitUpto negative n s (dropped + 1) (Nat.le_of_succ_le h)

/-- `n` units at the given scale, rounded as little as it takes to fit. -/
def ofUnits? (n : Int) (scale : Nat) (h : scale ≤ 28) : Option Decimal :=
  fitUpto (n < 0) n.natAbs scale 0 h

/-- The sum, at the larger scale. A zero leaves the other amount as it is. -/
def sum? (a b : Decimal) : Option Decimal :=
  if a.isZero then some b
  else if b.isZero then some a
  else
    ofUnits? (a.units * Nat.pow 10 (max a.scale b.scale - a.scale)
        + b.units * Nat.pow 10 (max a.scale b.scale - b.scale))
      (max a.scale b.scale) (Nat.max_le.2 ⟨a.scale_le, b.scale_le⟩)

/-- Addition. -/
def add (a b : Decimal) : Except Overflow Decimal :=
  match a.sum? b with
  | some c => .ok c
  | none => .error .addition

/-- Subtraction is addition of the opposite, but zero less zero is the
second zero. -/
def sub (a b : Decimal) : Except Overflow Decimal :=
  if a.isZero && b.isZero then .ok b
  else match a.sum? b.neg with
    | some c => .ok c
    | none => .error .subtraction

/-- The sum of a list, from zero, left to right. -/
def total (as : List Decimal) : Except Overflow Decimal :=
  as.foldlM add zero

end Decimal

end SharedLedger
