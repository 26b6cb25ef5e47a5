import SharedLedger.Decimal

/-!
# Binary floating-point numbers

A finite number of the IEEE 754 format `binary64` is, up to its sign, an
integer below `2 ^ 53` times a power of two. `nearest?` finds the one
nearest to a fraction. `digits` goes the other way: the fewest decimal
digits that read back as the same number, and of several such texts the one
nearest to it, the greater of two that are equally near. Everything is exact arithmetic on natural numbers.
-/

namespace SharedLedger

/-- The number `mantissa * 2 ^ exponent`. -/
structure Binary64 where
  mantissa : Nat
  exponent : Int
  deriving DecidableEq, Repr

namespace Binary64

/-- Zero. -/
def zero : Binary64 := ⟨0, 0⟩

/-- Two to the power `e`, as a fraction. -/
def powerOfTwo (e : Int) : Nat × Nat := if e < 0 then (1, Nat.pow 2 e.natAbs) else (Nat.pow 2 e.natAbs, 1)

/-- The number nearest to `n / d` of a positive `d`, a tie going to the even
mantissa; `none` beyond the largest finite number. -/
def nearest? (n d : Nat) : Option Binary64 :=
  if n = 0 then some zero
  else
    let guess : Int := (Nat.log2 n : Int) - (Nat.log2 d : Int) - 53
    let fits (e : Int) : Bool := n * (powerOfTwo e).2 / (d * (powerOfTwo e).1) < Nat.pow 2 53
    let least : Int := if fits guess then guess else if fits (guess + 1) then guess + 1 else guess + 2
    let e : Int := if least < -1074 then -1074 else least
    let m := Decimal.roundHalfEven (n * (powerOfTwo e).2) (d * (powerOfTwo e).1)
    let (m, e) := if m = Nat.pow 2 53 then (Nat.pow 2 52, e + 1) else (m, e)
    if 971 < e then none else some ⟨m, e⟩

/-- The number as a fraction. -/
def fraction (x : Binary64) : Nat × Nat :=
  (x.mantissa * (powerOfTwo x.exponent).1, (powerOfTwo x.exponent).2)

/-- The product, rounded. -/
def mul? (x y : Binary64) : Option Binary64 :=
  nearest? (x.fraction.1 * y.fraction.1) (x.fraction.2 * y.fraction.2)

/-- The quotient by a number that is not zero, rounded. -/
def div? (x y : Binary64) : Option Binary64 :=
  nearest? (x.fraction.1 * y.fraction.2) (x.fraction.2 * y.fraction.1)

/-- Ten to the power `n`, rounded, for `n` up to 308. -/
def powerOfTen? (n : Nat) : Option Binary64 := nearest? (Nat.pow 10 n) 1

/-! ## The fewest digits -/

/-- The least `k` with `n / d < 10 ^ k`, for a positive fraction. -/
def decimalExponent (n d : Nat) : Int :=
  if d ≤ n then ((Nat.toDigits 10 (n / d)).length : Int)
  else
    1 - ((Nat.toDigits 10 ((d - 1) / n)).length : Int)

/-- The multiples of `10 ^ p` next to `n / d`, from below and from above. -/
def neighbours (n d : Nat) (p : Int) : Nat × Nat :=
  let q := if p < 0 then n * Nat.pow 10 p.natAbs / d else n / (d * Nat.pow 10 p.natAbs)
  (q, q + 1)

/-- Whether `c * 10 ^ p` reads back as `x`. -/
def readsBack (x : Binary64) (c : Nat) (p : Int) : Bool :=
  let there := if p < 0 then nearest? c (Nat.pow 10 p.natAbs)
    else nearest? (c * Nat.pow 10 p.natAbs) 1
  match there with
  | some y => y.fraction.1 * x.fraction.2 == x.fraction.1 * y.fraction.2
  | none => false

/-- Whether `n / d` is nearer to `c * 10 ^ p` than to the next multiple. -/
def nearerBelow (n d c : Nat) (p : Int) : Bool :=
  if p < 0 then 2 * (n * Nat.pow 10 p.natAbs) < (2 * c + 1) * d
  else 2 * n < (2 * c + 1) * (d * Nat.pow 10 p.natAbs)

/-- The shortest decimal among those of at least `17 - left` digits. -/
def shortestUpto (x : Binary64) (top : Int) : Nat → Nat × Int
  | 0 => (x.fraction.1 / x.fraction.2, 0)
  | left + 1 =>
    let p := top - (17 - left : Nat)
    let (low, high) := neighbours x.fraction.1 x.fraction.2 p
    match readsBack x low p, readsBack x high p with
    | true, true => if nearerBelow x.fraction.1 x.fraction.2 low p then (low, p) else (high, p)
    | true, false => (low, p)
    | false, true => (high, p)
    | false, false => shortestUpto x top left

/-- Moves up to `k` zeros at the end of `c` into the power of ten. -/
def withoutZeros (c : Nat) (p : Int) : Nat → Nat × Int
  | 0 => (c, p)
  | k + 1 => if c % 10 = 0 then withoutZeros (c / 10) (p + 1) k else (c, p)

/-- The fewest decimal digits that read back as the number, as an integer
and the power of ten it is to be multiplied with. -/
def digits (x : Binary64) : Nat × Int :=
  if x.mantissa = 0 then (0, 0)
  else
    let (c, p) := shortestUpto x (decimalExponent x.fraction.1 x.fraction.2) 17
    withoutZeros c p 17

/-- The number in its fewest digits, written without an exponent. -/
def chars (x : Binary64) : List Char :=
  let (c, p) := x.digits
  let ds := Nat.toDigits 10 c
  if 0 ≤ p then if c = 0 then ['0'] else ds ++ List.replicate p.natAbs '0'
  else
    let padded := List.replicate (p.natAbs + 1 - ds.length) '0' ++ ds
    padded.take (padded.length - p.natAbs) ++ '.' :: padded.drop (padded.length - p.natAbs)

end Binary64

end SharedLedger
