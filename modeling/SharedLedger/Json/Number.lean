import SharedLedger.Binary64

/-!
# Numbers in JSON text

A number is kept as it is written, in its `Lexeme`: sign, digits before and
behind the point, power of ten. What it stands for is an integer when it is
written as one and fits 64 bits, and a binary floating-point number in every
other case. A float is made from the first digits that fit 64 bits by one
multiplication or division with a power of ten, each step rounded; a result
beyond the largest float is no number at all.
-/

namespace SharedLedger

namespace Json

/-- A number as it is written. `fraction` is empty where there is no point. -/
structure Lexeme where
  negative : Bool
  whole : List Nat
  fraction : List Nat
  exponent : Option (Bool × List Nat)
  deriving DecidableEq, Repr

/-- What a number stands for. -/
inductive Number where
  | integer (n : Int)
  | float (negative : Bool) (magnitude : Binary64)
  deriving DecidableEq, Repr

namespace Lexeme

/-- An integer as it is written. -/
def ofInt (n : Int) : Lexeme :=
  ⟨n < 0, (Nat.toDigits 10 n.natAbs).map (fun c => c.toNat - '0'.toNat), [], none⟩

/-- The characters of a number. -/
def chars (l : Lexeme) : List Char :=
  let digits := List.map Nat.digitChar
  (if l.negative then ['-'] else []) ++ digits l.whole
    ++ (if l.fraction.isEmpty then [] else '.' :: digits l.fraction)
    ++ match l.exponent with
      | none => []
      | some (below, ds) => 'e' :: (if below then ['-'] else []) ++ digits ds

/-- The leading digits that fit 64 bits, and the digits that do not. -/
def takeFitting (n : Nat) : List Nat → Nat × List Nat
  | [] => (n, [])
  | d :: ds => if 10 * n + d < Nat.pow 2 64 then takeFitting (10 * n + d) ds else (n, d :: ds)

/-- The power of ten written behind the digits, kept within 32 bits. -/
def written (l : Lexeme) : Int :=
  match l.exponent with
  | none => 0
  | some (below, ds) =>
    let n := Int.ofNat (min (ds.foldl (fun n d => 10 * n + d) 0) (Nat.pow 2 31))
    if below then -n else n

/-- The digits kept and the power of ten they are to be multiplied with. -/
def scaled (l : Lexeme) : Nat × Int :=
  let (n, rest) := takeFitting 0 l.whole
  let (m, dropped) := takeFitting n l.fraction
  (m, (rest.length : Int) - ((l.fraction.length : Int) - dropped.length) + l.written)

/-- `x` times ten to the power `e`, going below `10 ^ -308` in steps. -/
def shiftFloat? (x : Binary64) (e : Int) : Nat → Option Binary64
  | 0 => some Binary64.zero
  | steps + 1 =>
    if x.mantissa = 0 then some Binary64.zero
    else if 308 < e then none
    else if 0 ≤ e then do x.mul? (← Binary64.powerOfTen? e.natAbs)
    else if -308 ≤ e then do x.div? (← Binary64.powerOfTen? e.natAbs)
    else do shiftFloat? (← x.div? (← Binary64.powerOfTen? 308)) (e + 308) steps

/-- The float a number stands for, if it is within range. -/
def float? (l : Lexeme) : Option Binary64 := do
  let (m, e) := l.scaled
  shiftFloat? (← Binary64.nearest? m 1) e 4

/-- What a number stands for. Minus zero is no integer. -/
def number? (l : Lexeme) : Option Number :=
  let magnitude : Nat := l.whole.foldl (fun n d => 10 * n + d) 0
  let integral := l.fraction.isEmpty && l.exponent.isNone
  if integral && !l.negative && magnitude < Nat.pow 2 64 then some (.integer magnitude)
  else if integral && l.negative && magnitude ≤ Nat.pow 2 63 && magnitude != 0 then
    some (.integer (-(magnitude : Int)))
  else l.float?.map (.float l.negative)

/-- The digits behind the one that takes `n` beyond 31 bits. -/
def behindOverflow (n : Nat) : List Nat → List Nat
  | [] => []
  | d :: ds => if 10 * n + d < Nat.pow 2 31 then behindOverflow (10 * n + d) ds else ds

/-- The digits of a number out of range that nobody needs to look at to know
that it is: those behind the overflow of its power of ten. -/
def unread (l : Lexeme) : List Nat :=
  match l.exponent with
  | some (false, ds) => behindOverflow 0 ds
  | _ => []

end Lexeme

/-- The text of a number in its fewest digits, without an exponent. -/
def Number.chars : Number → List Char
  | .integer n => (toString n).toList
  | .float negative x => (if negative then ['-'] else []) ++ x.chars

end Json

end SharedLedger
