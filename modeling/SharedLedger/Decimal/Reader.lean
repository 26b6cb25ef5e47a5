import SharedLedger.Decimal

/-!
# Reading decimals

Two forms of text are amounts. The *plain* form is an optional sign and
digits with at most one point among them; an underscore may stand anywhere
behind the first digit. The first digit beyond what an amount can hold rounds
the last one kept. The *scaled* form is a plain form, an `e` and a power of
ten: what is too large for an amount is refused, what needs more than 28
places is rounded. `ofText?` reads the plain form if it can and the scaled form
otherwise.
-/

namespace SharedLedger

namespace Decimal

/-- The value of an ASCII digit. -/
def digit? (c : Char) : Option Nat :=
  if '0' ≤ c ∧ c ≤ '9' then some (c.toNat - '0'.toNat) else none

/-- The amount with the given parts, if they are within bounds. -/
def ofSigned? (negative : Bool) (mantissa scale : Nat) : Option Decimal :=
  if h : mantissa < Nat.pow 2 96 ∧ scale ≤ 28 then some ⟨negative, mantissa, scale, h.1, h.2⟩
  else none

/-- The amount with the given parts, if they are within bounds. A zero does not
keep a minus sign. -/
def ofParts? (negative : Bool) (mantissa scale : Nat) : Option Decimal :=
  ofSigned? (negative && mantissa != 0) mantissa scale

/-- What has been read of a plain form. -/
structure ReadSoFar where
  mantissa : Nat
  scale : Nat
  digitSeen : Bool
  pointSeen : Bool

namespace ReadSoFar

/-- Nothing has been read. -/
def start : ReadSoFar := ⟨0, 0, false, false⟩

/-- One more digit has been read. -/
def push (p : ReadSoFar) (d : Nat) : ReadSoFar :=
  ⟨10 * p.mantissa + d, if p.pointSeen then p.scale + 1 else p.scale, true, p.pointSeen⟩

/-- The amount read, if a digit was among it. -/
def finish? (p : ReadSoFar) (negative : Bool) : Option Decimal :=
  if p.digitSeen then ofParts? negative p.mantissa p.scale else none

/-- A digit `d` is one too many: the mantissa has no room for it, or the places
are used up. -/
def isFull (p : ReadSoFar) (d : Nat) : Bool :=
  Nat.pow 2 96 ≤ 10 * p.mantissa + d || 28 ≤ p.scale

/-- An underscore is one too many: the places are used up, and the digits before
the one in the last place fit a word of 64 bits with room for another. A longer
mantissa lets underscores pass, and the digit behind them still rounds. -/
def isClosed (p : ReadSoFar) : Bool :=
  28 ≤ p.scale && p.mantissa / 10 < (Nat.pow 2 64 - 1) / 10 - 255

/-- The amount read if `d` is the first digit not kept. A mantissa that rounds
up to the bound gives up one more digit. -/
def round? (p : ReadSoFar) (negative : Bool) (d : Nat) : Option Decimal :=
  if d < 5 then p.finish? negative
  else if p.mantissa + 1 < Nat.pow 2 96 then
    { p with mantissa := p.mantissa + 1 }.finish? negative
  else if p.scale = 0 then none
  else { p with mantissa := (p.mantissa + 1 + 4) / 10, scale := p.scale - 1 }.finish? negative

end ReadSoFar

/-- Characters that may follow the digits that are kept. -/
def isDroppable (c : Char) : Bool := c = '_' || (digit? c).isSome

/-- Reads on from what has been read. -/
def plainFrom (negative : Bool) (p : ReadSoFar) : List Char → Option Decimal
  | [] => p.finish? negative
  | c :: cs =>
    if c = '.' then
      if p.pointSeen then none
      else plainFrom negative { p with pointSeen := true } cs
    else if c = '_' then
      if !p.digitSeen then none
      else if p.isClosed then
        if cs.all isDroppable then p.finish? negative else none
      else plainFrom negative p cs
    else match digit? c with
      | none => none
      | some d =>
        if p.isFull d then
          if p.pointSeen && cs.all isDroppable then p.round? negative d else none
        else plainFrom negative (p.push d) cs

/-- The plain form. -/
def ofPlain? : List Char → Option Decimal
  | '-' :: cs => plainFrom true .start cs
  | '+' :: cs => plainFrom false .start cs
  | cs => plainFrom false .start cs

/-! ## Powers of ten -/

/-- An unsigned 32-bit number in decimal digits, a `+` in front allowed. -/
def exponent? (cs : List Char) : Option Nat :=
  let ds := match cs with
    | '+' :: ds => ds
    | ds => ds
  if ds.isEmpty then none
  else match ds.mapM digit? with
    | none => none
    | some vs =>
      let n := vs.foldl (fun n d => 10 * n + d) 0
      if n < Nat.pow 2 32 then some n else none

/-- `a` divided by `10 ^ n`. Places beyond the 28th are given up, and the
greatest digit given up rounds the last one kept, a 5 upwards. The sign stays,
also that of an amount that becomes zero. -/
def shiftDown? (a : Decimal) (n : Nat) : Option Decimal :=
  if 28 < n then none
  else if a.scale + n ≤ 28 then ofSigned? a.negative a.mantissa (a.scale + n)
  else
    let dropped := a.scale + n - 28
    let carry := if 5 ≤ a.mantissa / Nat.pow 10 (dropped - 1) % 10 then 1 else 0
    ofSigned? a.negative (a.mantissa / Nat.pow 10 dropped + carry) 28

/-- `a` times `10 ^ n`, exactly: digits behind the point are used up first. -/
def shiftUp? (a : Decimal) (n : Nat) : Option Decimal :=
  if n ≤ a.scale then ofParts? a.negative a.mantissa (a.scale - n)
  else if 28 < n then none
  else ofParts? a.negative (a.mantissa * Nat.pow 10 (n - a.scale)) 0

/-- The scaled form. -/
def ofScaled? (cs : List Char) : Option Decimal :=
  let isMark (c : Char) : Bool := c = 'e' || c = 'E'
  match cs.dropWhile (fun c => !isMark c) with
  | [] => none
  | _ :: power => do
    let a ← ofPlain? (cs.takeWhile (fun c => !isMark c))
    match power with
    | '-' :: n => a.shiftDown? (← exponent? n)
    | n => a.shiftUp? (← exponent? n)

/-- The amount a text stands for. -/
def ofText? (s : String) : Option Decimal :=
  match ofPlain? s.toList with
  | some a => some a
  | none => ofScaled? s.toList

end Decimal

end SharedLedger
