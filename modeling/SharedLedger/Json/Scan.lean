import SharedLedger.Json.Number

/-!
# The leaves of JSON text

JSON text is read as octets, from the front. A `Reader` either takes a value
off the front and leaves the rest, or stops at the first `Fault`: text that
is no JSON at all, or a well-formed value where another kind of value is
wanted. An `Attempt` that fails leaves a rest as well, the text behind the
place where it stopped. The leaves are blanks, literal words, numbers and
strings. Only the strings whose content matters are checked to be text.
-/

namespace SharedLedger

namespace Json

/-- Why reading stopped. -/
inductive Fault where
  /-- What follows is not JSON. -/
  | malformed
  /-- A value of the wrong kind, a missing field or a repeated one. -/
  | mistyped
  deriving DecidableEq, Repr

/-- Takes a value off the front of the text. -/
abbrev Reader (α : Type) := List UInt8 → Except Fault (α × List UInt8)

/-- Takes a value off the front of the text, or says what is left behind the
place where it stopped. -/
abbrev Attempt (α : Type) := List UInt8 → Except (List UInt8) (α × List UInt8)

/-- The attempt that has to succeed. -/
def Attempt.reader {α : Type} (a : Attempt α) : Reader α := fun bs =>
  match a bs with
  | .ok r => .ok r
  | .error _ => .error .malformed

/-- The octet of an ASCII character. -/
def octet (c : Char) : UInt8 := c.val.toUInt8

/-- The octets of a text. -/
def octets (s : String) : List UInt8 := s.toUTF8.toList

/-- Space, tab, line feed, carriage return. -/
def isSpace (b : UInt8) : Bool :=
  b == octet ' ' || b == octet '\t' || b == octet '\n' || b == octet '\r'

/-- The text from its first octet that is no space. -/
def dropSpace (bs : List UInt8) : List UInt8 := bs.dropWhile isSpace

/-- The text behind the given octets, if it starts with them. -/
def expect : List UInt8 → Reader Unit
  | [], bs => .ok ((), bs)
  | c :: cs, b :: bs => if b = c then expect cs bs else .error .malformed
  | _ :: _, [] => .error .malformed

/-! ## Numbers -/

/-- The value of an ASCII digit. -/
def digit? (b : UInt8) : Option Nat :=
  if octet '0' ≤ b ∧ b ≤ octet '9' then some (b.toNat - 48) else none

/-- The digits at the front. -/
def takeDigits : List UInt8 → List Nat × List UInt8
  | [] => ([], [])
  | b :: bs =>
    match digit? b with
    | none => ([], b :: bs)
    | some d => (d :: (takeDigits bs).1, (takeDigits bs).2)

/-- The point and the digits behind it, if there is a point. -/
def takeFraction : Reader (List Nat)
  | [] => .ok ([], [])
  | b :: bs =>
    if b = octet '.' then
      let (ds, rest) := takeDigits bs
      if ds.isEmpty then .error .malformed else .ok (ds, rest)
    else .ok ([], b :: bs)

/-- The power of ten, if there is one. -/
def takeExponent : Reader (Option (Bool × List Nat))
  | [] => .ok (none, [])
  | b :: bs =>
    if b = octet 'e' ∨ b = octet 'E' then
      let (below, bs) := match bs with
        | s :: r => if s = octet '-' then (true, r) else if s = octet '+' then (false, r) else (false, s :: r)
        | [] => (false, [])
      let (ds, rest) := takeDigits bs
      if ds.isEmpty then .error .malformed else .ok (some (below, ds), rest)
    else .ok (none, b :: bs)

/-- A number. No digit follows a leading zero. -/
def lexeme : Reader Lexeme := fun bs => do
  let (negative, bs) := match bs with
    | b :: r => if b = octet '-' then (true, r) else (false, b :: r)
    | [] => (false, [])
  let (whole, bs) := takeDigits bs
  if whole.isEmpty ∨ (whole.head? = some 0 ∧ 1 < whole.length) then throw .malformed
  let (fraction, bs) ← takeFraction bs
  let (exponent, bs) ← takeExponent bs
  return (⟨negative, whole, fraction, exponent⟩, bs)

/-- A number that stands for something. -/
def number : Reader Number := fun bs => do
  let (l, rest) ← lexeme bs
  match l.number? with
  | some n => return (n, rest)
  | none => throw .malformed

/-- A number within range. One that is too large is read up to its end, or to
the digit that takes its power of ten beyond 32 bits. -/
def attemptNumber : Attempt Lexeme := fun bs =>
  match lexeme bs with
  | .error _ => .error []
  | .ok (l, rest) =>
    if l.number?.isSome then .ok (l, rest)
    else .error (l.unread.map (fun d => UInt8.ofNat (48 + d)) ++ rest)

/-! ## Strings -/

/-- The value of a hexadecimal digit. -/
def hexDigit? (b : UInt8) : Option Nat :=
  if octet '0' ≤ b ∧ b ≤ octet '9' then some (b.toNat - 48)
  else if octet 'a' ≤ b ∧ b ≤ octet 'f' then some (b.toNat - 87)
  else if octet 'A' ≤ b ∧ b ≤ octet 'F' then some (b.toNat - 55)
  else none

/-- The value of four hexadecimal digits. -/
def hexQuad? (a b c d : UInt8) : Option Nat := do
  return (((← hexDigit? a) * 16 + (← hexDigit? b)) * 16 + (← hexDigit? c)) * 16 + (← hexDigit? d)

/-- What a one-letter escape stands for. -/
def escaped? (b : UInt8) : Option UInt8 :=
  if b = octet '"' ∨ b = octet '\\' ∨ b = octet '/' then some b
  else if b = octet 'b' then some 8
  else if b = octet 'f' then some 12
  else if b = octet 'n' then some 10
  else if b = octet 'r' then some 13
  else if b = octet 't' then some 9
  else none

/-- The octets of a code point. -/
def codePoint (n : Nat) : List UInt8 := octets (String.singleton (Char.ofNat n))

/-- Puts octets in front of what has been taken. -/
def prepend (front : List UInt8) (r : Except (List UInt8) (List UInt8 × List UInt8)) :
    Except (List UInt8) (List UInt8 × List UInt8) :=
  r.map fun (bs, rest) => (front ++ bs, rest)

/-- The content of a string up to its closing quote, escapes resolved. A
surrogate stands only in a pair. -/
def content : Attempt (List UInt8)
  | [] => .error []
  | b :: bs =>
    if b = octet '"' then .ok ([], bs)
    else if b < 0x20 then .error bs
    else if b ≠ octet '\\' then prepend [b] (content bs)
    else match bs with
      | [] => .error []
      | e :: bs =>
        if e ≠ octet 'u' then
          match escaped? e with
          | some c => prepend [c] (content bs)
          | none => .error bs
        else match bs with
          | h1 :: h2 :: h3 :: h4 :: bs =>
            match hexQuad? h1 h2 h3 h4 with
            | none => .error bs
            | some n =>
              if n < 0xD800 ∨ 0xDFFF < n then prepend (codePoint n) (content bs)
              else if 0xDC00 ≤ n then .error bs
              else match bs with
                | [] => .error []
                | s :: bs =>
                  if s ≠ octet '\\' then .error bs
                  else match bs with
                    | [] => .error []
                    | u :: bs =>
                      if u ≠ octet 'u' then .error bs
                      else match bs with
                        | l1 :: l2 :: l3 :: l4 :: bs =>
                          match hexQuad? l1 l2 l3 l4 with
                          | none => .error bs
                          | some m =>
                            if 0xDC00 ≤ m ∧ m ≤ 0xDFFF then
                              prepend (codePoint (0x10000 + (n - 0xD800) * 0x400 + (m - 0xDC00)))
                                (content bs)
                            else .error bs
                        | _ => .error []
          | _ => .error []

/-- A string, from behind its opening quote. -/
def attemptString : Attempt String := fun bs =>
  match content bs with
  | .error rest => .error rest
  | .ok (cs, rest) =>
    match String.fromUTF8? ⟨cs.toArray⟩ with
    | some s => .ok (s, rest)
    | none => .error rest

/-- A string that has to be one, from behind its opening quote. -/
def string : Reader String := attemptString.reader

/-- Passes over a string, from behind its opening quote. Its content need not
be text. -/
def skipString : List UInt8 → Except Fault (List UInt8)
  | [] => .error .malformed
  | b :: bs =>
    if b = octet '"' then .ok bs
    else if b < 0x20 then .error .malformed
    else if b ≠ octet '\\' then skipString bs
    else match bs with
      | [] => .error .malformed
      | e :: bs =>
        if e ≠ octet 'u' then
          if (escaped? e).isSome then skipString bs else .error .malformed
        else match bs with
          | h1 :: h2 :: h3 :: h4 :: bs =>
            if (hexQuad? h1 h2 h3 h4).isSome then skipString bs else .error .malformed
          | _ => .error .malformed

end Json

end SharedLedger
