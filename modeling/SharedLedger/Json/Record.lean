import SharedLedger.Json.Value
import SharedLedger.Decimal.Reader
import SharedLedger.Date

/-!
# Reading JSON into records

A body is read straight into the type that is wanted, from front to back, so
of two faults the first one counts: text behind a value of the wrong kind is
never looked at. A record is an object with named fields or an array of its
fields in order. Fields that nobody asked for are passed over, a field may
be given once, and a field that is not required may be missing.
-/

namespace SharedLedger

namespace Json

/-- The fault in the value at the front when it is not of the wanted kind. -/
def mismatch : List UInt8 → Fault
  | [] => .malformed
  | b :: rest =>
    let judge {α : Type} (r : Except Fault α) : Fault := if r.isOk then .mistyped else .malformed
    if b = octet 'n' then judge (expect (octets "ull") rest)
    else if b = octet 't' then judge (expect (octets "rue") rest)
    else if b = octet 'f' then judge (expect (octets "alse") rest)
    else if b = octet '"' then judge (string rest)
    else if b = octet '[' ∨ b = octet '\x7b' then .mistyped
    else judge (number (b :: rest))

/-- Whether a number starts here. -/
def startsNumber (b : UInt8) : Bool := b = octet '-' || (digit? b).isSome

/-! ## Single values -/

/-- A string. -/
def stringValue : Reader String := fun bs =>
  match dropSpace bs with
  | [] => .error .malformed
  | b :: rest => if b = octet '"' then string rest else .error (mismatch (b :: rest))

/-- A string that passes `f`. -/
def parsedString {α : Type} (f : String → Option α) : Reader α := fun bs => do
  let (s, rest) ← stringValue bs
  match f s with
  | some a => return (a, rest)
  | none => throw .mistyped

/-- An integer that passes `p`. -/
def integerValue (p : Int → Bool) : Reader Int := fun bs =>
  match dropSpace bs with
  | [] => .error .malformed
  | b :: rest =>
    if startsNumber b then do
      match ← number (b :: rest) with
      | (.integer n, r) => if p n then return (n, r) else throw .mistyped
      | (.float _ _, _) => throw .mistyped
    else .error (mismatch (b :: rest))

/-- A signed integer of 64 bits. -/
def int64 : Reader Int := integerValue Numeral.inInt64

/-- An unsigned integer of 64 bits. -/
def nat64 : Reader Nat := fun bs => do
  let (n, rest) ← integerValue (fun n => 0 ≤ n && n < Nat.pow 2 64) bs
  return (n.natAbs, rest)

/-- The amount a number stands for: an integer as it is, a float by its
shortest text. -/
def Number.decimal? (n : Number) : Option Decimal := Decimal.ofPlain? n.chars

/-- An amount, as a number or as a string. -/
def decimal : Reader Decimal := fun bs =>
  match dropSpace bs with
  | [] => .error .malformed
  | b :: rest =>
    if startsNumber b then do
      let (n, r) ← number (b :: rest)
      match n.decimal? with
      | some a => return (a, r)
      | none => throw .mistyped
    else if b = octet '"' then parsedString Decimal.ofText? (b :: rest)
    else .error (mismatch (b :: rest))

/-- A date. -/
def date : Reader Date := parsedString Date.ofText?

/-- A value or `null`. -/
def optional {α : Type} (r : Reader α) : Reader (Option α) := fun bs =>
  match dropSpace bs with
  | [] => .error .malformed
  | b :: rest =>
    if b = octet 'n' then (expect (octets "ull") rest).map fun (_, rest) => (none, rest)
    else (r (b :: rest)).map fun (a, rest) => (some a, rest)

/-! ## Arrays -/

/-- Whether another element follows; if so, the text from it on. At the end
the closing bracket is left. -/
def nextElement (first : Bool) (bs : List UInt8) : Except Fault (Option (List UInt8)) :=
  match nextItem (octet ']') first bs with
  | .ok next => .ok next
  | .error _ => .error .malformed

/-- The closing bracket. -/
def closeArray (bs : List UInt8) : Except Fault (List UInt8) :=
  match dropSpace bs with
  | [] => .error .malformed
  | b :: rest => if b = octet ']' then .ok rest else .error .malformed

/-- At most `fuel` elements. -/
def elements {α : Type} (r : Reader α) : Nat → Bool → Reader (List α)
  | 0, _, _ => .error .malformed
  | fuel + 1, first, bs => do
    match ← nextElement first bs with
    | none => return ([], bs)
    | some bs =>
      let (a, bs) ← r bs
      let (as, bs) ← elements r fuel false bs
      return (a :: as, bs)

/-- A list of values. -/
def list {α : Type} (r : Reader α) : Reader (List α) := fun bs =>
  match dropSpace bs with
  | [] => .error .malformed
  | b :: rest =>
    if b = octet '[' then do
      let (as, rest) ← elements r (rest.length + 1) true rest
      return (as, ← closeArray rest)
    else .error (mismatch (b :: rest))

/-! ## Records -/

/-- One field of a record of type `α`. -/
structure Field (α : Type) where
  name : String
  /-- Whether the record is incomplete without it. -/
  required : Bool
  /-- Whether an array may end in front of it. -/
  mayEnd : Bool
  /-- Reads the field and says how it is set. -/
  read : Reader (α → α)

/-- A field that has to be given. -/
def Field.of {α β : Type} (name : String) (r : Reader β) (set : β → α → α) : Field α :=
  ⟨name, true, false, fun bs => (r bs).map fun (b, rest) => (set b, rest)⟩

/-- A field that may be missing or `null`. -/
def Field.maybe {α β : Type} (name : String) (r : Reader β) (set : Option β → α → α) : Field α :=
  ⟨name, false, true, fun bs => (optional r bs).map fun (b, rest) => (set b, rest)⟩

/-- The fields in their order, from an array. Where the array ends early, it
may end in front of each of the fields left. -/
def orderedFields {α : Type} : List (Field α) → Bool → α → Reader α
  | [], _, a, bs => .ok (a, bs)
  | f :: fs, first, a, bs => do
    match ← nextElement first bs with
    | some bs =>
      let (set, bs) ← f.read bs
      orderedFields fs false (set a) bs
    | none => if f.mayEnd then orderedFields fs first a bs else throw .mistyped

/-- At most `fuel` members of an object; `given` holds the names of the fields
that are set already. -/
def namedFields {α : Type} (fields : List (Field α)) : Nat → List String → Bool → α → Reader α
  | 0, _, _, _, _ => .error .malformed
  | fuel + 1, given, first, a, bs =>
    match dropSpace bs with
    | [] => .error .malformed
    | b :: rest =>
      if b = octet '\x7d' then
        if fields.all fun f => !f.required || given.contains f.name then .ok (a, rest)
        else .error .mistyped
      else
        let atName : Except Fault (List UInt8) :=
          if first then .ok (b :: rest)
          else if b = octet ',' then .ok (dropSpace rest)
          else .error .malformed
        match atName with
        | .error e => .error e
        | .ok [] => .error .malformed
        | .ok (q :: rest) =>
          if q ≠ octet '"' then .error .malformed
          else do
            let (name, rest) ← string rest
            if given.contains name then throw .mistyped
            let rest ← match dropSpace rest with
              | [] => throw .malformed
              | c :: r => if c = octet ':' then pure r else throw .malformed
            match fields.find? fun f => f.name == name with
            | none => namedFields fields fuel given false a (← skipValue rest)
            | some f =>
              let (set, rest) ← f.read rest
              namedFields fields fuel (name :: given) false (set a) rest

/-- A record, whose fields are set one by one in `start`. -/
def record {α : Type} (fields : List (Field α)) (start : α) : Reader α := fun bs =>
  match dropSpace bs with
  | [] => .error .malformed
  | b :: rest =>
    if b = octet '[' then do
      let (a, rest) ← orderedFields fields true start rest
      return (a, ← closeArray rest)
    else if b = octet '\x7b' then namedFields fields (rest.length + 1) [] true start rest
    else .error (mismatch (b :: rest))

end Json

end SharedLedger
