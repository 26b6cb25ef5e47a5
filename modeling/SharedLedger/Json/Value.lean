import SharedLedger.Json.Scan

/-!
# JSON values

A value is a tree; an object keeps its members in the order they are
written. `Json.ofOctets?` reads a whole text and `Json.text` writes a value.
A value that is read nests no deeper than `maxNesting`. An attempt at a value
that fails has still passed the closing brackets that follow the place where
it stopped. Values that nobody asked for are passed over: then the nesting does
not matter, strings need not be text and numbers need not be within range, the
latter two being what `Leaves` chooses between.
-/

namespace SharedLedger

/-- A JSON value. -/
inductive Json where
  | null
  | bool (b : Bool)
  | num (l : Json.Lexeme)
  | str (s : String)
  | arr (vs : List Json)
  | obj (members : List (String × Json))
  deriving Inhabited

namespace Json

/-! ## Building and looking up -/

/-- An integer. -/
def ofInt (n : Int) : Json := .num (.ofInt n)

/-- A count. -/
def ofNat (n : Nat) : Json := .num (.ofInt n)

/-- A value that may be absent. -/
def ofOption {α : Type} (f : α → Json) : Option α → Json
  | none => .null
  | some a => f a

/-- The members of a name. -/
def values : Json → String → List Json
  | .obj members, name => (members.filter fun m => m.1 == name).map (·.2)
  | _, _ => []

/-- The member of a name, the last of several. -/
def member? (v : Json) (name : String) : Option Json := (v.values name).getLast?

/-- The member of a name, `null` where there is none. -/
def field (v : Json) (name : String) : Json := (v.member? name).getD .null

/-! ## Reading -/

/-- How the leaves of a value are read. -/
structure Leaves where
  string : Attempt String
  number : Attempt Lexeme

/-- Every leaf has to mean something. -/
def Leaves.strict : Leaves := ⟨attemptString, attemptNumber⟩

/-- The leaves are passed over. -/
def Leaves.skipped : Leaves where
  string bs := match skipString bs with
    | .ok rest => .ok ("", rest)
    | .error _ => .error []
  number bs := match lexeme bs with
    | .ok r => .ok r
    | .error _ => .error []

/-- A literal word from behind its first letter. -/
def restOfWord (v : Json) (word : String) : Attempt Json := fun bs =>
  match expect (octets word) bs with
  | .ok (_, rest) => .ok (v, rest)
  | .error _ => .error []

/-- The text behind the closing bracket. A comma in its place is passed. -/
def behindArray (bs : List UInt8) : Except (List UInt8) (List UInt8) :=
  match dropSpace bs with
  | [] => .error []
  | c :: rest =>
    if c = octet ']' then .ok rest
    else if c = octet ',' then .error (dropSpace rest)
    else .error (c :: rest)

/-- The text behind the closing brace. -/
def behindObject (bs : List UInt8) : Except (List UInt8) (List UInt8) :=
  match dropSpace bs with
  | [] => .error []
  | c :: rest => if c = octet '\x7d' then .ok rest else .error (c :: rest)

/-- Whether another item follows in front of the closing octet; if so, the
text from it on. -/
def nextItem (close : UInt8) (first : Bool) (bs : List UInt8) :
    Except (List UInt8) (Option (List UInt8)) :=
  match dropSpace bs with
  | [] => .error []
  | b :: rest =>
    if b = close then .ok none
    else if first then .ok (some (b :: rest))
    else if b = octet ',' then
      match dropSpace rest with
      | [] => .error []
      | c :: r => if c = close then .error (c :: r) else .ok (some (c :: r))
    else .error (b :: rest)

/-- Leaves an array or an object, also one in which reading has stopped. -/
def leave {α : Type} (behind : List UInt8 → Except (List UInt8) (List UInt8)) :
    Except (List UInt8) (α × List UInt8) → Except (List UInt8) (α × List UInt8)
  | .ok (a, bs) =>
    match behind bs with
    | .ok rest => .ok (a, rest)
    | .error rest => .error rest
  | .error bs =>
    match behind bs with
    | .ok rest | .error rest => .error rest

mutual

/-- A value, with at most `fuel` steps between here and its leaves, and at
most `nesting` arrays and objects around them. -/
def valueUpto (leaves : Leaves) : Nat → Nat → Attempt Json
  | 0, _, _ => .error []
  | fuel + 1, nesting, bs =>
    match dropSpace bs with
    | [] => .error []
    | b :: rest =>
      if b = octet '"' then (leaves.string rest).map fun (s, r) => (.str s, r)
      else if b = octet '[' then
        match nesting with
        | 0 => .error (b :: rest)
        | nesting + 1 =>
          (leave behindArray (elementsUpto leaves fuel nesting true rest)).map
            fun (vs, r) => (.arr vs, r)
      else if b = octet '\x7b' then
        match nesting with
        | 0 => .error (b :: rest)
        | nesting + 1 =>
          (leave behindObject (membersUpto leaves fuel nesting true rest)).map
            fun (ms, r) => (.obj ms, r)
      else if b = octet 'n' then restOfWord .null "ull" rest
      else if b = octet 't' then restOfWord (.bool true) "rue" rest
      else if b = octet 'f' then restOfWord (.bool false) "alse" rest
      else (leaves.number (b :: rest)).map fun (l, r) => (.num l, r)

/-- The elements of an array, or those left behind the first. The closing
bracket is left. -/
def elementsUpto (leaves : Leaves) : Nat → Nat → Bool → Attempt (List Json)
  | 0, _, _, _ => .error []
  | fuel + 1, nesting, first, bs =>
    match nextItem (octet ']') first bs with
    | .error rest => .error rest
    | .ok none => .ok ([], bs)
    | .ok (some bs) =>
      match valueUpto leaves fuel nesting bs with
      | .error rest => .error rest
      | .ok (v, rest) =>
        (elementsUpto leaves fuel nesting false rest).map fun (vs, r) => (v :: vs, r)

/-- The members of an object, or those left behind the first. The closing
brace is left. -/
def membersUpto (leaves : Leaves) : Nat → Nat → Bool → Attempt (List (String × Json))
  | 0, _, _, _ => .error []
  | fuel + 1, nesting, first, bs =>
    match nextItem (octet '\x7d') first bs with
    | .error rest => .error rest
    | .ok none => .ok ([], bs)
    | .ok (some []) => .error []
    | .ok (some (q :: rest)) =>
      if q ≠ octet '"' then .error (q :: rest)
      else match leaves.string rest with
        | .error rest => .error rest
        | .ok (name, rest) =>
          match dropSpace rest with
          | [] => .error []
          | colon :: rest =>
            if colon ≠ octet ':' then .error (colon :: rest)
            else match valueUpto leaves fuel nesting rest with
              | .error rest => .error rest
              | .ok (v, rest) =>
                (membersUpto leaves fuel nesting false rest).map fun (ms, r) => ((name, v) :: ms, r)

end

/-- The most arrays and objects around a leaf that is read. -/
def maxNesting : Nat := 127

/-- A value whose leaves are all read, with at most `nesting` arrays and
objects around them. Every two steps take an octet. -/
def attemptValue (nesting : Nat) : Attempt Json := fun bs =>
  valueUpto .strict (2 * bs.length + 2) nesting bs

/-- A value that is a part of an object. -/
def memberValue : Attempt Json := attemptValue (maxNesting - 1)

/-- A value with nothing around it. -/
def value : Reader Json := (attemptValue maxNesting).reader

/-- Passes over a value. -/
def skipValue (bs : List UInt8) : Except Fault (List UInt8) :=
  match valueUpto .skipped (2 * bs.length + 2) bs.length bs with
  | .ok (_, rest) => .ok rest
  | .error _ => .error .malformed

/-- All of a text, white space at the end allowed. -/
def whole {α : Type} (r : Reader α) (bs : List UInt8) : Except Fault α := do
  let (a, rest) ← r bs
  if (dropSpace rest).isEmpty then return a else throw .malformed

/-- The value a text is. -/
def ofOctets? (bs : List UInt8) : Option Json := (whole value bs).toOption

/-! ## Writing -/

/-- The hexadecimal digit of a number below 16. -/
def hexChar (n : Nat) : Char := if n < 10 then Char.ofNat (48 + n) else Char.ofNat (87 + n)

/-- A character inside a string. -/
def escapedChar (c : Char) : List Char :=
  if c = '"' then ['\\', '"']
  else if c = '\\' then ['\\', '\\']
  else if c.toNat < 0x20 then
    ['\\', 'u', '0', '0', hexChar (c.toNat / 16), hexChar (c.toNat % 16)]
  else [c]

/-- A string with its quotes. -/
def quotedChars (s : String) : List Char :=
  '"' :: s.toList.flatMap escapedChar ++ ['"']

mutual

/-- The characters of a value, without white space. -/
def chars : Json → List Char
  | .null => ['n', 'u', 'l', 'l']
  | .bool true => ['t', 'r', 'u', 'e']
  | .bool false => ['f', 'a', 'l', 's', 'e']
  | .num l => l.chars
  | .str s => quotedChars s
  | .arr vs => '[' :: elementChars vs ++ [']']
  | .obj ms => '\x7b' :: memberChars ms ++ ['\x7d']

/-- Values with commas between them. -/
def elementChars : List Json → List Char
  | [] => []
  | [v] => chars v
  | v :: w :: vs => chars v ++ ',' :: elementChars (w :: vs)

/-- Members with commas between them. -/
def memberChars : List (String × Json) → List Char
  | [] => []
  | [(name, v)] => quotedChars name ++ ':' :: chars v
  | (name, v) :: m :: ms => quotedChars name ++ ':' :: chars v ++ ',' :: memberChars (m :: ms)

end

/-- The text of a value. -/
def text (v : Json) : String := String.ofList v.chars

end Json

end SharedLedger
