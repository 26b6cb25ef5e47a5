/-!
# Media types

The type of a body: `type/subtype`, where the subtype may end in a suffix
behind a plus sign, and parameters behind semicolons. Case does not matter
and neither do the parameters, as long as they are well formed.
-/

namespace SharedLedger

namespace Web

/-- Whether a character may occur in a token. -/
def isTokenChar (c : Char) : Bool := c.isAlphanum || "!#$%&'*+-.^_\x60|~".toList.contains c

/-- A media type, in lower case. -/
structure MediaType where
  type : List Char
  subtype : List Char
  suffix : Option (List Char)
  deriving DecidableEq, Repr

namespace MediaType

/-! ## Parameters -/

/-- A quoted value, behind its first quote: at least one character, and the
next quote ends it. What follows is a semicolon or nothing, spaces apart. -/
def afterQuoted? (cs : List Char) : Option (List Char) :=
  match cs with
  | [] => none
  | c :: rest =>
    match rest.dropWhile (· ≠ '"') with
    | [] => none
    | _ :: behind =>
      if (c :: rest.takeWhile (· ≠ '"')).all fun d => ' ' ≤ d ∧ d ≠ '\x7f' then
        match behind.dropWhile (· = ' ') with
        | [] => some []
        | d :: next => if d = ';' then some next else none
      else none

/-- A bare value. Only at the end it may be empty. -/
def afterBare? (cs : List Char) : Option (List Char) :=
  match cs.dropWhile isTokenChar with
  | [] => some []
  | d :: next => if d = ';' ∧ !(cs.takeWhile isTokenChar).isEmpty then some next else none

/-- What follows a parameter. -/
def afterParameter? (cs : List Char) : Option (List Char) :=
  if (cs.takeWhile isTokenChar).isEmpty then none
  else match cs.dropWhile isTokenChar with
    | '=' :: '"' :: value => afterQuoted? value
    | '=' :: value => afterBare? value
    | _ => none

/-- Whether parameters are well formed, looking at `fuel` of them at most. -/
def parametersUpto : Nat → List Char → Bool
  | 0, _ => false
  | fuel + 1, cs =>
    match cs.dropWhile (· = ' ') with
    | [] => true
    | c :: rest =>
      match afterParameter? (c :: rest) with
      | some next => parametersUpto fuel next
      | none => false

/-! ## The type -/

/-- The subtype, and the suffix behind its last plus sign. -/
def splitSuffix (cs : List Char) : List Char × Option (List Char) :=
  match cs.reverse.dropWhile (· ≠ '+') with
  | _ :: c :: front => ((c :: front).reverse, some (cs.reverse.takeWhile (· ≠ '+')).reverse)
  | _ => (cs, none)

/-- The media type a text names. -/
def ofText? (text : String) : Option MediaType :=
  let cs := text.toList.map Char.toLower
  let essence := cs.takeWhile (· ≠ ';')
  match essence.dropWhile (· ≠ '/') with
  | [] => none
  | _ :: sub =>
    let type := essence.takeWhile (· ≠ '/')
    let parameters := (cs.dropWhile (· ≠ ';')).drop 1
    if !type.isEmpty && type.all isTokenChar && sub.all isTokenChar
        && parametersUpto (parameters.length + 1) parameters then
      let (subtype, suffix) := splitSuffix sub
      some ⟨type, subtype, suffix⟩
    else none

/-- Whether bodies of the type are JSON. -/
def isJson (m : MediaType) : Bool :=
  m.type == "application".toList
    && (m.subtype == "json".toList || m.suffix == some "json".toList)

end MediaType

end Web

end SharedLedger
