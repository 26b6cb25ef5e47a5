import SharedLedger.Json.Record
import SharedLedger.Web.Address
import SharedLedger.Web.Cookie
import SharedLedger.Web.MediaType

/-!
# Requests over the web

A request names a method and a path and carries headers and perhaps a body.
Of several headers of one name only the first counts, cookies apart, and a
header that is not readable text counts as absent; an octet beyond ASCII in a
header is a character that makes it unreadable. A body that is asked for has
to be JSON of the wanted shape.
-/

namespace SharedLedger

namespace Web

/-- A request. -/
structure Request where
  method : String
  /-- The path of the address; empty where it has none. -/
  path : List Char
  /-- Names, in lower case, and values. -/
  headers : List (String × String)
  body : Option String
  deriving DecidableEq

namespace Request

/-! ## What can be sent -/

/-- Whether a text is a token. -/
def isToken (s : String) : Bool := !s.isEmpty && s.toList.all isTokenChar

/-- Whether a text can be the value of a header. -/
def isHeaderValue (s : String) : Bool :=
  s.toList.all fun c => c == '\t' || (0x20 ≤ c.toNat && c.toNat ≠ 0x7F)

/-- The request with the given parts, if it can be sent. -/
def of? (method address : String) (headers : List (String × String)) (body : Option String) :
    Option Request :=
  if isToken method && headers.all fun h => isToken h.1 && isHeaderValue h.2 then
    (Address.path? address).map fun path =>
      ⟨method, path, headers.map fun h => (String.ofList (h.1.toList.map Char.toLower), h.2), body⟩
  else none

/-! ## Headers -/

/-- The values of a header. -/
def values (r : Request) (name : String) : List String :=
  (r.headers.filter fun h => h.1 == name).map Prod.snd

/-- The first value of a header, if it is readable. -/
def header? (r : Request) (name : String) : Option String :=
  (r.values name).head?.filter Cookie.isReadable

/-- The first cookie of a name. -/
def cookie? (r : Request) (name : String) : Option String := Cookie.find? (r.values "cookie") name

/-! ## Path and body -/

/-- The segments of the path, behind its first slash. -/
def segments (r : Request) : List (List Char) := (Cookie.pieces '/' r.path).drop 1

/-- Whether the body is said to be JSON. -/
def saysJson (r : Request) : Bool :=
  ((r.header? "content-type").bind MediaType.ofText?).any MediaType.isJson

/-- The body, or the status that refuses it. -/
def json {α : Type} (r : Request) (reader : Json.Reader α) : Except Nat α :=
  if r.saysJson then
    match Json.whole reader (Json.octets (r.body.getD "")) with
    | .ok a => .ok a
    | .error .malformed => .error 400
    | .error .mistyped => .error 422
  else .error 415

end Request

/-- The character of a hexadecimal pair. -/
def hexPair? (a b : Char) : Option Char :=
  let digit? (c : Char) : Option Nat :=
    if c.isDigit then some (c.toNat - '0'.toNat)
    else if 'a' ≤ c.toLower ∧ c.toLower ≤ 'f' then some (c.toLower.toNat - 'a'.toNat + 10)
    else none
  (digit? a).bind fun x => (digit? b).map fun y => Char.ofNat (16 * x + y)

/-- A text with its escaped octets taken for characters. Pairs that are not
hexadecimal stay as they are. -/
def unescape : List Char → List Char
  | '%' :: a :: b :: cs =>
    match hexPair? a b with
    | some c => c :: unescape cs
    | none => '%' :: unescape (a :: b :: cs)
  | c :: cs => c :: unescape cs
  | [] => []

end Web

end SharedLedger
