import SharedLedger.Text.Blank

/-!
# Cookies

A cookie header lists `name=value` segments between semicolons. White space
around a segment is dropped, and the name ends at the first equals sign. A
segment without one is no cookie, and a header that is not readable text is
passed over. `find?` answers with the first cookie of a name.
-/

namespace SharedLedger

namespace Cookie

/-- The cookie that holds an access token. -/
def access : String := "access_token"

/-- The cookie whose value a request has to repeat. -/
def guard : String := "csrf_token"

/-- Whether a header value is readable: visible ASCII, spaces and tabs. -/
def isReadable (header : String) : Bool :=
  header.toList.all fun c => (0x20 ≤ c.toNat && c.toNat < 0x7F) || c == '\t'

/-- The pieces between separators. -/
def pieces (separator : Char) : List Char → List (List Char)
  | [] => [[]]
  | c :: cs =>
    if c = separator then [] :: pieces separator cs
    else match pieces separator cs with
      | [] => [[c]]
      | p :: ps => (c :: p) :: ps

/-- Name and value of a segment. -/
def ofSegment? (segment : List Char) : Option (List Char × List Char) :=
  let s := Text.trim segment
  match s.dropWhile (· ≠ '=') with
  | [] => none
  | _ :: value => some (s.takeWhile (· ≠ '='), value)

/-- The cookies of a header. -/
def ofHeader (header : String) : List (List Char × List Char) :=
  (pieces ';' header.toList).filterMap ofSegment?

/-- The value of the first cookie of the given name in the readable ones of
the headers. -/
def find? (headers : List String) (name : String) : Option String :=
  let cookies := (headers.filter isReadable).flatMap ofHeader
  (cookies.find? fun c => c.1 = name.toList).map fun c => String.ofList c.2

end Cookie

end SharedLedger
