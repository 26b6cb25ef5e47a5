import SharedLedger.Ledger.Answer
import SharedLedger.Web.Cookie

/-!
# Responses

A response has a status, a body and cookies to set. A login sets two cookies:
the access token, which scripts cannot read, and the guard that requests
have to repeat.
-/

namespace SharedLedger

namespace Web

/-- A cookie to set. -/
structure SetCookie where
  name : String
  value : String
  attributes : String
  deriving DecidableEq

/-- The value of the header that sets a cookie. -/
def SetCookie.text (c : SetCookie) : String := c.name ++ "=" ++ c.value ++ "; " ++ c.attributes

/-- The body of a response. -/
inductive Body where
  | nothing
  | text (s : String)
  | json (v : Json)

/-- A response. -/
structure Response where
  status : Nat
  body : Body
  cookies : List SetCookie

namespace Response

/-- A status and nothing else. -/
def bare (status : Nat) : Response := ⟨status, .nothing, []⟩

/-- A response with a JSON body. -/
def json (status : Nat) (v : Json) : Response := ⟨status, .json v, []⟩

/-- Reports an error. Internal errors are referred to by a name. -/
def ofError (reference : String) (e : LedgerError) : Response :=
  .json e.kind.status (e.body reference)

/-- A login. -/
def ofTokens (guard : String) (p : TokenPair) : Response :=
  let shared := "SameSite=Strict; Path=/; Max-Age=" ++ toString p.expiresIn
  { status := 200
    body := .json p.toJson
    cookies :=
      [⟨Cookie.access, p.access, "HttpOnly; " ++ shared⟩, ⟨Cookie.guard, guard, shared⟩] }

/-- The response without its body. -/
def head (r : Response) : Response := { r with body := .nothing }

end Response

end Web

end SharedLedger
