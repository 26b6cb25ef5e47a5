import SharedLedger.Token
import SharedLedger.Web.Request

/-!
# Callers

Who calls is told by an access token, which comes in the authorization header
or in a cookie. Browsers send cookies on their own account, so a request that
changes something and relies on a cookie has to repeat a second cookie in a
header of its own. Which tokens are good is left open here.
-/

namespace SharedLedger

namespace Web

/-- The header that repeats the guard cookie. -/
def guardHeader : String := "x-csrf-token"

namespace Request

/-- Whether a request may change something. -/
def changesState (r : Request) : Bool := ["POST", "PUT", "PATCH", "DELETE"].contains r.method

/-- Whether the guard cookie is repeated. -/
def repeatsGuard (r : Request) : Bool :=
  match r.cookie? Cookie.guard, r.header? guardHeader with
  | some cookie, some header => !cookie.isEmpty && cookie == header
  | _, _ => false

/-- What the value of an authorization header starts with. -/
def bearer : String := "Bearer "

/-- The access token of a request. -/
def token (r : Request) : Except LedgerError String :=
  match r.header? "authorization" with
  | some value =>
    if bearer.toList.isPrefixOf value.toList then
      .ok (String.ofList (value.toList.drop bearer.length))
    else .error (.unauthenticated "Invalid Authorization header")
  | none =>
    match r.cookie? Cookie.access with
    | none => .error (.unauthenticated "Missing credentials")
    | some token => if r.changesState && !r.repeatsGuard then .error .forbidden else .ok token

/-- The user who calls, given what a good token claims. -/
def caller (validate : String → Except LedgerError Claims) (r : Request) :
    Except LedgerError Int := do
  (← validate (← r.token)).userId

end Request

end Web

end SharedLedger
