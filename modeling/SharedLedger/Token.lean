import SharedLedger.Error
import SharedLedger.Hash.Sha256
import SharedLedger.Json.Record
import SharedLedger.Text.Base64Url
import SharedLedger.Token.Key

/-!
# Tokens

A token is three texts with points between them: a header that names the
algorithm, the claims, and a keyed hash of the two under the secret of the
service. An *access* token lets its bearer act for a user, a *refresh* token
buys a new pair. `validate` accepts a token that was signed with the secret
and has not run out for more than a minute, whatever else its claims say.
-/

namespace SharedLedger

/-- What a token is good for. -/
inductive TokenKind where
  | access
  | refresh
  deriving DecidableEq, Repr

/-- The name of a kind of token. -/
def TokenKind.label : TokenKind → String
  | .access => "access"
  | .refresh => "refresh"

/-- What a token says. Times are seconds since 1970, as 64-bit words. -/
structure Claims where
  subject : String
  kind : TokenKind
  issuedAt : Nat
  expiresAt : Nat
  deriving DecidableEq, Repr

/-- The user a token speaks for. -/
def Claims.userId (c : Claims) : Except LedgerError Int :=
  match Numeral.int64? c.subject.toList with
  | some id => .ok id
  | none => .error (.unauthenticated "Invalid token subject")

/-- What is wrong with a token. -/
inductive TokenFault where
  | notAToken
  | base64
  | json
  | algorithm
  | signature
  | expired
  | audience
  deriving DecidableEq, Repr

/-- The name of a fault. -/
def TokenFault.label : TokenFault → String
  | .notAToken => "InvalidToken"
  | .base64 => "Base64 error"
  | .json => "JSON error"
  | .algorithm => "InvalidAlgorithm"
  | .signature => "InvalidSignature"
  | .expired => "ExpiredSignature"
  | .audience => "InvalidAudience"

/-- The two tokens a login is answered with. -/
structure TokenPair where
  access : String
  refresh : String
  /-- The lifetime of the access token in seconds. -/
  expiresIn : Int
  deriving DecidableEq

namespace Token

open Json (Reader octet octets dropSpace expect)

/-! ## Claims in JSON -/

/-- The octets of claims. -/
def claimsOctets (c : Claims) : List UInt8 :=
  octets (Json.obj [("sub", .str c.subject), ("token_type", .str c.kind.label),
    ("iat", .ofNat c.issuedAt), ("exp", .ofNat c.expiresAt)]).text

/-- A word, as a string or as an object with a `null` under it. -/
def word {α : Type} (f : String → Option α) : Reader α := fun bs =>
  match dropSpace bs with
  | [] => .error .malformed
  | b :: rest =>
    if b = octet '\x7b' then do
      match dropSpace rest with
      | [] => throw .malformed
      | q :: rest =>
        if q ≠ octet '"' then throw .malformed
        let (name, rest) ← Json.string rest
        let some a := f name | throw .mistyped
        let ((), rest) ← expect [octet ':'] (dropSpace rest)
        let ((), rest) ← expect (octets "null") (dropSpace rest)
        let ((), rest) ← expect [octet '\x7d'] (dropSpace rest)
        return (a, rest)
    else if b = octet '"' then Json.parsedString f (b :: rest)
    else throw .malformed

/-- A kind of token by its name. -/
def kindOf? (s : String) : Option TokenKind :=
  [TokenKind.access, .refresh].find? fun k => k.label == s

/-- The claims. -/
def claims : Reader Claims :=
  Json.record [
    .of "sub" Json.stringValue fun v c => { c with subject := v },
    .of "token_type" (word kindOf?) fun v c => { c with kind := v },
    .of "iat" Json.nat64 fun v c => { c with issuedAt := v },
    .of "exp" Json.nat64 fun v c => { c with expiresAt := v }]
  ⟨"", .access, 0, 0⟩

/-- Whether an audience is named: a string or an array of strings. -/
def namesAudience : Json → Bool
  | .str _ => true
  | .arr vs => vs.all fun v => match v with
    | .str _ => true
    | _ => false
  | _ => false

/-- What follows a value, or the place where reading it stopped. -/
def passed {α : Type} : Except (List UInt8) (α × List UInt8) → List UInt8
  | .ok (_, rest) | .error rest => rest

/-- Passes over a time. It may be anything but an array or an object with
something in it. -/
def passTime (bs : List UInt8) : List UInt8 :=
  match dropSpace bs with
  | [] => []
  | b :: rest =>
    if b = octet '[' then passed (Json.leave Json.behindArray (.ok ((), rest)))
    else if b = octet '\x7b' then passed (Json.leave Json.behindObject (.ok ((), rest)))
    else passed (Json.memberValue (b :: rest))

/-- Whether the claims name an audience. A time or a name that cannot be read
is as good as none: what follows it is read from where reading stopped. Claims
that are not an object have no place for an audience. -/
def audience : Reader Bool :=
  Json.record [
    ⟨"nbf", false, true, fun bs => .ok (id, passTime bs)⟩,
    ⟨"iss", false, false, fun bs => .ok (id, passed (Json.memberValue bs))⟩,
    ⟨"aud", false, false, fun bs =>
      let aud := Json.memberValue bs
      .ok (fun _ => aud.toOption.any fun (v, _) => namesAudience v, passed aud)⟩]
  false

/-! ## The header -/

/-- The header of every token issued here. -/
def headerOctets : List UInt8 :=
  octets (Json.obj [("typ", .str "JWT"), ("alg", .str "HS256")]).text

/-- An optional part of the header that is read and not used. -/
def unusedPart {α β : Type} (name : String) (r : Reader α) : Json.Field β :=
  ⟨name, false, false, fun bs => (Json.optional r bs).map fun (_, rest) => (id, rest)⟩

/-- A key that is read and not used. -/
def key : Reader Unit := fun bs => do
  let (v, rest) ← Json.Attempt.reader Json.memberValue bs
  if isKey v then return ((), rest) else throw .mistyped

/-- The algorithm a header names. -/
def algorithm : Reader String :=
  Json.record [
    unusedPart "typ" Json.stringValue,
    .of "alg" (word fun s => if algorithms.contains s then some s else none) fun v _ => v,
    unusedPart "cty" Json.stringValue,
    unusedPart "jku" Json.stringValue,
    unusedPart "jwk" key,
    unusedPart "kid" Json.stringValue,
    unusedPart "x5u" Json.stringValue,
    unusedPart "x5c" (Json.list Json.stringValue),
    unusedPart "x5t" Json.stringValue,
    unusedPart "x5t#S256" Json.stringValue]
  ""

/-! ## Writing and checking tokens -/

/-- The signature of a text. -/
def signature (secret : String) (message : List Char) : List Char :=
  Base64Url.encode (Sha256.hmac (octets secret) (octets (String.ofList message)))

/-- The token that says the given claims. -/
def sign (secret : String) (c : Claims) : String :=
  let message := Base64Url.encode headerOctets ++ '.' :: Base64Url.encode (claimsOctets c)
  String.ofList (message ++ '.' :: signature secret message)

/-- The texts before and behind the last point. -/
def splitLast? (cs : List Char) : Option (List Char × List Char) :=
  match cs.reverse.dropWhile (· ≠ '.') with
  | [] => none
  | _ :: front => some (front.reverse, (cs.reverse.takeWhile (· ≠ '.')).reverse)

/-- The leeway for clocks that do not agree, in seconds. -/
def leeway : Nat := 60

/-- A part of a token that is no JSON. -/
def part {α : Type} (r : Reader α) (text : List Char) : Except TokenFault α :=
  match Base64Url.decode? text with
  | none => .error .base64
  | some bs =>
    match Json.whole r bs with
    | .ok a => .ok a
    | .error _ => .error .json

/-- The claims of a token that was signed with the secret and has not run out
at the time `now`. -/
def verify (secret : String) (now : Nat) (token : String) : Except TokenFault Claims := do
  let some (message, signed) := splitLast? token.toList | throw .notAToken
  let some (header, payload) := splitLast? message | throw .notAToken
  if (← part algorithm header) ≠ "HS256" then throw .algorithm
  if signed ≠ signature secret message then throw .signature
  let c ← part claims payload
  let addressed ← part audience payload
  if c.expiresAt + leeway < now then throw .expired
  if addressed then throw .audience
  return c

end Token

/-- What tokens are issued and checked with. -/
structure TokenService where
  secret : String
  /-- Lifetimes in seconds. -/
  accessSeconds : Int
  refreshSeconds : Int
  deriving DecidableEq

namespace TokenService

/-- The lifetime of a kind of token. -/
def lifetime (s : TokenService) : TokenKind → Int
  | .access => s.accessSeconds
  | .refresh => s.refreshSeconds

/-- A token of the given kind for a user, issued at the time `now`. Times
before 1970 wrap around. -/
def issue (s : TokenService) (now : Nat) (userId : Int) (kind : TokenKind) : String :=
  Token.sign s.secret
    ⟨toString userId, kind, now, (((now : Int) + s.lifetime kind) % Nat.pow 2 64).toNat⟩

/-- A fresh pair for a user. -/
def issuePair (s : TokenService) (now : Nat) (userId : Int) : TokenPair :=
  ⟨s.issue now userId .access, s.issue now userId .refresh, s.accessSeconds⟩

/-- The claims of a token of the wanted kind. -/
def validate (s : TokenService) (now : Nat) (kind : TokenKind) (token : String) :
    Except LedgerError Claims :=
  match Token.verify s.secret now token with
  | .error f => .error (.unauthenticated ("Invalid token: " ++ f.label))
  | .ok c => if c.kind = kind then .ok c else .error (.unauthenticated "Wrong token type")

/-- The service with its parts named and the secret left out. -/
def inspect (s : TokenService) : String :=
  let span (seconds : Int) : String :=
    "TimeDelta \x7b secs: " ++ toString seconds ++ ", nanos: 0 \x7d"
  "JwtService \x7b secret: \"<redacted>\", access_ttl: " ++ span s.accessSeconds
    ++ ", refresh_ttl: " ++ span s.refreshSeconds ++ " \x7d"

end TokenService

end SharedLedger
