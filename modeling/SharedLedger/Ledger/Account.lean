import SharedLedger.Naming
import SharedLedger.Operation
import SharedLedger.Password
import SharedLedger.Token

/-!
# Accounts

Registration, login and what users may do with their own account. An address
belongs to one account, a login is answered with a pair of tokens, and a
refresh token is worth as much as the account behind it. Deleting an account
keeps the members it was linked to.
-/

namespace SharedLedger

namespace Account

/-! ## Inside a transaction -/

/-- Opens an account, if its address is free. -/
def registration (name email : String) (credential : Credential) : Plan User := do
  if (← Plan.ask (.findUserByEmail email)).isSome then Plan.refuse (.emailTaken email)
  else Plan.ask (.insertUser name email credential)

/-- The address an account is to have: a new one has to be free. -/
def address (u : User) : Option String → Plan String
  | none => pure u.email
  | some email => do
    if email != u.email && (← Plan.ask (.findUserByEmail email)).isSome then
      Plan.refuse (.emailTaken email)
    else pure email

/-- Changes an account. -/
def change (userId : Int) (update : UserUpdate) (credential : Option Credential) : Plan User := do
  Plan.hold .users userId
  let u ← Plan.user userId
  let email ← address u update.email
  Plan.ask (.updateUser {
    u with
    name := update.name.getD u.name
    email
    credential := credential.getD u.credential })

/-- Deletes an account. -/
def deletion (userId : Int) : Plan Unit := do
  Plan.hold .users userId
  Plan.ask (.deleteUser userId)

/-! ## Operations -/

/-- Checks a new account. -/
def checkRegistration (r : Registration) : Except LedgerError Unit := do
  Naming.validateEmail r.email
  Naming.validateName "name" r.name
  Naming.validatePassword r.password

/-- Checks a change of an account, up to its password. -/
def checkUpdate (u : UserUpdate) : Except LedgerError Unit := do
  Naming.validateName? "name" u.name
  match u.email with
  | some email => Naming.validateEmail email
  | none => return

/-- What is to be kept of a new password. -/
def newCredential (hashCost : Nat) : Option String → Except LedgerError (Option Credential)
  | none => .ok none
  | some password => do
    Naming.validatePassword password
    return some (← Password.hash password hashCost)

/-- Opens an account. -/
def register (hashCost : Nat) (r : Registration) : Operation User := do
  Operation.ofCheck (checkRegistration r)
  let credential ← Operation.ofCheck (Password.hash r.password hashCost)
  Operation.single (registration r.name r.email credential)

/-- Logs a user in. -/
def authenticate (tokens : TokenService) (now : Nat) (login : Login) : Operation TokenPair := do
  match ← Operation.single (Plan.ask (.findUserByEmail login.email)) with
  | none => Operation.refuse .invalidCredentials
  | some u =>
    if ← Operation.ofCheck (Password.verify login.password u.credential) then
      return tokens.issuePair now u.id
    else Operation.refuse .invalidCredentials

/-- What a refresh is answered with, as long as the account exists. -/
def renewal (tokens : TokenService) (now : Nat) : Except LedgerError User → Except LedgerError TokenPair
  | .ok u => .ok (tokens.issuePair now u.id)
  | .error (.notFound _ _) => .error (.unauthenticated "Account no longer exists")
  | .error e => .error e

/-- Exchanges a refresh token for a new pair. -/
def refresh (tokens : TokenService) (now : Nat) (token : String) : Operation TokenPair := do
  let claims ← Operation.ofCheck (tokens.validate now .refresh token)
  let userId ← Operation.ofCheck claims.userId
  .transaction (Plan.user userId) fun r => .ofCheck (renewal tokens now r)

/-- Turns away who acts on somebody else's account. -/
def requireSelf (caller userId : Int) : Except LedgerError Unit :=
  if caller = userId then .ok () else .error .forbidden

/-- The caller's account. -/
def get (caller userId : Int) : Operation User := do
  Operation.ofCheck (requireSelf caller userId)
  Operation.single (Plan.user userId)

/-- Changes the caller's account. -/
def update (hashCost : Nat) (caller userId : Int) (u : UserUpdate) : Operation User := do
  Operation.ofCheck (requireSelf caller userId)
  Operation.ofCheck (checkUpdate u)
  let credential ← Operation.ofCheck (newCredential hashCost u.password)
  Operation.single (change userId u credential)

/-- Deletes the caller's account. -/
def delete (caller userId : Int) : Operation Unit := do
  Operation.ofCheck (requireSelf caller userId)
  Operation.single (deletion userId)

end Account

end SharedLedger
