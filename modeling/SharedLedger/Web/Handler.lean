import SharedLedger.Request.Reader
import SharedLedger.Web.Caller
import SharedLedger.Web.Outline
import SharedLedger.Web.Response

/-!
# Answering requests

A request is understood before anything is done: the path has to lead
somewhere, on guarded routes the caller has to be known, the method has to be
offered, then the id in the path and the body have to be readable. What a
request then comes to is a `Job`: a response that is settled already, or a
command to the service. Only the latter calls the store.
-/

namespace SharedLedger

namespace Web

/-- What surrounds a request: the service, the time, and a text that was
never used before. -/
structure Setting where
  service : Service
  now : Nat
  fresh : String

/-- How the success of a command is answered. -/
inductive Success where
  /-- With the result. -/
  | result
  /-- With the result, as something new. -/
  | created
  /-- With the number of things that went. -/
  | count
  /-- With no body. -/
  | done
  deriving DecidableEq, Repr

/-- What a request comes to. -/
inductive Job where
  | reply (r : Response)
  | command (c : Command) (success : Success)
  | logIn (login : Login)
  | refresh (token : String)

/-! ## What a request asks for -/

/-- The command a guarded endpoint stands for, or the status that refuses the
body. -/
def Endpoint.command (caller id : Int) (r : Request) : Endpoint → Except Nat Command
  | myExpenses => .ok (.myExpenses caller)
  | myShares => .ok (.myShares caller)
  | myBalances => .ok (.myBalances caller)
  | getUser => .ok (.getUser caller id)
  | updateUser => do return .updateUser caller id (← r.json UserUpdate.reader)
  | deleteUser => .ok (.deleteUser caller id)
  | listGroups => .ok (.listGroups caller)
  | createGroup => do return .createGroup caller (← r.json GroupDraft.reader)
  | getGroup => .ok (.act caller (.getGroup id))
  | renameGroup => do
    return .act caller (.renameGroup id (← r.json (Json.single "name" Json.stringValue "")))
  | deleteGroup => .ok (.act caller (.deleteGroup id))
  | listMembers => .ok (.act caller (.listMembers id))
  | addMember => do return .act caller (.addMember id (← r.json MemberDraft.reader))
  | replaceMembers => do
    return .act caller (.replaceMembers id
      (← r.json (Json.single "members" (Json.list MemberDraft.reader) [])))
  | updateMember => do return .act caller (.updateMember id (← r.json MemberUpdate.reader))
  | unlinkMember => .ok (.act caller (.unlinkMember id))
  | listExpenses => .ok (.act caller (.listExpenses id))
  | createExpense => do return .act caller (.createExpense id (← r.json ExpenseDraft.reader))
  | groupBalances => .ok (.act caller (.groupBalances id))
  | getExpense => .ok (.act caller (.getExpense id))
  | updateExpense => do return .act caller (.updateExpense id (← r.json ExpenseUpdate.reader))
  | deleteExpense => .ok (.act caller (.deleteExpense id))
  | listShares => .ok (.act caller (.listShares id))
  | createShares => do
    return .act caller (.createShares id
      (← r.json (Json.single "splits" (Json.list ShareDraft.reader) [])))
  | replaceShares => do
    return .act caller (.replaceShares id
      (← r.json (Json.single "splits" (Json.list ShareDraft.reader) [])))
  | clearShares => .ok (.act caller (.clearShares id))
  | getShare => .ok (.act caller (.getShare id))

/-- How the success of a guarded endpoint is answered. -/
def Endpoint.success : Endpoint → Success
  | createGroup | addMember | createExpense | createShares => .created
  | deleteExpense | clearShares => .count
  | deleteUser | deleteGroup => .done
  | _ => .result

/-- The job of an open endpoint, or the status that refuses the body. -/
def OpenEndpoint.job (r : Request) : OpenEndpoint → Except Nat Job
  | home => .ok (.reply ⟨200, .text "OK", []⟩)
  | outline => .ok (.reply (.json 200 Web.outline))
  | register => do return .command (.register (← r.json Registration.reader)) .created
  | login => do return .logIn (← r.json Login.reader)
  | refresh => do return .refresh (← r.json (Json.single "refresh_token" Json.stringValue ""))

/-- A job, or a status and nothing else. -/
def Job.orStatus : Except Nat Job → Job
  | .ok job => job
  | .error status => .reply (.bare status)

/-- The job of an open route. -/
def openJob (r : Request) (route : Route OpenEndpoint) : Job :=
  .orStatus do
    let some o := route.offer? r.method | throw 405
    o.endpoint.job r

/-- The job of a guarded route for a known caller. -/
def knownJob (caller : Int) (r : Request) (route : Route Endpoint) : Job :=
  .orStatus do
    let some o := route.offer? r.method | throw 405
    let id ← route.id r.segments
    return .command (← o.endpoint.command caller id r) o.endpoint.success

/-- The job of a guarded route, given what a good token claims. -/
def guardedJob (validate : String → Except LedgerError Claims) (reference : String) (r : Request)
    (route : Route Endpoint) : Job :=
  match r.caller validate with
  | .error e => .reply (.ofError reference e)
  | .ok caller => knownJob caller r route

/-- The job of a request. -/
def job (s : Setting) (r : Request) : Job :=
  match Route.find? openRoutes r.segments with
  | some route => openJob r route
  | none =>
    match Route.find? guardedRoutes r.segments with
    | some route => guardedJob (s.service.tokens.validate s.now .access) s.fresh r route
    | none => .reply (.bare 404)

/-! ## Doing it -/

/-- The response to a command that succeeded. -/
def Success.response (v : Json) : Success → Response
  | result => .json 200 v
  | created => .json 201 v
  | count => .json 200 (.obj [("deleted", v)])
  | done => .bare 200

/-- The response a job leads to. -/
def Job.operation (s : Setting) : Job → Operation Response
  | reply r => pure r
  | command c success =>
    ((s.service.operation s.now c).bind fun r => pure (success.response (c.toJson r))).rescue
      (.ofError s.fresh)
  | logIn login =>
    ((s.service.operation s.now (.authenticate login)).bind fun p =>
      pure (.ofTokens s.fresh p)).rescue (.ofError s.fresh)
  | refresh token =>
    ((s.service.operation s.now (.refresh token)).bind fun p =>
      pure (.ofTokens s.fresh p)).rescue (.ofError s.fresh)

/-- The response to a request. Whoever asks for a head gets no body. -/
def respond (s : Setting) (r : Request) : Operation Response :=
  ((job s r).operation s).bind fun response =>
    pure (if r.method = "HEAD" then response.head else response)

end Web

end SharedLedger
