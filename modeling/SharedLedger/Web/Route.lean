import SharedLedger.Text.Numeral
import SharedLedger.Web.Request

/-!
# Routes

A route is an address with the methods offered there. Some addresses have an
id in them. Open routes serve everybody, guarded ones only callers who are
known. For every offer the statuses are listed that it is documented to
answer with; offers without any are not documented.
-/

namespace SharedLedger

namespace Web

/-- What everybody may ask for. -/
inductive OpenEndpoint where
  | home
  | outline
  | register
  | login
  | refresh
  deriving DecidableEq, Repr

/-- What callers who are known may ask for. -/
inductive Endpoint where
  | myExpenses
  | myShares
  | myBalances
  | getUser
  | updateUser
  | deleteUser
  | listGroups
  | createGroup
  | getGroup
  | renameGroup
  | deleteGroup
  | listMembers
  | addMember
  | replaceMembers
  | updateMember
  | unlinkMember
  | listExpenses
  | createExpense
  | groupBalances
  | getExpense
  | updateExpense
  | deleteExpense
  | listShares
  | createShares
  | replaceShares
  | clearShares
  | getShare
  deriving DecidableEq, Repr

/-- A piece of an address. -/
inductive Segment where
  | fixed (s : String)
  | id (name : String)
  deriving DecidableEq, Repr

/-- A method offered at an address. -/
structure Offer (ε : Type) where
  method : String
  endpoint : ε
  statuses : List Nat
  deriving DecidableEq, Repr

/-- An address and what is offered there. -/
structure Route (ε : Type) where
  address : List Segment
  offers : List (Offer ε)
  deriving DecidableEq, Repr

/-- The routes for everybody. -/
def openRoutes : List (Route OpenEndpoint) := [
  ⟨[.fixed ""], [⟨"GET", .home, []⟩]⟩,
  ⟨[.fixed "api-docs", .fixed "openapi.json"], [⟨"GET", .outline, []⟩]⟩,
  ⟨[.fixed "users"], [⟨"POST", .register, [201, 400, 409, 500]⟩]⟩,
  ⟨[.fixed "auth", .fixed "login"], [⟨"POST", .login, [200, 401, 500]⟩]⟩,
  ⟨[.fixed "auth", .fixed "refresh"], [⟨"POST", .refresh, [200, 401]⟩]⟩]

/-- The routes for callers who are known. -/
def guardedRoutes : List (Route Endpoint) := [
  ⟨[.fixed "users", .fixed "me", .fixed "transactions"], [⟨"GET", .myExpenses, [200]⟩]⟩,
  ⟨[.fixed "users", .fixed "me", .fixed "splits"], [⟨"GET", .myShares, [200]⟩]⟩,
  ⟨[.fixed "users", .fixed "me", .fixed "balances"], [⟨"GET", .myBalances, [200]⟩]⟩,
  ⟨[.fixed "users", .id "user_id"], [
    ⟨"GET", .getUser, [200, 403, 404]⟩,
    ⟨"PUT", .updateUser, [200, 400, 403, 409]⟩,
    ⟨"DELETE", .deleteUser, [200, 403]⟩]⟩,
  ⟨[.fixed "groups"], [
    ⟨"GET", .listGroups, [200]⟩,
    ⟨"POST", .createGroup, [201, 400]⟩]⟩,
  ⟨[.fixed "groups", .id "group_id"], [
    ⟨"GET", .getGroup, [200, 403, 404]⟩,
    ⟨"PUT", .renameGroup, [200, 403, 404]⟩,
    ⟨"DELETE", .deleteGroup, [200, 403, 404]⟩]⟩,
  ⟨[.fixed "groups", .id "group_id", .fixed "members"], [
    ⟨"GET", .listMembers, [200, 403]⟩,
    ⟨"POST", .addMember, [201, 403, 409]⟩]⟩,
  ⟨[.fixed "groups", .id "group_id", .fixed "members", .fixed "batch"], [
    ⟨"PUT", .replaceMembers, [200, 403, 409]⟩]⟩,
  ⟨[.fixed "members", .id "member_id"], [⟨"PATCH", .updateMember, [200, 403, 404]⟩]⟩,
  ⟨[.fixed "members", .id "member_id", .fixed "unlink"], [
    ⟨"POST", .unlinkMember, [200, 403, 404]⟩]⟩,
  ⟨[.fixed "groups", .id "group_id", .fixed "transactions"], [
    ⟨"GET", .listExpenses, [200, 403]⟩,
    ⟨"POST", .createExpense, [201, 400, 403]⟩]⟩,
  ⟨[.fixed "groups", .id "group_id", .fixed "balances"], [⟨"GET", .groupBalances, [200, 403]⟩]⟩,
  ⟨[.fixed "transactions", .id "transaction_id"], [
    ⟨"GET", .getExpense, [200, 403, 404]⟩,
    ⟨"PUT", .updateExpense, [200, 400, 403, 404]⟩,
    ⟨"DELETE", .deleteExpense, [200, 403, 404]⟩]⟩,
  ⟨[.fixed "transactions", .id "transaction_id", .fixed "splits"], [
    ⟨"GET", .listShares, [200, 403, 404]⟩,
    ⟨"POST", .createShares, [201, 400, 409]⟩,
    ⟨"PUT", .replaceShares, [200, 400, 403]⟩,
    ⟨"DELETE", .clearShares, [200, 403]⟩]⟩,
  ⟨[.fixed "splits", .id "split_id"], [⟨"GET", .getShare, [200, 403, 404]⟩]⟩]

namespace Route

variable {ε : Type}

/-- Whether a path leads to an address. An id may be any text; at the end of an
address it is not empty. -/
def leadsTo : List Segment → List (List Char) → Bool
  | [], [] => true
  | .fixed s :: address, cs :: path => cs == s.toList && leadsTo address path
  | .id _ :: address, cs :: path =>
    !(cs.isEmpty && address.isEmpty) && leadsTo address path
  | _, _ => false

/-- The route a path leads to. -/
def find? (routes : List (Route ε)) (path : List (List Char)) : Option (Route ε) :=
  routes.find? fun r => leadsTo r.address path

/-- What is offered for a method. Where something can be got, its head can
be asked for as well. -/
def offer? (r : Route ε) (method : String) : Option (Offer ε) :=
  r.offers.find? fun o => o.method == if method = "HEAD" then "GET" else method

/-- The id in a path, if its address has one. -/
def rawId? : List Segment → List (List Char) → Option (List Char)
  | .id _ :: _, cs :: _ => some cs
  | .fixed _ :: address, _ :: path => rawId? address path
  | _, _ => none

/-- The id in a path, or the status that refuses it. Addresses without an id
have zero in its place. -/
def id (r : Route ε) (path : List (List Char)) : Except Nat Int :=
  match rawId? r.address path with
  | none => .ok 0
  | some cs =>
    match Numeral.int64? (unescape cs) with
    | some n => .ok n
    | none => .error 400

/-- The address as a text. -/
def text (r : Route ε) : String :=
  "/" ++ "/".intercalate (r.address.map fun s => match s with
    | .fixed s => s
    | .id name => "\x7b" ++ name ++ "\x7d")

end Route

end Web

end SharedLedger
