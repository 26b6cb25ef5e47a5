import SharedLedger.Answer
import SharedLedger.Web.Route

/-!
# The outline of the interface

What the interface offers, for readers: every documented address with its
methods and their statuses, the names of the shapes that bodies have, and the
ways to say who calls.
-/

namespace SharedLedger

namespace Web

/-- The names of the shapes of bodies. -/
def shapes : List String := ["CreateGroupRequest", "DeletedResponse", "ErrorResponse", "Group",
  "GroupBalances", "GroupCreated", "GroupMember", "LoginRequest", "MemberUpdate",
  "MembersReplaced", "NetBalance", "NewMember", "PairBalance", "Payment", "RefreshRequest",
  "Registration", "RenameGroupRequest", "ReplaceMembersRequest", "Split", "SplitInput",
  "SplitSetRequest", "SplitsReplaced", "TokenPair", "Transaction", "TransactionDraft",
  "TransactionUpdate", "TransactionWithSplits", "UserBalances", "UserCounterpartyBalance",
  "UserGroupBalance", "UserUpdate", "UserView"]

/-- The documented offers of routes. -/
def documented {ε : Type} (routes : List (Route ε)) : List (String × Json) :=
  routes.filterMap fun r =>
    match r.offers.filter fun o => !o.statuses.isEmpty with
    | [] => none
    | offers => some (r.text, .obj (offers.map fun o =>
        (o.method.toLower, .ofList (fun n => .str (toString n)) o.statuses)))

/-- The outline. -/
def outline : Json :=
  .obj [("title", .str "SettleUp API"), ("version", .str "0.1.0"),
    ("paths", .obj (documented openRoutes ++ documented guardedRoutes)),
    ("schemas", .ofList .str shapes), ("security", .ofList .str ["Bearer", "Cookie"])]

end Web

end SharedLedger
