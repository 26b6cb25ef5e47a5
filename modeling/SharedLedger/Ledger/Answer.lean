import SharedLedger.Answer
import SharedLedger.Ledger.Command

/-!
# Results in JSON

The results of actions and commands, as JSON.
-/

namespace SharedLedger

/-- A new group and its first member. -/
def GroupCreated.toJson (r : GroupCreated) : Json :=
  .obj [("group", r.group.toJson), ("creator", r.creator.toJson)]

/-- How many members went, and those that came. -/
def MembersReplaced.toJson (r : MembersReplaced) : Json :=
  .obj [("deleted", .ofNat r.deleted), ("created", .ofList Member.toJson r.created)]

/-- An expense and its shares. -/
def SharedExpense.toJson (r : SharedExpense) : Json :=
  .obj [("transaction", r.expense.toJson), ("splits", .ofList Share.toJson r.shares)]

/-- How many shares went, and those that came. -/
def SharesReplaced.toJson (r : SharesReplaced) : Json :=
  .obj [("deleted", .ofNat r.deleted), ("created", .ofList Share.toJson r.created)]

/-- A pair of tokens. -/
def TokenPair.toJson (p : TokenPair) : Json :=
  .obj [("access_token", .str p.access), ("refresh_token", .str p.refresh),
    ("token_type", .str "Bearer"), ("expires_in", .ofInt p.expiresIn)]

/-- The result of an action. -/
def Action.toJson : (a : Action) → a.Reply → Json
  | .getGroup _, g | .renameGroup .., g => Group.toJson g
  | .deleteGroup _, _ => .null
  | .listMembers _, ms => .ofList Member.toJson ms
  | .addMember .., m | .updateMember .., m | .unlinkMember _, m => Member.toJson m
  | .replaceMembers .., r => MembersReplaced.toJson r
  | .listExpenses _, es => .ofList Expense.toJson es
  | .createExpense .., e | .updateExpense .., e => SharedExpense.toJson e
  | .getExpense _, e => Expense.toJson e
  | .deleteExpense _, n | .clearShares _, n => .ofNat n
  | .listShares _, ss => .ofList Share.toJson ss
  | .getShare _, s => Share.toJson s
  | .createShares .., r | .replaceShares .., r => SharesReplaced.toJson r
  | .groupBalances _, b => GroupBalances.toJson b

/-- The result of a command. -/
def Command.toJson : (c : Command) → c.Reply → Json
  | .register _, u | .getUser .., u | .updateUser .., u => User.toJson u
  | .authenticate _, p | .refresh _, p => TokenPair.toJson p
  | .deleteUser .., _ => .null
  | .createGroup .., g => GroupCreated.toJson g
  | .listGroups _, gs => .ofList Group.toJson gs
  | .myBalances _, b => UserBalances.toJson b
  | .myExpenses _, es => .ofList Expense.toJson es
  | .myShares _, ss => .ofList Share.toJson ss
  | .act _ a, r => a.toJson r

end SharedLedger
