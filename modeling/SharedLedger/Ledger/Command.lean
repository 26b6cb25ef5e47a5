import SharedLedger.Ledger.Account
import SharedLedger.Ledger.Action

/-!
# Commands

All that can be asked of the service: commands about accounts, what concerns
the caller alone, and the actions of members. `Service.operation` says what a
command does. Logging in depends on the time, because tokens run out.
-/

namespace SharedLedger

/-- What can be asked of the service. -/
inductive Command where
  | register (r : Registration)
  | authenticate (login : Login)
  | refresh (token : String)
  | getUser (caller userId : Int)
  | updateUser (caller userId : Int) (u : UserUpdate)
  | deleteUser (caller userId : Int)
  | createGroup (caller : Int) (draft : GroupDraft)
  | listGroups (caller : Int)
  | myBalances (caller : Int)
  | myExpenses (caller : Int)
  | myShares (caller : Int)
  | act (caller : Int) (a : Action)
  deriving DecidableEq

/-- The type of the result of a command. -/
abbrev Command.Reply : Command → Type
  | register _ | getUser .. | updateUser .. => User
  | authenticate _ | refresh _ => TokenPair
  | deleteUser .. => Unit
  | createGroup .. => GroupCreated
  | listGroups _ => List Group
  | myBalances _ => UserBalances
  | myExpenses _ => List Expense
  | myShares _ => List Share
  | act _ a => a.Reply

/-- What the service is set up with. -/
structure Service where
  tokens : TokenService
  hashCost : Nat
  deriving DecidableEq

/-- What a command does when it is given at the time `now`. -/
def Service.operation (service : Service) (now : Nat) : (c : Command) → Operation c.Reply
  | .register r => Account.register service.hashCost r
  | .authenticate login => Account.authenticate service.tokens now login
  | .refresh token => Account.refresh service.tokens now token
  | .getUser caller userId => Account.get caller userId
  | .updateUser caller userId u => Account.update service.hashCost caller userId u
  | .deleteUser caller userId => Account.delete caller userId
  | .createGroup caller draft => Group.create caller draft
  | .listGroups caller => Group.list caller
  | .myBalances caller => Statement.ofUser caller
  | .myExpenses caller => Statement.expensesOf caller
  | .myShares caller => Statement.sharesOf caller
  | .act caller a => a.on caller

end SharedLedger
