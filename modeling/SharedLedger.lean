import SharedLedger.Answer
import SharedLedger.Balance
import SharedLedger.Binary64
import SharedLedger.Date
import SharedLedger.Decimal
import SharedLedger.Decimal.Printer
import SharedLedger.Decimal.Reader
import SharedLedger.Error
import SharedLedger.Hash.Sha256
import SharedLedger.Index
import SharedLedger.Json.Number
import SharedLedger.Json.Record
import SharedLedger.Json.Scan
import SharedLedger.Json.Value
import SharedLedger.Ledger.Access
import SharedLedger.Ledger.Account
import SharedLedger.Ledger.Action
import SharedLedger.Ledger.Answer
import SharedLedger.Ledger.Command
import SharedLedger.Ledger.Expense
import SharedLedger.Ledger.Group
import SharedLedger.Ledger.Statement
import SharedLedger.Money
import SharedLedger.Naming
import SharedLedger.Operation
import SharedLedger.Operation.Run
import SharedLedger.Password
import SharedLedger.Plan
import SharedLedger.Proofs.Alone
import SharedLedger.Proofs.Atomicity
import SharedLedger.Proofs.Change
import SharedLedger.Proofs.Consistency
import SharedLedger.Proofs.Decimal
import SharedLedger.Proofs.Effects.Account
import SharedLedger.Proofs.Effects.Expense
import SharedLedger.Proofs.Effects.Group
import SharedLedger.Proofs.Index
import SharedLedger.Proofs.Kept
import SharedLedger.Proofs.Lawful
import SharedLedger.Proofs.Sharing
import SharedLedger.Proofs.ReadOnly
import SharedLedger.Proofs.Tables
import SharedLedger.Proofs.Turn
import SharedLedger.Request
import SharedLedger.Request.Reader
import SharedLedger.Row
import SharedLedger.Settings
import SharedLedger.Settlement
import SharedLedger.Sharing
import SharedLedger.Store
import SharedLedger.Store.Call
import SharedLedger.Tables
import SharedLedger.Text.Base64Url
import SharedLedger.Text.Blank
import SharedLedger.Text.Numeral
import SharedLedger.Text.Printable
import SharedLedger.Text.Quoted
import SharedLedger.Token
import SharedLedger.Token.Key
import SharedLedger.Web.Address
import SharedLedger.Web.Caller
import SharedLedger.Web.Cookie
import SharedLedger.Web.Handler
import SharedLedger.Web.MediaType
import SharedLedger.Web.Outline
import SharedLedger.Web.Request
import SharedLedger.Web.Response
import SharedLedger.Web.Route
import SharedLedger.Proofs.Guarded
import SharedLedger.Proofs.Stage
import SharedLedger.Proofs.Commands
import SharedLedger.Proofs.System
import SharedLedger.Proofs.Sound
import SharedLedger.Proofs.Isolation
import SharedLedger.Proofs.Exact
import SharedLedger.Proofs.Tally
import SharedLedger.Proofs.Aggregation
import SharedLedger.Proofs.Settlement
import SharedLedger.Proofs.Debts
import SharedLedger.Proofs.Serving
import SharedLedger.Proofs.Balances
import SharedLedger.Proofs.Outsiders
import SharedLedger.Proofs.Constraints
import SharedLedger.Proofs.Signed
import SharedLedger.Proofs.UserView
import SharedLedger.Proofs.Memberships
import SharedLedger.Proofs.MyBalances
import SharedLedger.Proofs.Agreement
import SharedLedger.Proofs.Range
import SharedLedger.Proofs.Waiting
import SharedLedger.Proofs.Moments
import SharedLedger.Proofs.Barred
import SharedLedger.Proofs.Deleted
import SharedLedger.Proofs.ShutOut
import SharedLedger.Proofs.Confined
import SharedLedger.Proofs.Driven
import SharedLedger.Proofs.Neighbours
import SharedLedger.Proofs.Stepwise
import SharedLedger.Proofs.Rounding
import SharedLedger.Proofs.Tolerance
import SharedLedger.Proofs.Payments
import SharedLedger.Proofs.Admission
import SharedLedger.Proofs.Magnitudes
import SharedLedger.Proofs.Greedy
import SharedLedger.Proofs.Sums
import SharedLedger.Proofs.Figures
import SharedLedger.Proofs.Success
import SharedLedger.Proofs.Replacement
import SharedLedger.Proofs.Resharing
import SharedLedger.Proofs.Cascades
import SharedLedger.Proofs.Listings
import SharedLedger.Proofs.Unlinking
import SharedLedger.Proofs.Base64Url
import SharedLedger.Proofs.Printed
import SharedLedger.Proofs.Records
import SharedLedger.Proofs.Tokens
import SharedLedger.Proofs.Credentials
import SharedLedger.Proofs.Passwords
import SharedLedger.Proofs.Cookies
import SharedLedger.Proofs.Texts
import SharedLedger.Proofs.Snapshots
import SharedLedger.Proofs.Circles
import SharedLedger.Proofs.Parts
import SharedLedger.Proofs.Secured
