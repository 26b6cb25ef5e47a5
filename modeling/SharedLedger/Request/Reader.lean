import SharedLedger.Request
import SharedLedger.Json.Record

/-!
# Requests in JSON

The shape of every request body: its fields in order, under the names they
have in JSON, and which of them may be missing. What a record starts from is
of no account, because every required field is set before it is used.
-/

namespace SharedLedger

open Json (Reader Field)

/-- A proposed share. -/
def ShareDraft.reader : Reader ShareDraft :=
  Json.record [
    .maybe "split_user" Json.int64 fun v s => { s with owedBy := v },
    .of "split_percent" Json.decimal fun v s => { s with fraction := v },
    .of "split_amount" Json.decimal fun v s => { s with amount := v }]
  ⟨none, .zero, .zero⟩

/-- A proposed member. -/
def MemberDraft.reader : Reader MemberDraft :=
  Json.record [
    .of "name" Json.stringValue fun v m => { m with name := v },
    .maybe "user_id" Json.int64 fun v m => { m with userId := v }]
  ⟨"", none⟩

/-- A change of a member. -/
def MemberUpdate.reader : Reader MemberUpdate :=
  Json.record [
    .maybe "name" Json.stringValue fun v m => { m with name := v },
    .maybe "user_id" Json.int64 fun v m => { m with userId := v }]
  ⟨none, none⟩

/-- A new account. -/
def Registration.reader : Reader Registration :=
  Json.record [
    .of "name" Json.stringValue fun v r => { r with name := v },
    .of "email" Json.stringValue fun v r => { r with email := v },
    .of "password" Json.stringValue fun v r => { r with password := v }]
  ⟨"", "", ""⟩

/-- A change of an account. -/
def UserUpdate.reader : Reader UserUpdate :=
  Json.record [
    .maybe "name" Json.stringValue fun v u => { u with name := v },
    .maybe "email" Json.stringValue fun v u => { u with email := v },
    .maybe "password" Json.stringValue fun v u => { u with password := v }]
  ⟨none, none, none⟩

/-- A new expense. -/
def ExpenseDraft.reader : Reader ExpenseDraft :=
  Json.record [
    .of "name" Json.stringValue fun v e => { e with name := v },
    .of "transaction_date" Json.date fun v e => { e with date := v },
    .of "amount" Json.decimal fun v e => { e with amount := v },
    .maybe "category" Json.stringValue fun v e => { e with category := v },
    .maybe "note" Json.stringValue fun v e => { e with note := v },
    .of "by_user" Json.int64 fun v e => { e with paidBy := v },
    .maybe "splits" (Json.list ShareDraft.reader) fun v e => { e with shares := v }]
  ⟨"", .epoch, .zero, none, none, 0, none⟩

/-- A change of an expense. -/
def ExpenseUpdate.reader : Reader ExpenseUpdate :=
  Json.record [
    .maybe "name" Json.stringValue fun v e => { e with name := v },
    .maybe "transaction_date" Json.date fun v e => { e with date := v },
    .maybe "amount" Json.decimal fun v e => { e with amount := v },
    .maybe "category" Json.stringValue fun v e => { e with category := v },
    .maybe "note" Json.stringValue fun v e => { e with note := v },
    .maybe "by_user" Json.int64 fun v e => { e with paidBy := v },
    .maybe "splits" (Json.list ShareDraft.reader) fun v e => { e with shares := v }]
  ⟨none, none, none, none, none, none, none⟩

/-- The credentials of a login. -/
def Login.reader : Reader Login :=
  Json.record [
    .of "email" Json.stringValue fun v l => { l with email := v },
    .of "password" Json.stringValue fun v l => { l with password := v }]
  ⟨"", ""⟩

/-- A new group. -/
def GroupDraft.reader : Reader GroupDraft :=
  Json.record [
    .of "name" Json.stringValue fun v g => { g with name := v },
    .maybe "member_name" Json.stringValue fun v g => { g with memberName := v }]
  ⟨"", none⟩

/-- A record with a single field, which has to be given. -/
def Json.single {α : Type} (name : String) (r : Reader α) (start : α) : Reader α :=
  Json.record [.of name r fun v _ => v] start

end SharedLedger
