import SharedLedger.Plan

/-!
# Operations

An `Operation` is a request as it is carried out: one transaction after the
other, each known by its plan, and at the end a result. What comes after a
transaction depends on what it came to, and that includes its error. An
amount out of range is no such error: it ends the operation on the spot.
-/

namespace SharedLedger

/-- A sequence of transactions with a result. -/
inductive Operation (α : Type) : Type 1 where
  | done (r : Except Failure α)
  | transaction {β : Type} (body : Plan β) (next : Except LedgerError β → Operation α)

namespace Operation

variable {α β : Type}

/-- Goes on after an operation with what it came to. -/
def bind : Operation α → (α → Operation β) → Operation β
  | done (.ok a), f => f a
  | done (.error e), _ => done (.error e)
  | transaction body next, f => transaction body fun r => (next r).bind f

instance : Monad Operation where
  pure a := done (.ok a)
  bind := bind

theorem pure_eq (a : α) : (pure a : Operation α) = done (.ok a) := rfl

theorem bind_eq (op : Operation α) (f : α → Operation β) : (op >>= f) = op.bind f := rfl

@[simp] theorem bind_ok (op : Operation α) : (op.bind fun a => done (.ok a)) = op := by
  induction op with
  | done r => cases r <;> rfl
  | transaction body next ih => simp [bind, ih]

/-- Operations can be put together in any grouping. -/
theorem bind_assoc {γ : Type} (op : Operation α) (f : α → Operation β) (g : β → Operation γ) :
    (op.bind f).bind g = op.bind fun a => (f a).bind g := by
  induction op with
  | done r => cases r <;> rfl
  | transaction body next ih => simp [bind, ih]

instance : LawfulMonad Operation := LawfulMonad.mk' Operation
  (fun op => bind_ok op) (fun _ _ => rfl) (fun op f g => bind_assoc op f g)

/-- Ends with an error. -/
def refuse (e : LedgerError) : Operation α := done (.error (.refused e))

/-- Goes on where a check succeeds. -/
def ofCheck (r : Except LedgerError α) : Operation α := done (Failure.ofCheck r)

/-- A single transaction, whose result is that of the operation. -/
def single (body : Plan α) : Operation α := transaction body ofCheck

/-- Answers an error with a result. An amount out of range stays what it is. -/
def rescue (f : LedgerError → α) : Operation α → Operation α
  | done (.error (.refused e)) => done (.ok (f e))
  | done r => done r
  | transaction body next => transaction body fun r => (next r).rescue f

end Operation

end SharedLedger
