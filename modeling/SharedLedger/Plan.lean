import SharedLedger.Store

/-!
# Plans

A `Plan` is what is done inside one transaction: calls of the store and
requests for locks, each step knowing the answers so far. A call that is
refused ends the plan with its error. A plan that is done is to be committed,
one that failed is to be rolled back. Plans are data: how they are carried
out on a store is said elsewhere.
-/

namespace SharedLedger

/-- What is done inside one transaction. -/
inductive Plan (α : Type) : Type where
  | done (a : α)
  | fail (e : Failure)
  | lock (key : RowKey) (next : Plan α)
  | call (c : Call) (next : c.Reply → Plan α)

namespace Plan

variable {α β : Type}

/-- Goes on after a plan with what it came to. -/
def bind : Plan α → (α → Plan β) → Plan β
  | done a, f => f a
  | fail e, _ => fail e
  | lock key next, f => lock key (next.bind f)
  | call c next, f => call c fun r => (next r).bind f

instance : Monad Plan where
  pure := done
  bind := bind

theorem pure_eq (a : α) : (pure a : Plan α) = done a := rfl

theorem bind_eq (p : Plan α) (f : α → Plan β) : (p >>= f) = p.bind f := rfl

@[simp] theorem bind_done (p : Plan α) : p.bind done = p := by
  induction p with
  | done a => rfl
  | fail e => rfl
  | lock key next ih => simp [bind, ih]
  | call c next ih => simp [bind, ih]

/-- Plans can be put together in any grouping. -/
theorem bind_assoc {γ : Type} (p : Plan α) (f : α → Plan β) (g : β → Plan γ) :
    (p.bind f).bind g = p.bind fun a => (f a).bind g := by
  induction p with
  | done a => rfl
  | fail e => rfl
  | lock key next ih => simp [bind, ih]
  | call c next ih => simp [bind, ih]

instance : LawfulMonad Plan := LawfulMonad.mk' Plan
  (fun p => bind_done p) (fun _ _ => rfl) (fun p f g => bind_assoc p f g)

/-- One call. -/
def ask (c : Call) : Plan c.Reply := call c done

/-- Locks a row, which has to exist. -/
def hold (table : Table) (id : Int) : Plan Unit := lock ⟨table, id⟩ (done ())

/-- Gives up with an error. -/
def refuse (e : LedgerError) : Plan α := fail (.refused e)

/-- The value that was found, or an error. -/
def orRefuse (e : LedgerError) : Option α → Plan α
  | some a => done a
  | none => refuse e

/-- Goes on where a check or a calculation succeeds. -/
def ofExcept : Except Failure α → Plan α
  | .ok a => done a
  | .error e => fail e

/-! ## Rows that have to exist -/

/-- The account of an id. -/
def user (id : Int) : Plan User := do orRefuse (.notFound .users id) (← ask (.findUser id))

/-- The group of an id. -/
def group (id : Int) : Plan Group := do orRefuse (.notFound .groups id) (← ask (.findGroup id))

/-- The member of an id. -/
def member (id : Int) : Plan Member := do orRefuse (.notFound .members id) (← ask (.findMember id))

/-- The expense of an id. -/
def expense (id : Int) : Plan Expense := do
  orRefuse (.notFound .expenses id) (← ask (.findExpense id))

/-- The share of an id. -/
def share (id : Int) : Plan Share := do orRefuse (.notFound .shares id) (← ask (.findShare id))

end Plan

end SharedLedger
