import SharedLedger.Operation

/-!
# Running operations

A `Run` is an operation on its way. Its next step is a single call of the
store: it opens a transaction, requests a lock, goes on once it holds the
lock, makes a call or ends the transaction. Operations that run side by side
take such steps in turns, in any order; `step` is what one of them does when
it is its turn. `drive` takes steps until the operation has its result or has
to wait for a lock that another transaction holds.
-/

namespace SharedLedger

/-- An operation on its way. -/
inductive Run (α : Type) : Type 1 where
  /-- Between transactions, or with its result. -/
  | outside (op : Operation α)
  /-- In a transaction. -/
  | inside {β : Type} (t : Txn) (plan : Plan β) (next : Except LedgerError β → Operation α)
  /-- In a transaction, with a request for a lock in the queue. -/
  | waiting {β : Type} (t : Txn) (key : RowKey) (plan : Plan β)
      (next : Except LedgerError β → Operation α)

namespace Run

variable {α β : Type}

/-- The result of an operation that is through. -/
def result? : Run α → Option (Except Failure α)
  | outside (.done r) => some r
  | _ => none

/-- The transaction the operation is in. -/
def txn? : Run α → Option Txn
  | outside _ => none
  | inside t _ _ | waiting t _ _ _ => some t

/-! ## Single steps -/

/-- What a request for a lock leads to. -/
def afterLock (t : Txn) (key : RowKey) (plan : Plan β) (next : Except LedgerError β → Operation α) :
    LockReply → Run α
  | .queued => waiting t key plan next
  | .answered (.ok ()) => inside t plan next
  | .answered (.error e) => inside t (.fail (.refused e)) next

/-- One step of an operation; none is left to one that is through. -/
def step (client : Client) (s : Store) : Run α → Store × Run α
  | outside (.done r) => (s, outside (.done r))
  | outside (.transaction body next) =>
    match s.begin client with
    | (.error e, s) => (s, outside (next (.error e)))
    | (.ok t, s) => (s, inside t body next)
  | inside t (.done a) next =>
    let (r, s) := s.finish t (.ok a)
    (s, outside (next r))
  | inside (β := β) t (.fail (.refused e)) next =>
    let (r, s) := s.finish t (.error e : Except LedgerError β)
    (s, outside (next r))
  | inside t (.fail (.overflow o)) _ => (s.release t, outside (.done (.error (.overflow o))))
  | inside t (.lock key plan) next =>
    let (reply, t, s) := s.requestLock t key
    (s, afterLock t key plan next reply)
  | inside t (.call c plan) next =>
    match s.call t c with
    | (.ok r, t, s) => (s, inside t (plan r) next)
    | (.error e, t, s) => (s, inside t (.fail (.refused e)) next)
  | waiting t key plan next =>
    let (reply, t, s) := s.awaitLock t key
    (s, afterLock t key plan next reply)

/-- Gives an operation up: its transaction ends and nothing is written. -/
def abandon (s : Store) (run : Run α) : Store :=
  match run.txn? with
  | none => s
  | some t => s.release t

end Run

/-! ## As far as it goes -/

/-- How far a plan got: to its end, or to a lock it has to wait for. -/
inductive Progress (α : Type) : Type where
  | ended (r : Except Failure α) (t : Txn)
  | waiting (t : Txn) (key : RowKey) (rest : Plan α)

/-- Carries a plan out in an open transaction. -/
def Plan.drive {α : Type} (s : Store) (t : Txn) : Plan α → Store × Progress α
  | done a => (s, .ended (.ok a) t)
  | fail e => (s, .ended (.error e) t)
  | lock key next =>
    match s.requestLock t key with
    | (.queued, t, s) => (s, .waiting t key next)
    | (.answered (.ok ()), t, s) => next.drive s t
    | (.answered (.error e), t, s) => (s, .ended (.error (.refused e)) t)
  | call c next =>
    match s.call t c with
    | (.ok r, t, s) => (next r).drive s t
    | (.error e, t, s) => (s, .ended (.error (.refused e)) t)

/-- Ends the transaction of a plan that is at its end. An amount out of range
leaves nothing to go on with. -/
def Store.close {α : Type} (s : Store) (t : Txn) :
    Except Failure α → Store × Except Overflow (Except LedgerError α)
  | .ok a => let (r, s) := s.finish t (.ok a); (s, .ok r)
  | .error (.refused e) => let (r, s) := s.finish t (.error e : Except LedgerError α); (s, .ok r)
  | .error (.overflow o) => (s.release t, .error o)

/-- Carries an operation out. -/
def Operation.drive {α : Type} (client : Client) (s : Store) : Operation α → Store × Run α
  | done r => (s, .outside (.done r))
  | transaction body next =>
    match s.begin client with
    | (.error e, s) => (next (.error e)).drive client s
    | (.ok t, s) =>
      match body.drive s t with
      | (s, .waiting t key rest) => (s, .waiting t key rest next)
      | (s, .ended r t) =>
        match s.close t r with
        | (s, .error o) => (s, .outside (.done (.error (.overflow o))))
        | (s, .ok r) => (next r).drive client s

/-- Carries the rest of an operation out, from inside a transaction. -/
def Run.proceed {α β : Type} (client : Client) (s : Store) (t : Txn) (plan : Plan β)
    (next : Except LedgerError β → Operation α) : Store × Run α :=
  match plan.drive s t with
  | (s, .waiting t key rest) => (s, .waiting t key rest next)
  | (s, .ended r t) =>
    match s.close t r with
    | (s, .error o) => (s, .outside (.done (.error (.overflow o))))
    | (s, .ok r) => (next r).drive client s

/-- Carries an operation on from where it is. -/
def Run.drive {α : Type} (client : Client) (s : Store) : Run α → Store × Run α
  | outside op => op.drive client s
  | inside t plan next => proceed client s t plan next
  | waiting t key plan next =>
    match s.awaitLock t key with
    | (.queued, t, s) => (s, waiting t key plan next)
    | (.answered (.ok ()), t, s) => proceed client s t plan next
    | (.answered (.error e), t, s) => proceed client s t (.fail (.refused e) : Plan _) next

/-- Runs an operation that does not have to wait to its result. -/
def Operation.run {α : Type} (client : Client) (s : Store) (op : Operation α) :
    Store × Option (Except Failure α) :=
  match op.drive client s with
  | (s, run) => (s, run.result?)

end SharedLedger
