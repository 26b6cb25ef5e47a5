import SharedLedger.Store.Call

/-!
# The store

The store keeps the committed tables. A transaction works on a `view`, which
starts as a snapshot of them, and notes every mutation it has written in a
`journal`. Committing replays the journal on the tables as they are by then:
either all of it is taken over or nothing.

Rows can be locked. `lockQueue` holds all requests for locks in order of
arrival, and the first request for a row holds its lock, so a lock passes on
as soon as the request in front goes away. Whoever gets a lock sees the
committed tables of that moment, with its own mutations on top. A transaction
that ends gives up all its requests.

Every call is made for a client. Once the client's cancellation token is
cancelled its calls are refused. Two kinds of faults can be injected: the
next insert into a table fails, or a call of a given name does after some
calls of it went through.
-/

namespace SharedLedger

/-- For whom a call is made. -/
structure Client where
  /-- The cancellation token, for those who may go away. -/
  token : Option String
  /-- Whether an armed fault strikes the client's calls. -/
  exposed : Bool
  deriving DecidableEq, Repr

/-- A fault that strikes one call of the given name after `skip` others. -/
structure ArmedFault where
  method : String
  skip : Nat
  deriving DecidableEq, Repr

/-- Names a transaction. -/
abbrev TxnId := Nat

/-- An open transaction. -/
structure Txn where
  id : TxnId
  client : Client
  view : Tables
  journal : List Mutation
  deriving DecidableEq

/-- The committed tables and what the open transactions share. -/
structure Store where
  tables : Tables
  nextId : Int
  /-- How many mutations were committed so far. -/
  committed : Nat
  /-- The requests for locks, in order of arrival. -/
  lockQueue : List (RowKey × TxnId)
  nextTxn : TxnId
  /-- The tokens that were cancelled. -/
  cancelled : List String
  /-- The table into which the next insert fails. -/
  failingInsert : Option Table
  fault : Option ArmedFault
  deriving DecidableEq

/-- How a request for a lock ends. -/
inductive LockReply where
  | answered (r : Except LedgerError Unit)
  | queued

namespace Txn

/-- Writes mutations until one is refused. What was written before stays. -/
def write (t : Txn) : List Mutation → Except LedgerError Unit × Txn
  | [] => (.ok (), t)
  | m :: ms =>
    match t.view.apply m with
    | .error e => (.error e, t)
    | .ok view => { t with view, journal := t.journal ++ [m] }.write ms

end Txn

namespace Store

/-- A store without rows. -/
def empty : Store := ⟨.empty, 1, 0, [], 0, [], none, none⟩

/-! ## Faults and cancellation -/

/-- Lets a call through unless the armed fault strikes it. -/
def strike (s : Store) (client : Client) (method : String) : Except LedgerError Unit × Store :=
  match s.fault with
  | none => (.ok (), s)
  | some f =>
    if client.exposed && f.method == method then
      match f.skip with
      | 0 => (.error (.storage ("fault in " ++ method)), { s with fault := none })
      | skip + 1 => (.ok (), { s with fault := some { f with skip } })
    else (.ok (), s)

/-- Whether the client has gone away. -/
def isCancelled (s : Store) (client : Client) : Bool :=
  match client.token with
  | some token => s.cancelled.contains token
  | none => false

/-- Lets a call through unless the armed fault strikes it or the client has
gone away. -/
def allow (s : Store) (client : Client) (method : String) : Except LedgerError Unit × Store :=
  match s.strike client method with
  | (.error e, s) => (.error e, s)
  | (.ok (), s) => (if s.isCancelled client then .error .cancelled else .ok (), s)

/-- Lets an insert through unless it was to fail. -/
def allowInsert (s : Store) (table : Table) : Except LedgerError Unit × Store :=
  if s.failingInsert = some table then
    (.error (.storage ("injected insert failure on " ++ table.label)), { s with failingInsert := none })
  else (.ok (), s)

/-- Cancels a token. -/
def cancel (s : Store) (token : String) : Store := { s with cancelled := token :: s.cancelled }

/-! ## Locks -/

/-- The transaction that holds the lock of a row. -/
def holder? (s : Store) (key : RowKey) : Option TxnId :=
  (s.lockQueue.find? fun r => r.1 = key).map Prod.snd

/-- Takes one request of a transaction out of the queue. -/
def leaveQueue (s : Store) (t : Txn) (key : RowKey) : Store :=
  { s with lockQueue := s.lockQueue.filter fun r => r ≠ (key, t.id) }

/-- Takes all requests of a transaction out of the queue. -/
def release (s : Store) (t : Txn) : Store :=
  { s with lockQueue := s.lockQueue.filter fun r => r.2 ≠ t.id }

/-- Brings the view of a new holder up to date. The row has to be in it. -/
def acquire (s : Store) (t : Txn) (key : RowKey) : LockReply × Txn :=
  match s.tables.replay t.journal with
  | .error e => (.answered (.error e), t)
  | .ok view => (.answered (view.require key.table key.id), { t with view })

/-- Goes on with a request that is in the queue. -/
def awaitLock (s : Store) (t : Txn) (key : RowKey) : LockReply × Txn × Store :=
  if s.isCancelled t.client then (.answered (.error .cancelled), t, s.leaveQueue t key)
  else if s.holder? key = some t.id then
    let (reply, t) := s.acquire t key
    (reply, t, s)
  else (.queued, t, s)

/-- Requests the lock of a row. Who holds it already keeps its view. -/
def requestLock (s : Store) (t : Txn) (key : RowKey) : LockReply × Txn × Store :=
  match s.allow t.client "lock_row" with
  | (.error e, s) => (.answered (.error e), t, s)
  | (.ok (), s) =>
    if s.lockQueue.contains (key, t.id) then
      (.answered (t.view.require key.table key.id), t, s)
    else { s with lockQueue := s.lockQueue ++ [(key, t.id)] }.awaitLock t key

/-! ## Transactions -/

/-- Opens a transaction. -/
def begin (s : Store) (client : Client) : Except LedgerError Txn × Store :=
  match s.allow client "begin" with
  | (.error e, s) => (.error e, s)
  | (.ok (), s) =>
    (.ok ⟨s.nextTxn, client, s.tables, []⟩, { s with nextTxn := s.nextTxn + 1 })

/-- Writes what a call is to write, then answers it. -/
def perform (t : Txn) (freshId : Int) (c : Call) : Except LedgerError c.Reply × Txn :=
  match c.effect t.view freshId with
  | .error e => (.error e, t)
  | .ok (mutations, reply) =>
    match t.write mutations with
    | (.error e, t) => (.error e, t)
    | (.ok (), t) => (.ok reply, t)

/-- Makes a call in a transaction. An insert uses up an id, whether or not it
succeeds. -/
def call (s : Store) (t : Txn) (c : Call) : Except LedgerError c.Reply × Txn × Store :=
  match s.allow t.client c.method with
  | (.error e, s) => (.error e, t, s)
  | (.ok (), s) =>
    match c.insertsInto? with
    | none =>
      let (r, t) := perform t s.nextId c
      (r, t, s)
    | some table =>
      match s.allowInsert table with
      | (.error e, s) => (.error e, t, s)
      | (.ok (), s) =>
        let (r, t) := perform t s.nextId c
        (r, t, { s with nextId := s.nextId + 1 })

/-- Takes the journal of a transaction over into the committed tables. -/
def publish (s : Store) (t : Txn) : Except LedgerError Unit × Store :=
  match s.allow t.client "commit" with
  | (.error e, s) => (.error e, s)
  | (.ok (), s) =>
    match s.tables.replay t.journal with
    | .error e => (.error e, s)
    | .ok tables => (.ok (), { s with tables, committed := s.committed + t.journal.length })

/-- Ends a transaction and takes its journal over. -/
def commit (s : Store) (t : Txn) : Except LedgerError Unit × Store :=
  let (r, s) := s.publish t
  (r, s.release t)

/-- Ends a transaction without taking anything over. -/
def rollback (s : Store) (t : Txn) : Except LedgerError Unit × Store :=
  let (r, s) := s.strike t.client "rollback"
  (r, s.release t)

/-- Ends a transaction: commits it after success, and otherwise rolls it back
and keeps the error, whatever becomes of the rollback. -/
def finish {α : Type} (s : Store) (t : Txn) (r : Except LedgerError α) :
    Except LedgerError α × Store :=
  match r with
  | .error e => (.error e, (s.rollback t).2)
  | .ok a =>
    match s.commit t with
    | (.ok (), s) => (.ok a, s)
    | (.error e, s) => (.error e, s)

end Store

end SharedLedger
