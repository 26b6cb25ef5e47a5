import SharedLedger.Operation.Run
import SharedLedger.Proofs.Tables

/-!
# What one step can do

A step of an operation touches little of the store. `Run.Turn` lists all that
can happen in one step, and for each case what becomes of the tables, of the
ids, of the requests for locks and of the transaction. `Run.step_turn` says
that the list is complete, so what holds of every step is shown once for each
case. Which faults and cancellations lead to a case does not matter here: a
`Turn` speaks of the `Books` of the store, which are free of them.
-/

namespace SharedLedger

/-- What a store keeps, apart from what makes calls fail. -/
structure Books where
  tables : Tables
  nextId : Int
  committed : Nat
  lockQueue : List (RowKey × TxnId)
  nextTxn : TxnId

/-- How many ids a call uses up. -/
def Call.idsUsed (c : Call) : Int := if c.insertsInto?.isSome then 1 else 0

namespace Txn

/-- Writing leaves a transaction whose it was, whether or not it succeeds. -/
theorem id_write (t : Txn) (ms : List Mutation) : (t.write ms).2.id = t.id := by
  induction ms generalizing t with
  | nil => rfl
  | cons m ms ih =>
    simp only [write]
    split
    · rfl
    · exact ih _

theorem write_eq_ok {t t' : Txn} {ms : List Mutation} (h : t.write ms = (.ok (), t')) :
    ∃ view, t.view.replay ms = .ok view ∧ t' = { t with view, journal := t.journal ++ ms } := by
  induction ms generalizing t with
  | nil =>
    obtain ⟨-, rfl⟩ := Prod.mk.inj h
    exact ⟨t.view, rfl, by rw [List.append_nil]⟩
  | cons m ms ih =>
    simp only [write] at h
    split at h
    · cases (Prod.mk.inj h).1
    · next view hm =>
      obtain ⟨view', hv, rfl⟩ := ih h
      obtain ⟨hc, rfl⟩ := Tables.apply_eq_ok_iff.1 hm
      exact ⟨view', Tables.replay_cons.2 ⟨hc, hv⟩, by rw [List.append_assoc]; rfl⟩

end Txn

namespace Store

variable {s s' : Store} {t t' : Txn} {client : Client}

/-- The store without what makes calls fail. -/
def books (s : Store) : Books := ⟨s.tables, s.nextId, s.committed, s.lockQueue, s.nextTxn⟩

/-! ## Faults leave the books alone -/

theorem books_strike (s : Store) (client : Client) (method : String) :
    (s.strike client method).2.books = s.books := by
  unfold strike
  split
  · rfl
  · split
    · split <;> rfl
    · rfl

theorem books_allow {method : String} {r : Except LedgerError Unit}
    (h : s.allow client method = (r, s')) : s'.books = s.books := by
  have hstrike := books_strike s client method
  unfold allow at h
  split at h <;> next hs =>
    rw [hs] at hstrike
    rw [← (Prod.mk.inj h).2]
    exact hstrike

theorem books_allowInsert {table : Table} {r : Except LedgerError Unit}
    (h : s.allowInsert table = (r, s')) : s'.books = s.books := by
  unfold allowInsert at h
  split at h
  · rw [← (Prod.mk.inj h).2]
    rfl
  · rw [← (Prod.mk.inj h).2]

theorem books_rollback (s : Store) (t : Txn) : (s.rollback t).2.books = (s.release t).books := by
  have h := books_strike s t.client "rollback"
  simp only [books, Books.mk.injEq] at h
  simp [rollback, release, books, h]

/-! ## Calls -/

theorem perform_eq_ok {n : Int} {c : Call} {r : c.Reply} (h : perform t n c = (.ok r, t')) :
    ∃ ms view, c.effect t.view n = .ok (ms, r) ∧ t.view.replay ms = .ok view ∧
      t' = { t with view, journal := t.journal ++ ms } := by
  unfold perform at h
  split at h
  · cases (Prod.mk.inj h).1
  · next ms reply he =>
    split at h
    · cases (Prod.mk.inj h).1
    · next t₁ hw =>
      obtain ⟨hr, rfl⟩ := Prod.mk.inj h
      cases hr
      obtain ⟨view, hv, ht⟩ := Txn.write_eq_ok hw
      exact ⟨ms, view, he, hv, ht⟩

theorem id_perform (t : Txn) (n : Int) (c : Call) : (perform t n c).2.id = t.id := by
  unfold perform
  split
  · rfl
  · next ms r he =>
    have hid := Txn.id_write t ms
    split <;> next hw => rw [hw] at hid; exact hid

/-- A call that succeeds does what its effect says, on the view. -/
theorem call_eq_ok {c : Call} {r : c.Reply} (h : s.call t c = (.ok r, t', s')) :
    (∃ ms view, c.effect t.view s.nextId = .ok (ms, r) ∧ t.view.replay ms = .ok view ∧
      t' = { t with view, journal := t.journal ++ ms }) ∧
      s'.books = { s.books with nextId := s.nextId + c.idsUsed } := by
  unfold call at h
  split at h
  · cases (Prod.mk.inj h).1
  next s₁ ha =>
  have hb : s₁.books = s.books := books_allow ha
  have hn : s₁.nextId = s.nextId := congrArg Books.nextId hb
  split at h
  -- a call that inserts nothing draws no id; any other draws the one that is next
  · next hi =>
    obtain ⟨hr, ht, hs⟩ : (perform t s₁.nextId c).1 = .ok r ∧ (perform t s₁.nextId c).2 = t' ∧
        s₁ = s' := by simpa [Prod.ext_iff] using h
    refine ⟨perform_eq_ok (hn ▸ Prod.ext hr ht), ?_⟩
    rw [← hs, hb]
    simp [Call.idsUsed, hi, books]
  next table hi =>
  split at h
  · cases (Prod.mk.inj h).1
  next s₂ hai =>
  have hb₂ : s₂.books = s.books := (books_allowInsert hai).trans hb
  have hn₂ : s₂.nextId = s.nextId := congrArg Books.nextId hb₂
  obtain ⟨hr, ht, hs⟩ : (perform t s₂.nextId c).1 = .ok r ∧ (perform t s₂.nextId c).2 = t' ∧
      { s₂ with nextId := s₂.nextId + 1 } = s' := by simpa [Prod.ext_iff] using h
  refine ⟨perform_eq_ok (hn₂ ▸ Prod.ext hr ht), ?_⟩
  rw [← hs, ← hn₂, ← hb₂]
  simp [Call.idsUsed, hi, books]

/-- A call that fails may have used up an id. -/
theorem call_eq_error {c : Call} {e : LedgerError} (h : s.call t c = (.error e, t', s')) :
    t'.id = t.id ∧ (s'.books = s.books ∨ s'.books = { s.books with nextId := s.nextId + 1 }) := by
  unfold call at h
  split at h
  · next s₁ ha =>
    obtain ⟨-, rfl, rfl⟩ : _ ∧ t = t' ∧ s₁ = s' := by simpa [Prod.ext_iff] using h
    exact ⟨rfl, .inl (books_allow ha)⟩
  next s₁ ha =>
  have hb : s₁.books = s.books := books_allow ha
  split at h
  · obtain ⟨-, ht, rfl⟩ : (perform t s₁.nextId c).1 = .error e ∧ (perform t s₁.nextId c).2 = t' ∧
        s₁ = s' := by simpa [Prod.ext_iff] using h
    exact ⟨by rw [← ht]; exact id_perform .., .inl hb⟩
  next table hi =>
  split at h
  · next s₂ hai =>
    obtain ⟨-, rfl, rfl⟩ : _ ∧ t = t' ∧ s₂ = s' := by simpa [Prod.ext_iff] using h
    exact ⟨rfl, .inl ((books_allowInsert hai).trans hb)⟩
  next s₂ hai =>
  have hb₂ : s₂.books = s.books := (books_allowInsert hai).trans hb
  obtain ⟨-, ht, rfl⟩ : (perform t s₂.nextId c).1 = .error e ∧ (perform t s₂.nextId c).2 = t' ∧
      { s₂ with nextId := s₂.nextId + 1 } = s' := by simpa [Prod.ext_iff] using h
  refine ⟨by rw [← ht]; exact id_perform .., .inr ?_⟩
  have hn₂ : s₂.nextId = s.nextId := congrArg Books.nextId hb₂
  rw [← hn₂, ← hb₂]
  rfl

/-! ## Locks -/

/-- Who holds a lock is said by the queue. -/
theorem holder_congr (hq : s'.lockQueue = s.lockQueue) (key : RowKey) :
    s'.holder? key = s.holder? key := by
  unfold holder?
  rw [hq]

/-- The store of a transaction that may have asked for locks, given them up or
ended: nobody else is put off. -/
structure LeavesOthers (s s' : Store) (id : TxnId) : Prop where
  holder : ∀ key j, j ≠ id → s.holder? key = some j → s'.holder? key = some j
  request : ∀ r ∈ s'.lockQueue, r ∈ s.lockQueue ∨ r.2 = id
  kept : ∀ r ∈ s.lockQueue, r.2 ≠ id → r ∈ s'.lockQueue

theorem LeavesOthers.of_lockQueue_eq {id : TxnId} (h : s'.lockQueue = s.lockQueue) :
    s.LeavesOthers s' id where
  holder key _ _ hj := (holder_congr h key).trans hj
  request _ hr := .inl (h ▸ hr)
  kept _ hr _ := h ▸ hr

theorem LeavesOthers.trans {s'' : Store} {id : TxnId} (h : s.LeavesOthers s' id)
    (h' : s'.LeavesOthers s'' id) : s.LeavesOthers s'' id where
  holder key j hj hh := h'.holder key j hj (h.holder key j hj hh)
  request r hr := (h'.request r hr).elim (h.request r) .inr
  kept r hr hne := h'.kept r (h.kept r hr hne) hne

/-- Who holds a lock has asked for it. -/
theorem mem_of_holder {key : RowKey} {X : TxnId} (h : s.holder? key = some X) : (key, X) ∈ s.lockQueue := by
  obtain ⟨r, hr, rfl⟩ := Option.map_eq_some_iff.1 h
  have hkey : r.1 = key := by simpa using List.find?_some hr
  rw [← hkey]
  exact List.mem_of_find?_eq_some hr

/-- A row somebody has asked for is locked. -/
theorem exists_holder {key : RowKey} {X : TxnId} (h : (key, X) ∈ s.lockQueue) : ∃ Y, s.holder? key = some Y := by
  unfold holder?
  rw [← Option.isSome_iff_exists, Option.isSome_map, List.find?_isSome]
  exact ⟨_, h, by simp⟩

/-- A new request goes behind those that are there. -/
theorem holder_append {key : RowKey} {r : RowKey × TxnId} {j : TxnId}
    (hq : s'.lockQueue = s.lockQueue ++ [r]) (h : s.holder? key = some j) :
    s'.holder? key = some j := by
  obtain ⟨q, hr, rfl⟩ := Option.map_eq_some_iff.1 h
  simp [holder?, hq, List.find?_append, hr]

/-- Requests that are given up hand the lock on only where they were in
front. -/
theorem holder_filter {key : RowKey} {j : TxnId} {p : RowKey × TxnId → Bool}
    (h : s.holder? key = some j) (hp : p (key, j) = true) :
    holder? { s with lockQueue := s.lockQueue.filter p } key = some j := by
  obtain ⟨r, hr, rfl⟩ := Option.map_eq_some_iff.1 h
  have hkey : r.1 = key := by simpa using List.find?_some hr
  unfold holder? at h ⊢
  rw [Option.map_eq_some_iff]
  -- the first request for the row stays the first one, as none was put before it
  refine ⟨r, ?_, rfl⟩
  rw [List.find?_filter]
  obtain ⟨hq, as, bs, hl, has⟩ := List.find?_eq_some_iff_append.1 hr
  refine List.find?_eq_some_iff_append.2 ⟨?_, as, bs, hl, fun a ha => ?_⟩
  · have hr' : p r = true := by rw [← hkey] at hp; exact hp
    simp [hkey, hr']
  · have hne := has a ha
    simp only [Bool.not_eq_true', decide_eq_false_iff_not] at hne
    simp [hne]

theorem leavesOthers_append (s : Store) (key : RowKey) (id : TxnId) :
    s.LeavesOthers { s with lockQueue := s.lockQueue ++ [(key, id)] } id where
  holder _ _ _ h := holder_append rfl h
  request r hr := by
    rcases List.mem_append.1 hr with hr | hr
    · exact .inl hr
    · exact .inr (congrArg Prod.snd (List.mem_singleton.1 hr))
  kept _ hr _ := List.mem_append_left _ hr

theorem leavesOthers_filter {id : TxnId} {p : RowKey × TxnId → Bool}
    (hp : ∀ r, r.2 ≠ id → p r = true) :
    s.LeavesOthers { s with lockQueue := s.lockQueue.filter p } id where
  holder _ _ hj h := holder_filter h (hp _ hj)
  request _ hr := .inl (List.mem_filter.1 hr).1
  kept r hr hne := List.mem_filter.2 ⟨hr, hp r hne⟩

theorem leavesOthers_release (s : Store) (t : Txn) : s.LeavesOthers (s.release t) t.id :=
  leavesOthers_filter fun r hr => by simpa using hr

theorem leavesOthers_leaveQueue (s : Store) (t : Txn) (key : RowKey) :
    s.LeavesOthers (s.leaveQueue t key) t.id :=
  leavesOthers_filter fun r hr => by
    rw [decide_eq_true_eq]
    exact fun he => hr (congrArg Prod.snd he)

/-- Bringing a view up to date either succeeds or leaves the transaction as it
was, up to its view. -/
theorem acquire_cases {key : RowKey} {reply : LockReply} (h : s.acquire t key = (reply, t')) :
    (reply = .answered (.ok ()) ∧ ∃ view, s.tables.replay t.journal = .ok view ∧
      view.contains key.table key.id = true ∧ t' = { t with view }) ∨
    (∃ e, reply = .answered (.error e)) ∧ t'.id = t.id := by
  unfold acquire at h
  split at h
  · next e hv =>
    obtain ⟨rfl, rfl⟩ := Prod.mk.inj h
    exact .inr ⟨⟨e, rfl⟩, rfl⟩
  -- the row may have been deleted while the transaction was waiting for it
  · next view hv =>
    obtain ⟨rfl, rfl⟩ := Prod.mk.inj h
    cases hr : view.require key.table key.id with
    | ok u => exact .inl ⟨rfl, view, hv, Tables.require_eq_ok_iff.1 hr, rfl⟩
    | error e => exact .inr ⟨⟨e, rfl⟩, rfl⟩

/-- What comes of waiting for a lock: still waiting, the lock with the view
brought up to date, or an error. -/
theorem awaitLock_cases {key : RowKey} {reply : LockReply} (h : s.awaitLock t key = (reply, t', s')) :
    (reply = .queued ∧ t' = t ∧ s' = s) ∨
    (reply = .answered (.ok ()) ∧ s' = s ∧ s.holder? key = some t.id ∧
      ∃ view, s.tables.replay t.journal = .ok view ∧ view.contains key.table key.id = true ∧
        t' = { t with view }) ∨
    ((∃ e, reply = .answered (.error e)) ∧ t'.id = t.id ∧ s.LeavesOthers s' t.id ∧
      s'.books = { s.books with lockQueue := s'.lockQueue }) := by
  unfold awaitLock at h
  split at h
  · obtain ⟨rfl, rfl, rfl⟩ : .answered (.error .cancelled) = reply ∧ t = t' ∧
        s.leaveQueue t key = s' := by simpa [Prod.ext_iff] using h
    exact .inr (.inr ⟨⟨_, rfl⟩, rfl, leavesOthers_leaveQueue s t key, rfl⟩)
  split at h
  · next hh =>
    cases ha : s.acquire t key with
    | mk reply₁ t₁ =>
      rw [ha] at h
      obtain ⟨rfl, rfl, rfl⟩ : reply₁ = reply ∧ t₁ = t' ∧ s = s' := by simpa [Prod.ext_iff] using h
      rcases acquire_cases ha with ⟨hr, view, hv⟩ | ⟨hr, hid⟩
      · exact .inr (.inl ⟨hr, rfl, hh, view, hv⟩)
      · exact .inr (.inr ⟨hr, hid, .of_lockQueue_eq rfl, rfl⟩)
  · obtain ⟨rfl, rfl, rfl⟩ : .queued = reply ∧ t = t' ∧ s = s' := by simpa [Prod.ext_iff] using h
    exact .inl ⟨rfl, rfl, rfl⟩

/-! ## The start of a transaction -/

theorem begin_cases {r : Except LedgerError Txn} (h : s.begin client = (r, s')) :
    (r = .ok ⟨s.nextTxn, client, s.tables, []⟩ ∧
      s'.books = { s.books with nextTxn := s.nextTxn + 1 }) ∨
    (∃ e, r = .error e) ∧ s'.books = s.books := by
  unfold begin at h
  split at h
  · next e s₁ ha =>
    obtain ⟨rfl, rfl⟩ := Prod.mk.inj h
    exact .inr ⟨⟨e, rfl⟩, books_allow ha⟩
  · next s₁ ha =>
    have hb : s₁.books = s.books := books_allow ha
    have htables : s₁.tables = s.tables := congrArg Books.tables hb
    have htxn : s₁.nextTxn = s.nextTxn := congrArg Books.nextTxn hb
    obtain ⟨rfl, rfl⟩ := Prod.mk.inj h
    refine .inl ⟨by rw [htables, htxn], ?_⟩
    rw [← hb, ← htxn]
    rfl

/-! ## The end of a transaction -/

theorem books_release (h : s'.books = s.books) (t : Txn) :
    (s'.release t).books = (s.release t).books := by
  simp only [books, Books.mk.injEq] at h
  simp [release, books, h]

/-- A journal is taken over as a whole or not at all. -/
theorem publish_cases {r : Except LedgerError Unit} (h : s.publish t = (r, s')) :
    (r = .ok () ∧ ∃ tables, s.tables.replay t.journal = .ok tables ∧
      s'.books = { s.books with tables, committed := s.committed + t.journal.length }) ∨
    (∃ e, r = .error e) ∧ s'.books = s.books := by
  unfold publish at h
  split at h
  · next e s₁ ha =>
    obtain ⟨rfl, rfl⟩ := Prod.mk.inj h
    exact .inr ⟨⟨e, rfl⟩, books_allow ha⟩
  · next s₁ ha =>
    have hb : s₁.books = s.books := books_allow ha
    have ht : s₁.tables = s.tables := congrArg Books.tables hb
    split at h
    · next e hv =>
      obtain ⟨rfl, rfl⟩ := Prod.mk.inj h
      exact .inr ⟨⟨e, rfl⟩, hb⟩
    · next tables hv =>
      obtain ⟨rfl, rfl⟩ := Prod.mk.inj h
      have hc : s₁.committed = s.committed := congrArg Books.committed hb
      refine .inl ⟨rfl, tables, ht ▸ hv, ?_⟩
      rw [← hb, ← hc]
      rfl

/-- A transaction that is to be committed either is, or leaves nothing. -/
theorem finish_ok_cases {α : Type} {a : α} {r : Except LedgerError α}
    (h : s.finish t (.ok a) = (r, s')) :
    (r = .ok a ∧ ∃ tables, s.tables.replay t.journal = .ok tables ∧
      s'.books = { (s.release t).books with tables, committed := s.committed + t.journal.length }) ∨
    (∃ e, r = .error e) ∧ s'.books = (s.release t).books := by
  unfold finish commit at h
  -- the locks are released either way, after the journal was tried
  cases hp : s.publish t with
  | mk rp s₁ =>
    rw [hp] at h
    rcases publish_cases hp with ⟨rfl, tables, hv, hb⟩ | ⟨⟨e, rfl⟩, hb⟩
    · obtain ⟨rfl, rfl⟩ := Prod.mk.inj h
      refine .inl ⟨rfl, tables, hv, ?_⟩
      simp only [books, Books.mk.injEq] at hb
      simp [release, books, hb]
    · obtain ⟨rfl, rfl⟩ := Prod.mk.inj h
      exact .inr ⟨⟨e, rfl⟩, books_release hb t⟩

/-- What a commit that succeeds makes of the tables. -/
theorem replay_of_commit (h : s.commit t = (.ok (), s')) :
    s.tables.replay t.journal = .ok s'.tables := by
  unfold commit at h
  cases hp : s.publish t with
  | mk r s₁ =>
    rw [hp] at h
    obtain ⟨rfl, rfl⟩ := Prod.mk.inj h
    rcases publish_cases hp with ⟨-, tables, hv, hb⟩ | ⟨⟨e, he⟩, -⟩
    · have ht : s₁.tables = tables := congrArg Books.tables hb
      exact ht ▸ hv
    · cases he

end Store

namespace Run

variable {α : Type}

theorem result?_eq_some_iff {run : Run α} {r : Except Failure α} :
    run.result? = some r ↔ run = outside (.done r) := by
  constructor
  · intro h
    cases run with
    | outside op =>
      cases op with
      | done r' =>
        cases h
        rfl
      | transaction => cases h
    | inside | waiting => cases h
  · rintro rfl
    rfl

/-- All that can happen in one step of an operation, from a store and a run
to those after it. -/
inductive Turn (client : Client) (s : Store) : Run α → Store → Run α → Prop
  /-- The operation has its result. -/
  | finished (r : Except Failure α) : Turn client s (outside (.done r)) s (outside (.done r))
  /-- A transaction cannot be opened. -/
  | refused {β : Type} {body : Plan β} {next : Except LedgerError β → Operation α} {e : LedgerError}
      {s' : Store} (hb : s'.books = s.books) :
      Turn client s (outside (.transaction body next)) s' (outside (next (.error e)))
  /-- A transaction is opened, with a snapshot of the tables. -/
  | opened {β : Type} {body : Plan β} {next : Except LedgerError β → Operation α} {s' : Store}
      (hb : s'.books = { s.books with nextTxn := s.nextTxn + 1 }) :
      Turn client s (outside (.transaction body next)) s'
        (inside ⟨s.nextTxn, client, s.tables, []⟩ body next)
  /-- A transaction is committed. -/
  | committed {β : Type} {t : Txn} {a : β} {next : Except LedgerError β → Operation α} {s' : Store}
      {tables : Tables} (hv : s.tables.replay t.journal = .ok tables)
      (hb : s'.books =
        { (s.release t).books with tables, committed := s.committed + t.journal.length }) :
      Turn client s (inside t (.done a) next) s' (outside (next (.ok a)))
  /-- A transaction cannot be committed. -/
  | lost {β : Type} {t : Txn} {a : β} {next : Except LedgerError β → Operation α} {s' : Store}
      {e : LedgerError} (hb : s'.books = (s.release t).books) :
      Turn client s (inside t (.done a) next) s' (outside (next (.error e)))
  /-- A transaction is rolled back. -/
  | rolledBack {β : Type} {t : Txn} {next : Except LedgerError β → Operation α} {s' : Store}
      {e : LedgerError} (hb : s'.books = (s.release t).books) :
      Turn client s (inside t (.fail (.refused e)) next) s' (outside (next (.error e)))
  /-- An amount grew out of range. -/
  | overflowed {β : Type} {t : Txn} {next : Except LedgerError β → Operation α} {o : Overflow} :
      Turn client s (inside t (.fail (.overflow o)) next) (s.release t)
        (outside (.done (.error (.overflow o))))
  /-- A row is locked already. -/
  | held {β : Type} {t : Txn} {key : RowKey} {plan : Plan β}
      {next : Except LedgerError β → Operation α} {s' : Store} (hb : s'.books = s.books)
      (hq : (key, t.id) ∈ s.lockQueue) (hc : t.view.contains key.table key.id = true) :
      Turn client s (inside t (.lock key plan) next) s' (inside t plan next)
  /-- A lock is asked for. -/
  | asked {β : Type} {t : Txn} {key : RowKey} {plan : Plan β}
      {next : Except LedgerError β → Operation α} {s' : Store}
      (hb : s'.books = { s.books with lockQueue := s.lockQueue ++ [(key, t.id)] })
      (hq : (key, t.id) ∉ s.lockQueue) :
      Turn client s (inside t (.lock key plan) next) s' (waiting t key plan next)
  /-- A lock is asked for and got, and the view brought up to date. -/
  | locked {β : Type} {t : Txn} {key : RowKey} {plan : Plan β}
      {next : Except LedgerError β → Operation α} {s' : Store} {view : Tables}
      (hb : s'.books = { s.books with lockQueue := s.lockQueue ++ [(key, t.id)] })
      (hq : (key, t.id) ∉ s.lockQueue) (hh : s'.holder? key = some t.id)
      (hv : s.tables.replay t.journal = .ok view) (hc : view.contains key.table key.id = true) :
      Turn client s (inside t (.lock key plan) next) s' (inside { t with view } plan next)
  /-- A lock that was asked for before is got. -/
  | granted {β : Type} {t : Txn} {key : RowKey} {plan : Plan β}
      {next : Except LedgerError β → Operation α} {view : Tables}
      (hh : s.holder? key = some t.id) (hv : s.tables.replay t.journal = .ok view)
      (hc : view.contains key.table key.id = true) :
      Turn client s (waiting t key plan next) s (inside { t with view } plan next)
  /-- A lock that was asked for before is still somebody else's. -/
  | still {β : Type} {t : Txn} {key : RowKey} {plan : Plan β}
      {next : Except LedgerError β → Operation α} :
      Turn client s (waiting t key plan next) s (waiting t key plan next)
  /-- A lock cannot be had. -/
  | denied {β : Type} {t t' : Txn} {key : RowKey} {plan : Plan β}
      {next : Except LedgerError β → Operation α} {s' : Store} {e : LedgerError} {run : Run α}
      (hrun : run = inside t (.lock key plan) next ∨ run = waiting t key plan next)
      (hid : t'.id = t.id) (hl : s.LeavesOthers s' t.id)
      (hb : s'.books = { s.books with lockQueue := s'.lockQueue }) :
      Turn client s run s' (inside t' (.fail (.refused e) : Plan β) next)
  /-- A call succeeds. -/
  | called {β : Type} {t : Txn} {c : Call} {plan : c.Reply → Plan β}
      {next : Except LedgerError β → Operation α} {s' : Store} {ms : List Mutation} {r : c.Reply}
      {view : Tables} (he : c.effect t.view s.nextId = .ok (ms, r))
      (hv : t.view.replay ms = .ok view)
      (hb : s'.books = { s.books with nextId := s.nextId + c.idsUsed }) :
      Turn client s (inside t (.call c plan) next) s'
        (inside { t with view, journal := t.journal ++ ms } (plan r) next)
  /-- A call fails. -/
  | failed {β : Type} {t t' : Txn} {c : Call} {plan : c.Reply → Plan β}
      {next : Except LedgerError β → Operation α} {s' : Store} {e : LedgerError}
      (hid : t'.id = t.id)
      (hb : s'.books = s.books ∨ s'.books = { s.books with nextId := s.nextId + 1 }) :
      Turn client s (inside t (.call c plan) next) s' (inside t' (.fail (.refused e)) next)

/-- What a request for a lock leads to. -/
theorem turn_requestLock {β : Type} {client : Client} {s s' : Store} {t t' : Txn} {key : RowKey}
    {plan : Plan β} {next : Except LedgerError β → Operation α} {reply : LockReply}
    (h : s.requestLock t key = (reply, t', s')) :
    Turn client s (inside t (.lock key plan) next) s' (afterLock t' key plan next reply) := by
  unfold Store.requestLock at h
  split at h
  · next e s₁ ha =>
    obtain ⟨rfl, rfl, rfl⟩ : .answered (.error e) = reply ∧ t = t' ∧ s₁ = s' := by
      simpa [Prod.ext_iff] using h
    have hb := Store.books_allow ha
    have hq : s₁.lockQueue = s.lockQueue := congrArg Books.lockQueue hb
    refine .denied (.inl rfl) rfl (.of_lockQueue_eq hq) ?_
    rw [hb, hq]
    rfl
  next s₁ ha =>
  have hb : s₁.books = s.books := Store.books_allow ha
  have hq : s₁.lockQueue = s.lockQueue := congrArg Books.lockQueue hb
  split at h
  · next hmem =>
    obtain ⟨rfl, rfl, rfl⟩ : .answered (t.view.require key.table key.id) = reply ∧ t = t' ∧
        s₁ = s' := by simpa [Prod.ext_iff] using h
    cases hr : t.view.require key.table key.id with
    | ok u => exact .held hb (hq ▸ List.contains_iff_mem.1 hmem) (Tables.require_eq_ok_iff.1 hr)
    | error e =>
      refine .denied (.inl rfl) rfl (.of_lockQueue_eq hq) ?_
      rw [hb, hq]
      rfl
  next hmem =>
  have hnot : (key, t.id) ∉ s.lockQueue := fun hc => hmem (List.contains_iff_mem.2 (hq ▸ hc))
  have hb' : Store.books { s₁ with lockQueue := s₁.lockQueue ++ [(key, t.id)] } =
      { s.books with lockQueue := s.lockQueue ++ [(key, t.id)] } := by
    rw [← hb, ← hq]
    rfl
  -- a request that is new goes to the end of the queue and is looked at right away
  rcases Store.awaitLock_cases h with
    ⟨rfl, rfl, rfl⟩ | ⟨rfl, rfl, hh, view, hv, hc, rfl⟩ | ⟨⟨e, rfl⟩, hid, hl, hb₁⟩
  · exact .asked hb' hnot
  · have ht : s₁.tables = s.tables := congrArg Books.tables hb
    exact .locked hb' hnot hh (ht ▸ hv) hc
  · refine .denied (.inl rfl) hid ?_ ?_
    · exact (Store.LeavesOthers.of_lockQueue_eq hq).trans
        ((Store.leavesOthers_append s₁ key t.id).trans hl)
    · rw [hb₁, hb']

/-- **Nothing else can happen in one step.** -/
theorem step_turn {client : Client} {s s' : Store} {run run' : Run α}
    (h : run.step client s = (s', run')) : Turn client s run s' run' := by
  cases run with
  | outside op =>
    cases op with
    | done r =>
      obtain ⟨rfl, rfl⟩ := Prod.mk.inj h
      exact .finished r
    | transaction body next =>
      simp only [step] at h
      cases hs : s.begin client with
      | mk r s₁ =>
        rw [hs] at h
        rcases Store.begin_cases hs with ⟨rfl, hb⟩ | ⟨⟨e, rfl⟩, hb⟩
        · obtain ⟨rfl, rfl⟩ := Prod.mk.inj h
          exact .opened hb
        · obtain ⟨rfl, rfl⟩ := Prod.mk.inj h
          exact .refused hb
  | inside t plan next =>
    cases plan with
    | done a =>
      simp only [step] at h
      obtain ⟨rfl, rfl⟩ := Prod.mk.inj h
      rcases Store.finish_ok_cases (Prod.eta (s.finish t (.ok a))).symm with
        ⟨hr, tables, hv, hb⟩ | ⟨⟨e, hr⟩, hb⟩
      · rw [hr]
        exact .committed hv hb
      · rw [hr]
        exact .lost hb
    | fail f =>
      cases f with
      | refused e =>
        simp only [step] at h
        obtain ⟨rfl, rfl⟩ := Prod.mk.inj h
        exact .rolledBack (Store.books_rollback s t)
      | overflow o =>
        obtain ⟨rfl, rfl⟩ := Prod.mk.inj h
        exact .overflowed
    | lock key plan =>
      simp only [step] at h
      cases hs : s.requestLock t key with
      | mk reply ts =>
        obtain ⟨t₁, s₁⟩ := ts
        rw [hs] at h
        obtain ⟨rfl, rfl⟩ := Prod.mk.inj h
        exact turn_requestLock hs
    | call c plan =>
      simp only [step] at h
      cases hs : s.call t c with
      | mk r ts =>
        obtain ⟨t₁, s₁⟩ := ts
        rw [hs] at h
        cases r with
        | ok r =>
          obtain ⟨rfl, rfl⟩ := Prod.mk.inj h
          obtain ⟨⟨ms, view, he, hv, rfl⟩, hb⟩ := Store.call_eq_ok hs
          exact .called he hv hb
        | error e =>
          obtain ⟨rfl, rfl⟩ := Prod.mk.inj h
          obtain ⟨hid, hb⟩ := Store.call_eq_error hs
          exact .failed hid hb
  | waiting t key plan next =>
    simp only [step] at h
    cases hs : s.awaitLock t key with
    | mk reply ts =>
      obtain ⟨t₁, s₁⟩ := ts
      rw [hs] at h
      obtain ⟨rfl, rfl⟩ := Prod.mk.inj h
      rcases Store.awaitLock_cases hs with
        ⟨rfl, rfl, rfl⟩ | ⟨rfl, rfl, hh, view, hv, hc, rfl⟩ | ⟨⟨e, rfl⟩, hid, hl, hb⟩
      · exact .still
      · exact .granted hh hv hc
      · exact .denied (.inr rfl) hid hl hb

/-! ## What a step leaves alone -/

variable {client : Client} {s s' : Store} {run run' : Run α}

/-- Only a commit changes the tables and what is counted as committed. -/
theorem Turn.tables_eq_or (h : Turn client s run s' run') :
    (s'.tables = s.tables ∧ s'.committed = s.committed) ∨ ∃ (β : Type) (t : Txn) (a : β)
      (next : Except LedgerError β → Operation α), run = inside t (.done a) next ∧
        run' = outside (next (.ok a)) ∧ s.tables.replay t.journal = .ok s'.tables ∧
        s'.committed = s.committed + t.journal.length := by
  cases h with
  | @committed _ t a next _ tables hv hb =>
    have ht : s'.tables = tables := congrArg Books.tables hb
    exact .inr ⟨_, t, a, next, rfl, rfl, ht ▸ hv, congrArg Books.committed hb⟩
  | failed _ hb =>
    rcases hb with hb | hb
    · exact .inl ⟨congrArg Books.tables hb, congrArg Books.committed hb⟩
    · exact .inl ⟨congrArg Books.tables hb, congrArg Books.committed hb⟩
  | finished | overflowed | granted | still => exact .inl ⟨rfl, rfl⟩
  | refused hb | opened hb | lost hb | rolledBack hb | held hb | asked hb | locked hb | denied _ _ _ hb
  | called _ _ hb => exact .inl ⟨congrArg Books.tables hb, congrArg Books.committed hb⟩

/-- A step draws one id at most. -/
theorem Turn.nextId_eq_or (h : Turn client s run s' run') :
    s'.nextId = s.nextId ∨ s'.nextId = s.nextId + 1 := by
  cases h with
  | @called _ t c plan next _ ms r view _ _ hb =>
    have hn : s'.nextId = s.nextId + c.idsUsed := congrArg Books.nextId hb
    unfold Call.idsUsed at hn
    split at hn <;> omega
  | failed _ hb =>
    rcases hb with hb | hb
    · exact .inl (congrArg Books.nextId hb)
    · exact .inr (congrArg Books.nextId hb)
  | finished | overflowed | granted | still => exact .inl rfl
  | refused hb | opened hb | committed _ hb | lost hb | rolledBack hb | held hb | asked hb | locked hb
  | denied _ _ _ hb => exact .inl (congrArg Books.nextId hb)

/-- A transaction is the one that was open before, or a new one. -/
theorem Turn.txn_eq_or (h : Turn client s run s' run') {t' : Txn} (ht : run'.txn? = some t') :
    (∃ t, run.txn? = some t ∧ t.id = t'.id) ∨ (t'.id = s.nextTxn ∧ s'.nextTxn = s.nextTxn + 1) := by
  cases h with
  | opened hb =>
    cases ht
    exact .inr ⟨rfl, congrArg Books.nextTxn hb⟩
  -- what fails keeps its transaction until the next step rolls it back
  | denied hrun hid _ _ =>
    cases ht
    rcases hrun with rfl | rfl
    · exact .inl ⟨_, rfl, hid.symm⟩
    · exact .inl ⟨_, rfl, hid.symm⟩
  | failed hid _ =>
    cases ht
    exact .inl ⟨_, rfl, hid.symm⟩
  | finished | refused | committed | lost | rolledBack | overflowed => cases ht
  | held | asked | locked | granted | still | called =>
    cases ht
    exact .inl ⟨_, rfl, rfl⟩

theorem Turn.nextTxn_le (h : Turn client s run s' run') : s.nextTxn ≤ s'.nextTxn := by
  have same : s'.nextTxn = s.nextTxn → s.nextTxn ≤ s'.nextTxn := fun he => Nat.le_of_eq he.symm
  cases h with
  | opened hb =>
    have hn : s'.nextTxn = s.nextTxn + 1 := congrArg Books.nextTxn hb
    rw [hn]
    exact Nat.le_succ _
  | failed _ hb =>
    rcases hb with hb | hb
    · exact same (congrArg Books.nextTxn hb)
    · exact same (congrArg Books.nextTxn hb)
  | finished | overflowed | granted | still => exact Nat.le_refl _
  | refused hb | committed _ hb | lost hb | rolledBack hb | held hb | asked hb | locked hb
  | denied _ _ _ hb | called _ _ hb => exact same (congrArg Books.nextTxn hb)

/-- Nobody else is put off. -/
theorem Turn.leavesOthers (h : Turn client s run s' run') {id : TxnId}
    (hid : ∀ t, run.txn? = some t → t.id = id) : s.LeavesOthers s' id := by
  have released {t : Txn} (ht : t.id = id) (hq : s'.lockQueue = (s.release t).lockQueue) :
      s.LeavesOthers s' id :=
    ht ▸ (Store.leavesOthers_release s t).trans (.of_lockQueue_eq hq)
  have appended {t : Txn} {key : RowKey} (ht : t.id = id)
      (hq : s'.lockQueue = s.lockQueue ++ [(key, t.id)]) : s.LeavesOthers s' id :=
    ht ▸ (Store.leavesOthers_append s key t.id).trans (.of_lockQueue_eq hq)
  cases h with
  | finished | granted | still => exact .of_lockQueue_eq rfl
  | refused hb | opened hb | held hb | called _ _ hb =>
    exact .of_lockQueue_eq (congrArg Books.lockQueue hb)
  | committed _ hb | lost hb | rolledBack hb => exact released (hid _ rfl) (congrArg Books.lockQueue hb)
  | overflowed => exact released (hid _ rfl) rfl
  | asked hb | locked hb => exact appended (hid _ rfl) (congrArg Books.lockQueue hb)
  | denied hrun _ hl _ =>
    rcases hrun with rfl | rfl
    · exact hid _ rfl ▸ hl
    · exact hid _ rfl ▸ hl
  | failed _ hb =>
    rcases hb with hb | hb
    · exact .of_lockQueue_eq (congrArg Books.lockQueue hb)
    · exact .of_lockQueue_eq (congrArg Books.lockQueue hb)

end Run

end SharedLedger
