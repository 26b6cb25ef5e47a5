import SharedLedger.Proofs.Constraints
import SharedLedger.Proofs.Serving

/-!
# What a transaction sees

A transaction sees the committed tables as they were when it was opened, or when it
last got a lock, with its own mutations on top: its view is what its journal makes of
those tables (`Pool.Sees`). This is so whatever has been done in it, calls included
that failed half-way, and whatever others have committed since. If nobody else has,
a commit goes through and makes the committed tables what the transaction saw
(`Pool.sees_of_moves`).
-/

namespace SharedLedger

open Tables

/-! ## Writing -/

/-- **Writing keeps the view and the journal together**, also where it stops
half-way. -/
theorem Txn.replay_write {base : Tables} {t : Txn} (h : base.replay t.journal = .ok t.view)
    (ms : List Mutation) : base.replay (t.write ms).2.journal = .ok (t.write ms).2.view := by
  induction ms generalizing t with
  | nil => exact h
  | cons m ms ih =>
    simp only [write]
    split
    · exact h
    · next view hv =>
      exact ih (replay_append.2 ⟨t.view, h, replay_singleton.2 (apply_eq_ok_iff.1 hv)⟩)

namespace Call

/-- A call writes one row at most, given what its transaction sees. -/
def WritesOne (c : Call) (view : Tables) : Prop :=
  ∀ n ms r, c.effect view n = .ok (ms, r) → ms.length ≤ 1

/-- Calls that put in a row write just this row. -/
theorem writesOne_of_row {c : Call} (h : ∀ n, (c.row? n).isSome = true) (view : Tables) :
    c.WritesOne view := by
  intro n ms r he
  obtain ⟨row, hrow⟩ := Option.isSome_iff_exists.1 (h n)
  rw [effect_of_row hrow he]
  exact le_rfl

end Call

namespace Store

variable {s s' : Store} {t t' : Txn} {c : Call} {key : RowKey}

theorem exists_write_perform (t : Txn) (n : Int) (c : Call) :
    ∃ ms, (perform t n c).2 = (t.write ms).2 := by
  unfold perform
  split
  · exact ⟨[], rfl⟩
  · next ms r he =>
    refine ⟨ms, ?_⟩
    split <;> next hw => rw [hw]

/-- All that a call does to its transaction is to write. -/
theorem exists_write_call (s : Store) (t : Txn) (c : Call) :
    ∃ ms, (s.call t c).2.1 = (t.write ms).2 := by
  unfold call
  split
  · exact ⟨[], rfl⟩
  split
  · exact exists_write_perform ..
  split
  · exact ⟨[], rfl⟩
  · exact exists_write_perform ..

/-- A write of one mutation at most leaves its transaction as it was where it fails. -/
theorem write_error {ms : List Mutation} {e : LedgerError} (hms : ms.length ≤ 1)
    (h : t.write ms = (.error e, t')) : t' = t := by
  cases ms with
  | nil => cases (Prod.mk.inj h).1
  | cons m ms =>
    obtain rfl : ms = [] := List.length_eq_zero_iff.1 (by simpa using hms)
    cases hm : t.view.apply m with
    | error e' =>
      simp only [Txn.write, hm] at h
      exact (Prod.mk.inj h).2.symm
    | ok view =>
      simp only [Txn.write, hm] at h
      cases (Prod.mk.inj h).1

theorem perform_error {n : Int} {e : LedgerError} (hc : c.WritesOne t.view)
    (h : perform t n c = (.error e, t')) : t' = t := by
  unfold perform at h
  split at h
  · exact (Prod.mk.inj h).2.symm
  · next ms r he =>
    split at h
    · next u hw =>
      rw [← (Prod.mk.inj h).2]
      exact write_error (hc n ms r he) hw
    · cases (Prod.mk.inj h).1

/-- **A call that was to write one row and fails leaves its transaction as it was.** -/
theorem call_error {e : LedgerError} (hc : c.WritesOne t.view)
    (h : s.call t c = (.error e, t', s')) : t' = t := by
  unfold call at h
  split at h
  · exact (congrArg (·.2.1) h).symm
  next s₁ ha =>
  split at h
  · obtain ⟨hr, ht, -⟩ : (perform t s₁.nextId c).1 = .error e ∧ (perform t s₁.nextId c).2 = t' ∧
        s₁ = s' := by simpa [Prod.ext_iff] using h
    exact perform_error hc (Prod.ext hr ht)
  split at h
  · exact (congrArg (·.2.1) h).symm
  next s₂ hi =>
  obtain ⟨hr, ht, -⟩ : (perform t s₂.nextId c).1 = .error e ∧ (perform t s₂.nextId c).2 = t' ∧
      { s₂ with nextId := s₂.nextId + 1 } = s' := by simpa [Prod.ext_iff] using h
  exact perform_error hc (Prod.ext hr ht)

/-! ## Locks -/

/-- A transaction that waits for the lock of a row gets it, and its view can be brought
up to date. -/
def Refreshes (s : Store) (t : Txn) (key : RowKey) : Prop :=
  s.isCancelled t.client = false ∧ s.holder? key = some t.id ∧
    ∃ view, s.tables.replay t.journal = .ok view

theorem acquire_txn (s : Store) (t : Txn) (key : RowKey) :
    (∃ view, s.tables.replay t.journal = .ok view ∧ (s.acquire t key).2 = { t with view }) ∨
    ((∀ view, s.tables.replay t.journal ≠ .ok view) ∧ (s.acquire t key).2 = t) := by
  unfold acquire
  cases hv : s.tables.replay t.journal with
  | ok view => exact .inl ⟨view, rfl, rfl⟩
  | error e => exact .inr ⟨nofun, rfl⟩

/-- Waiting for a lock brings the view up to date or leaves the transaction as it
was. -/
theorem awaitLock_txn (s : Store) (t : Txn) (key : RowKey) :
    (s.Refreshes t key ∧ s.tables.replay (s.awaitLock t key).2.1.journal =
      .ok (s.awaitLock t key).2.1.view) ∨
    (¬ s.Refreshes t key ∧ (s.awaitLock t key).2.1 = t) := by
  unfold awaitLock Refreshes
  split
  · next hc => exact .inr ⟨fun h => by simp [hc] at h, rfl⟩
  next hc =>
  split
  · next hh =>
    obtain ⟨view, hv, ht⟩ | ⟨hfail, ht⟩ := s.acquire_txn t key
    · refine .inl ⟨⟨by simpa using hc, hh, view, hv⟩, ?_⟩
      change s.tables.replay (s.acquire t key).2.journal = .ok (s.acquire t key).2.view
      rw [ht]
      exact hv
    · exact .inr ⟨fun ⟨_, _, view, hview⟩ => hfail view hview, ht⟩
  · next hh => exact .inr ⟨fun h => hh h.2.1, rfl⟩

end Store

/-- Whether what is done in a transaction brings its view up to date: it gets a lock it
had not asked for before, or one it has been waiting for. -/
def Deed.Refreshes (s : Store) (t : Txn) : Deed → Prop
  | requestLock key => ∃ s', s.allow t.client "lock_row" = (.ok (), s') ∧
      (key, t.id) ∉ s'.lockQueue ∧
      Store.Refreshes { s' with lockQueue := s'.lockQueue ++ [(key, t.id)] } t key
  | awaitLock key => s.Refreshes t key
  | _ => False

/-- Only a commit that goes through changes the committed tables. -/
theorem Deed.tables_on (s : Store) (t : Txn) (d : Deed) :
    (d.on s t).1.tables = s.tables ∨ (d = .commit ∧ (s.commit t).1 = .ok ()) := by
  cases d with
  | call c => exact .inl (s.tables_call t c)
  | requestLock key => exact .inl (s.journal_requestLock t key).2
  | awaitLock key => exact .inl (s.journal_awaitLock t key).2
  | queueUp | leaveQueue | drop => exact .inl rfl
  | rollback => exact .inl (congrArg Books.tables (Store.books_rollback s t))
  | commit =>
    obtain ⟨hr, -⟩ | ⟨-, hb⟩ := Store.publish_cases (Prod.eta (s.publish t)).symm
    · exact .inr ⟨rfl, hr⟩
    · exact .inl (congrArg Books.tables hb)

/-- **What becomes of an open transaction**: its view is brought up to date, or it
writes, if anything. -/
theorem Deed.on_cases {s : Store} {t t' : Txn} {d : Deed} (h : (d.on s t).2 = some t') :
    (d.Refreshes s t ∧ s.tables.replay t'.journal = .ok t'.view) ∨
      (¬ d.Refreshes s t ∧ ∃ ms, t' = (t.write ms).2) := by
  cases d with
  | call c =>
    cases h
    exact .inr ⟨id, s.exists_write_call t c⟩
  | requestLock key =>
    cases h
    simp only [Store.requestLock, Refreshes]
    split
    · next e s' ha => exact .inr ⟨fun ⟨_, ha', _⟩ => (by rw [ha] at ha'; cases ha'), [], rfl⟩
    next s' ha =>
    have htables : s'.tables = s.tables := congrArg Books.tables (Store.books_allow ha)
    split
    · next hq =>
      refine .inr ⟨?_, [], rfl⟩
      rintro ⟨s'', ha', hnot, -⟩
      rw [ha] at ha'
      cases ha'
      exact hnot (List.contains_iff_mem.1 hq)
    · next hq =>
      have hnot : (key, t.id) ∉ s'.lockQueue := fun hin => hq (List.contains_iff_mem.2 hin)
      rw [← htables]
      obtain ⟨hr, hv⟩ | ⟨hr, ht⟩ :=
        Store.awaitLock_txn { s' with lockQueue := s'.lockQueue ++ [(key, t.id)] } t key
      · exact .inl ⟨⟨s', ha, hnot, hr⟩, hv⟩
      · refine .inr ⟨?_, [], ht⟩
        rintro ⟨s'', ha', -, hr'⟩
        rw [ha] at ha'
        cases ha'
        exact hr hr'
  | awaitLock key =>
    cases h
    obtain h | ⟨hr, ht⟩ := s.awaitLock_txn t key
    · exact .inl h
    · exact .inr ⟨hr, [], ht⟩
  | queueUp key | leaveQueue key =>
    cases h
    exact .inr ⟨id, [], rfl⟩
  | commit | rollback | drop => cases h

/-- A commit of a client that is served goes through where its journal can be
replayed. -/
theorem Store.Serves.commit_eq {s : Store} {t : Txn} {tables : Tables} (h : s.Serves t.client)
    (hv : s.tables.replay t.journal = .ok tables) :
    (s.commit t).1 = .ok () ∧ (s.commit t).2.tables = tables := by
  unfold commit publish
  rw [h.allow]
  simp only [hv]
  exact ⟨trivial, rfl⟩

namespace Pool

variable {p start : Pool} {i : Nat} {m : Move} {t : Txn}

/-! ## One move -/

/-- A move that opens the transaction in the place `i`, or brings its view up to
date. -/
def Snaps (i : Nat) (p : Pool) : Move → Prop
  | .begin j client => j = i ∧ p.txns i = none ∧ ∃ t, (p.store.begin client).1 = .ok t
  | .deed j d => j = i ∧ ∃ t, p.txns i = some t ∧ d.Refreshes p.store t
  | _ => False

/-- A move that commits the transaction in another place than `i`. -/
def OtherCommits (i : Nat) (p : Pool) : Move → Prop
  | .deed j .commit => j ≠ i ∧ ∃ t, p.txns j = some t ∧ (p.store.commit t).1 = .ok ()
  | _ => False

theorem txns_set_self (p : Pool) (i : Nat) (st : Store × Option Txn) :
    (p.set i st).txns i = st.2 := by
  simp [set]

theorem txns_set_of_ne {j : Nat} (h : i ≠ j) (st : Store × Option Txn) :
    (p.set j st).txns i = p.txns i := by
  simp [set, h]

/-- What was opened or brought up to date sees the committed tables, with its own
mutations on top. -/
theorem replay_of_snaps (hs : Snaps i p m) (ht : (p.after m).txns i = some t) :
    p.store.tables.replay t.journal = .ok t.view ∧ (p.after m).store.tables = p.store.tables := by
  cases m with
  | begin j client =>
    obtain ⟨rfl, hfree, u, hu⟩ := hs
    simp only [after, hfree] at ht ⊢
    rw [txns_set_self] at ht
    obtain ⟨hr, hb⟩ | ⟨⟨e, hr⟩, -⟩ := Store.begin_cases (Prod.eta (p.store.begin client)).symm
    · rw [hr] at ht
      cases ht
      exact ⟨rfl, congrArg Books.tables hb⟩
    · rw [hr] at hu
      cases hu
  | deed j d =>
    obtain ⟨rfl, u, hu, hd⟩ := hs
    simp only [after, hu] at ht ⊢
    rw [txns_set_self] at ht
    obtain ⟨-, hv⟩ | ⟨hnot, -⟩ := Deed.on_cases ht
    · obtain htables | ⟨rfl, -⟩ := d.tables_on p.store u
      · exact ⟨hv, htables⟩
      · exact hd.elim
    · exact absurd hd hnot
  | disturb | renumber => exact hs.elim

/-- What was not has written, if anything. -/
theorem write_of_not_snaps (hs : ¬ Snaps i p m) (ht : (p.after m).txns i = some t) :
    ∃ u ms, p.txns i = some u ∧ t = (u.write ms).2 := by
  have same (h : (p.after m).txns i = p.txns i) : ∃ u ms, p.txns i = some u ∧ t = (u.write ms).2 :=
    ⟨t, [], h ▸ ht, rfl⟩
  cases m with
  | begin j client =>
    cases hj : p.txns j with
    | some u => exact same (by simp only [after, hj])
    | none =>
      by_cases hij : i = j
      · subst hij
        simp only [after, hj, txns_set_self] at ht
        -- the place was free, so this move has opened the transaction
        refine absurd ⟨rfl, hj, t, ?_⟩ hs
        cases hr : (p.store.begin client).1 with
        | ok u =>
          rw [hr] at ht
          exact congrArg _ (Option.some.inj ht)
        | error e =>
          rw [hr] at ht
          cases ht
      · exact same (by simp only [after, hj, txns_set_of_ne hij])
  | deed j d =>
    cases hj : p.txns j with
    | none => exact same (by simp only [after, hj])
    | some u =>
      by_cases hij : i = j
      · subst hij
        simp only [after, hj, txns_set_self] at ht
        obtain ⟨hd, -⟩ | ⟨-, ms, rfl⟩ := Deed.on_cases ht
        · exact absurd ⟨rfl, u, hj, hd⟩ hs
        · exact ⟨u, ms, hj, rfl⟩
      · exact same (by simp only [after, hj, txns_set_of_ne hij])
  | disturb d => exact same rfl
  | renumber n => exact same rfl

/-- The committed tables stay while a transaction is open and nobody else commits. -/
theorem tables_of_not_otherCommits (h : ¬ OtherCommits i p m) (ht : (p.after m).txns i = some t) :
    (p.after m).store.tables = p.store.tables := by
  cases m with
  | begin j client =>
    cases hj : p.txns j with
    | some u => simp only [after, hj]
    | none =>
      simp only [after, hj]
      obtain ⟨-, hb⟩ | ⟨-, hb⟩ := Store.begin_cases (Prod.eta (p.store.begin client)).symm
      · exact congrArg Books.tables hb
      · exact congrArg Books.tables hb
  | deed j d =>
    cases hj : p.txns j with
    | none => simp only [after, hj]
    | some u =>
      simp only [after, hj] at ht ⊢
      obtain htables | ⟨rfl, hr⟩ := d.tables_on p.store u
      · exact htables
      · by_cases hij : i = j
        · subst hij
          rw [txns_set_self] at ht
          cases ht
        · exact absurd ⟨Ne.symm hij, u, hj, hr⟩ h
  | disturb d => exact p.store.tables_disturb d
  | renumber n => rfl

/-! ## Any number of moves -/

/-- None of the moves is of a certain kind. -/
def Never (K : Pool → Move → Prop) (p : Pool) : List Move → Prop
  | [] => True
  | m :: ms => ¬ K p m ∧ (p.after m).Never K ms

theorem never_append {K : Pool → Move → Prop} {ms ns : List Move} :
    p.Never K (ms ++ ns) ↔ p.Never K ms ∧ (ms.foldl after p).Never K ns := by
  induction ms generalizing p with
  | nil => simp [Never]
  | cons m ms ih => simp [Never, ih, and_assoc]

/-- **What a transaction sees**: the committed tables of the pool in which the move `m`
opened it or brought its view up to date, with its own mutations on top. While nobody
else commits, they stay the committed tables. -/
structure Sees (p : Pool) (i : Nat) (m : Move) (since : List Move) (t : Txn) : Prop where
  snaps : Snaps i p m
  latest : (p.after m).Never (Snaps i) since
  replay : p.store.tables.replay t.journal = .ok t.view
  tables : (p.after m).Never (OtherCommits i) since →
    (since.foldl after (p.after m)).store.tables = p.store.tables

/-- One more move, which does not bring the view up to date. -/
theorem Sees.after {since : List Move} {m' : Move} {js : List Mutation} (h : p.Sees i m since t)
    (hs : ¬ Snaps i (since.foldl after (p.after m)) m')
    (ht : ((since.foldl after (p.after m)).after m').txns i = some (t.write js).2) :
    p.Sees i m (since ++ [m']) (t.write js).2 where
  snaps := h.snaps
  latest := never_append.2 ⟨h.latest, hs, trivial⟩
  replay := Txn.replay_write h.replay js
  tables hnever := by
    obtain ⟨hbefore, hlast, -⟩ := never_append.1 hnever
    rw [List.foldl_append]
    exact (tables_of_not_otherCommits hlast ht).trans (h.tables hbefore)

theorem exists_sees (hfree : start.txns i = none) (moves : List Move)
    (ht : (moves.foldl after start).txns i = some t) :
    ∃ before m since, moves = before ++ m :: since ∧ (before.foldl after start).Sees i m since t := by
  -- from the last move backwards, as far as the one that brought the view up to date
  induction moves using List.reverseRecOn generalizing t with
  | nil =>
    rw [List.foldl_nil, hfree] at ht
    cases ht
  | append_singleton ms m ih =>
    rw [List.foldl_append] at ht
    by_cases hs : Snaps i (ms.foldl after start) m
    · obtain ⟨hv, htables⟩ := replay_of_snaps hs ht
      exact ⟨ms, m, [], rfl, hs, trivial, hv, fun _ => htables⟩
    · obtain ⟨u, js, hu, rfl⟩ := write_of_not_snaps hs ht
      obtain ⟨before, m₀, since, rfl, hsees⟩ := ih hu
      simp only [List.foldl_append, List.foldl_cons] at hs ht
      exact ⟨before, m₀, since ++ [m], by simp, hsees.after hs ht⟩

/-- **A transaction sees what it writes, on one snapshot.** However many transactions
are open, whatever was called in them and whatever came of it: the view of each is what
its journal makes of the committed tables as they were when it was opened or, if that
came later, when it last got a lock. If nobody else has committed since, its commit goes
through as long as its client is served, and the committed tables are its view then. And
a call that was to write one row and fails has left view and journal as they were. -/
theorem sees_of_moves (hfree : start.txns i = none) (moves : List Move)
    (ht : (moves.foldl after start).txns i = some t) :
    (∃ before m since, moves = before ++ m :: since ∧
      (before.foldl after start).Sees i m since t ∧
      (((before ++ [m]).foldl after start).Never (OtherCommits i) since →
        (moves.foldl after start).store.Serves t.client →
        ((moves.foldl after start).store.commit t).1 = .ok () ∧
          ((moves.foldl after start).store.commit t).2.tables = t.view)) ∧
    ∀ (c : Call) e t' s', c.WritesOne t.view →
      (moves.foldl after start).store.call t c = (.error e, t', s') →
      t'.view = t.view ∧ t'.journal = t.journal := by
  refine ⟨?_, fun c e t' s' hc hcall => ?_⟩
  · obtain ⟨before, m, since, rfl, hsees⟩ := exists_sees hfree moves ht
    refine ⟨before, m, since, rfl, hsees, fun hnever hserves => hserves.commit_eq ?_⟩
    rw [List.foldl_append, List.foldl_cons, hsees.tables (by simpa using hnever)]
    exact hsees.replay
  · rw [Store.call_error hc hcall]
    exact ⟨rfl, rfl⟩

/-- The first user joins a group. -/
def join : Call := .insertMember 2 ⟨"Ada", some 1⟩

/-- A transaction adds a member while somebody else opens an account. Once it has locked
the group it fails to add the member again and deletes the account behind it. -/
def visit : List Move :=
  let client : Client := ⟨none, false⟩
  [.begin 0 client, .deed 0 (.call (.insertUser "Ada" "ada@example.org" (.opaqueText ""))),
    .deed 0 (.call (.insertGroup "Trip")), .deed 0 .commit, .begin 0 client, .deed 0 (.call join),
    .begin 1 client, .deed 1 (.call (.insertUser "Bea" "bea@example.org" (.opaqueText ""))),
    .deed 1 .commit, .deed 0 (.requestLock ⟨.groups, 2⟩), .deed 0 (.call join),
    .deed 0 (.call (.deleteUser 1))]

/-- It sees the new account and its own member without the old one, whom it cannot add
any more. -/
theorem sees_visit : ∃ t, (visit.foldl after initial).txns 0 = some t ∧
    t.view.users.toList.map (·.name) = ["Bea"] ∧
    t.view.members.toList = [⟨3, 2, none, "Ada"⟩] ∧
    (∃ before m since, visit = before ++ m :: since ∧
      (before.foldl after initial).Sees 0 m since t) ∧
    ∃ e t' s', (visit.foldl after initial).store.call t join = (.error e, t', s') ∧
      t'.view = t.view ∧ t'.journal = t.journal := by
  have hview : ((visit.foldl after initial).txns 0).map (fun t =>
      (t.view.users.toList.map (·.name), t.view.members.toList,
        ((visit.foldl after initial).store.call t join).1.isOk)) =
        some (["Bea"], [⟨3, 2, none, "Ada"⟩], false) := by decide +kernel
  obtain ⟨t, ht, hrows⟩ := Option.map_eq_some_iff.1 hview
  obtain ⟨⟨before, m, since, hsplit, hsees, -⟩, hfails⟩ := sees_of_moves rfl visit ht
  simp only [Prod.mk.injEq] at hrows
  obtain ⟨husers, hmembers, hok⟩ := hrows
  refine ⟨t, ht, husers, hmembers, ⟨before, m, since, hsplit, hsees⟩, ?_⟩
  cases hcall : (visit.foldl after initial).store.call t join with
  | mk r rest =>
    rw [hcall] at hok
    cases r with
    | ok _ => cases hok
    | error e =>
      exact ⟨e, rest.1, rest.2, rfl,
        hfails join e rest.1 rest.2 (Call.writesOne_of_row (fun _ => rfl) t.view) hcall⟩

end Pool

end SharedLedger
