import SharedLedger.Proofs.Isolation
import Mathlib.Logic.Relation

/-!
# Waiting for locks

A transaction that asks for a row which another one has locked waits for it,
and keeps the rows it has locked itself. `System.WaitsFor` says who waits for
whom. Every plan takes its locks in the order of `Table.rank`, so whoever waits
for a transaction that waits itself waits for a row of a lower rank. Hence
nobody waits for itself, however long the way round, and behind everybody who
is blocked there is a transaction that is not (`System.no_deadlock`).
-/

namespace SharedLedger

theorem Table.rank_le_one (table : Table) : table.rank ≤ 1 := by cases table <;> decide

/-! ## Requests -/

namespace Run

variable {α : Type} {client : Client} {s s' : Store} {run run' : Run α} {key : RowKey} {X : TxnId}

/-- The transaction that waits for a lock, and the row. -/
def awaited? : Run α → Option (TxnId × RowKey)
  | waiting t key _ _ => some (t.id, key)
  | _ => none

theorem awaited_eq_some_iff :
    run.awaited? = some (X, key) ↔ ∃ (β : Type) (t : Txn) (plan : Plan β)
      (next : Except LedgerError β → Operation α), run = waiting t key plan next ∧ t.id = X := by
  constructor
  · intro h
    cases run with
    | waiting t k plan next =>
      obtain ⟨rfl, rfl⟩ := Prod.mk.inj (Option.some.inj h)
      exact ⟨_, t, plan, next, rfl, rfl⟩
    | outside | inside => cases h
  · rintro ⟨β, t, plan, next, rfl, rfl⟩
    rfl

theorem txn_of_awaited (h : run.awaited? = some (X, key)) : ∃ t, run.txn? = some t ∧ t.id = X := by
  obtain ⟨β, t, plan, next, rfl, hid⟩ := awaited_eq_some_iff.1 h
  exact ⟨t, rfl, hid⟩

/-- Outside its transactions a run asks for no lock. -/
theorem Turn.lockQueue_eq (h : Turn client s run s' run') (hnone : run.txn? = none) :
    s'.lockQueue = s.lockQueue := by
  cases h with
  | finished => rfl
  | refused hb | opened hb => exact congrArg Books.lockQueue hb
  | denied hrun =>
    rcases hrun with rfl | rfl
    · cases hnone
    · cases hnone
  | committed | lost | rolledBack | overflowed | held | asked | locked | granted | still | called
  | failed => cases hnone

/-- A transaction goes on, or it ends and gives up all its requests. -/
theorem Turn.goes_on_or (h : Turn client s run s' run') {t : Txn} (ht : run.txn? = some t) :
    (∃ t', run'.txn? = some t' ∧ t'.id = t.id) ∨ ∀ r ∈ s'.lockQueue, r.2 ≠ t.id := by
  have released (hq : s'.lockQueue = (s.release t).lockQueue) : ∀ r ∈ s'.lockQueue, r.2 ≠ t.id := by
    intro r hr
    rw [hq] at hr
    simpa using (List.mem_filter.1 hr).2
  cases h with
  | finished | refused | opened => cases ht
  | committed _ hb | lost hb | rolledBack hb =>
    cases ht
    exact .inr (released (congrArg Books.lockQueue hb))
  | overflowed =>
    cases ht
    exact .inr (released rfl)
  | denied hrun hid =>
    rcases hrun with rfl | rfl
    · cases ht
      exact .inl ⟨_, rfl, hid⟩
    · cases ht
      exact .inl ⟨_, rfl, hid⟩
  | failed hid =>
    cases ht
    exact .inl ⟨_, rfl, hid⟩
  | held | asked | locked | granted | still | called =>
    cases ht
    exact .inl ⟨_, rfl, rfl⟩

/-- Who waits for a lock has asked for it, now or before. -/
theorem Turn.request_of_awaited (h : Turn client s run s' run') (ha : run'.awaited? = some (X, key))
    (hwas : run.awaited? = some (X, key) → (key, X) ∈ s.lockQueue) : (key, X) ∈ s'.lockQueue := by
  cases h with
  | asked hb =>
    have hq : s'.lockQueue = _ := congrArg Books.lockQueue hb
    obtain ⟨rfl, rfl⟩ := Prod.mk.inj (Option.some.inj ha)
    rw [hq]
    exact List.mem_append_right _ (List.mem_singleton_self _)
  | still => exact hwas ha
  | finished | refused | opened | committed | lost | rolledBack | overflowed | held | locked | granted
  | denied | called | failed => cases ha

end Run

namespace System

variable {service : Service} {sys : System} {i : Nat} {x : Session} {X Y : TxnId} {key : RowKey}

/-- A transaction waits for a lock. -/
def Awaits (sys : System) (X : TxnId) (key : RowKey) : Prop :=
  ∃ i x, sys.sessions i = some x ∧ x.run.awaited? = some (X, key)

/-- A transaction is open. -/
def Open (sys : System) (X : TxnId) : Prop :=
  ∃ i x t, sys.sessions i = some x ∧ x.run.txn? = some t ∧ t.id = X

/-- **What the queue says**: all requests are those of open transactions, and
whoever waits for a lock has asked for it. -/
structure Queued (sys : System) : Prop where
  owner : ∀ r ∈ sys.store.lockQueue, sys.Open r.2
  request : ∀ X key, sys.Awaits X key → (key, X) ∈ sys.store.lockQueue

/-- Exchanging one session, whose transaction is `j`, if any. -/
theorem Queued.set (h : sys.Queued) {s' : Store} {ox : Option Session} {j : TxnId}
    (hl : sys.store.LeavesOthers s' j)
    (hown : ∀ x t, sys.sessions i = some x → x.run.txn? = some t → t.id = j)
    (hothers : ∀ k y t, k ≠ i → sys.sessions k = some y → y.run.txn? = some t → t.id ≠ j)
    (howner : ∀ r ∈ s'.lockQueue, r.2 = j → ∃ y t, ox = some y ∧ y.run.txn? = some t ∧ t.id = j)
    (hrequest : ∀ y X key, ox = some y → y.run.awaited? = some (X, key) → (key, X) ∈ s'.lockQueue) :
    (sys.set s' i ox).Queued where
  owner r hr := by
    by_cases hj : r.2 = j
    · obtain ⟨y, t, hy, ht, hid⟩ := howner r hr hj
      exact ⟨i, y, t, by rw [set_sessions_self, hy], ht, hid.trans hj.symm⟩
    · obtain ⟨k, y, t, hy, ht, hid⟩ := h.owner r ((hl.request r hr).resolve_right hj)
      have hk : k ≠ i := by
        rintro rfl
        exact hj (hid.symm.trans (hown y t hy ht))
      exact ⟨k, y, t, by rw [set_sessions_of_ne hk, hy], ht, hid⟩
  request X key := by
    rintro ⟨k, y, hy, ha⟩
    by_cases hk : k = i
    · subst hk
      rw [set_sessions_self] at hy
      exact hrequest y X key hy ha
    · rw [set_sessions_of_ne hk] at hy
      obtain ⟨t, ht, rfl⟩ := Run.txn_of_awaited ha
      exact hl.kept _ (h.request _ key ⟨k, y, hy, ha⟩) (hothers k y t hk hy ht)

theorem Queued.start (h : sys.Queued) (hs : Sound service sys) (hi : sys.sessions i = none)
    (client : Client) (now : Nat) (c : Command) :
    (sys.set sys.store i (some (.start service client now c))).Queued := by
  refine h.set (.of_lockQueue_eq rfl) (fun x t hx => ?_) hs.ne_nextTxn (fun r hr hid => ?_) ?_
  · rw [hi] at hx
    cases hx
  · exact absurd hid (Nat.ne_of_lt (hs.request_lt r hr))
  · rintro _ X key ⟨⟩ ha
    cases ha

theorem Queued.turn (h : sys.Queued) (hs : Sound service sys) (hx : sys.sessions i = some x)
    {s' : Store} {run' : Run x.command.Reply} (ht : Run.Turn x.client sys.store x.run s' run') :
    (sys.set s' i (some (x.moved sys.store s' run'))).Queued := by
  have hrequest : ∀ y X key, some (x.moved sys.store s' run') = some y →
      y.run.awaited? = some (X, key) → (key, X) ∈ s'.lockQueue := by
    rintro _ X key ⟨⟩ ha
    exact ht.request_of_awaited ha fun hwas => h.request X key ⟨i, x, hx, hwas⟩
  cases hxt : x.run.txn? with
  | none =>
    have hq := ht.lockQueue_eq hxt
    refine h.set (.of_lockQueue_eq hq) (fun y t hy hyt => ?_) hs.ne_nextTxn (fun r hr hid => ?_)
      hrequest
    · rw [hx] at hy
      cases hy
      rw [hxt] at hyt
      cases hyt
    · exact absurd hid (Nat.ne_of_lt (hs.request_lt r (hq ▸ hr)))
  | some t =>
    have hown : ∀ u, x.run.txn? = some u → u.id = t.id := by simp [hxt]
    refine h.set (ht.leavesOthers hown) (fun y u hy hyu => ?_) (hs.txn_ne hx hxt)
      (fun r hr hid => ?_) hrequest
    · rw [hx] at hy
      cases hy
      exact hown u hyu
    · rcases ht.goes_on_or hxt with ⟨t', ht', hid'⟩ | hgone
      · exact ⟨_, t', rfl, ht', hid'⟩
      · exact absurd hid (hgone r hr)

theorem Queued.leave (h : sys.Queued) (hs : Sound service sys) (hx : sys.sessions i = some x) :
    (sys.set (x.run.abandon sys.store) i none).Queued := by
  unfold Run.abandon
  cases hxt : x.run.txn? with
  | none =>
    refine h.set (.of_lockQueue_eq rfl) (fun y t hy hyt => ?_) hs.ne_nextTxn (fun r hr hid => ?_) ?_
    · rw [hx] at hy
      cases hy
      rw [hxt] at hyt
      cases hyt
    · exact absurd hid (Nat.ne_of_lt (hs.request_lt r hr))
    · exact fun y X key hy => by cases hy
  | some t =>
    refine h.set (Store.leavesOthers_release sys.store t) (fun y u hy hyu => ?_) (hs.txn_ne hx hxt)
      (fun r hr hid => ?_) ?_
    · rw [hx] at hy
      cases hy
      rw [hxt] at hyu
      cases hyu
      rfl
    · have hne : r.2 ≠ t.id := by simpa using (List.mem_filter.1 hr).2
      exact absurd hid hne
    · exact fun y X key hy => by cases hy

theorem Queued.disturb (h : sys.Queued) (d : Disturbance) :
    Queued { sys with store := sys.store.disturb d } := by
  have hq : (sys.store.disturb d).lockQueue = sys.store.lockQueue :=
    congrArg Books.lockQueue (sys.store.books_disturb d)
  exact
  { owner := fun r hr => h.owner r (hq ▸ hr)
    request := fun X key ha => hq.symm ▸ h.request X key ha }

/-- Where no transaction is open, nobody has asked for locks. -/
theorem Queued.lockQueue_eq_nil (h : sys.Queued) (hidle : ∀ X, ¬ sys.Open X) :
    sys.store.lockQueue = [] :=
  List.eq_nil_iff_forall_not_mem.2 fun r hr => hidle r.2 (h.owner r hr)

theorem Reachable.queued (h : Reachable service sys) : sys.Queued := by
  induction h with
  | initial =>
    exact
    { owner := fun r hr => by cases hr
      request := fun X key ⟨i, x, hx, _⟩ => by cases hx }
  | step h hs ih =>
    cases hs with
    | start i client now c hi => exact ih.start h.sound hi client now c
    | turn i x hx => exact ih.turn h.sound hx (Run.step_turn (Prod.eta _).symm)
    | request i x hx hrun hallow hq => exact ih.turn h.sound hx (hrun ▸ turn_request hallow hq)
    | leave i x hx => exact ih.leave h.sound hx
    | disturb d => exact ih.disturb d

/-! ## Who waits for whom -/

/-- A transaction waits for a lock that another one holds. -/
def WaitsFor (sys : System) (X Y : TxnId) : Prop :=
  ∃ key, sys.Awaits X key ∧ sys.store.holder? key = some Y ∧ Y ≠ X

/-- A transaction waits for a lock and does not hold it. -/
def Blocked (sys : System) (X : TxnId) : Prop :=
  ∃ key, sys.Awaits X key ∧ sys.store.holder? key ≠ some X

/-- Whoever is blocked waits for somebody else. -/
theorem blocked_iff (h : Reachable service sys) : sys.Blocked X ↔ ∃ Y, sys.WaitsFor X Y := by
  constructor
  · rintro ⟨key, ha, hne⟩
    obtain ⟨Y, hY⟩ := Store.exists_holder (h.queued.request X key ha)
    exact ⟨Y, key, ha, hY, fun he => hne (he ▸ hY)⟩
  · rintro ⟨Y, key, ha, hY, hne⟩
    exact ⟨key, ha, fun he => hne (Option.some.inj (hY.symm.trans he))⟩

/-- Transactions wait for one lock at a time. -/
theorem Sound.awaits_unique (h : Sound service sys) {k : RowKey} (ha : sys.Awaits X key)
    (ha' : sys.Awaits X k) : key = k := by
  obtain ⟨i, x, hx, hrun⟩ := ha
  obtain ⟨j, y, hy, hrun'⟩ := ha'
  obtain ⟨t, ht, hid⟩ := Run.txn_of_awaited hrun
  obtain ⟨u, hu, hid'⟩ := Run.txn_of_awaited hrun'
  have hij : i = j := by
    by_contra hne
    exact (h.apart i j x y hne hx hy).txn t u ht hu (hid.trans hid'.symm)
  subst hij
  cases hx.symm.trans hy
  exact (Prod.mk.inj (Option.some.inj (hrun.symm.trans hrun'))).2

/-- What a waiting transaction has asked for is the row it waits for, or a row
that is locked before it. -/
theorem Sound.rank_lt_of_request (h : Sound service sys) {k : RowKey} (ha : sys.Awaits X key)
    (hk : (k, X) ∈ sys.store.lockQueue) : k = key ∨ k.table.rank < key.table.rank := by
  obtain ⟨i, x, hx, hrun⟩ := ha
  obtain ⟨β, t, plan, next, hwaiting, rfl⟩ := Run.awaited_eq_some_iff.1 hrun
  have hs := (h.session i x hx).run
  rw [hwaiting] at hs
  obtain _ | _ | _ | ⟨-, hl, hstage, hholds⟩ := hs
  rcases List.mem_append.1 (hholds.request _ hk rfl) with hk | hk
  · cases (service.lawful_operation x.now x.command).leads hl with
    | transaction hg _ _ => exact .inr (hstage.rank_lt hg k hk)
  · exact .inl (List.mem_singleton.1 hk)

/-- What a transaction is about to ask for comes after what it has asked for. -/
theorem Sound.rank_lt_of_lock (h : Sound service sys)
    (hx : sys.sessions i = some x) {β : Type} {t : Txn} {k : RowKey} {plan : Plan β}
    {next : Except LedgerError β → Operation x.command.Reply}
    (hrun : x.run = .inside t (.lock key plan) next) (hk : (k, t.id) ∈ sys.store.lockQueue) :
    k.table.rank < key.table.rank := by
  have hs := hrun ▸ (h.session i x hx).run
  obtain _ | ⟨-, hl, hstage, hholds⟩ := hs
  cases (service.lawful_operation x.now x.command).leads hl with
  | transaction hg _ _ => exact hstage.rank_lt hg k (hholds.request _ hk rfl)

/-- **Waiting goes up.** A transaction that somebody waits for and that is
blocked itself waits for a row of a higher rank. -/
theorem Sound.rank_lt (h : Sound service sys) {k : RowKey} (hY : sys.store.holder? key = some Y)
    (ha : sys.Awaits Y k) (hne : sys.store.holder? k ≠ some Y) :
    key.table.rank < k.table.rank := by
  refine (h.rank_lt_of_request ha (Store.mem_of_holder hY)).resolve_left ?_
  rintro rfl
  exact hne hY

/-- From one who waits to one who is blocked, in any number of steps, the rank
has gone up. -/
theorem Sound.rank_lt_of_transGen (h : Sound service sys) {k : RowKey}
    (hw : Relation.TransGen sys.WaitsFor X Y) (ha : sys.Awaits Y k)
    (hne : sys.store.holder? k ≠ some Y) :
    ∃ key, sys.Awaits X key ∧ key.table.rank < k.table.rank := by
  induction hw generalizing k with
  | single hw =>
    obtain ⟨key, hX, hY, -⟩ := hw
    exact ⟨key, hX, h.rank_lt hY ha hne⟩
  | tail _ hw ih =>
    obtain ⟨key, hX, hY, hXY⟩ := hw
    obtain ⟨key', hkey', hlt⟩ := ih hX fun he => hXY (Option.some.inj (hY.symm.trans he))
    exact ⟨key', hkey', hlt.trans (h.rank_lt hY ha hne)⟩

/-- Nobody waits for itself. -/
theorem Sound.acyclic (h : Sound service sys) (X : TxnId) : ¬ Relation.TransGen sys.WaitsFor X X := by
  intro hw
  obtain ⟨Y, ⟨k, ha, hY, hne⟩, -⟩ := Relation.TransGen.head'_iff.1 hw
  obtain ⟨key, ha', hlt⟩ :=
    h.rank_lt_of_transGen hw ha fun he => hne (Option.some.inj (hY.symm.trans he))
  cases h.awaits_unique ha ha'
  exact lt_irrefl _ hlt

/-- A transaction holds a lock. -/
def Holder (sys : System) (X : TxnId) : Prop := ∃ key, sys.store.holder? key = some X

/-- Behind whoever is blocked there is a holder of a lock who is not. -/
theorem Reachable.exists_holder (h : Reachable service sys) (hb : sys.Blocked X) :
    ∃ Y, Relation.TransGen sys.WaitsFor X Y ∧ sys.Holder Y ∧ ¬ sys.Blocked Y := by
  obtain ⟨key, ha, hne⟩ := hb
  -- the ranks that are left above the row that is waited for get fewer at every step
  induction hn : 1 - key.table.rank using Nat.strong_induction_on generalizing X key with
  | _ n ih =>
    obtain ⟨Y, hw⟩ := (blocked_iff h).1 ⟨key, ha, hne⟩
    obtain ⟨key', ha', hY, -⟩ := id hw
    cases h.sound.awaits_unique ha ha'
    by_cases hb : sys.Blocked Y
    · obtain ⟨k, hk, hkne⟩ := hb
      have hlt := h.sound.rank_lt hY hk hkne
      have hle := k.table.rank_le_one
      obtain ⟨Z, hZ, hfree⟩ := ih (1 - k.table.rank) (by omega) k hk hkne rfl
      exact ⟨Z, .head hw hZ, hfree⟩
    · exact ⟨Y, .single hw, ⟨key, hY⟩, hb⟩

/-- **There is no deadlock.** Whatever commands are on their way, and in
whatever order their steps were taken, no transaction waits for itself through
others, and whoever is blocked by a lock waits, directly or through others, for
the holder of a lock that is an open transaction and not blocked. -/
theorem no_deadlock (h : Reachable service sys) :
    (∀ X, ¬ Relation.TransGen sys.WaitsFor X X) ∧
      ∀ X, sys.Blocked X →
        ∃ Y, Relation.TransGen sys.WaitsFor X Y ∧ sys.Holder Y ∧ sys.Open Y ∧ ¬ sys.Blocked Y := by
  refine ⟨h.sound.acyclic, fun X hb => ?_⟩
  obtain ⟨Y, hw, ⟨key, hY⟩, hfree⟩ := h.exists_holder hb
  exact ⟨Y, hw, ⟨key, hY⟩, h.queued.owner _ (Store.mem_of_holder hY), hfree⟩

/-- The group of the trip is about to get another name, the dinner waits for
the group, and somebody who is to clear the shares of the dinner waits for the
dinner. -/
def convoy : System :=
  let system := (Sample.trip.given Sample.service 5 Sample.client
    (.act 1 (.renameGroup 3 "Tour"))).turns (.replicate 8 5)
  let system := (system.given Sample.service 6 Sample.client
    (.act 2 (.updateExpense 6 ⟨some "Lunch", none, none, none, none, none, none⟩))).turns
      (.replicate 10 6)
  (system.given Sample.service 7 Sample.client (.act 1 (.clearShares 6))).turns (.replicate 8 7)

theorem reachable_convoy : Reachable Sample.service convoy :=
  Sample.reachable_trip.given 5 _ _ |>.turns _ |>.given 6 _ _ |>.turns _ |>.given 7 _ _ |>.turns _

/-- The last of them waits behind the other two. -/
theorem no_deadlock_convoy :
    (convoy.WaitsFor 17 14 ∧ convoy.WaitsFor 14 11) ∧
      ∃ Y, Relation.TransGen convoy.WaitsFor 17 Y ∧ convoy.Holder Y ∧ convoy.Open Y ∧
        ¬ convoy.Blocked Y := by
  have h17 : convoy.Awaits 17 ⟨.expenses, 6⟩ := ⟨7, Option.bind_eq_some_iff.1 (by decide +kernel)⟩
  have h14 : convoy.Awaits 14 ⟨.groups, 3⟩ := ⟨6, Option.bind_eq_some_iff.1 (by decide +kernel)⟩
  refine ⟨⟨⟨_, h17, by decide +kernel, by decide⟩, ⟨_, h14, by decide +kernel, by decide⟩⟩, ?_⟩
  exact (no_deadlock reachable_convoy).2 17 ⟨_, h17, by decide +kernel⟩

end System

end SharedLedger
