import SharedLedger.Proofs.Waiting

/-!
# From one moment to the next

What any step of a system does, whoever takes it. The committed tables change
under the locks of a transaction that ends with the step, if they change at all
(`System.Sound.step_changes`). A session that is there after the step was left alone, or
has just begun, or has taken the step itself (`System.Sound.session_cases`). And a
transaction that is open was open before, or is new (`System.Sound.was_open`).
-/

namespace SharedLedger

open Tables

namespace System

variable {service : Service} {sys sys' : System} {i : Nat} {x : Session} {X : TxnId}

/-! ## Committed tables -/

/-- **What a step does to the tables**: if anything, it is done with ids that are not
old, under locks of a transaction that ends with it. Ids that are old stay so. -/
structure Alters (sys sys' : System) : Prop where
  changes : ∃ new held, Changes new held sys.store.tables sys'.store.tables ∧
    (∀ id, sys.Old id → ¬ new id) ∧
    ∀ key, held key → ∃ X, sys.store.holder? key = some X ∧ ¬ sys'.Open X
  old : ∀ id, sys.Old id → sys'.Old id

theorem Alters.of_eq (ht : sys'.store.tables = sys.store.tables)
    (hold : ∀ id, sys.Old id → sys'.Old id) : sys.Alters sys' where
  changes := ⟨fun _ => False, fun _ => False, .of_eq ht, fun _ _ => id, fun _ => False.elim⟩
  old := hold

/-- A session leaves its transaction, which nobody else is in. -/
theorem Sound.not_open_set (h : Sound service sys) (hx : sys.sessions i = some x) {t : Txn}
    (ht : x.run.txn? = some t) {s' : Store} {y : Session} (hy : y.run.txn? = none) :
    ¬ (sys.set s' i (some y)).Open t.id := by
  rintro ⟨k, z, u, hz, hu, hid⟩
  by_cases hk : k = i
  · subst hk
    rw [set_sessions_self] at hz
    cases hz
    cases hy.symm.trans hu
  · rw [set_sessions_of_ne hk] at hz
    exact h.txn_ne hx ht k z u hk hz hu hid

theorem Sound.alters_turn (h : Sound service sys) (hx : sys.sessions i = some x) {s' : Store}
    {run' : Run x.command.Reply} (ht : Run.Turn x.client sys.store x.run s' run') :
    sys.Alters (sys.set s' i (some (x.moved sys.store s' run'))) := by
  have hn : sys.store.nextId ≤ s'.nextId := by rcases ht.nextId_eq_or with hn | hn <;> omega
  have hold : ∀ id, sys.Old id → (sys.set s' i (some (x.moved sys.store s' run'))).Old id :=
    fun id hid => hid.set hn (not_old_noteDrawn hx)
  rcases ht.tables_eq_or with ⟨htables, -⟩ | ⟨β, t, a, next, hrun, hrun', hv, -⟩
  · exact .of_eq htables hold
  · obtain ⟨_, -, hc, -⟩ := h.committed hx hrun hv
    have hends : ¬ (sys.set s' i (some (x.moved sys.store s' run'))).Open t.id :=
      h.not_open_set hx (by rw [hrun]; rfl) (congrArg Run.txn? hrun')
    exact ⟨⟨_, _, hc, fun id hid => not_supplied hx hid, fun key hkey => ⟨t.id, hkey, hends⟩⟩, hold⟩

/-- **Every step alters the tables under locks that are then given up.** -/
theorem Sound.step_changes (h : Sound service sys) (hs : Step service sys sys') :
    sys.Alters sys' := by
  cases hs with
  | start i client now c hi =>
    refine .of_eq rfl fun id hid => hid.set le_rfl ?_
    rintro _ ⟨⟩ k hk
    cases hk
  | turn i x hx => exact h.alters_turn hx (Run.step_turn (Prod.eta _).symm)
  | request i x hx hrun hallow hq => exact h.alters_turn hx (hrun ▸ turn_request hallow hq)
  | leave i x hx =>
    exact .of_eq (x.run.tables_abandon _) fun id hid =>
      hid.set (x.run.nextId_abandon _).ge fun y hy => by cases hy
  | disturb d =>
    have hids : (sys.store.disturb d).nextId = sys.store.nextId :=
      congrArg Books.nextId (sys.store.books_disturb d)
    exact .of_eq (sys.store.tables_disturb d) fun id hid => ⟨hids.symm ▸ hid.1, hid.2⟩

/-- Whoever stays in a transaction has the locks of no commit meanwhile. -/
theorem Alters.beside {ls : List RowKey} (h : sys.Alters sys')
    (hheld : ∀ key ∈ ls, sys.store.holder? key = some X) (hopen : sys'.Open X) :
    ∃ new held, Changes new held sys.store.tables sys'.store.tables ∧
      (∀ id, sys.Old id → ¬ new id) ∧ ∀ key ∈ ls, ¬ held key := by
  obtain ⟨new, held, hc, hnew, hends⟩ := h.changes
  refine ⟨new, held, hc, hnew, fun key hkey hh => ?_⟩
  obtain ⟨Y, hY, hno⟩ := hends key hh
  cases (hheld key hkey).symm.trans hY
  exact hno hopen

/-! ## Sessions -/

/-- **How a session came out of a step**: somebody else took the step and left the
session its locks, or the session has just begun, or it has taken a turn. -/
theorem Sound.session_cases (h : Sound service sys) (hs : Step service sys sys')
    (hx : sys'.sessions i = some x) :
    (sys.sessions i = some x ∧ ∀ t, x.run.txn? = some t → ∀ key,
      sys.store.holder? key = some t.id → sys'.store.holder? key = some t.id) ∨
    (sys.sessions i = none ∧ ∃ client now c, x = .start service client now c) ∨
    ∃ y run', sys.sessions i = some y ∧ Run.Turn y.client sys.store y.run sys'.store run' ∧
      x = y.moved sys.store sys'.store run' := by
  have beside {s' : Store} {ox : Option Session} {j : Nat} {X : TxnId} (hij : i ≠ j)
      (hl : sys.store.LeavesOthers s' X)
      (hX : ∀ k y t, k ≠ j → sys.sessions k = some y → y.run.txn? = some t → t.id ≠ X)
      (hx : (sys.set s' j ox).sessions i = some x) :
      sys.sessions i = some x ∧ ∀ t, x.run.txn? = some t → ∀ key,
        sys.store.holder? key = some t.id → s'.holder? key = some t.id := by
    rw [set_sessions_of_ne hij] at hx
    exact ⟨hx, fun t ht key hk => hl.holder key _ (hX i x t hij hx ht) hk⟩
  have turned {j : Nat} {y : Session} (hy : sys.sessions j = some y) {s' : Store}
      {run' : Run y.command.Reply} (ht : Run.Turn y.client sys.store y.run s' run')
      (hx : (sys.set s' j (some (y.moved sys.store s' run'))).sessions i = some x) :
      (sys.sessions i = some x ∧ ∀ t, x.run.txn? = some t → ∀ key,
        sys.store.holder? key = some t.id → s'.holder? key = some t.id) ∨
      ∃ y run', sys.sessions i = some y ∧ Run.Turn y.client sys.store y.run s' run' ∧
        x = y.moved sys.store s' run' := by
    by_cases hij : i = j
    · subst hij
      rw [set_sessions_self] at hx
      cases hx
      exact .inr ⟨y, run', hy, ht, rfl⟩
    · obtain ⟨X, hl, -, hothers⟩ := h.exists_leavesOthers hy ht
      exact .inl (beside hij hl hothers hx)
  cases hs with
  | start j client now c hj =>
    by_cases hij : i = j
    · subst hij
      rw [set_sessions_self] at hx
      cases hx
      exact .inr (.inl ⟨hj, client, now, c, rfl⟩)
    · exact .inl (beside hij (.of_lockQueue_eq rfl) h.ne_nextTxn hx)
  | turn j y hy => exact (turned hy (Run.step_turn (Prod.eta _).symm) hx).imp_right .inr
  | request j y hy hrun hallow hq =>
    exact (turned hy (hrun ▸ turn_request hallow hq) hx).imp_right .inr
  | leave j y hy =>
    have hij : i ≠ j := by
      rintro rfl
      rw [set_sessions_self] at hx
      cases hx
    unfold Run.abandon at hx ⊢
    cases hyt : y.run.txn? with
    | none =>
      rw [hyt] at hx
      exact .inl (beside hij (.of_lockQueue_eq rfl) h.ne_nextTxn hx)
    | some u =>
      rw [hyt] at hx
      exact .inl (beside hij (Store.leavesOthers_release sys.store u) (h.txn_ne hy hyt) hx)
  | disturb d =>
    have hq : (sys.store.disturb d).lockQueue = sys.store.lockQueue :=
      congrArg Books.lockQueue (sys.store.books_disturb d)
    exact .inl ⟨hx, fun t _ key hk => (Store.holder_congr hq key).trans hk⟩

/-- A transaction that is not new was that of its session before. -/
theorem Sound.was_open (h : Sound service sys) (hs : Step service sys sys')
    (hx : sys'.sessions i = some x) {t : Txn} (ht : x.run.txn? = some t)
    (hlt : t.id < sys.store.nextTxn) :
    ∃ y u, sys.sessions i = some y ∧ y.run.txn? = some u ∧ u.id = t.id := by
  rcases h.session_cases hs hx with ⟨hx, -⟩ | ⟨-, _, _, _, rfl⟩ | ⟨y, run', hy, hturn, rfl⟩
  · exact ⟨x, t, hx, ht, rfl⟩
  · cases ht
  · rcases hturn.txn_eq_or ht with ⟨u, hu, hid⟩ | ⟨hid, -⟩
    · exact ⟨y, u, hy, hu, hid⟩
    · exact absurd hid (Nat.ne_of_lt hlt)

/-- A transaction that stays open stays that of its session. -/
theorem Sound.stays_open (h : Sound service sys) (hs : Step service sys sys')
    (hx : sys.sessions i = some x) {t : Txn} (ht : x.run.txn? = some t) (hopen : sys'.Open t.id) :
    ∃ y u, sys'.sessions i = some y ∧ y.run.txn? = some u ∧ u.id = t.id := by
  obtain ⟨j, y, u, hy, hu, hid⟩ := hopen
  have hlt : u.id < sys.store.nextTxn := hid ▸ (h.session i x hx).txn_lt t ht
  obtain ⟨z, v, hz, hv, hvid⟩ := h.was_open hs hy hu hlt
  have hji : j = i := by
    by_contra hne
    exact h.txn_ne hx ht j z v hne hz hv (hvid.trans hid)
  exact ⟨y, u, hji ▸ hy, hu, hid⟩

/-- Names of transactions are given out in order. -/
theorem Step.nextTxn_le (hs : Step service sys sys') : sys.store.nextTxn ≤ sys'.store.nextTxn := by
  cases hs with
  | start => exact Nat.le_refl _
  | turn i x hx => exact (Run.step_turn (Prod.eta _).symm).nextTxn_le
  | request i x hx hrun hallow hq =>
    have ht : Run.Turn x.client sys.store x.run _ _ := hrun ▸ turn_request hallow hq
    exact ht.nextTxn_le
  | leave i x hx =>
    simp only [set_store]
    unfold Run.abandon
    split <;> exact Nat.le_refl _
  | disturb d => exact (congrArg Books.nextTxn (sys.store.books_disturb d)).ge

end System

end SharedLedger
