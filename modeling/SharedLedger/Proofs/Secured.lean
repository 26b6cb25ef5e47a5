import SharedLedger.Proofs.Parts

/-!
# Locked expenses

`Expense.locked` locks an expense, reads it, and then locks its group; what changes an
expense or gives it shares begins with it. Between the two locks others may commit, and
each lock brings the view up to date. What comes of it is still the expense as the view
has it in the end, and neither the expense nor its shares nor the members of its group,
by their ids, change until the transaction ends (`System.secured_of_locked`).
-/

namespace SharedLedger

/-- A transaction that asks for no lock asks for nothing, and ends or goes on in its plan. -/
theorem Run.Turn.inside_of_ne_lock {β γ : Type} {client : Client} {s s' : Store} {run' : Run γ}
    {t u : Txn} {plan : Plan β} {next : Except LedgerError β → Operation γ}
    (h : Turn client s (inside t plan next) s' run') (hne : ∀ key q, plan ≠ .lock key q)
    (hu : run'.txn? = some u) :
    ∃ (t' : Txn) (plan' : Plan β), run' = inside t' plan' next ∧ t'.id = t.id ∧
      s'.lockQueue = s.lockQueue := by
  cases h with
  | committed | lost | rolledBack | overflowed => cases hu
  | held | asked | locked => exact absurd rfl (hne _ _)
  | denied hrun =>
    rcases hrun with hrun | hrun
    · cases hrun
      exact absurd rfl (hne _ _)
    · cases hrun
  | called _ _ hb => exact ⟨_, _, rfl, rfl, congrArg Books.lockQueue hb⟩
  | failed hid hb =>
    exact ⟨_, _, rfl, hid, hb.elim (congrArg Books.lockQueue) (congrArg Books.lockQueue)⟩

namespace System

variable {service : Service} {sys sys' later : System} {i : Nat} {x : Session} {β : Type} {t : Txn}
  {X : TxnId} {ls : List RowKey} {V : Tables}

/-! ## Until the transaction ends -/

/-- **What a session keeps in its transaction** once it has all its locks: it holds them,
and as far as they go the committed tables are still `V`. -/
structure Keeps (sys : System) (i : Nat) (X : TxnId) (ls : List RowKey) (V : Tables) : Prop where
  session : ∃ (x : Session) (t : Txn) (β : Type) (plan : Plan β)
    (next : Except LedgerError β → Operation x.command.Reply),
    sys.sessions i = some x ∧ x.run = .inside t plan next ∧ t.id = X
  holder : ∀ key ∈ ls, sys.store.holder? key = some X
  footing : Plan.Footing sys.Old ls V sys.store.tables

/-- Nothing is asked for after a row of the last rank. -/
theorem Sound.ne_lock (h : Sound service sys) (hx : sys.sessions i = some x) {plan : Plan β}
    {next : Except LedgerError β → Operation x.command.Reply} (hrun : x.run = .inside t plan next)
    {k : RowKey} (hk : sys.store.holder? k = some t.id) (hrank : k.table.rank = 1) (key : RowKey)
    (q : Plan β) : plan ≠ .lock key q := by
  rintro rfl
  have hlt := h.rank_lt_of_lock hx hrun (Store.mem_of_holder hk)
  have hle := key.table.rank_le_one
  omega

/-- **Keeping goes on** with every step, as long as the transaction is open. -/
theorem Keeps.step (hk : sys.Keeps i X ls V) (h : Sound service sys)
    (htop : ∃ key ∈ ls, key.table.rank = 1) (hs : Step service sys sys') (hopen : sys'.Open X) :
    sys'.Keeps i X ls V := by
  obtain ⟨x, t, β, plan, next, hx, hrun, rfl⟩ := hk.session
  have ht : x.run.txn? = some t := congrArg Run.txn? hrun
  obtain ⟨y, u, hy, hu, -⟩ := h.stays_open hs hx ht hopen
  have halters := h.step_changes hs
  obtain ⟨new, held, hc, hnew, hother⟩ := halters.beside hk.holder hopen
  have hfooting := hk.footing.moved hc hnew hother halters.old
  rcases h.session_cases hs hy with ⟨hy', hkeeps⟩ | ⟨hnone, -⟩ | ⟨z, run', hz, hturn, rfl⟩
  · cases hx.symm.trans hy'
    exact ⟨⟨x, t, β, plan, next, hy, hrun, rfl⟩, fun key hkey => hkeeps t ht key (hk.holder key hkey),
      hfooting⟩
  · cases hx.symm.trans hnone
  · cases hx.symm.trans hz
    obtain ⟨top, hmem, hrank⟩ := htop
    have hne := h.ne_lock hx hrun (hk.holder top hmem) hrank
    rw [hrun] at hturn
    obtain ⟨t', plan', hrun', hid', hq⟩ := hturn.inside_of_ne_lock hne hu
    exact ⟨⟨x.moved sys.store sys'.store run', t', β, plan', next, hy, hrun', hid'⟩,
      fun key hkey => (Store.holder_congr hq key).trans (hk.holder key hkey), hfooting⟩

/-- **What is kept is kept until the transaction ends**, whatever happens. -/
theorem Keeps.lasts (hk : sys.Keeps i X ls V) (h : Reachable service sys)
    (htop : ∃ key ∈ ls, key.table.rank = 1) (hl : Relation.ReflTransGen (Step service) sys later)
    (hopen : later.Open X) : later.Keeps i X ls V := by
  have hlt : X < sys.store.nextTxn := by
    obtain ⟨x, t, β, plan, next, hx, hrun, rfl⟩ := hk.session
    exact (h.sound.session i x hx).txn_lt t (congrArg Run.txn? hrun)
  suffices hinv : Reachable service later ∧ X < later.store.nextTxn ∧
      (later.Open X → later.Keeps i X ls V) from hinv.2.2 hopen
  clear hopen
  induction hl with
  | refl => exact ⟨h, hlt, fun _ => hk⟩
  | tail _ hs ih =>
    obtain ⟨hr, hlt, hkeeps⟩ := ih
    refine ⟨hr.step hs, Nat.lt_of_lt_of_le hlt hs.nextTxn_le, fun hopen => ?_⟩
    -- a transaction that has ended does not come back
    obtain ⟨j, y, u, hy, hu, rfl⟩ := id hopen
    obtain ⟨z, v, hz, hv, hid⟩ := hr.sound.was_open hs hy hu hlt
    exact (hkeeps ⟨j, z, v, hz, hv, hid⟩).step hr.sound htop hs hopen

/-! ## Expenses -/

/-- **What a transaction can rely on** that was given an expense under its locks. -/
structure Secured (service : Service) (sys : System) (t : Txn) (e : Expense) : Prop where
  /-- The view has the expense. -/
  row : t.view.expenses.find? e.id = some e
  /-- It was paid by a member of its group. -/
  payer : t.view.HasMember e.groupId e.paidBy
  /-- The expense and its group are locked. -/
  expense_held : sys.store.holder? ⟨.expenses, e.id⟩ = some t.id
  group_held : sys.store.holder? ⟨.groups, e.groupId⟩ = some t.id
  /-- Until the transaction ends, whatever anybody does, the committed tables have the
  expense, its shares, and the members of its group by their ids, as the view has them. -/
  kept : ∀ later, Relation.ReflTransGen (Step service) sys later → later.Open t.id →
    later.store.tables.expenses.find? e.id = some e ∧
    later.store.tables.sharesOf e.id = t.view.sharesOf e.id ∧
    ∀ m, later.store.tables.HasMember e.groupId m ↔ t.view.HasMember e.groupId m

theorem Keeps.secured {e : Expense} (hk : sys.Keeps i t.id (Expense.keys e) t.view)
    (h : Reachable service sys) (he : t.view.expenses.find? e.id = some e) :
    sys.Secured service t e where
  row := he
  payer := hk.footing.base.consistent.expense_payer e (Index.mem_of_find? he)
  expense_held := hk.holder _ (Expense.mem_keys_expense e)
  group_held := hk.holder _ (Expense.mem_keys_group e)
  kept later hl hopen := by
    have hbase := (hk.lasts h ⟨_, Expense.mem_keys_group e, rfl⟩ hl hopen).footing.base
    obtain ⟨hrow, hshares⟩ :=
      hbase.expense_kept he (Expense.mem_keys_expense e) (Expense.mem_keys_group e)
    exact ⟨hrow, hshares, fun m => hbase.hasMember_iff (Expense.mem_keys_group e)⟩

/-- **An expense that was locked is secured**, whoever has taken steps before and between
the two locks. -/
theorem secured_of_locked {id : Int} {f : Expense → Plan β} {e : Expense}
    (h : Carries service i (Expense.locked id) f sys t (.done e)) :
    e.id = id ∧ sys.Secured service t e := by
  have hguarded : (Expense.locked id).Guarded := by
    rw [← Plan.bind_done (Expense.locked id)]
    exact Expense.guarded_locked_bind fun e => .done e
  have hs := h.stands hguarded fun hu => by cases hu
  obtain ⟨x, hx, hat⟩ := hs.session
  obtain ⟨next, hrun⟩ := hat.exists_inside fun key q he => by cases he
  obtain ⟨ls, drawn, hstage, hheld⟩ := hs.stage
  obtain ⟨V, hf, halone⟩ := hstage.concluded
  -- what the part has come to is what it comes to alone, on the tables of the last lock
  have ho := halone (.const 0)
  rw [← Plan.bind_done (Expense.locked id), Expense.alone_locked] at ho
  obtain ⟨e', he, -, o, ho, hout⟩ := ho
  cases Plan.alone_done.1 ho
  obtain rfl : e = e' := congrArg Outcome.answer hout
  obtain rfl : ls = Expense.keys e := congrArg Outcome.locked hout
  obtain rfl : t.view = V := congrArg Outcome.tables hout
  obtain rfl : e.id = id := Index.key_of_find? he
  have hk : sys.Keeps i t.id (Expense.keys e) t.view :=
    ⟨⟨x, t, β, f e, next, hx, hrun, rfl⟩, hheld, hf⟩
  exact ⟨rfl, hk.secured hs.reachable he⟩

/-- The shares of the dinner, to be written again. -/
def halves : List ShareDraft := Sample.dinner.shares.getD []

/-- The group of the trip is about to get another name, and the shares of the dinner are
about to be replaced. -/
def dinnerCalled : System :=
  let system := (Sample.trip.given Sample.service 5 Sample.client
    (.act 1 (.renameGroup 3 "Tour"))).turns (.replicate 8 5)
  (system.given Sample.service 6 Sample.client (.act 1 (.replaceShares 6 halves))).turns
    (.replicate 7 6)

theorem reachable_dinnerCalled : Reachable Sample.service dinnerCalled :=
  Sample.reachable_trip.given 5 _ _ |>.turns _ |>.given 6 _ _ |>.turns _

/-- The dinner is locked, the group gets its name, and then it is locked as well. -/
def dinnerLocked : System := dinnerCalled.turns [6, 6, 6, 5, 5, 5, 6]

/-- After that Bea deletes her account. -/
def dinnerKept : System :=
  (dinnerLocked.given Sample.service 7 Sample.client (.deleteUser 2 2)).turns [7, 7, 7, 7]

set_option maxRecDepth 4000 in
/-- Her share of the dinner is still there, and the transaction goes by the new name. -/
theorem secured_dinner :
    ∃ t e, Carries Sample.service 6 (Expense.locked 6) (Expense.writeShares · halves) dinnerLocked t
        (.done e) ∧
      (t.view.groups.find? 3).map (·.name) = some "Tour" ∧
      (e.id = 6 ∧ dinnerLocked.Secured Sample.service t e) ∧
      dinnerKept.Open t.id ∧ dinnerKept.store.tables.users.contains 2 = false ∧
      dinnerKept.store.tables.sharesOf e.id = t.view.sharesOf e.id := by
  have hcalled : Carries Sample.service 6 (Expense.locked 6) (Expense.writeShares · halves)
      dinnerCalled _ _ := .called reachable_dinnerCalled rfl rfl
  have hread := (Carries.locked hcalled rfl rfl rfl).answered rfl
  -- the group is asked for, and renamed in three more turns of the other session
  have hasked := hread.meanwhile (.of_turn (i := 6) rfl) rfl .waiting
  have hrenamed := hasked.meanwhile (.of_turn (i := 5) rfl) rfl .waiting
    |>.meanwhile (.of_turn (i := 5) rfl) rfl .waiting
    |>.meanwhile (.of_turn (i := 5) rfl) rfl .waiting
  have hgranted := hrenamed.granted rfl rfl rfl
  have hsecured := secured_of_locked hgranted
  have hlater : Relation.ReflTransGen (Step Sample.service) dinnerLocked dinnerKept :=
    Relation.ReflTransGen.single (.start 7 Sample.client 0 (.deleteUser 2 2) rfl)
      |>.tail (.of_turn (i := 7) rfl) |>.tail (.of_turn (i := 7) rfl)
      |>.tail (.of_turn (i := 7) rfl) |>.tail (.of_turn (i := 7) rfl)
  have hopen : dinnerKept.Open _ := ⟨6, _, _, rfl, rfl, rfl⟩
  refine ⟨_, _, hgranted, by decide +kernel, hsecured, hopen, by decide +kernel, ?_⟩
  exact (hsecured.2.kept _ hlater hopen).2.1

end System

end SharedLedger
