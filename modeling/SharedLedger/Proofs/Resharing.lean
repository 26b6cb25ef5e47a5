import SharedLedger.Proofs.Driven
import SharedLedger.Proofs.Success

/-!
# The shares of an expense, written as a whole

The shares of an expense are created where there are none, replaced, or taken away,
always all of them at once. Whichever it is (`Resharing`), a success leaves exactly
the shares that were proposed, in their order, says how many there were before, and
touches no other row (`Resharing.Writes`, `System.resharing_exact`).

A success is the commit of a plan that was carried out on a base of the committed
tables. Where shares are put in, expense and group are locked, so the plan has seen
the expense and its shares as they are. Where they are only taken away the group is
not locked; if it was deleted meanwhile, nothing was left to be done.
-/

namespace SharedLedger

open Tables Plan

/-- What was proposed as this share. -/
def Share.draft (s : Share) : ShareDraft := ⟨s.owedBy, s.fraction, s.amount⟩

/-- A way to write the shares of an expense. -/
inductive Resharing where
  | create (ss : List ShareDraft)
  | replace (ss : List ShareDraft)
  | clear
  deriving DecidableEq

namespace Resharing

/-- The action that does it. -/
def action (id : Int) : Resharing → Action
  | create ss => .createShares id ss
  | replace ss => .replaceShares id ss
  | clear => .clearShares id

/-- The shares that are proposed. -/
def drafts : Resharing → List ShareDraft
  | create ss => ss
  | replace ss => ss
  | clear => []

/-- The plan of the transaction that does it. -/
def plan (id : Int) : (m : Resharing) → Plan (m.action id).Reply
  | create ss => Expense.sharing id ss
  | replace ss => Expense.resharing id ss
  | clear => Expense.unsharing id

/-- What the answer says of the shares that went and those that came. -/
def written (id : Int) : (m : Resharing) → (m.action id).Reply → SharesReplaced
  | create _, w => w
  | replace _, w => w
  | clear, n => ⟨n, []⟩

/-- **Exactly what was proposed is written.** The shares of the expense `id` are those
that came, the answer tells how many there were before, and all other rows are what
they were. -/
structure Writes (m : Resharing) (id : Int) (t t' : Tables) (w : SharesReplaced) : Prop where
  listed : t'.sharesOf id = w.created
  drafts_eq : w.created.map Share.draft = m.drafts
  amount_eq : ∃ e, t.expenses.find? id = some e ∧ ∀ s ∈ w.created, s.expenseAmount = e.amount
  deleted_eq : w.deleted = (t.sharesOf id).length
  unshared : ∀ ss, m = .create ss → t.sharesOf id = []
  gone : ∀ s ∈ t.sharesOf id, t'.shares.contains s.id = false
  others : ∀ s, s.expenseId ≠ id → (s ∈ t'.shares.toList ↔ s ∈ t.shares.toList)
  users_eq : t'.users = t.users
  groups_eq : t'.groups = t.groups
  members_eq : t'.members = t.members
  expenses_eq : t'.expenses = t.expenses

variable {m : Resharing} {id : Int} {t t' T T' V : Tables} {ids : Stream' Int}
  {e : SharedLedger.Expense} {ss : List ShareDraft}

/-! ## What is put in and what is taken out -/

/-- **The old shares out and the new ones in.** -/
theorem writes_of_replay (hid : e.id = id) (he : t.expenses.find? id = some e) (hf : Fresh ids t)
    (hm : ∀ ss, m = .create ss → t.sharesOf id = [])
    (ht : t.replay (Expense.resharingJournal t e ids m.drafts) = .ok t') :
    m.Writes id t t' ⟨(t.sharesOf id).length, Expense.shareRows e ids m.drafts⟩ := by
  subst hid
  rw [Expense.replay_resharingJournal ht]
  let p : Share → Bool := fun s => s.expenseId == e.id
  have hshares : (putShares (t.dropShares p) (Expense.shareRows e ids m.drafts)).shares =
      t.shares.replaceWith p (Expense.shareRows e ids m.drafts) := rfl
  -- the new rows have new ids, in ascending order
  have hrow : ∀ s ∈ Expense.shareRows e ids m.drafts,
      s.expenseId = e.id ∧ s.expenseAmount = e.amount ∧ t.shares.contains s.id = false := by
    intro s hs
    obtain ⟨d, -, n, rfl⟩ := Expense.mem_shareRows hs
    exact ⟨rfl, rfl, hf.unused n .shares⟩
  have hnew := fun s hs => (hrow s hs).2.2
  have hasc : (Expense.shareRows e ids m.drafts).Pairwise fun a b => a.id < b.id :=
    Expense.ascending_shareRows hf.ascending
  refine
  { listed := Index.filter_replaceWith hnew hasc fun s hs => beq_iff_eq.2 (hrow s hs).1
    drafts_eq := (Expense.map_shareRows fun _ _ => rfl).trans (List.map_id _)
    amount_eq := ⟨e, he, fun s hs => (hrow s hs).2.1⟩
    deleted_eq := rfl
    unshared := hm
    gone := fun s hs => ?_
    others := fun s hs => ?_
    users_eq := rfl, groups_eq := rfl, members_eq := rfl, expenses_eq := rfl }
  · obtain ⟨hs, hse⟩ := mem_sharesOf.1 hs
    exact Index.contains_replaceWith_eq_false hnew hasc hs (beq_iff_eq.2 hse)
  · rw [hshares, Index.mem_replaceWith hnew hasc]
    exact ⟨fun h => h.elim (fun hr => absurd (hrow s hr).1 hs) And.left,
      fun h => .inr ⟨h, beq_eq_false_iff_ne.2 hs⟩⟩

/-- Under the locks of the expense and its group the journal is what it would be now. -/
theorem resharingJournal_eq {locked : List RowKey} (hb : Base locked V T)
    (he : V.expenses.find? e.id = some e) (hl : ∀ key ∈ Expense.keys e, key ∈ locked) :
    T.expenses.find? e.id = some e ∧ T.sharesOf e.id = V.sharesOf e.id ∧
      Expense.resharingJournal T e ids ss = Expense.resharingJournal V e ids ss := by
  obtain ⟨he', hshares⟩ := hb.expense_kept he (hl _ (Expense.mem_keys_expense e))
    (hl _ (Expense.mem_keys_group e))
  refine ⟨he', hshares, ?_⟩
  simp only [Expense.resharingJournal, deletionOfShares, hshares]

/-- **With the expense and its group locked**, what the plan meant to write is what
is written to the tables it is committed to. -/
theorem writes_of_locked {locked : List RowKey} (hb : Base locked V T)
    (he : V.expenses.find? id = some e) (hl : ∀ key ∈ Expense.keys e, key ∈ locked)
    (hf : Fresh ids T) (hm : ∀ ss, m = .create ss → V.sharesOf id = [])
    (hr : T.replay (Expense.resharingJournal V e ids m.drafts) = .ok T') :
    m.Writes id T T' ⟨(V.sharesOf id).length, Expense.shareRows e ids m.drafts⟩ := by
  obtain rfl : e.id = id := Index.key_of_find? he
  obtain ⟨he', hshares, hj⟩ := resharingJournal_eq hb he hl
  rw [← hj] at hr
  rw [← hshares] at hm ⊢
  exact writes_of_replay rfl he' hf hm hr

/-- Nothing to be put in is a journal that only deletes. -/
theorem resharingJournal_nil (t : Tables) (e : SharedLedger.Expense) (ids : Stream' Int) :
    Expense.resharingJournal t e ids [] = t.deletionOfShares e.id := List.append_nil _

/-- **A plan that was committed has written what was proposed**, or its expense was
deleted before and nothing was left to be taken away. -/
theorem writes_of_committed {o : Outcome (m.action id).Reply} (hT : T.Consistent)
    (h : (m.plan id).Committed V T T' ids o) :
    m.Writes id T T' (m.written id o.answer) ∨
      m = .clear ∧ V.expenses.contains id = true ∧ T.expenses.contains id = false ∧ T' = T := by
  obtain ⟨hb, -, hf, halone, hr⟩ := h
  cases m with
  | create ss =>
    obtain ⟨e, he, -, hnone, -, t', -, rfl⟩ := Expense.alone_sharing.1 halone
    obtain rfl : e.id = id := Index.key_of_find? he
    exact .inl (writes_of_locked (m := .create ss) hb he (fun _ hk => hk) hf (fun _ _ => hnone) hr)
  | replace ss =>
    obtain ⟨e, he, -, -, t', -, rfl⟩ := Expense.alone_resharing.1 halone
    obtain rfl : e.id = id := Index.key_of_find? he
    exact .inl (writes_of_locked (m := .replace ss) hb he (fun _ hk => hk) hf
      (fun _ h => (by cases h)) hr)
  | clear =>
    obtain ⟨hin, rfl⟩ := Expense.alone_unsharing.1 halone
    have hkept : ExpenseKept V T id := hb.kept ⟨.expenses, id⟩ (List.mem_singleton_self _)
    -- the group may be gone, as it is not locked, and the expense with it
    rcases hkept with ⟨hrow, hshares⟩ | ⟨hnone, -⟩
    · obtain ⟨e, he⟩ := Index.contains_eq_true_iff.1 hin
      obtain rfl : e.id = id := Index.key_of_find? he
      have hj : Expense.resharingJournal T e ids [] = V.deletionOfShares e.id := by
        rw [resharingJournal_nil]
        simp only [deletionOfShares, hshares]
      have hw := writes_of_replay (m := .clear) rfl (hrow.trans he) hf (fun _ h => (by cases h))
        (hj ▸ hr)
      rw [hshares] at hw
      exact .inl hw
    · refine .inr ⟨rfl, hin, hnone, ?_⟩
      have hreplay : T.replay (V.deletionOfShares id) = .ok T' := hr
      rw [(Expense.replay_of_gone hb hT hnone).1] at hreplay
      exact (Except.ok.inj hreplay).symm

end Resharing

/-! ## Listing -/

/-- Whoever is linked to the group and is served gets this list of the shares of an
expense. -/
def Store.Lists (s : Store) (service : Service) (id : Int) (shares : List Share) : Prop :=
  ∀ (client : Client) (now : Nat) (reader : Int), s.Serves client →
    Access.permit s.tables reader (.expense id) = .ok () →
    ∃ s', (service.operation now (.act reader (.listShares id))).run client s =
      (s', some (.ok shares))

/-- **The shares of an expense are listed as they are stored.** -/
theorem Store.lists_sharesOf (s : Store) (service : Service) (id : Int) :
    s.Lists service id (s.tables.sharesOf id) := by
  intro client now reader hs hp
  obtain ⟨s₁, hs₁, hauthorize⟩ :=
    Access.drive_authorize_bind (α := List Share) hs reader (.expense id)
  rw [hp] at hauthorize
  obtain ⟨s₂, -, hlist⟩ := Operation.run_single
    (readOnly_ask (c := .listShares id) fun _ _ => ⟨_, rfl⟩) hs₁.serves
  refine ⟨s₂, ?_⟩
  have hrun : (service.operation now (.act reader (.listShares id))).run client s =
      (Operation.single (ask (.listShares id))).run client s₁ := by
    unfold Operation.run
    exact congrArg (fun x : Store × Run (List Share) => (x.1, x.2.result?))
      (hauthorize fun _ => Operation.single (ask (.listShares id)))
  have hread : (ask (.listShares id)).read s₁.tables = .ok (s.tables.sharesOf id) := by
    rw [hs₁.tables_eq]
    rfl
  rw [hrun, hlist, hread]

/-! ## Commands -/

theorem Resharing.endsIn (m : Resharing) (service : Service) (now : Nat) (caller id : Int) :
    (service.operation now (.act caller (m.action id))).EndsIn (m.plan id) := by
  cases m <;> exact Operation.endsIn_ofCheck_bind fun _ =>
    Operation.endsIn_authorize_bind fun _ => Operation.endsIn_single _

namespace System

variable {service : Service} {sys : System}

/-- **The shares of an expense are written as a whole.** Whatever has happened before:
if somebody succeeds in creating, replacing or clearing the shares of an expense and
nobody else takes a step meanwhile, the shares are exactly those proposed, and are
listed so, and nothing else has changed. If others do take steps, the same holds of
the step with which the command succeeds, except where the expense that was to be
cleared was deleted before this step, which then changes nothing. -/
theorem resharing_exact (h : Reachable service sys) (client : Client) (now : Nat) (caller id : Int)
    (m : Resharing) :
    (∀ {js s' a}, Run.Execution client sys.store
        (.outside (service.operation now (.act caller (m.action id)))) js s'
          (.outside (.done (.ok a))) →
      m.Writes id sys.store.tables s'.tables (m.written id a) ∧
        s'.Lists service id (m.written id a).created) ∧
    ∀ {i run opened drawn s' a},
      sys.sessions i = some ⟨client, now, .act caller (m.action id), run, opened, drawn⟩ →
      run.result? = none → run.step client sys.store = (s', .outside (.done (.ok a))) →
      (m.Writes id sys.store.tables s'.tables (m.written id a) ∧
        s'.Lists service id (m.written id a).created) ∨
      m = .clear ∧ sys.store.tables.expenses.contains id = false ∧
        s'.tables = sys.store.tables := by
  have hsound := h.sound
  have hop := m.endsIn service now caller id
  have lists {s' : Store} {w : SharesReplaced} (hw : m.Writes id sys.store.tables s'.tables w) :
      s'.Lists service id w.created := hw.listed ▸ s'.lists_sharesOf service id
  constructor
  · intro js s' a he
    obtain ⟨V, ids, o, hc, rfl, htables⟩ := h.committed_of_execution hop he
    rcases Resharing.writes_of_committed hsound.consistent hc with hw | ⟨rfl, hin, hgone, hsame⟩
    · exact ⟨hw, lists hw⟩
    · -- alone, the plan has seen the expense in the tables it was committed to
      obtain ⟨-, rfl⟩ := Expense.alone_unsharing.1 hc.alone
      have htaken : (V.dropShares fun s => s.expenseId == id) = sys.store.tables :=
        htables.trans hsame
      rw [← htaken] at hgone
      cases hgone.symm.trans hin
  · intro i run opened drawn s' a hx hopen hstep
    obtain ⟨V, ids, o, hc, rfl, -⟩ :=
      hsound.committed_of_turn hx hop hopen (Run.step_turn hstep)
    rcases Resharing.writes_of_committed hsound.consistent hc with hw | ⟨hm, -, hgone, hsame⟩
    · exact .inl ⟨hw, lists hw⟩
    · exact .inr ⟨hm, hgone, hsame⟩

end System

namespace Sample

/-- The shares of the dinner, the other way round. -/
def swapped : Resharing := .replace (dinner.shares.getD []).reverse

/-- Bea is about to clear the shares of the dinner, and Ada, who wants to replace
them, waits for her. -/
def clearing : System :=
  ((trip.given service 5 client (.act 2 (.clearShares 6))).given service 6 client
    (.act 1 (swapped.action 6))).turns (.replicate 8 5 ++ .replicate 8 6 ++ [5])

theorem reachable_clearing : System.Reachable service clearing :=
  ((reachable_trip.given 5 _ _).given 6 _ _).turns _

end Sample

namespace System

/-- Ada replaces the shares while nobody else does anything, and Bea clears them while
Ada waits. -/
theorem resharing_exact_dinner :
    (∃ (s' : Store) (w : SharesReplaced),
      Sample.swapped.Writes 6 Sample.trip.store.tables s'.tables w ∧
      s'.Lists Sample.service 6 w.created) ∧
    ∃ (s' : Store) (n : Nat),
      Resharing.clear.Writes 6 Sample.clearing.store.tables s'.tables ⟨n, []⟩ ∧
      s'.Lists Sample.service 6 [] := by
  constructor
  · have hok : ((Sample.service.operation 0 (.act 1 (Sample.swapped.action 6))).run Sample.client
        Sample.trip.store).2.any Except.isOk = true := by decide +kernel
    obtain ⟨_ | w, hr, hw⟩ := (Option.any_eq_true ..).1 hok
    · cases hw
    · obtain ⟨js, he⟩ := Operation.reaches_run hr
      exact ⟨_, w, (resharing_exact Sample.reachable_trip Sample.client 0 1 6 Sample.swapped).1 he⟩
  · have hsession : (Sample.clearing.sessions 5).any (fun x =>
        x.client = Sample.client ∧ x.now = 0 ∧ x.command = .act 2 (.clearShares 6) ∧
          x.run.result?.isNone ∧
          (x.run.step x.client Sample.clearing.store).2.result?.any Except.isOk = true) = true := by
      decide +kernel
    obtain ⟨⟨client, now, c, run, opened, drawn⟩, hx, hcond⟩ := (Option.any_eq_true ..).1 hsession
    obtain ⟨rfl, rfl, rfl, hopen, hok⟩ := of_decide_eq_true hcond
    obtain ⟨_ | n, hr, hn⟩ := (Option.any_eq_true ..).1 hok
    · cases hn
    · have hstep : run.step Sample.client Sample.clearing.store = (_, .outside (.done (.ok n))) :=
        Prod.ext rfl (Run.result?_eq_some_iff.1 hr)
      rcases (resharing_exact Sample.reachable_clearing Sample.client 0 2 6 .clear).2 hx
        (Option.isNone_iff_eq_none.1 hopen) hstep with h | ⟨-, hgone, -⟩
      · exact ⟨_, n, h⟩
      · have hin : Sample.clearing.store.tables.expenses.contains 6 = true := by decide +kernel
        cases hgone.symm.trans hin

end System

end SharedLedger
