import SharedLedger.Proofs.Driven
import SharedLedger.Proofs.Waiting

/-!
# In one go or step by step

An expense can be written together with its shares, in one transaction. The same
can be done step by step, by commands that are authorized and committed one after
the other: without shares first, and then the shares for what is there
(`Service.createInSteps`, `Service.changeInSteps`). If nobody comes in between, this
makes no difference (`System.at_once_amountsTo_steps`): the last step finds the
expense as the one transaction has it before it writes the shares, and is free to
write them, as there are none left.
-/

namespace SharedLedger

open Failure (ofCheck)
open Tables Plan

variable {t : Tables} {ids : Stream' Int}

theorem Tables.dropShares_dropShares (t : Tables) (p : Share → Bool) :
    (t.dropShares p).dropShares p = t.dropShares p := by
  unfold dropShares
  congr 1
  refine Index.ext ?_
  simp

/-- An expense that is there and has no shares, in a group the caller is linked
in. -/
structure Tables.Bare (t : Tables) (caller id : Int) (e : Expense) : Prop where
  found : t.expenses.find? id = some e
  group : t.groups.contains e.groupId = true
  linked : ∃ m ∈ t.membersOf e.groupId, m.userId = some caller
  unshared : t.sharesOf id = []

/-! ## What the plans come to -/

namespace Expense

variable {e : SharedLedger.Expense} {ss : List ShareDraft}

/-- Shares are checked, the old ones are taken away and the new ones put in. -/
theorem result_writeShares :
    (writeShares e ss).result t ids =
      (Sharing.validate e.groupId e.amount (t.membersOf e.groupId) ss).bind fun _ =>
        ((insertShares e ss).result (t.dropShares fun s => s.expenseId == e.id) ids).map fun x =>
          (⟨(t.sharesOf e.id).length, x.1⟩, x.2) := by
  have hread : (writeShares e ss).result t ids =
      (Sharing.validate e.groupId e.amount (t.membersOf e.groupId) ss).bind fun _ =>
        ((ask (.deleteShares e.id)).bind fun deleted => (insertShares e ss).bind fun created =>
          .done ⟨deleted, created⟩).result t ids := by
    unfold writeShares
    rw [bind_eq, result_bind, (readOnly_ask fun _ _ => ⟨_, rfl⟩).result_eq]
    change ((ofExcept (Sharing.validate e.groupId e.amount (t.membersOf e.groupId) ss)).bind
      _).result t ids = _
    rw [result_bind, (readOnly_ofExcept _).result_eq, read_ofExcept]
    cases Sharing.validate e.groupId e.amount (t.membersOf e.groupId) ss <;> rfl
  have hdelete : (ask (.deleteShares e.id)).result t ids =
      .ok ((t.sharesOf e.id).length, t.dropShares fun s => s.expenseId == e.id, ids) := by
    unfold ask
    rw [result_call]
    change (ofCheck (t.replay (t.deletionOfShares e.id))).bind _ = _
    rw [replay_deletionOfShares]
    rfl
  rw [hread, result_bind, hdelete]
  congr 1
  funext _
  simp only [Except.bind, result_bind]
  cases (insertShares e ss).result (t.dropShares fun s => s.expenseId == e.id) ids <;> rfl

/-- An expense is answered with the shares that are written for it. -/
def withShares (e : SharedLedger.Expense) (ss : List ShareDraft) : Plan SharedExpense :=
  (writeShares e ss).bind fun w => .done ⟨e, w.created⟩

/-- What becomes of an expense when its shares are written depends on the members
of its group, and on nothing of the shares that it had. -/
theorem result_withShares_congr {t' : Tables} (hm : t'.membersOf e.groupId = t.membersOf e.groupId)
    (hd : (t'.dropShares fun s => s.expenseId == e.id) = t.dropShares fun s => s.expenseId == e.id) :
    (withShares e ss).result t' ids = (withShares e ss).result t ids := by
  unfold withShares
  rw [result_map, result_map, result_writeShares, result_writeShares, hm, hd]
  cases Sharing.validate e.groupId e.amount (t.membersOf e.groupId) ss with
  | error x => rfl
  | ok u =>
    simp only [Except.bind]
    cases (insertShares e ss).result (t.dropShares fun s => s.expenseId == e.id) ids <;> rfl

/-- Whether an expense may be created, apart from its shares. -/
def opening (t : Tables) (g : Int) (draft : ExpenseDraft) (e : SharedLedger.Expense) :
    Except Failure Unit := do
  ofCheck (t.require .groups g)
  (requirePayer g draft.paidBy).read t
  ofCheck (t.check (.put (.expense e)))

/-- A new expense is put in, and then its shares are written. -/
theorem result_creation (g : Int) (draft : ExpenseDraft) :
    (creation g draft).result t ids =
      (opening t g draft (draft.row ids.head g)).bind fun _ =>
        (writeGiven (draft.row ids.head g) (.done ⟨draft.row ids.head g, []⟩) draft.shares).result
          (t.enact (.put (.expense (draft.row ids.head g)))) ids.tail := by
  rw [creation_eq]
  unfold hold opening
  simp only [Plan.bind]
  rw [result_lock]
  cases t.require .groups g with
  | error x => rfl
  | ok u =>
    simp only [result_bind, (readOnly_requirePayer g draft.paidBy).result_eq]
    cases (requirePayer g draft.paidBy).read t with
    | error x => rfl
    | ok u =>
      have hinsert : (ask (.insertExpense g draft)).result t ids =
          (ofCheck (t.check (.put (.expense (draft.row ids.head g))))).bind fun _ =>
            .ok (draft.row ids.head g, t.enact (.put (.expense (draft.row ids.head g))), ids.tail) :=
        result_write rfl
      simp only [Except.bind, Except.map, hinsert, ofCheck]
      cases t.check (.put (.expense (draft.row ids.head g))) <;> rfl

/-- A new expense with shares. -/
theorem result_creation_some {g : Int} {draft : ExpenseDraft} (hshares : draft.shares = some ss) :
    (creation g draft).result t ids =
      (opening t g draft (draft.row ids.head g)).bind fun _ =>
        (withShares (draft.row ids.head g) ss).result
          (t.enact (.put (.expense (draft.row ids.head g)))) ids.tail := by
  rw [result_creation, hshares]
  rfl

/-- A new expense without shares. -/
theorem result_creation_none (g : Int) (draft : ExpenseDraft) :
    (creation g { draft with shares := none }).result t ids =
      (opening t g draft (draft.row ids.head g)).bind fun _ =>
        .ok (⟨draft.row ids.head g, []⟩, t.enact (.put (.expense (draft.row ids.head g))),
          ids.tail) :=
  result_creation g _

/-- An expense that is there is locked with its group. -/
theorem result_locked {id : Int} (he : t.expenses.find? id = some e)
    (hg : t.groups.contains e.groupId = true) : (locked id).result t ids = .ok (e, t, ids) := by
  have h : ((locked id).bind .done).alone t ids = .ok _ :=
    alone_locked.2 ⟨e, he, hg, _, rfl, rfl⟩
  rw [bind_done] at h
  exact result_of_alone h

/-- Whether an expense may be changed, apart from its shares. -/
def altering (t : Tables) (e : SharedLedger.Expense) (u : ExpenseUpdate) : Except Failure Unit := do
  (requireNewPayer e u).read t
  ofCheck (t.check (.put (.expense (changed e u))))

/-- Whether somebody may be the payer has nothing to do with shares. -/
theorem read_requirePayer_dropShares (p : Share → Bool) (g m : Int) :
    (requirePayer g m).read (t.dropShares p) = (requirePayer g m).read t := by
  unfold requirePayer
  rw [bind_eq, read_bind, read_bind]
  change Except.bind (.ok (t.members.find? m)) _ = Except.bind (.ok (t.members.find? m)) _
  cases t.members.find? m with
  | none => rfl
  | some r =>
    by_cases hg : r.groupId = g
    · simp only [Except.bind, hg, if_true]
      rfl
    · simp only [Except.bind, hg, if_false]
      rfl

/-- Whether an expense may be changed has nothing to do with shares. -/
theorem altering_dropShares (p : Share → Bool) (e : SharedLedger.Expense) (u : ExpenseUpdate) :
    altering (t.dropShares p) e u = altering t e u := by
  have hpayer : (requireNewPayer e u).read (t.dropShares p) = (requireNewPayer e u).read t := by
    unfold requireNewPayer
    cases u.paidBy with
    | none => rfl
    | some m => exact read_requirePayer_dropShares ..
  unfold altering
  rw [hpayer]
  rfl

/-- An expense is changed where it leaves no shares behind, and then its shares are
written. -/
theorem result_change {id : Int} {u : ExpenseUpdate} (he : t.expenses.find? id = some e)
    (hg : t.groups.contains e.groupId = true)
    (hfree : leavesSharesBehind e u = true → t.sharesOf id = []) :
    (change id u).result t ids = (altering t e u).bind fun _ =>
      (writeGiven (changed e u) ((ask (.listShares id)).bind fun ss => .done ⟨changed e u, ss⟩)
        u.shares).result (t.enact (.put (.expense (changed e u)))) ids := by
  have hid : e.id = id := Index.key_of_find? he
  have hnone : (requireNoShares e u id).result t ids = .ok ((), t, ids) := by
    have h : ((requireNoShares e u id).bind .done).alone t ids = .ok _ :=
      alone_requireNoShares.2 ⟨hfree, rfl⟩
    rw [bind_done] at h
    exact result_of_alone h
  have hupdate : (ask (.updateExpense (changed e u))).result t ids =
      (ofCheck (t.check (.put (.expense (changed e u))))).bind fun _ =>
        .ok (changed e u, t.enact (.put (.expense (changed e u))), ids) := by
    refine result_write (require_bind_eq_ok.2 ⟨?_, rfl⟩)
    exact Index.contains_eq_true_iff.2 ⟨e, hid ▸ he⟩
  rw [change_eq, result_bind, result_locked he hg]
  simp only [Except.bind, result_bind, hnone,
    (readOnly_requireNewPayer e u).result_eq, altering]
  cases (requireNewPayer e u).read t with
  | error x => rfl
  | ok u' =>
    simp only [Except.map, hupdate, ofCheck]
    cases t.check (.put (.expense (changed e u))) <;> rfl

/-- A change with shares. -/
theorem result_change_some {id : Int} {u : ExpenseUpdate} (he : t.expenses.find? id = some e)
    (hg : t.groups.contains e.groupId = true) (hshares : u.shares = some ss) :
    (change id u).result t ids = (altering t e u).bind fun _ =>
      (withShares (changed e u) ss).result (t.enact (.put (.expense (changed e u)))) ids := by
  have hfree : leavesSharesBehind e u = true → t.sharesOf id = [] := by
    simp [leavesSharesBehind, hshares]
  rw [result_change he hg hfree, hshares]
  rfl

variable {caller id : Int}

/-- A change of an expense that has no shares. -/
theorem result_change_none (h : t.Bare caller id e) (u : ExpenseUpdate) :
    (change id { u with shares := none }).result t ids = (altering t e u).bind fun _ =>
      .ok (⟨changed e u, []⟩, t.enact (.put (.expense (changed e u))), ids) := by
  have halter : altering t e { u with shares := none } = altering t e u := by
    obtain ⟨_, _, _, _, _, paidBy, _⟩ := u
    cases paidBy <;> rfl
  rw [result_change h.found h.group fun _ => h.unshared, halter, ← h.unshared]
  rfl

/-- An expense without shares is given some. -/
theorem result_sharing (h : t.Bare caller id e) :
    (sharing id ss).result t ids = (writeShares e ss).result t ids := by
  obtain rfl : e.id = id := Index.key_of_find? h.found
  have hlist : (ask (.listShares e.id)).result t ids = .ok (t.sharesOf e.id, t, ids) := rfl
  unfold sharing
  rw [bind_eq, result_bind, result_locked h.found h.group]
  simp only [Except.bind, bind_eq, result_bind, hlist, h.unshared, List.isEmpty_nil, if_true]

theorem result_unsharing (hin : t.expenses.contains id = true) :
    (unsharing id).result t ids =
      .ok ((t.sharesOf id).length, t.dropShares fun s => s.expenseId == id, ids) :=
  result_of_alone (alone_unsharing.2 ⟨hin, rfl⟩)

end Expense

/-! ## Two ways to the same -/

/-- Two ways from the store `s` come to the same: to the same result, and to the
same tables where it is a success. Where it is not, the first way has changed
nothing. -/
structure Store.Agree {α : Type} (s s₁ s₂ : Store) (r₁ r₂ : Except Failure α) : Prop where
  result_eq : r₁ = r₂
  tables_eq : ∀ a, r₁ = .ok a → s₁.tables = s₂.tables
  unchanged : ∀ e, r₁ = .error e → s₁.tables = s.tables

/-- **An operation amounts to the steps of another one**: if neither is kept
waiting for somebody else, they come to the same, and neither is where nobody has
asked for locks. -/
structure Operation.AmountsTo {α : Type} (whole steps : Operation α) (client : Client) (s : Store) :
    Prop where
  agree : ∀ s₁ s₂ r₁ r₂, whole.run client s = (s₁, some r₁) → steps.run client s = (s₂, some r₂) →
    s.Agree s₁ s₂ r₁ r₂
  answered : s.lockQueue = [] →
    (∃ s₁ r₁, whole.run client s = (s₁, some r₁)) ∧ ∃ s₂ r₂, steps.run client s = (s₂, some r₂)

section Agreement

variable {α : Type} {client : Client} {s s₁ s₂ s₃ : Store}

theorem Operation.amountsTo {whole steps : Operation α} (h : s.Ready client)
    (hagree : ∀ s₁ s₂ r₁ r₂, whole.run client s = (s₁, some r₁) →
      steps.run client s = (s₂, some r₂) → s.Agree s₁ s₂ r₁ r₂) :
    whole.AmountsTo steps client s where
  agree := hagree
  answered hq := ⟨exists_run_of_idle h hq whole, exists_run_of_idle h hq steps⟩

/-- If the first of them succeeds, so does the other. -/
theorem Operation.AmountsTo.of_isOk {whole steps : Operation α} (h : whole.AmountsTo steps client s)
    (hq : s.lockQueue = []) (hok : ((whole.run client s).2.any Except.isOk) = true) :
    ∃ s₁ s₂ a, whole.run client s = (s₁, some (.ok a)) ∧ steps.run client s = (s₂, some (.ok a)) ∧
      s₁.tables = s₂.tables := by
  obtain ⟨⟨s₁, r₁, h₁⟩, s₂, r₂, h₂⟩ := h.answered hq
  obtain ⟨rfl, htables, -⟩ := h.agree s₁ s₂ r₁ r₂ h₁ h₂
  rw [h₁] at hok
  cases r₁ with
  | error e => cases hok
  | ok a => exact ⟨s₁, s₂, a, h₁, h₂, htables a rfl⟩

/-- Both fail with the same, and the first has changed nothing. -/
theorem Store.agree_error {e : Failure} (h : s₁.tables = s.tables) :
    s.Agree s₁ s₂ (.error e : Except Failure α) (.error e) :=
  ⟨rfl, nofun, fun _ _ => h⟩

/-- The last step decides, where the transaction comes to the same as the plan of
that step. -/
theorem Plan.Leaves.agree {whole last : Plan α} (hl : whole.Leaves client s s₁)
    (hl' : last.Leaves client s₃ s₂)
    (hsame : whole.result s.tables (idsFrom s.nextId) =
      last.result s₃.tables (idsFrom s₃.nextId)) :
    s.Agree s₁ s₂ ((whole.result s.tables (idsFrom s.nextId)).map Prod.fst)
      ((last.result s₃.tables (idsFrom s₃.nextId)).map Prod.fst) := by
  cases hlast : last.result s₃.tables (idsFrom s₃.nextId) with
  | error e =>
    rw [hlast] at hsame
    rw [hsame]
    exact Store.agree_error (hl.of_error e hsame)
  | ok x =>
    rw [hlast] at hsame
    rw [hsame]
    refine ⟨rfl, fun _ _ => ?_, nofun⟩
    rw [(hl.of_ok _ _ _ hsame).1, (hl'.of_ok _ _ _ hlast).1]

/-- The first step that fails decides, where the transaction fails with the same. -/
theorem Plan.Leaves.agree_of_error {whole : Plan α} {e : Failure} (hl : whole.Leaves client s s₁)
    (he : whole.result s.tables (idsFrom s.nextId) = .error e) :
    s.Agree s₁ s₂ ((whole.result s.tables (idsFrom s.nextId)).map Prod.fst) (.error e) := by
  rw [he]
  exact Store.agree_error (hl.of_error e he)

end Agreement

/-! ## At once and in steps -/

namespace Service

open Expense

/-- An expense is created without shares, and is given its shares then. -/
def createInSteps (service : Service) (now : Nat) (caller groupId : Int) (draft : ExpenseDraft)
    (shares : List ShareDraft) : Operation SharedExpense := do
  let e ← service.operation now (.act caller (.createExpense groupId { draft with shares := none }))
  let w ← service.operation now (.act caller (.createShares e.expense.id shares))
  return ⟨e.expense, w.created⟩

/-- The shares of an expense are taken away, it is changed, and is given its new
shares then. -/
def changeInSteps (service : Service) (now : Nat) (caller expenseId : Int) (u : ExpenseUpdate)
    (shares : List ShareDraft) : Operation SharedExpense := do
  let _ ← service.operation now (.act caller (.clearShares expenseId))
  let e ← service.operation now (.act caller (.updateExpense expenseId { u with shares := none }))
  let w ← service.operation now (.act caller (.createShares expenseId shares))
  return ⟨e.expense, w.created⟩

variable {service : Service} {now : Nat} {client : Client} {s s₁ s₂ s₃ s₄ : Store}
  {caller id : Int} {e : SharedLedger.Expense} {ss : List ShareDraft}
  {r : Except Failure SharedExpense}

/-- The last step writes the shares of an expense that has none. -/
theorem of_run_lastStep (h : s.Ready client) (hb : s.tables.Bare caller id e)
    (hrun : (((Action.createShares id ss).on caller).bind fun w =>
      .done (.ok (⟨e, w.created⟩ : SharedExpense))).run client s = (s₁, some r)) :
    (withShares e ss).Leaves client s s₁ ∧
      r = ((withShares e ss).result s.tables (idsFrom s.nextId)).map Prod.fst := by
  obtain ⟨r₁, hstep, rfl⟩ := Operation.of_run_map hrun
  obtain ⟨hl, rfl⟩ := Action.of_run_on (a := .createShares id ss) rfl h
    (Access.permit_expense hb.found hb.linked) hstep
  have hwith : (withShares e ss).result s.tables (idsFrom s.nextId) =
      ((sharing id ss).result s.tables (idsFrom s.nextId)).map fun x =>
        (⟨e, x.1.created⟩, x.2) := by
    rw [result_sharing hb]
    exact result_map _ _
  refine ⟨hl.of_map (f := fun w => ⟨e, w.created⟩) hwith, ?_⟩
  rw [hwith]
  cases (sharing id ss).result s.tables (idsFrom s.nextId) <;> rfl

/-- **What comes after a step that writes an expense without shares.** The step and
the transaction begin with the same check `x`. If it is passed, the step leaves the
expense bare, and the shares are written as the transaction does. -/
theorem agree_of_step {whole step : Plan SharedExpense} {x : Except Failure Unit} {t₁ t₃ : Tables}
    (hl : whole.Leaves client s s₁) (hl' : step.Leaves client s₃ s₄)
    (hwhole : whole.result s.tables (idsFrom s.nextId) =
      x.bind fun _ => (withShares e ss).result t₁ ids)
    (hstep : step.result s₃.tables (idsFrom s₃.nextId) = x.bind fun _ => .ok (⟨e, []⟩, t₃, ids))
    (hb : t₃.Bare caller id e)
    (hsame : (withShares e ss).result t₃ ids = (withShares e ss).result t₁ ids)
    (hfail : ∀ y, x = .error y → r = .error y)
    (hrest : x = .ok () → (((Action.createShares id ss).on caller).bind fun w =>
      .done (.ok (⟨e, w.created⟩ : SharedExpense))).run client s₄ = (s₂, some r)) :
    s.Agree s₁ s₂ ((whole.result s.tables (idsFrom s.nextId)).map Prod.fst) r := by
  cases x with
  | error y =>
    rw [hfail y rfl]
    exact hl.agree_of_error hwhole
  | ok u =>
    obtain ⟨rfl, rfl⟩ := hl'.of_ok _ _ _ hstep
    obtain ⟨hl₂, rfl⟩ := of_run_lastStep hl'.ready hb (hrest rfl)
    exact hl.agree hl₂ (hwhole.trans hsame.symm)

/-- **Creating an expense with its shares amounts to creating it and then its
shares.** -/
theorem createExpense_amountsTo {g : Int} {draft : ExpenseDraft} (h : s.Ready client)
    (hc : s.tables.Consistent) (hnew : s.tables.expenses.contains s.nextId = false)
    (hlinked : ∃ m ∈ s.tables.membersOf g, m.userId = some caller)
    (hshares : draft.shares = some ss) :
    (service.operation now (.act caller (.createExpense g draft))).AmountsTo
      (service.createInSteps now caller g draft ss) client s := by
  refine Operation.amountsTo h fun s₁ s₂ r₁ r₂ hwhole hsteps => ?_
  have hg : s.tables.groups.contains g = true := hc.contains_of_linked hlinked
  have hpermit := Access.permit_eq_ok hg hlinked
  obtain ⟨s₃, r₃, hfirst, hrest⟩ := Operation.of_run_bind hsteps
  have hw := Action.of_run_on (a := .createExpense g draft) rfl h hpermit hwhole
  have hf := Action.of_run_on (a := .createExpense g { draft with shares := none }) rfl h hpermit
    hfirst
  have hcheck : (Action.createExpense g { draft with shares := none }).checkFirst =
      (Action.createExpense g draft).checkFirst := rfl
  rw [hcheck] at hf
  cases hargs : (Action.createExpense g draft).checkFirst with
  | error x =>
    rw [hargs] at hw hf
    obtain ⟨rfl, rfl⟩ := hw
    obtain ⟨rfl, rfl⟩ := hf
    obtain ⟨-, rfl⟩ := hrest
    exact Store.agree_error rfl
  | ok _ =>
    rw [hargs] at hw hf
    obtain ⟨hl, rfl⟩ := hw
    obtain ⟨hl₃, rfl⟩ := hf
    let e := draft.row (idsFrom s.nextId).head g
    have hid : e.id = s.nextId := Int.add_zero _
    have hb : (s.tables.enact (.put (.expense e))).Bare caller e.id e :=
      ⟨Index.find?_put_self .., hg, hlinked, hc.sharesOf_eq_nil (hid ▸ hnew)⟩
    have hstep : (creation g { draft with shares := none }).result s.tables (idsFrom s.nextId) = _ :=
      result_creation_none g draft
    refine agree_of_step hl hl₃ (result_creation_some hshares) hstep hb rfl
      (fun y hx => ?_) fun hx => ?_
    · rw [hstep, hx] at hrest
      exact hrest.2
    · rw [hstep, hx] at hrest
      exact hrest

/-- **Changing an expense with its shares amounts to taking its shares away,
changing it, and giving it the new ones.** -/
theorem updateExpense_amountsTo {u : ExpenseUpdate} (h : s.Ready client) (hc : s.tables.Consistent)
    (he : s.tables.expenses.find? id = some e)
    (hlinked : ∃ m ∈ s.tables.membersOf e.groupId, m.userId = some caller)
    (hshares : u.shares = some ss) :
    (service.operation now (.act caller (.updateExpense id u))).AmountsTo
      (service.changeInSteps now caller id u ss) client s := by
  refine Operation.amountsTo h fun s₁ s₂ r₁ r₂ hwhole hsteps => ?_
  obtain rfl : e.id = id := Index.key_of_find? he
  have hg : s.tables.groups.contains e.groupId = true := hc.expense_group e (Index.mem_of_find? he)
  have hpermit := Access.permit_expense he hlinked
  have hw := Action.of_run_on (a := .updateExpense e.id u) rfl h hpermit hwhole
  -- the shares are taken away, which never fails
  obtain ⟨s₃, r₃, hclear, hrest⟩ := Operation.of_run_bind hsteps
  obtain ⟨hl₃, rfl⟩ := Action.of_run_on (a := .clearShares e.id) rfl h hpermit hclear
  have hcleared : (unsharing e.id).result s.tables (idsFrom s.nextId) = _ :=
    result_unsharing (Index.contains_of_mem (Index.mem_of_find? he))
  rw [hcleared] at hrest
  obtain ⟨ht₃, hn₃⟩ := hl₃.of_ok _ _ _ hcleared
  have hb₃ : s₃.tables.Bare caller e.id e := by
    rw [ht₃]
    exact ⟨he, hg, hlinked, sharesOf_dropShares_self ..⟩
  obtain ⟨s₄, r₄, hupdate, hrest⟩ := Operation.of_run_bind hrest
  have hf := Action.of_run_on (a := .updateExpense e.id { u with shares := none }) rfl hl₃.ready
    (Access.permit_expense hb₃.found hb₃.linked) hupdate
  have hcheck : (Action.updateExpense e.id { u with shares := none }).checkFirst =
      (Action.updateExpense e.id u).checkFirst := rfl
  rw [hcheck] at hf
  cases hargs : (Action.updateExpense e.id u).checkFirst with
  | error x =>
    rw [hargs] at hw hf
    obtain ⟨rfl, rfl⟩ := hw
    obtain ⟨rfl, rfl⟩ := hf
    obtain ⟨-, rfl⟩ := hrest
    exact Store.agree_error rfl
  | ok _ =>
    rw [hargs] at hw hf
    obtain ⟨hl, rfl⟩ := hw
    obtain ⟨hl₄, rfl⟩ := hf
    let e' := changed e u
    have halter : altering s₃.tables e u = altering s.tables e u := by
      rw [ht₃]
      exact altering_dropShares ..
    have hstep : (change e.id { u with shares := none }).result s₃.tables (idsFrom s.nextId) = _ :=
      result_change_none hb₃ u
    rw [halter] at hstep
    have hb : (s₃.tables.enact (.put (.expense e'))).Bare caller e.id e' :=
      ⟨Index.find?_put_self .., hb₃.group, hb₃.linked, hb₃.unshared⟩
    refine agree_of_step hl hl₄ (result_change_some he hg hshares) (hn₃ ▸ hstep) hb ?_
      (fun y hx => ?_) fun hx => ?_
    · rw [ht₃]
      refine result_withShares_congr rfl ?_
      exact congrArg (fun T => Tables.enact T (.put (.expense e'))) (dropShares_dropShares ..)
    · rw [hn₃, hstep, hx] at hrest
      exact hrest.2
    · rw [hn₃, hstep, hx] at hrest
      exact hrest

end Service

namespace System

variable {service : Service} {sys : System} {client : Client}

/-- **At once or in steps, it is the same.** Whatever has happened before, for
everybody who is linked to a member of the group an expense with shares may be
written in one transaction or in steps that are commands of their own: both
succeed, with the same result and the same tables, or both fail, the transaction
with what the first step to fail says, and without having changed anything. If no
transaction is open, there is nobody to wait for. -/
theorem at_once_amountsTo_steps (h : Reachable service sys) (hserves : sys.store.Serves client)
    (hinserts : sys.store.failingInsert = none) (now : Nat) (caller : Int) :
    (∀ g draft ss, (∃ m ∈ sys.store.tables.membersOf g, m.userId = some caller) →
      draft.shares = some ss →
      (service.operation now (.act caller (.createExpense g draft))).AmountsTo
        (service.createInSteps now caller g draft ss) client sys.store) ∧
    (∀ id e u ss, sys.store.tables.expenses.find? id = some e →
      (∃ m ∈ sys.store.tables.membersOf e.groupId, m.userId = some caller) →
      u.shares = some ss →
      (service.operation now (.act caller (.updateExpense id u))).AmountsTo
        (service.changeInSteps now caller id u ss) client sys.store) ∧
    ((∀ X, ¬ sys.Open X) → sys.store.lockQueue = []) := by
  have hready : sys.store.Ready client := ⟨hserves, hinserts, h.sound.request_lt⟩
  have hnew : sys.store.tables.expenses.contains sys.store.nextId = false := by
    rw [Bool.eq_false_iff]
    exact fun hin => lt_irrefl _ (h.sound.known .expenses _ hin).1
  exact ⟨fun _ _ _ hlinked hshares => Service.createExpense_amountsTo hready h.sound.consistent hnew
      hlinked hshares,
    fun _ _ _ _ he hlinked hshares => Service.updateExpense_amountsTo hready h.sound.consistent he
      hlinked hshares,
    h.queued.lockQueue_eq_nil⟩

end System

namespace Sample

/-- The dinner was ten more than was written down, and Bea paid for it. -/
def dearer : ExpenseUpdate where
  name := none
  date := none
  amount := some (cents 4000 (by decide))
  category := none
  note := none
  paidBy := some 5
  shares := some [half 4 (cents 2000 (by decide)), half 5 (cents 2000 (by decide))]

end Sample

namespace System

/-- Ada writes a second dinner down, and changes the first one. -/
theorem at_once_amountsTo_steps_dinner :
    (∃ s₁ s₂ a, (Sample.service.operation 0 (.act 1 (.createExpense 3 Sample.dinner))).run
        Sample.client Sample.trip.store = (s₁, some (.ok a)) ∧
      (Sample.service.createInSteps 0 1 3 Sample.dinner (Sample.dinner.shares.getD [])).run
        Sample.client Sample.trip.store = (s₂, some (.ok a)) ∧ s₁.tables = s₂.tables) ∧
    (∃ s₁ s₂ a, (Sample.service.operation 0 (.act 1 (.updateExpense 6 Sample.dearer))).run
        Sample.client Sample.trip.store = (s₁, some (.ok a)) ∧
      (Sample.service.changeInSteps 0 1 6 Sample.dearer (Sample.dearer.shares.getD [])).run
        Sample.client Sample.trip.store = (s₂, some (.ok a)) ∧ s₁.tables = s₂.tables) := by
  have hserves : Sample.trip.store.Serves Sample.client := ⟨rfl, nofun⟩
  obtain ⟨hcreate, hchange, -⟩ :=
    at_once_amountsTo_steps Sample.reachable_trip hserves (by decide +kernel) 0 1
  have hidle : Sample.trip.store.lockQueue = [] := by decide +kernel
  refine ⟨(hcreate 3 Sample.dinner _ (by decide +kernel) rfl).of_isOk hidle (by decide +kernel), ?_⟩
  obtain ⟨e, he⟩ : ∃ e, Sample.trip.store.tables.expenses.find? 6 = some e :=
    Index.contains_eq_true_iff.1 (by decide +kernel)
  have hlinked : ∀ e ∈ Sample.trip.store.tables.expenses.find? 6,
      ∃ m ∈ Sample.trip.store.tables.membersOf e.groupId, m.userId = some 1 := by decide +kernel
  exact (hchange 6 e Sample.dearer _ he (hlinked e he) rfl).of_isOk hidle (by decide +kernel)

end System

end SharedLedger
