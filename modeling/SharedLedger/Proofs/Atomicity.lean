import SharedLedger.Ledger.Command
import SharedLedger.Proofs.ReadOnly
import SharedLedger.Proofs.Turn

/-!
# All or nothing

A command that does not succeed leaves the committed tables as they were,
wherever it was stopped, and one that succeeds has committed all it wrote
(`operation_all_or_nothing`). A command may consist of several transactions,
so this rests on the order they come in: all but the last only ask questions,
and the result of the command is that of its last transaction
(`Operation.WritesLast`). Within one transaction it is the store that takes
a journal over as a whole or not at all.
-/

namespace SharedLedger

/-! ## The order of the transactions -/

namespace Operation

variable {α β : Type}

/-- Whether what comes after a transaction is its result and nothing more. -/
def Concludes (next : Except LedgerError β → Operation α) : Prop :=
  (∀ b, ∃ a, next (.ok b) = .done (.ok a)) ∧ ∀ e, ∃ f, next (.error e) = .done (.error f)

/-- **Whoever writes comes last**: a transaction that may write is the last
one, and its result is that of the operation. -/
inductive WritesLast : Operation α → Prop
  | done (r : Except Failure α) : WritesLast (.done r)
  | asks {β : Type} {body : Plan β} {next : Except LedgerError β → Operation α}
      (hb : body.ReadOnly) (hn : ∀ r, (next r).WritesLast) : WritesLast (.transaction body next)
  | writes {β : Type} {body : Plan β} {next : Except LedgerError β → Operation α}
      (hc : Concludes next) : WritesLast (.transaction body next)

theorem writesLast_single (body : Plan α) : (single body).WritesLast :=
  .writes ⟨fun b => ⟨b, rfl⟩, fun e => ⟨.refused e, rfl⟩⟩

theorem writesLast_ofCheck_bind {x : Except LedgerError β} {f : β → Operation α}
    (hf : ∀ b, (f b).WritesLast) : (ofCheck x >>= f).WritesLast := by
  cases x with
  | ok b => exact hf b
  | error e => exact .done _

/-- A question may come first. -/
theorem writesLast_asks_bind {γ : Type} {body : Plan β} {check : Except LedgerError β → Except LedgerError γ}
    {f : γ → Operation α} (hb : body.ReadOnly) (hf : ∀ c, (f c).WritesLast) :
    (transaction body (fun r => ofCheck (check r)) >>= f).WritesLast :=
  .asks hb fun _ => writesLast_ofCheck_bind hf

theorem writesLast_single_bind {body : Plan β} {f : β → Operation α} (hb : body.ReadOnly)
    (hf : ∀ b, (f b).WritesLast) : (single body >>= f).WritesLast :=
  .asks hb fun _ => writesLast_ofCheck_bind hf

end Operation

theorem Access.writesLast_authorize_bind {α : Type} {caller : Int} {resource : Resource}
    {f : Unit → Operation α} (hf : ∀ u, (f u).WritesLast) :
    (authorize caller resource >>= f).WritesLast := by
  unfold authorize
  -- authorization is two transactions, and both only ask
  rw [bind_assoc]
  refine Operation.writesLast_single_bind (readOnly_owningGroup resource) fun groupId => ?_
  exact Operation.writesLast_asks_bind (readOnly_isMember groupId caller) hf

open Operation in
theorem Action.writesLast_operation (a : Action) : a.operation.WritesLast := by
  cases a with
  | addMember id m => exact writesLast_ofCheck_bind fun _ => writesLast_single _
  | replaceMembers id ms => exact writesLast_ofCheck_bind fun _ => writesLast_single _
  | updateMember id u => exact writesLast_ofCheck_bind fun _ => writesLast_single _
  | groupBalances id =>
    refine writesLast_single_bind (Statement.readOnly_pairsAndNets id) fun x => ?_
    cases h : Settlement.settle x.2 <;> (simp only [h]; exact .done _)
  | _ => exact writesLast_single _

open Operation in
/-- Every command writes in its last transaction, if at all. -/
theorem Service.writesLast_operation (service : Service) (now : Nat) (c : Command) :
    (service.operation now c).WritesLast := by
  cases c with
  | register r =>
    exact writesLast_ofCheck_bind fun _ => writesLast_ofCheck_bind fun _ => writesLast_single _
  | authenticate login =>
    refine writesLast_single_bind (Plan.readOnly_ask fun _ _ => ⟨_, rfl⟩) fun u => ?_
    cases u with
    | none => exact .done _
    | some u =>
      refine writesLast_ofCheck_bind fun b => ?_
      cases b <;> exact .done _
  | refresh token =>
    refine writesLast_ofCheck_bind fun _ => writesLast_ofCheck_bind fun id => ?_
    exact .asks (Plan.readOnly_user id) fun _ => .done _
  | getUser caller userId => exact writesLast_ofCheck_bind fun _ => writesLast_single _
  | updateUser caller userId u =>
    exact writesLast_ofCheck_bind fun _ => writesLast_ofCheck_bind fun _ =>
      writesLast_ofCheck_bind fun _ => writesLast_single _
  | deleteUser caller userId => exact writesLast_ofCheck_bind fun _ => writesLast_single _
  | createGroup caller draft => exact writesLast_ofCheck_bind fun _ => writesLast_single _
  | listGroups caller => exact writesLast_single _
  | myBalances caller => exact writesLast_single _
  | myExpenses caller => exact writesLast_single _
  | myShares caller => exact writesLast_single _
  | act caller a =>
    exact writesLast_ofCheck_bind fun _ =>
      Access.writesLast_authorize_bind fun _ => a.writesLast_operation

/-! ## One command, and what may come in between -/

/-- What may happen to a store at any time: a client goes away, or a fault is
set up. -/
inductive Disturbance where
  | cancel (token : String)
  | failInsert (table : Table)
  | arm (fault : ArmedFault)
  deriving DecidableEq, Repr

/-- The store after a disturbance. -/
def Store.disturb (s : Store) : Disturbance → Store
  | .cancel token => s.cancel token
  | .failInsert table => { s with failingInsert := some table }
  | .arm fault => { s with fault := some fault }

theorem Store.books_disturb (s : Store) (d : Disturbance) : (s.disturb d).books = s.books := by
  cases d <;> rfl

theorem Store.tables_disturb (s : Store) (d : Disturbance) : (s.disturb d).tables = s.tables :=
  congrArg Books.tables (s.books_disturb d)

namespace Run

variable {α : Type}

/-- The journal that the next step submits to be committed. -/
def submitted : Run α → List Mutation
  | inside t (.done _) _ => t.journal
  | _ => []

/-- An operation that takes its steps alone, with any disturbances before,
between and after them: from a store and a run to those it got to, and the
journals submitted on the way. -/
inductive Execution (client : Client) (s : Store) (run : Run α) : List Mutation → Store → Run α → Prop
  | start : Execution client s run [] s run
  | step {js : List Mutation} {s' : Store} {run' : Run α} (h : Execution client s run js s' run') :
      Execution client s run (js ++ run'.submitted) (run'.step client s').1 (run'.step client s').2
  | disturbed {js : List Mutation} {s' : Store} {run' : Run α} (d : Disturbance)
      (h : Execution client s run js s' run') : Execution client s run js (s'.disturb d) run'

/-- What is left of a plan may write only if nothing comes after it, and has
written only then. -/
inductive WritesLast : Run α → Prop
  | outside {op : Operation α} (h : op.WritesLast) : WritesLast (.outside op)
  | asks {β : Type} {t : Txn} {plan : Plan β} {next : Except LedgerError β → Operation α}
      (hj : t.journal = []) (hb : plan.ReadOnly) (hn : ∀ r, (next r).WritesLast) :
      WritesLast (.inside t plan next)
  | writes {β : Type} {t : Txn} {plan : Plan β} {next : Except LedgerError β → Operation α}
      (hc : Operation.Concludes next) : WritesLast (.inside t plan next)
  | fails {β : Type} {t : Txn} {f : Failure} {next : Except LedgerError β → Operation α}
      (hn : ∀ r, (next r).WritesLast) : WritesLast (.inside t (.fail f) next)
  | writesLater {β : Type} {t : Txn} {key : RowKey} {plan : Plan β}
      {next : Except LedgerError β → Operation α} (hc : Operation.Concludes next) :
      WritesLast (.waiting t key plan next)

/-- What an operation has done to the books of a store: nothing so far, nothing
at all, or everything it submitted. -/
inductive Accounted (s : Store) : List Mutation → Store → Run α → Prop
  | pending {s' : Store} {run : Run α} (ht : s'.tables = s.tables)
      (hc : s'.committed = s.committed) (hw : run.WritesLast) : Accounted s [] s' run
  | nothing {js : List Mutation} {s' : Store} {f : Failure} (ht : s'.tables = s.tables)
      (hc : s'.committed = s.committed) : Accounted s js s' (.outside (.done (.error f)))
  | everything {js : List Mutation} {s' : Store} {a : α} (ht : s.tables.replay js = .ok s'.tables)
      (hc : s'.committed = s.committed + js.length) : Accounted s js s' (.outside (.done (.ok a)))

variable {client : Client} {s s' s₁ s₂ : Store} {js : List Mutation} {run run' : Run α}

/-- An operation that has its result does nothing any more. -/
theorem submitted_outside (op : Operation α) : (outside op).submitted = [] := rfl

/-- Where a transaction was the last one, its failure is the result. -/
theorem writesLast_of_concludes {β : Type} {next : Except LedgerError β → Operation α}
    (h : Operation.Concludes next) (e : LedgerError) : (outside (next (.error e))).WritesLast := by
  obtain ⟨f, hf⟩ := h.2 e
  rw [hf]
  exact .outside (.done _)

/-- **Whoever writes comes last, all along**: no step leaves a writing transaction
behind that something comes after. -/
theorem WritesLast.turn (hw : run.WritesLast) (h : Turn client s run s' run') :
    run'.WritesLast := by
  cases h with
  | finished => exact hw
  | still => exact hw
  | overflowed => exact .outside (.done _)
  | refused =>
    obtain ⟨h⟩ | _ := hw
    cases h with
    | asks _ hn => exact .outside (hn _)
    | writes hcl => exact writesLast_of_concludes hcl _
  | opened =>
    obtain ⟨h⟩ | _ := hw
    cases h with
    | asks hr hn => exact .asks rfl hr hn
    | writes hcl => exact .writes hcl
  | @committed _ t a =>
    cases hw with
    | asks _ _ hn => exact .outside (hn _)
    | writes hcl =>
      obtain ⟨b, hb⟩ := hcl.1 a
      rw [hb]
      exact .outside (.done _)
  | lost =>
    cases hw with
    | asks _ _ hn => exact .outside (hn _)
    | writes hcl => exact writesLast_of_concludes hcl _
  | rolledBack =>
    cases hw with
    | asks _ _ hn => exact .outside (hn _)
    | fails hn => exact .outside (hn _)
    | writes hcl => exact writesLast_of_concludes hcl _
  | held =>
    cases hw with
    | asks _ hr _ => cases hr
    | writes hcl => exact .writes hcl
  | asked =>
    cases hw with
    | asks _ hr _ => cases hr
    | writes hcl => exact .writesLater hcl
  | locked =>
    cases hw with
    | asks _ hr _ => cases hr
    | writes hcl => exact .writes hcl
  | granted =>
    cases hw with
    | writesLater hcl => exact .writes hcl
  | denied hrun =>
    rcases hrun with rfl | rfl
    · cases hw with
      | asks _ _ hn => exact .fails hn
      | writes hcl => exact .writes hcl
    · cases hw with
      | writesLater hcl => exact .writes hcl
  | called he =>
    cases hw with
    | asks hj hr hn =>
      cases hr with
      | call hr hp =>
        have hms := hr _ _ _ _ he
        refine .asks ?_ (hp _) hn
        rw [hj, hms]
        rfl
    | writes hcl => exact .writes hcl
  | failed =>
    cases hw with
    | asks _ _ hn => exact .fails hn
    | writes hcl => exact .writes hcl

/-- Only a run that is about to commit submits something. -/
theorem exists_of_submitted_ne_nil (h : run.submitted ≠ []) :
    ∃ (β : Type) (t : Txn) (a : β) (next : Except LedgerError β → Operation α),
      run = inside t (.done a) next := by
  cases run with
  | inside t plan next =>
    cases plan with
    | done a => exact ⟨_, t, a, next, rfl⟩
    | fail | lock | call => exact absurd rfl h
  | outside | waiting => exact absurd rfl h

/-- A step before the last commit leaves the books alone, and the last commit
takes everything over. -/
theorem accounted_of_pending (ht : s₁.tables = s.tables) (hc : s₁.committed = s.committed)
    (hw : run.WritesLast) (h : Turn client s₁ run s₂ run') :
    Accounted s run.submitted s₂ run' := by
  have hw' : run'.WritesLast := hw.turn h
  rcases h.tables_eq_or with ⟨ht', hc'⟩ | ⟨β, t, a, next, rfl, rfl, hv, hc'⟩
  · by_cases hj : run.submitted = []
    · rw [hj]
      exact .pending (ht'.trans ht) (hc'.trans hc) hw'
    · -- a journal was submitted and refused: nothing of it is in the tables
      obtain ⟨β, t, a, next, rfl⟩ := exists_of_submitted_ne_nil hj
      cases hw with
      | asks hj' _ _ => exact absurd hj' hj
      | writes hcl =>
        cases h with
        | committed _ hb =>
          have hcount : s₂.committed = s₁.committed + t.journal.length := congrArg Books.committed hb
          have hlen : t.journal.length = 0 := by omega
          exact absurd (List.length_eq_zero_iff.1 hlen) hj
        | @lost _ _ _ _ _ e =>
          obtain ⟨f, hf⟩ := hcl.2 e
          rw [hf]
          exact .nothing (ht'.trans ht) (hc'.trans hc)
        | denied hrun =>
          rcases hrun with hrun | hrun <;> cases hrun
  · cases hw with
    | asks hj _ _ =>
      -- a transaction that only asked commits an empty journal
      rw [hj] at hv hc'
      have htables : s₂.tables = s₁.tables := (Except.ok.inj hv).symm
      change Accounted s t.journal s₂ _
      rw [hj]
      exact .pending (htables.trans ht) (hc'.trans hc) hw'
    | writes hcl =>
      obtain ⟨b, hb⟩ := hcl.1 a
      rw [hb]
      refine .everything ?_ ?_
      · rw [← ht]
        exact hv
      · rw [hc', hc]
        rfl

theorem Accounted.step (h : Accounted s js s₁ run) :
    Accounted s (js ++ run.submitted) (run.step client s₁).1 (run.step client s₁).2 := by
  cases h with
  | pending ht hc hw =>
    rw [List.nil_append]
    exact accounted_of_pending ht hc hw (step_turn (Prod.eta _).symm)
  | nothing ht hc => exact .nothing ht hc
  | everything ht hc =>
    rw [submitted_outside, List.append_nil]
    exact .everything ht hc

theorem Accounted.disturb (h : Accounted s js s₁ run) (d : Disturbance) :
    Accounted s js (s₁.disturb d) run := by
  have hb := s₁.books_disturb d
  have ht : (s₁.disturb d).tables = s₁.tables := congrArg Books.tables hb
  have hc : (s₁.disturb d).committed = s₁.committed := congrArg Books.committed hb
  cases h with
  | pending ht' hc' hw => exact .pending (ht.trans ht') (hc.trans hc') hw
  | nothing ht' hc' => exact .nothing (ht.trans ht') (hc.trans hc')
  | everything ht' hc' => exact .everything (ht ▸ ht') (hc.trans hc')

/-- What was submitted on the way is accounted for at every point of it. -/
theorem Execution.accounted (hw : run.WritesLast) (h : Execution client s run js s₁ run') :
    Accounted s js s₁ run' := by
  induction h with
  | start => exact .pending rfl rfl hw
  | step _ ih => exact ih.step
  | disturbed d _ ih => exact ih.disturb d

end Run

/-! ## All or nothing -/

open Run in
/-- **A command does all or nothing.** Whoever gives it, on whatever store, and
wherever clients go away or faults strike: if its result is not a success, the
committed tables and the number of mutations committed so far are what they
were; if it is, every journal the command submitted is in the committed tables
and the number has grown by as many mutations. -/
theorem operation_all_or_nothing (service : Service) (now : Nat) (c : Command) (client : Client)
    {s s' : Store} {js : List Mutation} {r : Except Failure c.Reply}
    (h : Execution client s (.outside (service.operation now c)) js s' (.outside (.done r))) :
    ((∀ a, r ≠ .ok a) → s'.tables = s.tables ∧ s'.committed = s.committed) ∧
    ((∃ a, r = .ok a) →
      s.tables.replay js = .ok s'.tables ∧ s'.committed = s.committed + js.length) := by
  have hacc := h.accounted (.outside (service.writesLast_operation now c))
  cases hacc with
  | pending ht hc _ =>
    refine ⟨fun _ => ⟨ht, hc⟩, fun _ => ⟨?_, hc⟩⟩
    rw [ht]
    rfl
  | nothing ht hc => exact ⟨fun _ => ⟨ht, hc⟩, fun ⟨a, ha⟩ => by cases ha⟩
  | everything ht hc => exact ⟨fun hne => absurd rfl (hne _), fun _ => ⟨ht, hc⟩⟩

/-- A store with a single account. -/
def oneAccount : Store :=
  { Store.empty with
    tables := { Tables.empty with
      users := Index.empty.put ⟨1, "Ada", "ada@example.org", .opaqueText ""⟩ }
    nextId := 2 }

open Run in
/-- Deleting that account: once undisturbed, and once by a client that goes away
just before the commit. -/
theorem account_deletion_all_or_nothing :
    (∃ s' js, Execution ⟨some "ada", false⟩ oneAccount
        (.outside (Service.operation ⟨⟨"", 0, 0⟩, 0⟩ 0 (.deleteUser 1 1))) js s'
        (.outside (.done (.ok ()))) ∧
      oneAccount.tables.replay js = .ok s'.tables ∧ s'.committed = 2) ∧
    (∃ s' js, Execution ⟨some "ada", false⟩ oneAccount
        (.outside (Service.operation ⟨⟨"", 0, 0⟩, 0⟩ 0 (.deleteUser 1 1))) js s'
        (.outside (.done (.error (.refused .cancelled)))) ∧
      s'.tables = oneAccount.tables ∧ s'.committed = 0) := by
  have before : Execution _ _ _ _ _ _ := (((@Execution.start _ ⟨some "ada", false⟩ oneAccount
    (.outside (Service.operation ⟨⟨"", 0, 0⟩, 0⟩ 0 (.deleteUser 1 1)))).step).step).step
  constructor
  · have h : Execution _ _ _ _ _ (.outside (.done (.ok ()))) := before.step
    have hall := (operation_all_or_nothing _ _ _ _ h).2 ⟨(), rfl⟩
    exact ⟨_, _, h, hall.1, hall.2⟩
  · have h : Execution _ _ _ _ _ (.outside (.done (.error (.refused .cancelled)))) :=
      (before.disturbed (.cancel "ada")).step
    have hall := (operation_all_or_nothing _ _ _ _ h).1 fun a ha => by cases ha
    exact ⟨_, _, h, hall.1, hall.2⟩

end SharedLedger
