import SharedLedger.Proofs.Isolation

/-!
# Where a success comes from

An operation whose every success is that of one plan `EndsIn` that plan: some
questions come first, and then a single transaction. If it succeeds, its last step
has committed this transaction, and the answer is what the plan came to alone on a
base of the tables it is committed to (`System.Sound.committed_of_turn`). Where
nobody else took a step meanwhile, these are the tables the operation began on, and
they become what the plan has left (`System.Reachable.committed_of_execution`). An
operation that asks no questions before its transaction (`Once`) has its result
right after it.
-/

namespace SharedLedger

open Tables
open scoped Stream'

/-! ## One plan in the end -/

namespace Operation

variable {α : Type} {plan : Plan α} {op op' : Operation α}

/-- **Every success is that of the plan**: it comes last, as a single transaction. -/
inductive EndsIn (plan : Plan α) : Operation α → Prop
  | fails (e : Failure) : EndsIn plan (.done (.error e))
  | last : EndsIn plan (.transaction plan ofCheck)
  | earlier {β : Type} {body : Plan β} {next : Except LedgerError β → Operation α}
      (hn : ∀ r, (next r).EndsIn plan) : EndsIn plan (.transaction body next)

theorem endsIn_single (plan : Plan α) : (single plan).EndsIn plan := .last

theorem endsIn_ofCheck_bind {β : Type} {x : Except LedgerError β} {f : β → Operation α}
    (hf : ∀ b, (f b).EndsIn plan) : ((ofCheck x).bind f).EndsIn plan := by
  cases x with
  | ok b => exact hf b
  | error e => exact .fails _

theorem endsIn_authorize_bind {caller : Int} {resource : Resource} {f : Unit → Operation α}
    (hf : ∀ u, (f u).EndsIn plan) : ((Access.authorize caller resource).bind f).EndsIn plan := by
  rw [Access.authorize_bind]
  exact .earlier fun _ => endsIn_ofCheck_bind fun _ => .earlier fun _ => endsIn_ofCheck_bind hf

/-- What a transaction leads to ends in the plan as well, or was the last one. -/
theorem EndsIn.next {β : Type} {body : Plan β} {next : Except LedgerError β → Operation α}
    (h : (transaction body next).EndsIn plan) (r : Except LedgerError β) :
    (next r).EndsIn plan ∨ ∃ x, next r = done x := by
  cases h with
  | last => exact .inr ⟨_, rfl⟩
  | earlier hn => exact .inl (hn r)

theorem EndsIn.leads (h : op.EndsIn plan) (hl : op.Leads op') :
    op'.EndsIn plan ∨ ∃ r, op' = .done r := by
  induction hl with
  | start => exact .inl h
  | overflow => exact .inr ⟨_, rfl⟩
  | next _ r ih =>
    rcases ih with ih | ⟨_, hdone⟩
    · exact ih.next r
    · cases hdone

/-- A transaction on the way ends in the plan. -/
theorem EndsIn.transaction {β : Type} {body : Plan β} {next : Except LedgerError β → Operation α}
    (h : op.EndsIn plan) (hl : op.Leads (.transaction body next)) :
    (Operation.transaction body next).EndsIn plan := by
  rcases h.leads hl with h | ⟨_, hdone⟩
  · exact h
  · cases hdone

/-- No success follows on an error. -/
theorem EndsIn.next_error_ne {β : Type} {body : Plan β} {next : Except LedgerError β → Operation α}
    (h : (Operation.transaction body next).EndsIn plan) (e : LedgerError) (a : α) :
    next (.error e) ≠ done (.ok a) := by
  intro hdone
  cases h with
  | last => cases hdone
  | earlier hn =>
    have hnext := hn (.error e)
    rw [hdone] at hnext
    cases hnext

/-- An operation of a single transaction, which may be turned away before it. -/
inductive Once (plan : Plan α) : Operation α → Prop
  | fails (e : Failure) : Once plan (.done (.error e))
  | once : Once plan (.transaction plan ofCheck)

theorem once_ofCheck_bind {β : Type} {x : Except LedgerError β} {f : β → Operation α}
    (hf : ∀ b, x = .ok b → (f b).Once plan) : ((ofCheck x).bind f).Once plan := by
  cases x with
  | ok b => exact hf b rfl
  | error e => exact .fails _

theorem Once.endsIn (h : op.Once plan) : op.EndsIn plan := by
  cases h with
  | fails e => exact .fails e
  | once => exact .last

/-- What is left of it is the transaction itself or a result. -/
theorem Once.leads (h : op.Once plan) (hl : op.Leads op') :
    op'.Once plan ∨ ∃ r, op' = .done r := by
  induction hl with
  | start => exact .inl h
  | overflow => exact .inr ⟨_, rfl⟩
  | next _ r ih =>
    obtain ih | ⟨_, hdone⟩ := ih
    · cases ih
      exact .inr ⟨_, rfl⟩
    · cases hdone

/-- What comes after its transaction is the result. -/
theorem Once.concludes (h : op.Once plan) {β : Type} {body : Plan β}
    {next : Except LedgerError β → Operation α} (hl : op.Leads (.transaction body next)) :
    Concludes next := by
  obtain h | ⟨_, hdone⟩ := h.leads hl
  · cases h
    exact ⟨fun b => ⟨b, rfl⟩, fun e => ⟨.refused e, rfl⟩⟩
  · cases hdone

end Operation

/-! ## The last step -/

/-- **What has become of a plan** that came to `o` on the tables `V` and was committed
to the tables `T`, and made `T'` of them. -/
structure Plan.Committed {α : Type} (p : Plan α) (V T T' : Tables) (ids : Stream' Int)
    (o : Outcome α) : Prop where
  base : Base o.locked V T
  fresh_base : Fresh ids V
  fresh : Fresh ids T
  alone : p.alone V ids = .ok o
  replay : T.replay o.journal = .ok T'

namespace Run

variable {α : Type} {op : Operation α} {old : Int → Prop} {s s' s₁ : Store} {client : Client}
  {opened : Option (Σ β : Type, Plan β)} {drawn : List Int} {run run' run₁ : Run α}
  {plan : Plan α} {js : List Mutation} {T : Tables}

/-- An open transaction sees the tables `T` with what it has written itself. -/
inductive Current (T : Tables) : Run α → Prop
  | outside (op : Operation α) : Current T (.outside op)
  | inside {β : Type} {t : Txn} {plan : Plan β} {next : Except LedgerError β → Operation α}
      (hv : T.replay t.journal = .ok t.view) : Current T (.inside t plan next)
  | failing {β : Type} {t : Txn} {f : Failure} {next : Except LedgerError β → Operation α} :
      Current T (.inside t (.fail f) next)
  | waiting {β : Type} {t : Txn} {key : RowKey} {plan : Plan β}
      {next : Except LedgerError β → Operation α} (hv : T.replay t.journal = .ok t.view) :
      Current T (.waiting t key plan next)

/-- **A step that succeeds commits the plan.** -/
theorem Sound.committed_of_turn {a : α} (hop : op.EndsIn plan)
    (h : Sound op old s opened drawn run) (hopen : run.result? = none)
    (ht : Turn client s run s' run') (hrun : run' = .outside (.done (.ok a))) :
    ∃ t ls, run = .inside t (.done a) Operation.ofCheck ∧
      Plan.Stage plan old s.tables ls t drawn (.done a) ∧
      s.tables.replay t.journal = .ok s'.tables := by
  -- no other step can be the one that ends with a success
  cases ht with
  | finished => cases hopen
  | refused =>
    obtain ⟨hl⟩ | _ := h
    exact absurd (Run.outside.inj hrun) ((hop.transaction hl).next_error_ne _ a)
  | lost =>
    cases h with
    | inside _ hl _ _ =>
      exact absurd (Run.outside.inj hrun) ((hop.transaction hl).next_error_ne _ a)
  | rolledBack =>
    cases h with
    | inside _ hl _ _ | failed hl =>
      exact absurd (Run.outside.inj hrun) ((hop.transaction hl).next_error_ne _ a)
  | @committed _ t b _ _ tables hv hb =>
    have htables : s'.tables = tables := congrArg Books.tables hb
    cases h with
    | inside _ hl hs _ =>
      cases hop.transaction hl with
      | last =>
        cases hrun
        exact ⟨t, _, rfl, hs, htables ▸ hv⟩
      | earlier hn =>
        have hnext := hn (.ok b)
        rw [Run.outside.inj hrun] at hnext
        cases hnext
  | opened | overflowed | held | asked | locked | granted | still | denied | called | failed =>
    cases hrun

/-! ## Nobody else -/

/-- The steps of an operation keep its view of the tables up to date. -/
theorem Current.turn (h : run.Current s.tables) (ht : Turn client s run s' run') :
    run'.Current s.tables := by
  cases ht with
  | finished | refused | committed | lost | rolledBack | overflowed => exact .outside _
  | opened => exact .inside rfl
  | denied | failed => exact .failing
  | still => exact h
  | locked _ _ _ hv => exact .inside hv
  | granted _ hv => exact .inside hv
  | held =>
    cases h with
    | inside hv => exact .inside hv
  | asked =>
    cases h with
    | inside hv => exact .waiting hv
  | called _ hcall =>
    cases h with
    | inside hv => exact .inside (replay_append.2 ⟨_, hv, hcall⟩)

/-- Until an operation that writes last has its result, the tables stay what they
are, and it sees them. -/
theorem Execution.current (hw : op.WritesLast) (h : Execution client s (.outside op) js s₁ run₁)
    (hopen : run₁.result? = none) : s₁.tables = s.tables ∧ run₁.Current s.tables := by
  have htables : ∀ {js s₁ run₁}, Execution client s (.outside op) js s₁ run₁ →
      run₁.result? = none → s₁.tables = s.tables := by
    intro js s₁ run₁ h hopen
    cases h.accounted (.outside hw) with
    | pending ht => exact ht
    | nothing | everything => cases hopen
  refine ⟨htables h hopen, ?_⟩
  induction h with
  | start => exact .outside _
  | disturbed d _ ih => exact ih hopen
  | @step js s' run' h ih =>
    cases hres : run'.result? with
    | some r =>
      rw [result?_eq_some_iff.1 hres] at hopen
      cases hopen
    | none =>
      have ht : Turn client s' run' (run'.step client s').1 (run'.step client s').2 :=
        step_turn (Prod.eta _).symm
      rw [← htables h hres] at ih ⊢
      exact (ih hres).turn ht

/-- **A result is that of a last step**, if it was not there before. -/
theorem Execution.exists_last {r : Except Failure α}
    (h : Execution client s run js s' (.outside (.done r))) :
    run = .outside (.done r) ∨ ∃ js₁ s₁ run₁, Execution client s run js₁ s₁ run₁ ∧
      run₁.result? = none ∧ (run₁.step client s₁).2 = .outside (.done r) ∧
      s'.tables = (run₁.step client s₁).1.tables := by
  generalize hrun : outside (.done r) = run' at h
  induction h with
  | start => exact .inl rfl
  | disturbed d _ ih =>
    rcases ih hrun with hsame | ⟨js₁, s₁, run₁, h₁, hopen, hstep, htables⟩
    · exact .inl hsame
    · exact .inr ⟨js₁, s₁, run₁, h₁, hopen, hstep,
        (Store.tables_disturb _ d).trans htables⟩
  | @step js s₁ run₁ h₁ ih =>
    cases hres : run₁.result? with
    | none => exact .inr ⟨js, s₁, run₁, h₁, hres, rfl, rfl⟩
    | some x =>
      -- nothing happens any more once the result is there
      obtain rfl := result?_eq_some_iff.1 hres
      exact ih hrun

end Run

/-! ## Side by side and alone -/

namespace System

variable {service : Service} {sys : System} {i : Nat} {x : Session}

/-- **Where a success comes from.** The step of a session that ends with a success
commits the plan its command ends in; its answer is what the plan has answered on a
base of the committed tables. -/
theorem Sound.committed_of_turn (h : Sound service sys) (hx : sys.sessions i = some x)
    {plan : Plan x.command.Reply} (hop : (service.operation x.now x.command).EndsIn plan)
    (hopen : x.run.result? = none) {s' : Store} {a : x.command.Reply}
    (ht : Run.Turn x.client sys.store x.run s' (.outside (.done (.ok a)))) :
    ∃ V ids o, plan.Committed V sys.store.tables s'.tables ids o ∧ o.answer = a ∧
      (x.run.Current sys.store.tables → o.tables = s'.tables) := by
  have hs := h.session i x hx
  obtain ⟨t, ls, hrun, hstage, hv⟩ := hs.run.committed_of_turn hop hopen ht rfl
  obtain ⟨V, hf, halone⟩ := hstage.concluded
  refine ⟨V, _, _, ⟨hf.base, h.fresh hx hf.known, h.fresh hx h.known, halone _, hv⟩, rfl,
    fun hc => ?_⟩
  rw [hrun] at hc
  cases hc with
  | inside hview => exact Except.ok.inj (hview.symm.trans hv)

/-- **A command that takes its steps alone** and succeeds has committed the plan it
ends in to the tables it began on, and left what the plan has made of its base. -/
theorem Reachable.committed_of_execution (h : Reachable service sys) {client : Client} {now : Nat}
    {c : Command} {plan : Plan c.Reply} (hop : (service.operation now c).EndsIn plan)
    {js : List Mutation} {s' : Store} {a : c.Reply}
    (he : Run.Execution client sys.store (.outside (service.operation now c)) js s'
      (.outside (.done (.ok a)))) :
    ∃ V ids o, plan.Committed V sys.store.tables s'.tables ids o ∧ o.answer = a ∧
      o.tables = s'.tables := by
  rcases he.exists_last with hsame | ⟨js₁, s₁, run₁, he₁, hopen, hlast, htables⟩
  · rw [Run.outside.inj hsame] at hop
    cases hop
  · obtain ⟨ht₁, hcurrent⟩ := he₁.current (service.writesLast_operation now c) hopen
    obtain ⟨n, hn⟩ := h.exists_free
    obtain ⟨opened, drawn, hreach⟩ :=
      Reachable.execution he₁ (h.step (.start n client now c (hn n le_rfl)))
    have ht : Run.Turn client s₁ run₁ (run₁.step client s₁).1 (.outside (.done (.ok a))) := by
      rw [← hlast]
      exact Run.step_turn (Prod.eta _).symm
    obtain ⟨V, ids, o, hcommitted, ha, hview⟩ :=
      hreach.sound.committed_of_turn (set_sessions_self ..) hop hopen ht
    rw [htables, ← ht₁]
    exact ⟨V, ids, o, hcommitted, ha, hview (ht₁ ▸ hcurrent)⟩

end System

end SharedLedger
