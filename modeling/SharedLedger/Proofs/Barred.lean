import SharedLedger.Proofs.Atomicity
import SharedLedger.Proofs.Commands

/-!
# Operations that come to nothing

Some operations have no chance as long as the committed tables are of a certain
kind: whatever they are shown, they write nothing and do not succeed
(`Operation.Barred`). This does not depend on when they are shown what, so it
holds among others just as well: a run that is barred stays barred, and its
steps leave the tables alone (`Run.Turn.barred`).
-/

namespace SharedLedger

variable {α β : Type} {kind : Tables → Prop}

/-- What the plan does, begun on the given tables, is nothing but looking
around, as long as all tables are of a kind; and if it answers anything, then
what is allowed. -/
def Plan.Idle (kind : Tables → Prop) (allowed : α → Prop) : Plan α → Tables → Prop
  | .done a, _ => allowed a
  | .fail _, _ => True
  | .lock key next, _ =>
    ∀ T, kind T → T.contains key.table key.id = true → next.Idle kind allowed T
  | .call c next, T =>
    ∀ n ms r, c.effect T n = .ok (ms, r) → ms = [] ∧ (next r).Idle kind allowed T

/-- **An operation that comes to nothing** as long as all tables are of a kind,
whichever of its transactions fail. -/
def Operation.Barred (kind : Tables → Prop) : Operation α → Prop
  | .done r => ∀ a, r ≠ .ok a
  | .transaction body next =>
    (∀ e, (next (.error e)).Barred kind) ∧
      ∀ T, kind T → body.Idle kind (fun b => (next (.ok b)).Barred kind) T

/-! ## Putting them together -/

namespace Plan

variable {p : Plan α} {allowed allowed' : α → Prop} {T : Tables}

theorem Idle.mono (h : p.Idle kind allowed T) (ha : ∀ a, allowed a → allowed' a) :
    p.Idle kind allowed' T := by
  induction p generalizing T with
  | done a => exact ha a h
  | fail e => exact trivial
  | lock key next ih => exact fun T' hT' hc => ih (h T' hT' hc)
  | call c next ih => exact fun n ms r he => ⟨(h n ms r he).1, ih r (h n ms r he).2⟩

theorem ReadOnly.idle (h : p.ReadOnly) (ha : ∀ a, allowed a) : p.Idle kind allowed T := by
  induction h with
  | done a => exact ha a
  | fail e => exact trivial
  | call hc _ ih => exact fun n ms r he => ⟨hc _ _ _ _ he, ih r⟩

end Plan

namespace Operation

theorem barred_error (e : Failure) : (done (.error e) : Operation α).Barred kind :=
  fun _ h => by cases h

/-- What comes after an operation that comes to nothing does not matter. -/
theorem Barred.bind {op : Operation α} (h : op.Barred kind) (f : α → Operation β) :
    (op.bind f).Barred kind := by
  induction op with
  | done r =>
    cases r with
    | ok a => exact absurd rfl (h a)
    | error e => exact barred_error e
  | transaction body next ih =>
    exact ⟨fun e => ih _ (h.1 e), fun T hT => (h.2 T hT).mono fun b hb => ih _ hb⟩

theorem barred_ofCheck_bind {x : Except LedgerError α} {f : α → Operation β}
    (hf : ∀ a, x = .ok a → (f a).Barred kind) : ((ofCheck x).bind f).Barred kind := by
  cases x with
  | ok a => exact hf a rfl
  | error e => exact barred_error _

/-- Questions may come first. -/
theorem barred_single_bind {body : Plan α} (hb : body.ReadOnly) {f : α → Operation β}
    (hf : ∀ a, (f a).Barred kind) : ((single body).bind f).Barred kind :=
  ⟨fun _ => barred_error _, fun _ _ => hb.idle hf⟩

theorem barred_single {body : Plan α} (h : ∀ T, kind T → body.Idle kind (fun _ => False) T) :
    (single body).Barred kind :=
  ⟨fun _ => barred_error _, fun T hT => (h T hT).mono fun _ => False.elim⟩

end Operation

/-! ## On their way -/

namespace Run

/-- **A run that comes to nothing** as long as all tables are of a kind. -/
inductive Barred (kind : Tables → Prop) : Run α → Prop
  /-- Between transactions. -/
  | outside {op : Operation α} (h : op.Barred kind) : Barred kind (.outside op)
  /-- In a transaction that has only looked around. -/
  | inside {β : Type} {t : Txn} {plan : Plan β} {next : Except LedgerError β → Operation α}
      (hj : t.journal = []) (hv : kind t.view) (he : ∀ e, (next (.error e)).Barred kind)
      (hp : plan.Idle kind (fun b => (next (.ok b)).Barred kind) t.view) :
      Barred kind (.inside t plan next)
  /-- In a transaction that is to be rolled back. -/
  | failed {β : Type} {t : Txn} {e : Failure} {next : Except LedgerError β → Operation α}
      (he : ∀ e, (next (.error e)).Barred kind) : Barred kind (.inside t (.fail e) next)
  /-- Waiting for a lock. -/
  | waiting {β : Type} {t : Txn} {key : RowKey} {plan : Plan β}
      {next : Except LedgerError β → Operation α} (hj : t.journal = [])
      (he : ∀ e, (next (.error e)).Barred kind)
      (hp : ∀ T, kind T → T.contains key.table key.id = true →
        plan.Idle kind (fun b => (next (.ok b)).Barred kind) T) :
      Barred kind (.waiting t key plan next)

variable {client : Client} {s s' : Store} {run run' : Run α}

/-- Nothing comes of it. -/
theorem Barred.not_ok (h : run.Barred kind) (a : α) : run.result? ≠ some (.ok a) := by
  intro hr
  cases h with
  | @outside op h =>
    cases op with
    | done r =>
      cases hr
      exact h a rfl
    | transaction => cases hr
  | inside | failed | waiting => cases hr

/-- **A run that is barred stays barred**, and leaves the tables alone. -/
theorem Turn.barred (h : Turn client s run s' run') (hk : kind s.tables) (hb : run.Barred kind) :
    run'.Barred kind ∧ s'.tables = s.tables := by
  have tables {b : Books} (hb : s'.books = b) (ht : b.tables = s.tables) : s'.tables = s.tables :=
    (congrArg Books.tables hb).trans ht
  cases h with
  | finished | still => exact ⟨hb, rfl⟩
  | refused hs =>
    cases hb with
    | outside h => exact ⟨.outside (h.1 _), tables hs rfl⟩
  | opened hs =>
    cases hb with
    | outside h => exact ⟨.inside rfl hk h.1 (h.2 _ hk), tables hs rfl⟩
  | committed hv hs =>
    cases hb with
    | inside hj _ _ hp =>
      -- there is nothing in the journal, so nothing becomes of the tables
      rw [hj] at hv
      cases hv
      exact ⟨.outside hp, tables hs rfl⟩
  | lost hs =>
    cases hb with
    | inside _ _ he _ => exact ⟨.outside (he _), tables hs rfl⟩
  | rolledBack hs =>
    cases hb with
    | inside _ _ he _ | failed he => exact ⟨.outside (he _), tables hs rfl⟩
  | overflowed => exact ⟨.outside (Operation.barred_error _), rfl⟩
  | held hs _ hc =>
    cases hb with
    | inside hj hv he hp => exact ⟨.inside hj hv he (hp _ hv hc), tables hs rfl⟩
  | asked hs =>
    cases hb with
    | inside hj _ he hp => exact ⟨.waiting hj he hp, tables hs rfl⟩
  | locked hs _ _ hv hc =>
    cases hb with
    | inside hj _ he hp =>
      rw [hj] at hv
      cases hv
      exact ⟨.inside hj hk he (hp _ hk hc), tables hs rfl⟩
  | granted _ hv hc =>
    cases hb with
    | waiting hj he hp =>
      rw [hj] at hv
      cases hv
      exact ⟨.inside hj hk he (hp _ hk hc), rfl⟩
  | denied hrun _ _ hs =>
    rcases hrun with rfl | rfl
    · cases hb with
      | inside _ _ he _ => exact ⟨.failed he, tables hs rfl⟩
    · cases hb with
      | waiting _ he _ => exact ⟨.failed he, tables hs rfl⟩
  | called he hv hs =>
    cases hb with
    | inside hj hk' hnext hp =>
      obtain ⟨rfl, hp⟩ := hp _ _ _ he
      cases hv
      exact ⟨.inside (by simp [hj]) hk' hnext hp, tables hs rfl⟩
  | failed _ hs =>
    cases hb with
    | inside _ _ he _ => exact ⟨.failed he, hs.elim (tables · rfl) (tables · rfl)⟩

/-- An operation that is barred stays so while it takes its steps alone. -/
theorem Execution.barred {js : List Mutation} (he : Execution client s run js s' run')
    (hk : kind s.tables) (hb : run.Barred kind) : run'.Barred kind ∧ s'.tables = s.tables := by
  induction he with
  | start => exact ⟨hb, rfl⟩
  | @step _ s' run' _ ih =>
    obtain ⟨hb', htables⟩ := ih
    have hturn : Turn client s' run' (run'.step client s').1 (run'.step client s').2 :=
      step_turn (Prod.eta _).symm
    obtain ⟨hnext, hsame⟩ := hturn.barred (htables ▸ hk) hb'
    exact ⟨hnext, hsame.trans htables⟩
  | disturbed d _ ih =>
    exact ⟨ih.1, (Store.tables_disturb _ d).trans ih.2⟩

end Run

end SharedLedger
